import Nios2Ecos.SoftwareException

/- The debugger looks at a stopped program and changes its registers, and the program goes on
   with what the debugger left. -/
namespace SoftwareException
open Nios2Machine SavedRegisters

/-- HAL_SET_GDB_REGISTERS with one array after the other. -/
def setArrays (regs : Word) (arrays : List (Nat → Word)) (m : Machine) : Machine :=
  arrays.foldl (fun y regval => halSetGdbRegisters regs regval y) m

def Wrote (x b : Machine) (arrays : List (Nat → Word)) : Prop :=
  ∀ f, read (x.get r4) f b = read (x.get r4) f (setArrays (x.get r4) arrays x)

structure Handled (x b : Machine) : Prop where
  returned : b.pc = x.get ra
  registers : ∀ r, calleeSaved r → b.get r = x.get r
  status : b.ctl .status = x.ctl .status
  frame : ∃ arrays, Wrote x b arrays

section
variable {regs : Word} {regval : Nat → Word} {arrays : List (Nat → Word)} {m : Machine} {f : Field}

theorem set_target {i : Nat} (target : (f, i) ∈ gdbTargets) :
    read regs f (halSetGdbRegisters regs regval m) = regval i := by
  refine read_write (p := (f, regval i)) ?_ ?_
  · rw [List.map_map]
    exact targets_distinct
  · exact List.mem_map_of_mem target

theorem set_other (other : f ∉ gdbTargets.map Prod.fst) :
    read regs f (halSetGdbRegisters regs regval m) = read regs f m := by
  apply read_write_other
  rw [List.map_map]
  exact other

theorem sets_target {i : Nat} (last : arrays.getLast? = some regval)
    (target : (f, i) ∈ gdbTargets) : read regs f (setArrays regs arrays m) = regval i := by
  obtain ⟨before, rfl⟩ := List.getLast?_eq_some_iff.mp last
  rw [setArrays, List.foldl_append, List.foldl_cons, List.foldl_nil, set_target target]

theorem sets_other (other : f ∉ gdbTargets.map Prod.fst) :
    read regs f (setArrays regs arrays m) = read regs f m := by
  induction arrays generalizing m with
  | nil => rfl
  | cons regval arrays ih =>
    unfold setArrays at ih ⊢
    rw [List.foldl_cons, ih, set_other other]

end

section
variable (c : Config) (m : Machine)

def entered : Machine := (calling c m).link c.exceptionHandler ((program c).address restoreCode)

def resumed (b : Machine) : Machine := (execAll (loadBlock ++ [.ldw sp 128 sp]) b).eret

end

section
variable {c : Config} {m b : Machine}

theorem entered_sp : (entered c m).get sp = frame c m := by
  rw [entered, Machine.link_get _ _ _ (by decide), calling, Machine.get_set_ne _ _ (by decide),
    Machine.get_set_ne _ _ (by decide), framed_sp]

theorem entered_argument : (entered c m).get r4 = frame c m := by
  rw [entered, Machine.link_get _ _ _ (by decide), calling, Machine.get_set_self _ _ (by decide)]

theorem entered_mem : (entered c m).mem = (framed c m).mem := by
  rw [entered, Machine.link_mem, calling, Machine.set_mem, Machine.set_mem]

theorem entered_read (f : Field) :
    read (frame c m) f (entered c m) = read (frame c m) f (framed c m) := by
  rw [SavedRegisters.read, entered_mem, SavedRegisters.read]

theorem load_reading : ∀ i ∈ loadBlock, i.reading = true := by decide

theorem resumed_get (p : Reg × Field) (listed : p ∈ registerFields) :
    (resumed b).get p.1 = read (b.get sp) p.2 b := by
  obtain ⟨pointer, memory⟩ := execAll_reading (m := b) load_reading
  rw [resumed, Machine.eret_get, execAll_append, execAll_cons, execAll_nil, Instr.exec, pointer,
    memory]
  by_cases here : p.1 = sp
  · have field : ∀ p ∈ registerFields, p.1 = sp → p.2.offset = 128 := by decide
    rw [here, Machine.get_set_self _ _ (by decide), SavedRegisters.read, field p listed here]
  · obtain ⟨nonzero, restored⟩ := register_restores p listed here
    rw [Machine.get_set_ne _ _ here]
    exact restores_slot nonzero load_reading restored

theorem resumed_pc : (resumed b).pc = read (b.get sp) .pc b := by
  rw [resumed, Machine.eret_pc, execAll_append, execAll_cons, execAll_nil, Instr.exec,
    Machine.get_set_ne _ _ (by decide)]
  exact restores_slot (by decide) load_reading (by decide)

theorem resumed_status : (resumed b).ctl .status = read (b.get sp) .status b := by
  have reading : ∀ i ∈ statusLoads, i.reading = true := by decide
  rw [resumed, Machine.eret_status, execAll_append, execAll_cons, execAll_nil, Instr.exec,
    Machine.set_ctl, loadBlock, execAll_append, execAll_cons, execAll_ctl (by decide),
    Instr.exec, Machine.setCtl_same]
  exact restores_slot (by decide) reading (by decide)

theorem resumed_mem : (resumed b).mem = b.mem := by
  rw [resumed, Machine.eret_mem, execAll_append, execAll_cons, execAll_nil, Instr.exec,
    Machine.set_mem, (execAll_reading load_reading).2]

end

section
variable {c : Config} {m t b : Machine} {function : Word → Machine → Machine → Prop}
  {nested : Machine → Machine → Prop} {calls : List Call}

theorem call_placed : .call c.exceptionHandler :: restoreCode <:+ (program c).code :=
  suffix_append (saveBlock c) (save_placed c)

theorem restore_placed : restoreCode <:+ (program c).code :=
  suffix_append [_] call_placed

theorem handled_returns (handled : Handled (entered c m) b) :
    b.pc = (program c).address restoreCode := by
  rw [handled.returned, entered, Machine.link_ra]

theorem entered_pie : (entered c m).pie = m.pie := by
  rw [Machine.pie, entered, Machine.link_ctl, calling, Machine.set_ctl, Machine.set_ctl, framed_ctl,
    Machine.pie]

theorem handled_pie (disabled : m.pie = false) (handled : Handled (entered c m) b) :
    b.pie = false := by
  rw [Machine.pie, handled.status, ← Machine.pie, entered_pie, disabled]

theorem run_restore (disabled : b.pie = false) :
    Run (program c) function nested restoreCode b calls t ↔ calls = [] ∧ t = resumed b := by
  have placed := restore_placed (c := c)
  rw [restoreCode] at placed ⊢
  rw [Run.block_iff _ placed restore_quiet disabled]
  have off : (execAll (loadBlock ++ [.ldw sp 128 sp]) b).pie = false := by
    rw [pie_quiet restore_quiet, disabled]
  constructor
  · intro run
    have own := run.undisturbed (suffix_append _ placed) off
    cases own with
    | eret => exact ⟨rfl, rfl⟩
    | step flow => cases flow
    | call called => cases called
  · rintro ⟨rfl, rfl⟩
    exact .eret

/-- The handler has one run for every way that `cyg_hal_exception_handler` can return. -/
theorem handler_run (disabled : m.pie = false)
    (handled : ∀ x b, function c.exceptionHandler x b → Handled x b) :
    (∃ calls, Run (program c) function nested (handlerCode c) m calls t) ↔
      ∃ b, function c.exceptionHandler (entered c m) b ∧ t = resumed b := by
  constructor
  · rintro ⟨calls, run⟩
    have call := (run_calling disabled).mp run
    have off : (calling c m).pie = false := by
      rw [calling, Machine.pie, Machine.set_ctl, Machine.set_ctl, framed_ctl, ← Machine.pie, disabled]
    obtain ⟨b, calls', returned, -, rest⟩ := (call.undisturbed call_placed off).returned rfl
      restore_placed (fun b returned => handled_returns (handled _ b returned))
    have back := handled _ b returned
    exact ⟨b, returned, ((run_restore (handled_pie disabled back)).mp rest).2⟩
  · rintro ⟨b, returned, rfl⟩
    have back := handled _ b returned
    exact ⟨_, (run_calling disabled).mpr (Run.of_call rfl restore_placed returned
      (handled_returns back) ((run_restore (handled_pie disabled back)).mpr ⟨rfl, rfl⟩))⟩

end
/-- The array shows the program that was stopped in `m` at `pc`. -/
structure Shown (m : Machine) (pc : Word) (array : Nat → Word) : Prop where
  registers : ∀ r, visible r → array r.val = m.get r
  pc : array 32 = pc
  status : array 33 = m.ctl .status

/-- The program goes on in `t` with the registers of the array. -/
structure Resumes (m : Machine) (array : Nat → Word) (t : Machine) : Prop where
  registers : ∀ r, visible r → r ≠ 0 → t.get r = array r.val
  pc : t.pc = array 32
  status : t.ctl .status = m.ctl .status

structure Unchanged (m : Machine) (pc : Word) (t : Machine) : Prop where
  registers : ∀ r, visible r → t.get r = m.get r
  pc : t.pc = pc
  status : t.ctl .status = m.ctl .status

section
variable {c : Config} {m b : Machine} {pc v : Word} {arrays : List (Nat → Word)}
  {array : Nat → Word}

theorem entered_fields (c : Config) (m : Machine) (pc v : Word) :
    (∀ p ∈ registerFields, read (frame c (m.enter pc v)) p.2 (entered c (m.enter pc v)) = m.get p.1) ∧
    read (frame c (m.enter pc v)) .pc (entered c (m.enter pc v)) = pc ∧
    read (frame c (m.enter pc v)) .status (entered c (m.enter pc v)) = m.ctl .status := by
  obtain ⟨registers, resume, status⟩ := framed_registers (c := c) (m := m.enter pc v)
  have seen : ∀ p ∈ registerFields, visible p.1 := by decide
  refine ⟨?_, ?_, ?_⟩
  · intro p listed
    rw [entered_read, registers p listed, m.enter_get v pc (seen p listed)]
  · rw [entered_read, resume, Machine.enter_ea]
  · rw [entered_read, status, Machine.enter_estatus]

theorem entered_shown (c : Config) (m : Machine) (pc v : Word) : Shown m pc
    (halGetGdbRegisters ((entered c (m.enter pc v)).get r4) (entered c (m.enter pc v))) := by
  obtain ⟨registers, resume, status⟩ := entered_fields c m pc v
  rw [entered_argument]
  constructor
  · intro r seen
    rcases register_fields_complete r seen with rfl | ⟨p, listed, rfl⟩
    · rfl
    · rw [halGetGdbRegisters, register_sources p listed]
      exact registers p listed
  · exact resume
  · exact status

theorem handled_field (handled : Handled (entered c m) b) (wrote : Wrote (entered c m) b arrays)
    (f : Field) :
    read (b.get sp) f b = read (frame c m) f (setArrays (frame c m) arrays (entered c m)) := by
  have fields := wrote f
  rw [entered_argument] at fields
  rw [handled.registers sp (by decide), entered_sp, fields]

theorem handled_resumes (handled : Handled (entered c (m.enter pc v)) b)
    (wrote : Wrote (entered c (m.enter pc v)) b arrays) (last : arrays.getLast? = some array) :
    Resumes m array (resumed b) := by
  have field := handled_field handled wrote
  constructor
  · intro r seen nonzero
    rcases register_fields_complete r seen with rfl | ⟨p, listed, rfl⟩
    · exact absurd rfl nonzero
    · rw [resumed_get p listed, field, sets_target last (register_targets p listed)]
  · rw [resumed_pc, field, sets_target (i := 32) last (by decide)]
  · rw [resumed_status, field, sets_other (by decide), (entered_fields c m pc v).2.2]

theorem handled_unchanged (handled : Handled (entered c (m.enter pc v)) b)
    (wrote : Wrote (entered c (m.enter pc v)) b arrays)
    (same : arrays = [] ∨ arrays.getLast? = some
      (halGetGdbRegisters ((entered c (m.enter pc v)).get r4) (entered c (m.enter pc v)))) :
    Unchanged m pc (resumed b) := by
  rcases same with rfl | last
  · have field := handled_field handled wrote
    constructor
    · intro r seen
      rcases register_fields_complete r seen with rfl | ⟨p, listed, rfl⟩
      · rfl
      · rw [resumed_get p listed, field]
        exact (entered_fields c m pc v).1 p listed
    · rw [resumed_pc, field]
      exact (entered_fields c m pc v).2.1
    · rw [resumed_status, field]
      exact (entered_fields c m pc v).2.2
  · obtain ⟨registers, resume, status⟩ := handled_resumes handled wrote last
    obtain ⟨shown, shownPc, -⟩ := entered_shown c m pc v
    constructor
    · intro r seen
      by_cases zero : r = 0
      · rw [zero]
        rfl
      · rw [registers r seen zero, shown r seen]
    · rw [resume, shownPc]
    · exact status

end

structure RoundTrip (m : Machine) (pc : Word) (x b t : Machine) : Prop where
  resumes : ∀ arrays array, Wrote x b arrays → arrays.getLast? = some array → Resumes m array t
  unmodified : ∀ arrays, Wrote x b arrays →
    (arrays = [] ∨ arrays.getLast? = some (halGetGdbRegisters (x.get r4) x)) → Unchanged m pc t
  memory : t.mem = b.mem

/-- A software exception taken at `pc`, with what the debugger sees and does. -/
theorem exception_round_trip (c : Config) (function : Word → Machine → Machine → Prop)
    (nested : Machine → Machine → Prop)
    (handled : ∀ x b, function c.exceptionHandler x b → Handled x b) (m : Machine) (pc v : Word) :
    ∃ x, Shown m pc (halGetGdbRegisters (x.get r4) x) ∧
      (∀ a, a ≠ m.get sp + -4 → (∀ offset : Word, offset.toNat < 140 → a ≠ x.get r4 + offset) →
        x.mem a = m.mem a) ∧
      (∀ b, function c.exceptionHandler x b → ∃ calls t, RoundTrip m pc x b t ∧
        Run (program c) function nested (handlerCode c) (m.enter pc v) calls t) ∧
      ∀ calls t, Run (program c) function nested (handlerCode c) (m.enter pc v) calls t →
        ∃ b, function c.exceptionHandler x b ∧ RoundTrip m pc x b t := by
  have disabled : (m.enter pc v).pie = false := m.enter_pie v pc
  have trip : ∀ b, function c.exceptionHandler (entered c (m.enter pc v)) b →
      RoundTrip m pc (entered c (m.enter pc v)) b (resumed b) := by
    intro b returned
    have back := handled _ b returned
    constructor
    · intro arrays array wrote last
      exact handled_resumes back wrote last
    · intro arrays wrote same
      exact handled_unchanged back wrote same
    · exact resumed_mem
  refine ⟨entered c (m.enter pc v), entered_shown c m pc v, ?_, ?_, ?_⟩
  · intro a other outside
    rw [entered_argument] at outside
    have pointer : (m.enter pc v).get sp = m.get sp := m.enter_get v pc (by decide)
    rw [entered_mem, framed_mem (by rwa [pointer]) outside, Machine.enter_mem]
  · intro b returned
    obtain ⟨calls, run⟩ := (handler_run disabled handled).mpr ⟨b, returned, rfl⟩
    exact ⟨calls, resumed b, trip b returned, run⟩
  · intro calls t run
    obtain ⟨b, returned, rfl⟩ := (handler_run disabled handled).mp ⟨calls, run⟩
    exact ⟨b, returned, trip b returned⟩

def writeBack (edit : (Nat → Word) → Nat → Word) (x : Machine) : Machine :=
  (halSetGdbRegisters (x.get r4) (edit (halGetGdbRegisters (x.get r4) x)) x).jump (x.get ra)

theorem write_back_wrote (edit : (Nat → Word) → Nat → Word) (x : Machine) :
    Wrote x (writeBack edit x) [edit (halGetGdbRegisters (x.get r4) x)] := by
  intro f
  rw [SavedRegisters.read, writeBack, Machine.jump_mem, setArrays, List.foldl_cons,
    List.foldl_nil, SavedRegisters.read]

theorem write_back_handled (edit : (Nat → Word) → Nat → Word) (x : Machine) :
    Handled x (writeBack edit x) := by
  constructor
  · rw [writeBack, Machine.jump_pc]
  · intro r _
    rw [writeBack, Machine.jump_get, halSetGdbRegisters, write_frame.1]
  · rw [writeBack, Machine.jump_ctl, halSetGdbRegisters, write_frame.2.1]
  · exact ⟨_, write_back_wrote edit x⟩

def sampleConfig : Config where
  useInterruptStack := true
  handler := 0x1000
  globalPointer := 0x9000
  stackBase := 0x8000
  stackEnd := 0x7000
  exceptionHandler := 0x2000

def sampleMachine : Machine where
  reg r := if r = sp then 0x4000 else BitVec.ofNat 32 (0x100 + r.val)
  ctl _ := 1
  mem _ := 0
  pc := 0x5000

def stepOver (array : Nat → Word) : Nat → Word := Function.update array 32 0x5004

theorem exception_stepped_over :
    ∃ calls t, Run (program sampleConfig) (fun _ x b => b = writeBack stepOver x)
        (fun _ _ => False) (handlerCode sampleConfig) (sampleMachine.enter 0x5000 0) calls t ∧
      t.pc = 0x5004 ∧ (∀ r, visible r → t.get r = sampleMachine.get r) ∧ t.ctl .status = 1 := by
  have handled : ∀ x b : Machine, b = writeBack stepOver x → Handled x b := by
    rintro x b rfl
    exact write_back_handled stepOver x
  obtain ⟨x, shown, -, runs, -⟩ := exception_round_trip sampleConfig
    (fun _ x b => b = writeBack stepOver x) (fun _ _ => False) handled sampleMachine 0x5000 0
  obtain ⟨calls, t, trip, run⟩ := runs (writeBack stepOver x) rfl
  obtain ⟨registers, resume, status⟩ := trip.resumes _ _ (write_back_wrote stepOver x)
    List.getLast?_singleton
  refine ⟨calls, t, run, ?_, ?_, status⟩
  · rw [resume, stepOver, Function.update_self]
  · intro r seen
    by_cases zero : r = 0
    · rw [zero]
      rfl
    · rw [registers r seen zero, stepOver, Function.update_of_ne (by omega),
        shown.registers r seen]

end SoftwareException
