import Nios2Ecos.Nios2Frames
import Nios2Ecos.Nios2Run
import Nios2Ecos.SavedRegisters

/- `_software_exception_handler`, and the debugger's view of the frame it saves. -/
namespace SoftwareException
open Nios2Machine SavedRegisters

structure Config where
  /-- CYGIMP_HAL_COMMON_INTERRUPTS_USE_INTERRUPT_STACK -/
  useInterruptStack : Bool
  handler : Word
  globalPointer : Word
  stackBase : Word
  stackEnd : Word
  exceptionHandler : Word

/-- The registers are stored, r12 to r14 first to make room for the control registers. -/
def firstStores : List (Instr Unit) :=
  stores sp [(et, 128), (ra, 124), (r15, 120), (r14, 116), (r13, 112), (r12, 108)] ++
    [.rdctl r14 .ienable, .rdctl r13 .ipending]

def otherStores : List (Instr Unit) :=
  stores sp [(r11, 104), (r10, 100), (r9, 96), (r8, 92), (r7, 88), (r6, 84), (r5, 80), (r4, 76),
    (r3, 72), (r2, 68), (r1, 64), (gp, 60), (et, 56), (ea, 52), (r14, 136), (r13, 132), (r12, 48),
    (r12, 40), (r23, 36), (r22, 32), (r21, 28), (r20, 24), (r19, 20), (r18, 16), (r17, 12),
    (r16, 8), (fp, 4), (ea, 0)]

def storeBlock : List (Instr Unit) := firstStores ++ .rdctl r12 .estatus :: otherStores

def statusLoads : List (Instr Unit) :=
  loads sp [(ra, 124), (r15, 120), (r14, 116), (r13, 112), (r12, 108), (r11, 104), (r10, 100),
    (r9, 96), (r8, 92), (r7, 88), (r6, 84), (r5, 80), (r4, 76), (r3, 72), (r2, 68), (r1, 64),
    (gp, 60), (et, 40)]

def otherLoads : List (Instr Unit) :=
  loads sp [(r23, 36), (r22, 32), (r21, 28), (r20, 24), (r19, 20), (r18, 16), (r17, 12), (r16, 8),
    (fp, 4), (ea, 0)]

def loadBlock : List (Instr Unit) := statusLoads ++ .wrctl .estatus et :: otherLoads

def restoreCode : List (Instr Unit) := (loadBlock ++ [.ldw sp 128 sp]) ++ [.eret]

section
variable (c : Config)

def callBlock : List (Instr Unit) := loadAddress gp c.globalPointer ++ [.mov r4 sp]

def saveBlock : List (Instr Unit) := .addi sp sp (-140) :: (storeBlock ++ callBlock c)

def saveCode : List (Instr Unit) :=
  saveBlock c ++ (.call c.exceptionHandler :: restoreCode)

/-- r2 is kept below the stack pointer while it is used for the test. -/
def testBlock : List (Instr Unit) := .stw r2 (-4) et :: loadAddress r2 c.stackEnd

def readyCode : List (Instr Unit) := .ldw r2 (-4) et :: saveCode c

def switchCode : List (Instr Unit) :=
  if c.useInterruptStack then
    testBlock c ++ (.bgtu sp r2 () :: (loadAddress sp c.stackBase ++ readyCode c))
  else saveCode c

def handlerCode : List (Instr Unit) := .mov et sp :: switchCode c

/-- The label is the end of the switch of stacks; without one the code has no label, and any
    place will do. -/
def label : List (Instr Unit) := if c.useInterruptStack then readyCode c else saveCode c

theorem label_placed : label c <:+ handlerCode c := by
  refine List.IsSuffix.trans ?_ (List.suffix_cons _ _)
  unfold label switchCode
  split
  · refine List.IsSuffix.trans ?_ (List.suffix_append _ _)
    exact (List.suffix_append _ _).trans (List.suffix_cons _ _)
  · exact List.suffix_rfl

theorem save_placed : saveCode c <:+ handlerCode c := by
  refine List.IsSuffix.trans ?_ (label_placed c)
  unfold label
  split
  · exact List.suffix_cons _ _
  · exact List.suffix_rfl

theorem handler_length : (handlerCode c).length < 2 ^ 30 := by
  simp only [handlerCode, switchCode, testBlock, readyCode, saveCode, saveBlock, storeBlock,
    firstStores, otherStores, callBlock, restoreCode, loadBlock, statusLoads, otherLoads, stores,
    loads, loadAddress, List.length_append, List.length_cons, List.length_map, List.length_nil,
    apply_ite List.length]
  split_ifs <;> decide

def program : Program Unit where
  code := handlerCode c
  base := c.handler
  label _ := label c
  placed _ := label_placed c
  fits := handler_length c

end

/-- What `_regval_[i]` is filled with. -/
inductive Source
  | word (w : Word)
  | field (f : Field)
deriving DecidableEq

def gdbSources : List Source :=
  [.word 0] ++ (List.finRange 15).map (fun i => .field (.dLow i)) ++
    (List.finRange 8).map (fun i => .field (.dHigh i)) ++
    [.field .et, .word 0xbad, .field .gp, .field .sp, .field .fp, .field .ea, .word 0xbad,
      .field .ra, .field .pc, .field .status, .field .estatus, .word 0xbad, .field .ienable,
      .field .ipending]

/-- HAL_GET_GDB_REGISTERS: the array, by its index. -/
def halGetGdbRegisters (regs : Word) (m : Machine) (i : Nat) : Word :=
  match gdbSources[i]? with
  | some (.word w) => w
  | some (.field f) => read regs f m
  | none => 0

def gdbTargets : List (Field × Nat) :=
  (List.finRange 15).map (fun i => (.dLow i, i.val + 1)) ++
    (List.finRange 8).map (fun i => (.dHigh i, i.val + 16)) ++
    [(.gp, 26), (.sp, 27), (.fp, 28), (.ra, 31), (.pc, 32), (.regArg0, 4)]

/-- HAL_SET_GDB_REGISTERS -/
def halSetGdbRegisters (regs : Word) (regval : Nat → Word) (m : Machine) : Machine :=
  write regs (gdbTargets.map fun p => (p.1, regval p.2)) m

def registerFields : List (Reg × Field) :=
  (List.finRange 15).map (fun i => (⟨i + 1, by omega⟩, .dLow i)) ++
    (List.finRange 8).map (fun i => (⟨i + 16, by omega⟩, .dHigh i)) ++
    [(gp, .gp), (fp, .fp), (ra, .ra), (sp, .sp)]

theorem register_fields_complete : ∀ r, visible r → r = 0 ∨ ∃ p ∈ registerFields, p.1 = r := by
  decide

theorem register_sources : ∀ p ∈ registerFields, gdbSources[p.1.val]? = some (.field p.2) := by
  decide

theorem register_targets : ∀ p ∈ registerFields, (p.2, p.1.val) ∈ gdbTargets := by decide

theorem targets_distinct : (gdbTargets.map Prod.fst).Nodup := by decide

theorem register_saves : ∀ p ∈ registerFields, p.1 ≠ sp →
    saves p.1 p.2.offset storeBlock true false = true := by decide

theorem register_restores : ∀ p ∈ registerFields, p.1 ≠ sp →
    p.1 ≠ 0 ∧ restores p.1 p.2.offset loadBlock false = true := by decide


section
variable (c : Config) (m : Machine)

def tested : Machine := execAll (testBlock c) (m.set et (m.get sp))

/-- On the stack that the frame is saved on. -/
def chosen : Machine :=
  if c.stackEnd.toNat < (m.get sp).toNat then tested c m else (tested c m).set sp c.stackBase

def switched : Machine :=
  if c.useInterruptStack then (Instr.ldw (L := Unit) r2 (-4) et).exec (chosen c m)
  else m.set et (m.get sp)

def frame : Word := (switched c m).get sp + -140

def framed : Machine := execAll storeBlock ((switched c m).set sp (frame c m))

/-- The machine that calls `cyg_hal_exception_handler`. -/
def calling : Machine := ((framed c m).set gp c.globalPointer).set r4 (frame c m)

end

section
variable {c : Config} {m : Machine}

theorem tested_exec : tested c m = ((m.set et (m.get sp)).store (m.get sp + -4) (m.get r2)).set r2
    c.stackEnd := by
  simp (disch := decide) only [tested, testBlock, execAll_cons, load_address, Instr.exec,
    Machine.get_set_self, Machine.get_set_ne]

theorem chosen_get {r : Reg} (pointer : r ≠ sp) (two : r ≠ r2) :
    (chosen c m).get r = (m.set et (m.get sp)).get r := by
  have test : (tested c m).get r = (m.set et (m.get sp)).get r := by
    rw [tested_exec, Machine.get_set_ne _ _ two, Machine.store_get]
  unfold chosen
  split
  · exact test
  · rw [Machine.get_set_ne _ _ pointer, test]

theorem chosen_frame : (chosen c m).mem (m.get sp + -4) = m.get r2 ∧ (chosen c m).ctl = m.ctl := by
  unfold chosen
  rw [tested_exec]
  split
  · rw [Machine.set_mem, Machine.store_same, Machine.set_ctl, Machine.store_ctl, Machine.set_ctl]
    exact ⟨rfl, rfl⟩
  · rw [Machine.set_mem, Machine.set_mem, Machine.store_same, Machine.set_ctl, Machine.set_ctl,
      Machine.store_ctl, Machine.set_ctl]
    exact ⟨rfl, rfl⟩

theorem switched_get {r : Reg} (pointer : r ≠ sp) :
    (switched c m).get r = (m.set et (m.get sp)).get r := by
  unfold switched
  split
  · by_cases two : r = r2
    · subst two
      rw [Instr.exec, Machine.get_set_self _ _ (by decide), chosen_get (by decide) (by decide),
        m.get_set_self _ (by decide), chosen_frame.1, m.get_set_ne _ (by decide)]
    · rw [Instr.exec, Machine.get_set_ne _ _ two, chosen_get pointer two]
  · rfl

theorem switched_ctl : (switched c m).ctl = m.ctl := by
  unfold switched
  split
  · rw [Instr.exec, Machine.set_ctl, chosen_frame.2]
  · rw [Machine.set_ctl]

/-- r2 was kept in the word below the stack pointer. -/
theorem switched_mem {a : Word} (other : a ≠ m.get sp + -4) :
    (switched c m).mem a = m.mem a := by
  have test : (tested c m).mem a = m.mem a := by
    rw [tested_exec, Machine.set_mem, Machine.store_ne _ _ other, Machine.set_mem]
  have choice : (chosen c m).mem a = m.mem a := by
    unfold chosen
    split
    · exact test
    · rw [Machine.set_mem, test]
  unfold switched
  split
  · rw [Instr.exec, Machine.set_mem, choice]
  · rw [Machine.set_mem]

theorem store_framed : ∀ i ∈ storeBlock, i.framed 140 = true := by decide

theorem framed_sp : (framed c m).get sp = frame c m := by
  rw [framed, execAll_framed_sp store_framed, Machine.get_set_self _ _ (by decide)]

theorem framed_slot {r : Reg} {offset : Word} (pointer : r ≠ sp)
    (saved : saves r offset storeBlock true false = true) :
    (framed c m).mem (frame c m + offset) = (m.set et (m.get sp)).get r := by
  have slot := saves_slot (m := (switched c m).set sp (frame c m)) store_framed saved
  rwa [Machine.get_set_self _ _ (by decide), Machine.get_set_ne _ _ pointer,
    switched_get pointer] at slot

theorem framed_status : (framed c m).mem (frame c m + 40) = m.ctl .estatus := by
  have slot := saves_computed (m := (switched c m).set sp (frame c m)) store_framed
    (show saves r12 40 otherStores true false = true by decide)
  rwa [Machine.get_set_self _ _ (by decide), Instr.exec, Machine.get_set_self _ _ (by decide),
    execAll_ctl (by decide), Machine.set_ctl, switched_ctl] at slot

theorem framed_mem {a : Word} (other : a ≠ m.get sp + -4)
    (outside : ∀ offset : Word, offset.toNat < 140 → a ≠ frame c m + offset) :
    (framed c m).mem a = m.mem a := by
  rw [framed, execAll_framed_mem store_framed, Machine.set_mem, switched_mem other]
  rwa [Machine.get_set_self _ _ (by decide)]

theorem framed_registers : (∀ p ∈ registerFields, read (frame c m) p.2 (framed c m) = m.get p.1) ∧
    read (frame c m) .pc (framed c m) = m.get ea ∧
    read (frame c m) .status (framed c m) = m.ctl .estatus := by
  refine ⟨?_, ?_, framed_status⟩
  · intro p listed
    by_cases pointer : p.1 = sp
    · have field : ∀ p ∈ registerFields, p.1 = sp → p.2 = .sp := by decide
      rw [field p listed pointer, pointer]
      have slot := framed_slot (c := c) (m := m) (show et ≠ sp by decide)
        (show saves et Field.sp.offset storeBlock true false = true by decide)
      exact slot.trans (m.get_set_self _ (by decide))
    · have other : ∀ p ∈ registerFields, p.1 ≠ et := by decide
      exact (framed_slot pointer (register_saves p listed pointer)).trans
        (m.get_set_ne _ (other p listed))
  · have slot := framed_slot (c := c) (m := m) (show ea ≠ sp by decide)
      (show saves ea Field.pc.offset storeBlock true false = true by decide)
    exact slot.trans (m.get_set_ne _ (by decide))

theorem framed_ctl : (framed c m).ctl = m.ctl := by
  rw [framed, execAll_ctl (by decide), Machine.set_ctl, switched_ctl]

end

theorem restore_quiet : ∀ i ∈ loadBlock ++ [.ldw sp 128 sp], i.quiet = true := by decide

section
variable {c : Config}

theorem test_quiet : ∀ i ∈ testBlock c, i.quiet = true := by
  simp [testBlock, loadAddress, Instr.quiet, Instr.straight]

theorem base_quiet : ∀ i ∈ loadAddress (L := Unit) sp c.stackBase, i.quiet = true := by
  simp [loadAddress, Instr.quiet, Instr.straight]

theorem save_quiet : ∀ i ∈ saveBlock c, i.quiet = true := by
  have stored : ∀ i ∈ storeBlock, i.quiet = true := by decide
  have called : ∀ i ∈ callBlock c, i.quiet = true := by
    simp [callBlock, loadAddress, Instr.mov, Instr.quiet, Instr.straight]
  intro i mem
  rcases List.mem_cons.mp mem with rfl | later
  · rfl
  · exact (List.mem_append.mp later).elim (stored i) (called i)

theorem save_exec (m : Machine) : execAll (saveBlock c) (switched c m) = calling c m := by
  have start : (Instr.addi (L := Unit) sp sp (-140)).exec (switched c m) =
      (switched c m).set sp (frame c m) := rfl
  rw [saveBlock, execAll_cons, start, execAll_append, callBlock, execAll_append,
    load_address (by decide), execAll_cons, execAll_nil, Instr.mov_exec,
    Machine.get_set_ne _ _ (by decide)]
  change ((framed c m).set gp c.globalPointer).set r4 ((framed c m).get sp) = calling c m
  rw [framed_sp, calling]

end

section
variable {c : Config} {m t : Machine} {function : Word → Machine → Machine → Prop}
  {nested : Machine → Machine → Prop} {calls : List Call}

theorem tested_branch : (program c).next (.bgtu sp r2 ()) (loadAddress sp c.stackBase ++ readyCode c)
    (tested c m) = some (if c.stackEnd.toNat < (m.get sp).toNat then label c
      else loadAddress sp c.stackBase ++ readyCode c) := by
  have limit : (tested c m).get r2 = c.stackEnd := by
    rw [tested_exec, Machine.get_set_self _ _ (by decide)]
  have pointer : (tested c m).get sp = m.get sp := by
    rw [tested_exec, Machine.get_set_ne _ _ (by decide), Machine.store_get,
      m.get_set_ne _ (by decide)]
  rw [Program.next, limit, pointer]
  rfl

theorem chosen_pie : (chosen c m).pie = m.pie := by
  rw [Machine.pie, chosen_frame.2, Machine.pie]

theorem switched_pie : (switched c m).pie = m.pie := by
  rw [Machine.pie, switched_ctl, Machine.pie]

theorem run_chosen (stack : c.useInterruptStack = true) (disabled : m.pie = false) :
    Run (program c) function nested (switchCode c) (m.set et (m.get sp)) calls t ↔
      Run (program c) function nested (readyCode c) (chosen c m) calls t := by
  have placed : switchCode c <:+ (program c).code := List.suffix_cons _ _
  have branched : label c = readyCode c := if_pos stack
  have started : (m.set et (m.get sp)).pie = false := by
    rw [Machine.pie, Machine.set_ctl]
    exact disabled
  have testedOff : (tested c m).pie = false := by
    rw [tested, pie_quiet test_quiet, started]
  rw [switchCode, if_pos stack] at placed ⊢
  have after := suffix_append (testBlock c) placed
  rw [Run.block_iff (testBlock c) placed test_quiet started]
  refine (Run.step_iff after testedOff tested_branch).trans ?_
  change Run _ _ _ _ (tested c m) _ _ ↔ _
  unfold chosen
  split
  · rw [branched]
  · rw [Run.block_iff _ (suffix_append [_] after) base_quiet testedOff, load_address (by decide)]

/-- With interrupts disabled every run comes to the stack it saves the frame on. -/
theorem run_switched (disabled : m.pie = false) :
    Run (program c) function nested (handlerCode c) m calls t ↔
      Run (program c) function nested (saveCode c) (switched c m) calls t := by
  have start : (program c).next (.mov et sp) (switchCode c) m = some (switchCode c) := rfl
  rw [handlerCode, Run.step_iff List.suffix_rfl disabled start, Instr.mov_exec]
  by_cases stack : c.useInterruptStack = true
  · have placed : readyCode c <:+ (program c).code := by
      have labelled := label_placed c
      rwa [label, if_pos stack] at labelled
    rw [run_chosen stack disabled, switched, if_pos stack]
    exact Run.step_iff placed (chosen_pie.trans disabled) rfl
  · rw [switchCode, switched, if_neg stack, if_neg stack]

theorem run_calling (disabled : m.pie = false) :
    Run (program c) function nested (handlerCode c) m calls t ↔
      Run (program c) function nested (.call c.exceptionHandler :: restoreCode) (calling c m)
        calls t := by
  rw [run_switched disabled, saveCode, Run.block_iff (saveBlock c) (save_placed c) save_quiet
    (switched_pie.trans disabled), save_exec]

end
end SoftwareException
