import Nios2Ecos.InterruptCalls

/- The interrupted code does not notice the interrupt, to any depth of nesting. -/
namespace InterruptHandler
open Nios2Machine

section
variable {c : Config} {l : Layout c} {K : Stack} {m x y : Machine}
  {nested : Machine → Machine → Prop}

theorem Transparent.enter (transparent : Transparent l nested) (stacked : l.Stacks K)
    (holds : K.Holds (m.get sp)) {pc v : Word} {m' : Machine} (handled : nested (m.enter pc v) m') :
    m'.pc = pc ∧ Same visible (l.Kept K (m.get sp)) m m' := by
  have pointer : (m.enter pc v).get sp = m.get sp := m.enter_get v pc (by decide)
  have unnoticed := transparent K _ m' stacked (pointer.symm ▸ holds) handled
  constructor
  · rw [unnoticed.resumed, Machine.enter_ea]
  · constructor
    · intro r seen
      rw [unnoticed.regs r seen, m.enter_get v pc seen]
    · intro a kept
      rw [unnoticed.words a (pointer.symm ▸ kept), Machine.enter_mem]
    · rw [unnoticed.status, Machine.enter_estatus]

theorem transparent_hidden {F : Word} (transparent : Transparent l nested) (stacked : l.Stacks K)
    (holds : K.Holds F) : Hidden visible (l.Kept K F) F nested := by
  intro m pc v m' here enabled handled
  subst here
  exact transparent.enter stacked holds handled

/-- What is entered stays so while the ISR's own stack is kept. -/
theorem Entered.keep (entered : Entered l K m x)
    (same : Same calleeSaved (l.Kept (isrStack c K) (x.get sp)) x y) : Entered l K m y := by
  have pointer : y.get sp = x.get sp := same.get sp (by decide)
  constructor
  · exact entered.same.trans (same.mono untouched_callee entered.kept)
  · rw [pointer]
    exact entered.low
  · rw [pointer]
    exact entered.high
  · rw [pointer]
    exact entered.kept
  · rw [← entered.back]
    unfold popBlock
    split
    · rename_i stack
      simp (disch := decide) only [execAll_cons, execAll_nil, Instr.exec, Machine.get_set_self,
        pointer, BitVec.ofNat_eq_ofNat, BitVec.add_zero]
      exact same.mem _ (entered.link stack)
    · exact pointer
  · rw [pointer]
    exact entered.link
  · rw [pointer]
    exact entered.slot

theorem vector_sp : (execAll (vectorBlock c) x).get sp = x.get sp + -4 := by
  rw [vector_exec, Machine.store_get, Machine.get_set_self _ _ (by decide)]

theorem vector_same {words : Word → Prop} (below : ¬ words (x.get sp + -4)) :
    Same untouched words x (execAll (vectorBlock c) x) := by
  have spared : ∀ r, untouched r → r ≠ r1 ∧ r ≠ r5 ∧ r ≠ r15 := by decide
  have looked := (look_same (c := c) x).mono spared (fun a (_ : words a) => trivial)
  rw [vector_exec]
  exact (looked.set_hidden (by decide : ¬ untouched sp) _).store_hidden below _

theorem Entered.below (entered : Entered l K m x) :
    (x.get sp + -4).toNat + 4 = (x.get sp).toNat := by
  have low := entered.low
  exact toNat_below (by omega)

theorem isr_entry_sp : (isrEntry c x).get sp = x.get sp + -4 := by
  rw [isrEntry, Machine.link_get _ _ _ (by decide), vector_sp]

theorem Entered.isr_holds (entered : Entered l K m x) :
    (isrStack c K).Holds ((isrEntry c x).get sp) := by
  have place := entered.below
  have low := entered.low
  have high := entered.high
  rw [isr_entry_sp]
  constructor <;> omega

theorem Entered.isr_entry_same (entered : Entered l K m x) (stacked : l.Stacks K) :
    Same untouched (l.Kept (isrStack c K) (x.get sp)) x (isrEntry c x) := by
  have place := entered.below
  have low := entered.low
  have high := entered.high
  have vector : Same untouched (l.Kept (isrStack c K) (x.get sp)) x (execAll (vectorBlock c) x) :=
    vector_same (not_kept_below (isr_stack_stacks stacked) ⟨by omega, by omega⟩ (by omega))
  have spared : ∀ r, untouched r → r ≠ ra := by decide
  constructor
  · intro r other
    rw [isrEntry, Machine.link_get _ _ _ (spared r other), vector.get r other]
  · intro a kept
    rw [isrEntry, Machine.link_mem, vector.mem a kept]
  · rw [isrEntry, Machine.link_ctl, vector.status]

theorem Entered.isr_same {f : Machine → Machine → Prop} (entered : Entered l K m x)
    (stacked : l.Stacks K) (conforms : Conforms l f) {b : Machine} (returned : f (isrEntry c x) b) :
    b.pc = (program c).address (returnBlock ++ doneCode c) ∧
      Same calleeSaved (l.Kept (isrStack c K) (x.get sp)) x (execAll returnBlock b) := by
  have place := entered.below
  have entry := entered.isr_entry_same stacked
  obtain ⟨back, same⟩ := conforms _ _ _ (isr_stack_stacks stacked) entered.isr_holds returned
  have restored : b.get sp + 4 = x.get sp := by
    rw [same.get sp (by decide), isr_entry_sp, BitVec.add_assoc]
    exact BitVec.add_zero _
  have effect : execAll returnBlock b = (b.set r15 (b.mem (b.get sp + 0))).set sp (x.get sp) := by
    simp (disch := decide) only [returnBlock, execAll_cons, execAll_nil, Instr.exec,
      Machine.get_set_ne, restored]
  refine ⟨?_, ?_, ?_, ?_⟩
  · rw [back, isrEntry, Machine.link_ra]
  · intro r saved
    rw [effect]
    by_cases stackPointer : r = sp
    · subst stackPointer
      exact Machine.get_set_self _ _ (by decide)
    · have spared : ∀ r, calleeSaved r → r ≠ sp → untouched r ∧ r ≠ r15 := by decide
      obtain ⟨other, offset⟩ := spared r saved stackPointer
      rw [Machine.get_set_ne _ _ stackPointer, Machine.get_set_ne _ _ offset, same.get r saved,
        entry.get r other]
  · intro a kept
    have more : l.Kept (isrStack c K) ((isrEntry c x).get sp) a :=
      kept_mono (by rw [isr_entry_sp]; omega) kept
    rw [effect, Machine.set_mem, Machine.set_mem, same.mem a more, entry.mem a kept]
  · rw [effect, Machine.set_ctl, Machine.set_ctl, same.status, entry.status]

theorem Entered.isr_returns {f : Machine → Machine → Prop} (entered : Entered l K m x)
    (stacked : l.Stacks K) (disabled : x.pie = false) (conforms : Conforms l f) {b : Machine}
    (returned : f (isrEntry c x) b) :
    b.pc = (program c).address (returnBlock ++ doneCode c) ∧ b.pie = false := by
  obtain ⟨back, same⟩ := entered.isr_same stacked conforms returned
  have status := same.status
  rw [execAll_status return_quiet] at status
  exact ⟨back, by rw [Machine.pie, status]; exact disabled⟩

end

/-- The handler is back on the stack of the interrupted code, at the frame. -/
structure Resting {c : Config} (l : Layout c) (K : Stack) (m z : Machine) : Prop where
  pointer : z.get sp = frame m
  others : ∀ r, untouched r → z.get r = m.get r
  words : ∀ a, l.Kept K (frame m) a → z.mem a = (saved m).mem a

section
variable {c : Config} {l : Layout c} {K : Stack} {m z t : Machine}
  {nested : Machine → Machine → Prop} {function : Word → Machine → Machine → Prop}
  {calls : List Call}

theorem Resting.keep (resting : Resting l K m z) {w : Machine}
    (same : Same calleeSaved (l.Kept K (frame m)) z w) : Resting l K m w := by
  constructor
  · rw [same.get sp (by decide), resting.pointer]
  · intro r other
    rw [same.get r (untouched_callee r other), resting.others r other]
  · intro a kept
    rw [same.mem a kept, resting.words a kept]

theorem Entered.enabled {y : Machine} (entered : Entered l K m y) :
    Resting l K m (enabled c y) := by
  have popped : Same untouched (l.Kept K (frame m)) (saved m) (execAll (popBlock c) y) := by
    unfold popBlock
    split
    · exact entered.same.set_hidden (r := sp) (by decide) _
    · exact entered.same
  have effect : InterruptHandler.enabled c y =
      ((execAll (popBlock c) y).set r1 (Machine.get (execAll (popBlock c) y) r0 + 1)).setCtl
        .status 1 := by
    rw [InterruptHandler.enabled, execAll_append]
    rfl
  have ready := popped.set_hidden (r := r1) (by decide)
    (Machine.get (execAll (popBlock c) y) r0 + 1)
  rw [effect]
  constructor
  · rw [Machine.setCtl_get, Machine.get_set_ne _ _ (by decide), entered.back]
  · intro r other
    have spared : ∀ r, untouched r → r ≠ sp ∧ r ≠ et := by decide
    obtain ⟨pointer, temporary⟩ := spared r other
    rw [Machine.setCtl_get, ready.get r other, saved_get m pointer, savedValue, if_neg temporary]
  · intro a kept
    rw [Machine.setCtl_mem, ready.mem a kept]

theorem Resting.passed (resting : Resting l K m z) {a : Machine}
    (passed : Passed c (l.Kept K (frame m)) z a) : Resting l K m a :=
  resting.keep (passed.same.mono (by decide) (fun _ kept => kept))

theorem Resting.unnoticed {b : Machine} (resting : Resting l K m b) (stacked : l.Stacks K)
    (holds : K.Holds (m.get sp)) (room : l.Room m)
    (left : Left (l.Kept K (frame m)) (frame m) b t) : Unnoticed l K m t := by
  have slot : ∀ p ∈ saveSlots, b.mem (frame m + p.2) = savedValue m p.1 := by
    intro p member
    rw [resting.words _ (slot_kept stacked holds room member), saved_slot m member]
  constructor
  · rw [left.resumed]
    exact slot (ea, 0) (by decide)
  · intro r seen
    have cases : ∀ r, visible r → r = 0 ∨ r = sp ∨ untouched r ∨
        r ≠ et ∧ ∃ p ∈ restoreSlots, p ∈ saveSlots ∧ p.1 = r := by decide
    rcases cases r seen with rfl | rfl | other | ⟨temporary, p, member, inSave, rfl⟩
    · rfl
    · rw [left.pointer, frame, BitVec.add_assoc]
      exact BitVec.add_zero _
    · rw [left.others r other, resting.others r other]
    · rw [left.restored p member, slot p inSave, savedValue, if_neg temporary]
  · intro a kept
    have more := kept_frame stacked holds room kept
    rw [left.words a more, resting.words a more, saved_above stacked holds room kept]
  · rw [left.status]
    exact slot (et, 4) (by decide)

theorem frame_holds (stacked : l.Stacks K) (holds : K.Holds (m.get sp)) (room : l.Room m) :
    K.Holds (frame m) := by
  have top := frame_toNat stacked holds room
  have above := frame_above stacked holds room
  have high := holds.2
  constructor <;> omega

theorem Resting.end_returns {f : Machine → Machine → Prop} (resting : Resting l K m z)
    (stacked : l.Stacks K) (holds : K.Holds (m.get sp)) (room : l.Room m) (conforms : Conforms l f)
    {b : Machine} (returned : f (endEntry c z) b) :
    b.pc = (program c).address restoreCode ∧ Resting l K m b := by
  have entry : Resting l K m (endEntry c z) := by
    have spared : ∀ r, untouched r → r ≠ ra := by decide
    constructor
    · rw [endEntry, Machine.link_get _ _ _ (by decide), resting.pointer]
    · intro r other
      rw [endEntry, Machine.link_get _ _ _ (spared r other), resting.others r other]
    · rw [endEntry, Machine.link_mem]
      exact resting.words
  have inside := frame_holds stacked holds room
  obtain ⟨back, kept⟩ := conforms K _ _ stacked (entry.pointer.symm ▸ inside) returned
  rw [entry.pointer] at kept
  exact ⟨by rw [back, endEntry, Machine.link_ra], entry.keep kept⟩

theorem Resting.run_end (resting : Resting l K m z) (stacked : l.Stacks K)
    (holds : K.Holds (m.get sp)) (room : l.Room m) (transparent : Transparent l nested)
    (conforms : ∀ target, Conforms l (function target))
    (run : Run (program c) function nested
      (argumentsBlock c ++ (.call c.interruptEnd :: restoreCode)) z calls t) :
    Unnoticed l K m t := by
  have hidden := transparent_hidden transparent stacked (frame_holds stacked holds room)
  obtain ⟨a, passed, own⟩ := run_arguments hidden resting.pointer run
  have calling := resting.passed passed
  have returns := fun b => calling.end_returns stacked holds room (conforms c.interruptEnd) (b := b)
  obtain ⟨b, calls', returned, -, run⟩ := own.returned rfl (restore_placed c)
    (fun b returned => (returns b returned).1)
  have rested := (returns b returned).2
  obtain ⟨-, left⟩ := run_restore hidden (fun p slot => slot_kept stacked holds room slot)
    rested.pointer run
  exact rested.unnoticed stacked holds room left

/-- From the search on, whether it has found an interrupt or not. -/
theorem Entered.run_found {x : Machine} {found : Bool} (entered : Entered l K m x)
    (stacked : l.Stacks K) (holds : K.Holds (m.get sp)) (room : l.Room m) (disabled : x.pie = false)
    (transparent : Transparent l nested) (conforms : ∀ target, Conforms l (function target))
    (run : Run (program c) function nested (afterSearch c found) x calls t) :
    Unnoticed l K m t := by
  cases found with
  | false =>
    exact entered.enabled.run_end stacked holds room transparent conforms (run_done disabled run)
  | true =>
    have returns := fun b => entered.isr_returns stacked disabled (conforms (isr c x)) (b := b)
    obtain ⟨b, calls', returned, -, run⟩ := InterruptHandler.run_found disabled returns run
    have off : (execAll returnBlock b).pie = false := by
      rw [pie_quiet return_quiet, (returns b returned).2]
    obtain ⟨-, same⟩ := entered.isr_same stacked (conforms _) returned
    exact (entered.keep same).enabled.run_end stacked holds room transparent conforms
      (run_done off run)

theorem search_entered (stacked : l.Stacks K) (holds : K.Holds (m.get sp)) (room : l.Room m) :
    Entered l K m (search 33 (prologue c m)).2 := by
  have spared : ∀ r, calleeSaved r → r ≠ r3 ∧ r ≠ r4 ∧ r ≠ et := by decide
  exact (prologue_entered stacked holds room).keep
    ((search_same 33 (prologue c m)).mono spared (fun _ _ => trivial))

theorem search_pie (disabled : m.pie = false) : (search 33 (prologue c m)).2.pie = false := by
  rw [Machine.pie, (search_same 33 (prologue c m)).status]
  change (prologue c m).pie = false
  rw [prologue_pie, disabled]

theorem handler_unnoticed (stacked : l.Stacks K) (holds : K.Holds (m.get sp)) (room : l.Room m)
    (disabled : m.pie = false) (transparent : Transparent l nested)
    (conforms : ∀ target, Conforms l (function target))
    (run : Run (program c) function nested (handlerCode c) m calls t) : Unnoticed l K m t := by
  have found := (handler_iff disabled).mp run
  exact (search_entered stacked holds room).run_found stacked holds room (search_pie disabled)
    transparent conforms found

theorem Resting.end_runs (resting : Resting l K m z) (stacked : l.Stacks K)
    (holds : K.Holds (m.get sp)) (room : l.Room m)
    (conforms : ∀ target, Conforms l (function target)) (total : ∀ target a, ∃ b, function target a b) :
    ∃ b t, Run (program c) function nested
      (argumentsBlock c ++ (.call c.interruptEnd :: restoreCode)) z
      [endCall c (execAll (argumentsBlock c) z) b] t := by
  obtain ⟨b, returned⟩ := total c.interruptEnd (endEntry c (execAll (argumentsBlock c) z))
  have ready := resting.passed (passed_exec z)
  exact ⟨b, _, of_arguments returned
    (ready.end_returns stacked holds room (conforms _) returned).1⟩

theorem Entered.found_runs {x : Machine} {found : Bool} (entered : Entered l K m x)
    (stacked : l.Stacks K) (holds : K.Holds (m.get sp)) (room : l.Room m)
    (conforms : ∀ target, Conforms l (function target)) (total : ∀ target a, ∃ b, function target a b) :
    ∃ calls t, Run (program c) function nested (afterSearch c found) x calls t := by
  cases found with
  | false =>
    obtain ⟨b, t, run⟩ := entered.enabled.end_runs stacked holds room conforms total
    exact ⟨_, t, of_done run⟩
  | true =>
    obtain ⟨b, returned⟩ := total (isr c x) (isrEntry c x)
    obtain ⟨back, same⟩ := entered.isr_same stacked (conforms _) returned
    obtain ⟨b', t, run⟩ := (entered.keep same).enabled.end_runs stacked holds room conforms total
    exact ⟨_, t, of_found returned back (of_done run)⟩

theorem handler_runs (stacked : l.Stacks K) (holds : K.Holds (m.get sp)) (room : l.Room m)
    (disabled : m.pie = false) (conforms : ∀ target, Conforms l (function target))
    (total : ∀ target a, ∃ b, function target a b) :
    ∃ calls t, Run (program c) function nested (handlerCode c) m calls t := by
  obtain ⟨calls, t, run⟩ := (search_entered stacked holds room).found_runs stacked holds room conforms
    total
  exact ⟨calls, t, (handler_iff disabled).mpr run⟩

variable (function : (Machine → Machine → Prop) → Word → Machine → Machine → Prop)

/-- By induction on the depth of nesting. -/
theorem handler_transparent
    (conforms : ∀ h, Transparent l h → ∀ target, Conforms l (function h target)) (d : Nat) :
    Transparent l (handler l function d) := by
  induction d with
  | zero =>
    intro K m m' stacked holds handled
    exact handled.elim
  | succ d ih =>
    rintro K m m' stacked holds ⟨disabled, room, calls, run⟩
    exact handler_unnoticed stacked holds room disabled ih (conforms _ ih) run

/-- An interrupt at any instruction, on any stack, with functions that follow the ABI and
    interrupts nested in it to any depth: the interrupted code finds its registers, its status
    and its stack as they were, and goes on where it was interrupted. -/
theorem interrupt_transparent (l : Layout c) (K : Stack) (m m' : Machine)
    (conforms : ∀ h, Transparent l h → ∀ target, Conforms l (function h target)) (d : Nat)
    (stacked : l.Stacks K) (holds : K.Holds (m.get sp)) (pc v : Word)
    (handled : handler l function d (m.enter pc v) m') :
    m'.pc = pc ∧ (∀ r, visible r → m'.get r = m.get r) ∧ m'.ctl .status = m.ctl .status ∧
      ∀ a, K.Has a → (m.get sp).toNat ≤ a.toNat → ¬ l.shared a → m'.mem a = m.mem a := by
  obtain ⟨resumed, same⟩ := (handler_transparent function conforms d).enter stacked holds handled
  refine ⟨resumed, same.get, same.status, ?_⟩
  intro a has above own
  exact same.mem a (.inr ⟨own, .inl ⟨has, above⟩⟩)

end

section
variable {c : Config} (l : Layout c)

/-- A function that clobbers r2 and returns, perhaps after an interrupt. -/
def interruptible (h : Machine → Machine → Prop) (_ : Word) (a b : Machine) : Prop :=
  ∃ a', (a' = a ∨ a.pie = true ∧ ∃ v, h (a.enter a.pc v) a') ∧
    b = { a'.set r2 0 with pc := a'.get ra }

theorem interruptible_total (h : Machine → Machine → Prop) (target : Word) (a : Machine) :
    ∃ b, interruptible h target a b :=
  ⟨_, a, .inl rfl, rfl⟩

theorem interruptible_conforms (h : Machine → Machine → Prop) (transparent : Transparent l h)
    (target : Word) : Conforms l (interruptible h target) := by
  rintro K a b stacked holds ⟨a', before, rfl⟩
  have seen : ∀ r, calleeSaved r → visible r := by decide
  have same : Same visible (l.Kept K (a.get sp)) a a' := by
    rcases before with rfl | ⟨-, v, handled⟩
    · exact Same.refl _ _ a'
    · exact (transparent.enter stacked holds handled).2
  constructor
  · exact same.get ra (by decide)
  · have callee := (same.mono seen (fun _ kept => kept)).set_hidden (r := r2) (by decide) 0
    exact ⟨callee.get, callee.mem, callee.status⟩

end

def sampleConfig : Config where
  ctrlcSupport := true
  useInterruptStack := true
  kernelSupport := true
  handler := 0x8000
  globalPointer := 0x9000
  halSavedInterruptState := 0x4000
  stackBase := 0x3000
  stackEnd := 0x2000
  schedLock := 0x4004
  halInterruptHandlers := 0x4100
  halInterruptData := 0x4200
  halInterruptObjects := 0x4300
  interruptEnd := 0x7000

def sampleStack : Stack := ⟨0x1000, 0x2000⟩

def sampleLayout : Layout sampleConfig where
  threads K := K = sampleStack
  shared _ := False
  fixed _ := False
  below _ K thread := by
    subst thread
    decide
  roomy := by decide
  base := by
    intro _ a _ _
    exact not_false
  data := by
    rintro K (rfl | ⟨-, rfl⟩)
    all_goals exact ⟨by decide, by decide, fun _ _ => not_false⟩
  constant := ⟨not_false, not_false⟩

def sampleMachine : Machine where
  reg r := if r = sp then 0x1f00 else 7
  ctl _ := 1
  mem _ := 0
  pc := 0x5000

theorem interrupt_transparent_sample : ∃ m',
    handler sampleLayout interruptible 3 (sampleMachine.enter 0x5000 0) m' ∧ m'.pc = 0x5000 ∧
      (∀ r, visible r → m'.get r = sampleMachine.get r) ∧ m'.ctl .status = 1 ∧
      m'.mem 0x1f00 = 0 := by
  have conforms := interruptible_conforms sampleLayout
  have stacked : sampleLayout.Stacks sampleStack := .inl rfl
  have holds : sampleStack.Holds (sampleMachine.get sp) := by decide
  have room : sampleLayout.Room (sampleMachine.enter 0x5000 0) := by
    rintro K (rfl | ⟨-, rfl⟩) inside
    · exact ⟨by decide, fun _ _ _ => not_false⟩
    · exact absurd inside.1 (by decide)
  have below := handler_transparent interruptible conforms 2
  have runs : ∃ calls t, Run (program sampleConfig)
      (interruptible (handler sampleLayout interruptible 2)) (handler sampleLayout interruptible 2)
      (handlerCode sampleConfig) (sampleMachine.enter 0x5000 0) calls t :=
    handler_runs stacked (show sampleStack.Holds ((sampleMachine.enter 0x5000 0).get sp) by decide)
      room (by decide) (conforms _ below) (interruptible_total _)
  obtain ⟨calls, m', run⟩ := runs
  have handled : handler sampleLayout interruptible 3 (sampleMachine.enter 0x5000 0) m' :=
    ⟨by decide, room, calls, run⟩
  obtain ⟨resumed, regs, status, words⟩ := interrupt_transparent interruptible sampleLayout
    sampleStack sampleMachine m' conforms 3 stacked holds 0x5000 0 handled
  exact ⟨m', handled, resumed, regs, status, words 0x1f00 (by decide) (by decide) not_false⟩

end InterruptHandler
