import Nios2Ecos.InterruptTransparency

/- Which functions the handler calls, and with what. -/
namespace InterruptDispatch
open Nios2Machine InterruptHandler

def Lowest (p : Word) (v : Nat) : Prop := p.getLsbD v = true ∧ ∀ j < v, p.getLsbD j = false

theorem Lowest.bound {p : Word} {v : Nat} (lowest : Lowest p v) : v < 32 :=
  BitVec.lt_of_getLsbD lowest.1

theorem Lowest.unique {p : Word} {v w : Nat} (first : Lowest p v) (second : Lowest p w) :
    v = w := by
  rcases Nat.lt_trichotomy v w with less | equal | more
  · exact absurd first.1 (by rw [second.2 v less]; decide)
  · exact equal
  · exact absurd second.1 (by rw [first.2 w more]; decide)

section
variable {x : Machine}

theorem test_bit_clear (bit : (execAll testBit x).get r3 = (execAll testBit x).get r0) :
    (x.get et).getLsbD 0 = false := by
  rw [test_bit_r3, Machine.get_zero] at bit
  have low := congrArg (fun w => BitVec.getLsbD w 0) bit
  simpa using low

theorem test_bit_set (bit : (execAll testBit x).get r3 ≠ (execAll testBit x).get r0) :
    (x.get et).getLsbD 0 = true := by
  rw [test_bit_r3, Machine.get_zero] at bit
  by_contra clear
  apply bit
  apply BitVec.eq_of_getLsbD_eq
  intro i bound
  cases i with
  | zero => simpa using clear
  | succ i => simp

theorem next_bit_zero (bit : (execAll testBit x).get r3 = (execAll testBit x).get r0)
    (more : (execAll nextBit (execAll testBit x)).get r0 =
      (execAll nextBit (execAll testBit x)).get et) : x.get et = 0 := by
  rw [next_bit_et, Machine.get_zero] at more
  apply BitVec.eq_of_getLsbD_eq
  intro i bound
  cases i with
  | zero => simpa using test_bit_clear bit
  | succ i =>
    have shifted := congrArg (fun w => BitVec.getLsbD w i) more
    simpa [BitVec.getLsbD_ushiftRight, Nat.add_comm] using shifted.symm

theorem Lowest.shift (bit : (execAll testBit x).get r3 = (execAll testBit x).get r0) {v : Nat}
    (lowest : Lowest (x.get et >>> 1) v) : Lowest (x.get et) (v + 1) := by
  obtain ⟨here, below⟩ := lowest
  constructor
  · simpa [BitVec.getLsbD_ushiftRight, Nat.add_comm] using here
  · intro j less
    cases j with
    | zero => exact test_bit_clear bit
    | succ j =>
      have before := below j (by omega)
      simpa [BitVec.getLsbD_ushiftRight, Nat.add_comm] using before

theorem next_bit_r4 : (execAll nextBit (execAll testBit x)).get r4 = x.get r4 + 1 := by
  simp (disch := decide) only [testBit, nextBit, execAll_cons, execAll_nil, Instr.exec,
    Machine.get_set_self, Machine.get_set_ne]

theorem test_bit_r4 : (execAll testBit x).get r4 = x.get r4 := by
  simp (disch := decide) only [testBit, execAll_cons, execAll_nil, Instr.exec, Machine.get_set_ne]

theorem search_lowest (n : Nat) (bound : (x.get et).toNat < 2 ^ n) :
    (x.get et = 0 ∧ (search (n + 1) x).1 = false) ∨
      ∃ v, Lowest (x.get et) v ∧ (search (n + 1) x).1 = true ∧
        (search (n + 1) x).2.get r4 = x.get r4 + BitVec.ofNat 32 v := by
  induction n generalizing x with
  | zero =>
    by_cases bit : (execAll testBit x).get r3 = (execAll testBit x).get r0
    · rw [search_done x 0 bit (last_bit bound)]
      exact .inl ⟨next_bit_zero bit (last_bit bound), rfl⟩
    · rw [search_found x 0 bit]
      refine .inr ⟨0, ⟨test_bit_set bit, fun j less => absurd less (Nat.not_lt_zero j)⟩, rfl, ?_⟩
      exact test_bit_r4.trans (BitVec.add_zero _).symm
  | succ n ih =>
    by_cases bit : (execAll testBit x).get r3 = (execAll testBit x).get r0
    · by_cases more : (execAll nextBit (execAll testBit x)).get r0 =
          (execAll nextBit (execAll testBit x)).get et
      · rw [search_done x (n + 1) bit more]
        exact .inl ⟨next_bit_zero bit more, rfl⟩
      · rw [search_again x (n + 1) bit more]
        rcases ih (next_bit_bound bound) with ⟨zero, -⟩ | ⟨v, lowest, found, vector⟩
        · exact absurd zero.symm more
        · rw [next_bit_et] at lowest
          refine .inr ⟨v + 1, lowest.shift bit, found, ?_⟩
          rw [vector, next_bit_r4, BitVec.add_assoc, Nat.add_comm v 1, BitVec.ofNat_add]
          rfl
    · rw [search_found x (n + 1) bit]
      refine .inr ⟨0, ⟨test_bit_set bit, fun j less => absurd less (Nat.not_lt_zero j)⟩, rfl, ?_⟩
      exact test_bit_r4.trans (BitVec.add_zero _).symm

end

section
variable {c : Config} {m x : Machine}

theorem pending_r6 : (execAll (pendingBlock c) x).get r6 = x.get sp := by
  unfold pendingBlock
  split <;> simp (disch := decide) only [execAll_cons, execAll_append, execAll_nil, load_address,
    Instr.exec, Instr.mov, Machine.get_zero, BitVec.ofNat_eq_ofNat, BitVec.add_zero,
    Machine.get_set_self, Machine.get_set_ne, Machine.store_get]

theorem pending_et : (execAll (pendingBlock c) x).get et = x.ctl .ipending := by
  unfold pendingBlock
  split <;> simp (disch := decide) only [execAll_cons, execAll_append, execAll_nil, load_address,
    Instr.exec, Instr.mov, Machine.set_ctl, Machine.get_set_self, Machine.get_set_ne,
    Machine.store_get]

theorem prologue_get {r : Reg}
    (other : r ≠ r1 ∧ r ≠ r2 ∧ r ≠ r4 ∧ r ≠ r10 ∧ r ≠ r11 ∧ r ≠ sp) :
    (prologue c m).get r = (pending c m).get r := by
  obtain ⟨one, two, four, ten, eleven, pointer⟩ := other
  have switch : (switched c m).get r = (pending c m).get r := by
    by_cases stack : c.useInterruptStack = true
    · rw [switched_stack stack]
      split
      · rw [Machine.get_set_ne _ _ two, Machine.get_set_ne _ _ one]
      · rw [Machine.get_set_ne _ _ pointer, Machine.get_set_ne _ _ two, Machine.get_set_ne _ _ one]
    · rw [switched, if_neg stack]
  have push : (pushed c m).get r = (switched c m).get r := by
    by_cases stack : c.useInterruptStack = true
    · rw [pushed_stack stack, Machine.store_get, Machine.get_set_ne _ _ pointer]
    · rw [pushed, if_neg stack]
  have lock : (execAll (lockBlock c) (pushed c m)).get r = (pushed c m).get r := by
    unfold lockBlock
    split <;> simp (disch := first | decide | assumption) only [execAll_cons, execAll_append,
      execAll_nil, load_address, Instr.exec, Instr.mov, Machine.get_set_ne, Machine.store_get]
  rw [prologue, lock, push, switch]

theorem prologue_r6 : (prologue c m).get r6 = frame m := by
  rw [prologue_get (by decide), pending, pending_r6, saved_sp]

theorem prologue_et : (prologue c m).get et = m.ctl .ipending := by
  rw [prologue_get (by decide), pending, pending_et, saved_ctl]

theorem prologue_r15 : (prologue c m).get r15 = m.get r15 := by
  have kept : Same (fun r => r = r15) (fun _ => False) (saved m) (prologue c m) :=
    prologue_same (by decide) not_false not_false (fun _ => not_false)
  rw [kept.get r15 rfl, saved_get m (by decide)]
  exact if_neg (by decide)

theorem prologue_r4 : (prologue c m).get r4 = 0 := by
  unfold prologue lockBlock
  rw [execAll_append]
  exact Machine.get_set_self _ _ (by decide)

theorem enabled_get {y : Machine} {r : Reg} (one : r ≠ r1) (pointer : r ≠ sp) :
    (enabled c y).get r = y.get r := by
  have popped : (execAll (popBlock c) y).get r = y.get r := by
    unfold popBlock
    split
    · exact Machine.get_set_ne _ _ pointer
    · rfl
  rw [enabled, execAll_append, Machine.setCtl_get, ← popped]
  exact Machine.get_set_ne _ _ one

end
section
variable (c : Config)

def inTables (a : Word) : Prop :=
  ∃ v < 32, ∃ table ∈ [c.halInterruptHandlers, c.halInterruptData, c.halInterruptObjects],
    a = table + BitVec.ofNat 32 v <<< 2

def tableEntry (m : Machine) (table : Word) (v : Nat) : Word :=
  m.mem (table + BitVec.ofNat 32 v <<< 2)

def isrEntered (m : Machine) : Machine := isrEntry c (search 33 (prologue c m)).2

def isrCalled (m : Machine) (v : Nat) (result : Word) : Call :=
  ⟨tableEntry m c.halInterruptHandlers v, BitVec.ofNat 32 v, tableEntry m c.halInterruptData v,
    frame m, result⟩

def endCalled (m : Machine) (v : Nat) (result frame ended : Word) : Call :=
  ⟨c.interruptEnd, result, tableEntry m c.halInterruptObjects v, frame, ended⟩

end

section
variable {c : Config} {l : Layout c} {K : Stack} {m x : Machine} {v : Nat}

theorem found_vector (lowest : Lowest (m.ctl .ipending) v) :
    (search 33 (prologue c m)).1 = true ∧
      (search 33 (prologue c m)).2.get r4 = BitVec.ofNat 32 v := by
  rcases search_lowest 32 ((prologue c m).get et).isLt with ⟨zero, -⟩ | ⟨w, first, found, vector⟩
  · rw [prologue_et] at zero
    rw [zero] at lowest
    exact absurd lowest.1 (by simp)
  · rw [prologue_et] at first
    cases lowest.unique first
    rw [prologue_r4] at vector
    exact ⟨found, vector.trans (BitVec.zero_add _)⟩

theorem search_r6 : (search 33 (prologue c m)).2.get r6 = frame m := by
  rw [(search_same 33 (prologue c m)).get r6 (by decide), prologue_r6]

theorem saved_fixed (stacked : l.Stacks K) (holds : K.Holds (m.get sp)) (room : l.Room m) {a : Word}
    (fixed : l.fixed a) : (saved m).mem a = m.mem a :=
  saved_above stacked holds room (.inl fixed)

theorem table_entry_fixed (tables : ∀ a, inTables c a → l.fixed a) (bound : v < 32) {table : Word}
    (known : table ∈ [c.halInterruptHandlers, c.halInterruptData, c.halInterruptObjects]) :
    l.fixed (table + BitVec.ofNat 32 v <<< 2) :=
  tables _ ⟨v, bound, table, known, rfl⟩

section
variable (stacked : l.Stacks K) (holds : K.Holds (m.get sp)) (room : l.Room m)
  (tables : ∀ a, inTables c a → l.fixed a) (lowest : Lowest (m.ctl .ipending) v)
include stacked holds room tables lowest

theorem search_table {table : Word}
    (known : table ∈ [c.halInterruptHandlers, c.halInterruptData, c.halInterruptObjects]) :
    (search 33 (prologue c m)).2.mem (table + BitVec.ofNat 32 v <<< 2) = tableEntry m table v := by
  have fixed := table_entry_fixed tables lowest.bound known
  rw [(search_entered stacked holds room).same.mem _ (.inl fixed),
    saved_fixed stacked holds room fixed, tableEntry]

theorem isr_called (b : Machine) :
    isr c (search 33 (prologue c m)).2 = tableEntry m c.halInterruptHandlers v ∧
      isrCall c (search 33 (prologue c m)).2 b = isrCalled c m v (b.get r2) := by
  obtain ⟨-, vector⟩ := found_vector (c := c) lowest
  obtain ⟨target, call⟩ := isr_call_values (c := c) (search 33 (prologue c m)).2 b
  rw [vector, search_table stacked holds room tables lowest (by simp)] at target
  rw [vector, search_table stacked holds room tables lowest (by simp),
    search_table stacked holds room tables lowest (by simp), search_r6] at call
  exact ⟨target, call⟩

end

section
variable {function : Word → Machine → Machine → Prop} {nested : Machine → Machine → Prop}
  {b t : Machine} {calls : List Call}

theorem return_get {r : Reg} (offset : r ≠ r15) (pointer : r ≠ sp) :
    (execAll returnBlock b).get r = b.get r := by
  change (Machine.set _ sp _).get r = _
  rw [Machine.get_set_ne _ _ pointer]
  exact Machine.get_set_ne _ _ offset

/-- The offset of the vector is on the stack while the ISR runs. -/
theorem return_r15 {f : Machine → Machine → Prop} (entered : Entered l K m x)
    (stacked : l.Stacks K) (conforms : Conforms l f) (returned : f (isrEntry c x) b) :
    (execAll returnBlock b).get r15 = x.get r4 <<< 2 := by
  obtain ⟨-, same⟩ := conforms _ _ _ (isr_stack_stacks stacked) entered.isr_holds returned
  have loaded : (execAll returnBlock b).get r15 = b.mem (b.get sp) := by
    simp (disch := decide) only [returnBlock, execAll_cons, execAll_nil, Instr.exec,
      Machine.get_set_ne, Machine.get_set_self, BitVec.ofNat_eq_ofNat, BitVec.add_zero]
  rw [isr_entry_sp] at same
  rw [loaded, same.get sp (by decide), isr_entry_sp, same.mem _ entered.slot, isrEntry,
    Machine.link_mem, vector_exec, Machine.store_same]

theorem endCall_passed {words : Word → Prop} {z a : Machine} (passed : Passed c words z a)
    (word : words (c.halInterruptObjects + z.get r15)) : endCall c a b =
      ⟨c.interruptEnd, z.get r2, z.mem (c.halInterruptObjects + z.get r15), z.get r6, b.get r2⟩ := by
  rw [endCall, passed.result, passed.object word, passed.same.get r6 (by decide)]

variable (stacked : l.Stacks K) (holds : K.Holds (m.get sp)) (room : l.Room m)
  (disabled : m.pie = false) (conforms : ∀ target, Conforms l (function target))
include stacked holds room conforms

theorem run_ended {y : Machine} (entered : Entered l K m y) (off : y.pie = false)
    (transparent : Transparent l nested) (word : l.Kept K (frame m) (c.halInterruptObjects + y.get r15))
    (run : Run (program c) function nested (doneCode c) y calls t) :
    ∃ ended, calls = [⟨c.interruptEnd, y.get r2,
      (saved m).mem (c.halInterruptObjects + y.get r15), y.get r6, ended⟩] := by
  have hidden := transparent_hidden transparent stacked (frame_holds stacked holds room)
  have resting := entered.enabled
  have offset : (enabled c y).get r15 = y.get r15 := enabled_get (by decide) (by decide)
  obtain ⟨a, passed, own⟩ := run_arguments hidden resting.pointer (run_done off run)
  have calling := resting.passed passed
  have returns := fun b => calling.end_returns stacked holds room (conforms c.interruptEnd) (b := b)
  obtain ⟨b, calls', returned, made, after⟩ := own.returned rfl (restore_placed c)
    (fun b returned => (returns b returned).1)
  obtain ⟨rfl, -⟩ := run_restore hidden (fun p slot => slot_kept stacked holds room slot)
    (returns b returned).2.pointer after
  have call := endCall_passed (b := b) passed (by rwa [offset])
  rw [offset, resting.words _ word, enabled_get (by decide) (by decide),
    enabled_get (by decide) (by decide)] at call
  exact ⟨b.get r2, made.trans (congrArg (fun call => [call]) call)⟩

variable (nested) in
theorem ends {y : Machine} (entered : Entered l K m y) (total : ∀ target a, ∃ b, function target a b)
    (word : l.Kept K (frame m) (c.halInterruptObjects + y.get r15)) :
    ∃ ended t, Run (program c) function nested (doneCode c) y [⟨c.interruptEnd, y.get r2,
      (saved m).mem (c.halInterruptObjects + y.get r15), y.get r6, ended⟩] t := by
  have resting := entered.enabled
  have offset : (enabled c y).get r15 = y.get r15 := enabled_get (by decide) (by decide)
  have runs : ∃ b t, Run (program c) function nested
      (argumentsBlock c ++ (.call c.interruptEnd :: restoreCode)) (enabled c y)
      [endCall c (execAll (argumentsBlock c) (enabled c y)) b] t :=
    resting.end_runs stacked holds room conforms total
  obtain ⟨b, t, run⟩ := runs
  have call := endCall_passed (b := b) (passed_exec (enabled c y))
    (show l.Kept K (frame m) _ by rwa [offset])
  rw [offset, resting.words _ word, enabled_get (by decide) (by decide),
    enabled_get (by decide) (by decide)] at call
  rw [call] at run
  exact ⟨b.get r2, t, of_done run⟩

end

section
variable {function : Word → Machine → Machine → Prop} {nested : Machine → Machine → Prop}
  {b t : Machine} {calls : List Call} (stacked : l.Stacks K) (holds : K.Holds (m.get sp))
  (room : l.Room m) (conforms : ∀ target, Conforms l (function target))
  (tables : ∀ a, inTables c a → l.fixed a) (lowest : Lowest (m.ctl .ipending) v)
include stacked holds room conforms

section
include tables lowest

theorem returned_values (returned : function (isr c (search 33 (prologue c m)).2) (isrEntered c m) b) :
    l.Kept K (frame m) (c.halInterruptObjects + (execAll returnBlock b).get r15) ∧
      ∀ ended, (⟨c.interruptEnd, (execAll returnBlock b).get r2,
        (saved m).mem (c.halInterruptObjects + (execAll returnBlock b).get r15),
        (execAll returnBlock b).get r6, ended⟩ : Call) =
          endCalled c m v (b.get r2) (b.get r6) ended := by
  have entered := search_entered stacked holds room
  have offset : (execAll returnBlock b).get r15 = BitVec.ofNat 32 v <<< 2 := by
    rw [return_r15 entered stacked (conforms _) returned, (found_vector lowest).2]
  have fixed := table_entry_fixed (l := l) tables lowest.bound
    (show c.halInterruptObjects ∈ [_, _, c.halInterruptObjects] by simp)
  rw [offset]
  refine ⟨.inl fixed, fun ended => ?_⟩
  rw [saved_fixed stacked holds room fixed, return_get (by decide) (by decide),
    return_get (by decide) (by decide)]
  rfl

theorem run_pending (disabled : m.pie = false) (transparent : Transparent l nested)
    (run : Run (program c) function nested (handlerCode c) m calls t) :
    ∃ b ended, function (tableEntry m c.halInterruptHandlers v) (isrEntered c m) b ∧
      calls = [isrCalled c m v (b.get r2), endCalled c m v (b.get r2) (b.get r6) ended] := by
  have entered := search_entered stacked holds room
  have still := search_pie (c := c) disabled
  have searched := (handler_iff disabled).mp run
  rw [(found_vector lowest).1] at searched
  have returns := fun b => entered.isr_returns stacked still
    (conforms (isr c (search 33 (prologue c m)).2)) (b := b)
  obtain ⟨b, calls', returned, rfl, after⟩ := run_found still returns searched
  obtain ⟨-, same⟩ := entered.isr_same stacked (conforms _) returned
  obtain ⟨target, call⟩ := isr_called stacked holds room tables lowest b
  obtain ⟨word, second⟩ := returned_values stacked holds room conforms tables lowest returned
  obtain ⟨ended, made⟩ := run_ended stacked holds room conforms (entered.keep same)
    (by rw [pie_quiet return_quiet, (returns b returned).2]) transparent word after
  rw [target] at returned
  exact ⟨b, ended, returned, by rw [call, made, second]⟩

theorem of_pending (disabled : m.pie = false) (total : ∀ target a, ∃ b, function target a b)
    (returned : function (tableEntry m c.halInterruptHandlers v) (isrEntered c m) b) :
    ∃ ended t, Run (program c) function nested (handlerCode c) m
      [isrCalled c m v (b.get r2), endCalled c m v (b.get r2) (b.get r6) ended] t := by
  have entered := search_entered stacked holds room
  obtain ⟨target, call⟩ := isr_called stacked holds room tables lowest b
  rw [← target] at returned
  obtain ⟨back, same⟩ := entered.isr_same stacked (conforms _) returned
  obtain ⟨word, second⟩ := returned_values stacked holds room conforms tables lowest returned
  obtain ⟨ended, t, run⟩ := ends nested stacked holds room conforms (entered.keep same) total word
  have found := of_found returned back run
  rw [call, second] at found
  refine ⟨ended, t, (handler_iff disabled).mpr ?_⟩
  rw [(found_vector lowest).1]
  exact found

end

theorem of_spurious (disabled : m.pie = false) (none : m.ctl .ipending = 0)
    (total : ∀ target a, ∃ b, function target a b)
    (word : l.Kept K (frame m) (c.halInterruptObjects + m.get r15)) :
    ∃ result ended t, Run (program c) function nested (handlerCode c) m
      [⟨c.interruptEnd, result, (saved m).mem (c.halInterruptObjects + m.get r15), frame m,
        ended⟩] t := by
  have entered := search_entered stacked holds room
  have offset : (search 33 (prologue c m)).2.get r15 = m.get r15 := by
    rw [(search_same 33 (prologue c m)).get r15 (by decide), prologue_r15]
  have notFound : (search 33 (prologue c m)).1 = false := by
    rcases search_lowest 32 ((prologue c m).get et).isLt with ⟨-, done⟩ | ⟨w, first, -, -⟩
    · exact done
    · rw [prologue_et, none] at first
      exact absurd first.1 (by simp)
  obtain ⟨ended, t, run⟩ := ends nested stacked holds room conforms entered total
    (by rw [offset]; exact word)
  rw [offset, search_r6] at run
  refine ⟨(search 33 (prologue c m)).2.get r2, ended, t, (handler_iff disabled).mpr ?_⟩
  rw [notFound]
  exact run

end
end

/-- The bit of an ISR's result that asks for its DSR, CYG_ISR_CALL_DSR. -/
def callDsr : Word := 2

structure SameButRegisters (m m' : Machine) : Prop where
  mem : m'.mem = m.mem
  ctl : m'.ctl = m.ctl
  pointer : m'.get sp = m.get sp

/-- What is asked of the handler that is entered at `m`. -/
structure DispatchCorrect (c : Config) (function : Word → Machine → Machine → Prop)
    (nested : Machine → Machine → Prop) (m : Machine) : Prop where
  /-- The ISR of the lowest pending interrupt is called, and then `interrupt_end` with its
      result, its object and the frame. -/
  pending : ∀ v, Lowest (m.ctl .ipending) v → ∀ calls t,
    Run (program c) function nested (handlerCode c) m calls t → ∃ result ended,
      calls = [isrCalled c m v result, endCalled c m v result (frame m) ended]
  /-- With none pending only `interrupt_end` is called, with no DSR to be run and with an
      object that is the same whatever the interrupted code has in its registers. -/
  spurious : m.ctl .ipending = 0 → ∃ result object, result &&& callDsr = 0 ∧
    ∀ m', SameButRegisters m m' → ∀ calls t,
      Run (program c) function nested (handlerCode c) m' calls t →
        ∃ ended, calls = [⟨c.interruptEnd, result, object, frame m, ended⟩]

/-- The ISR that is called returns with r6, the third argument, as it was when it was
    called. -/
def IsrKeepsFrame (c : Config) (function : Word → Machine → Machine → Prop) (m : Machine) : Prop :=
  ∀ v, Lowest (m.ctl .ipending) v → ∀ b,
    function (tableEntry m c.halInterruptHandlers v) (isrEntered c m) b →
      b.get r6 = (isrEntered c m).get r6

theorem isr_entered_r6 (c : Config) (m : Machine) : (isrEntered c m).get r6 = frame m := by
  rw [isrEntered, isrEntry, Machine.link_get _ _ _ (by decide), vector_get (by decide),
    (look_same _).get r6 (by decide), search_r6]

section
variable {c : Config} {l : Layout c} {K : Stack} {m : Machine}
  {function : Word → Machine → Machine → Prop} {nested : Machine → Machine → Prop}

/-- The interrupted code's r15 makes the slot of its r14 in the frame pass for an interrupt
    object. -/
def misleading (c : Config) (m : Machine) (object : Word) : Machine :=
  (m.set r15 (frame m + 16 - c.halInterruptObjects)).set r14 object

theorem misleading_same (object : Word) : SameButRegisters m (misleading c m object) := by
  constructor
  · rw [misleading, Machine.set_mem, Machine.set_mem]
  · rw [misleading, Machine.set_ctl, Machine.set_ctl]
  · rw [misleading, Machine.get_set_ne _ _ (by decide), Machine.get_set_ne _ _ (by decide)]

theorem misleading_address (object : Word) :
    c.halInterruptObjects + (misleading c m object).get r15 = frame m + 16 := by
  rw [misleading, Machine.get_set_ne _ _ (by decide), Machine.get_set_self _ _ (by decide),
    BitVec.add_comm, BitVec.sub_add_cancel]

theorem spurious_object (stacked : l.Stacks K) (holds : K.Holds (m.get sp)) (room : l.Room m)
    (conforms : ∀ target, Conforms l (function target)) (total : ∀ target a, ∃ b, function target a b)
    (disabled : m.pie = false) (none : m.ctl .ipending = 0) (object : Word) :
    ∃ result ended t, Run (program c) function nested (handlerCode c) (misleading c m object)
      [⟨c.interruptEnd, result, object, frame m, ended⟩] t := by
  have same := misleading_same (c := c) (m := m) object
  have sameFrame : frame (misleading c m object) = frame m := by
    rw [frame, same.pointer, frame]
  have slot : (r14, (16 : Word)) ∈ saveSlots := by decide
  have word := slot_kept stacked holds room slot
  have value := saved_slot (misleading c m object) slot
  rw [sameFrame, savedValue, if_neg (by decide), misleading,
    Machine.get_set_self _ _ (by decide), ← misleading] at value
  have runs : ∃ result ended t, Run (program c) function nested (handlerCode c)
      (misleading c m object) [⟨c.interruptEnd, result, (saved (misleading c m object)).mem
        (c.halInterruptObjects + (misleading c m object).get r15), frame (misleading c m object),
        ended⟩] t := by
    refine of_spurious stacked ?_ ?_ conforms ?_ ?_ total ?_
    · rwa [same.pointer]
    · unfold Layout.Room
      rwa [same.pointer]
    · rw [Machine.pie, same.ctl]
      exact disabled
    · rw [same.ctl, none]
    · rw [misleading_address, sameFrame]
      exact word
  rwa [misleading_address, value, sameFrame] at runs

theorem not_correct_spurious (stacked : l.Stacks K) (holds : K.Holds (m.get sp)) (room : l.Room m)
    (conforms : ∀ target, Conforms l (function target)) (total : ∀ target a, ∃ b, function target a b)
    (disabled : m.pie = false) (none : m.ctl .ipending = 0) :
    ¬ DispatchCorrect c function nested m := by
  intro correct
  obtain ⟨result, object, -, passed⟩ := correct.spurious none
  have all : ∀ other, other = object := by
    intro other
    obtain ⟨result', ended, t, run⟩ :=
      spurious_object stacked holds room conforms total disabled none other
    obtain ⟨ended', calls⟩ := passed _ (misleading_same other) _ t run
    exact congrArg Call.arg5 (List.cons.inj calls).1
  exact absurd ((all 0).trans (all 1).symm) (by decide)

theorem correct_keeps (stacked : l.Stacks K) (holds : K.Holds (m.get sp)) (room : l.Room m)
    (tables : ∀ a, inTables c a → l.fixed a) (conforms : ∀ target, Conforms l (function target))
    (disabled : m.pie = false) (total : ∀ target a, ∃ b, function target a b)
    (correct : DispatchCorrect c function nested m) : IsrKeepsFrame c function m := by
  intro v lowest b returned
  obtain ⟨ended, t, run⟩ :=
    of_pending stacked holds room conforms tables lowest disabled total returned
  obtain ⟨result, ended', calls⟩ := correct.pending v lowest _ t run
  have third := congrArg Call.arg6 (List.cons.inj (List.cons.inj calls).2).1
  simp only [endCalled] at third
  rw [isr_entered_r6, third]

/-- The handler does what is asked exactly when an interrupt is pending and its ISR happens
    to leave r6 alone. -/
theorem dispatch_correct_iff (stacked : l.Stacks K) (holds : K.Holds (m.get sp)) (room : l.Room m)
    (disabled : m.pie = false) (tables : ∀ a, inTables c a → l.fixed a)
    (transparent : Transparent l nested) (conforms : ∀ target, Conforms l (function target))
    (total : ∀ target a, ∃ b, function target a b) :
    DispatchCorrect c function nested m ↔ m.ctl .ipending ≠ 0 ∧ IsrKeepsFrame c function m := by
  constructor
  · intro correct
    constructor
    · intro none
      exact not_correct_spurious stacked holds room conforms total disabled none correct
    · exact correct_keeps stacked holds room tables conforms disabled total correct
  · rintro ⟨some, keeps⟩
    constructor
    · intro v lowest calls t run
      obtain ⟨b, ended, returned, rfl⟩ := run_pending stacked holds room conforms tables lowest
        disabled transparent run
      rw [keeps v lowest b returned, isr_entered_r6]
      exact ⟨b.get r2, ended, rfl⟩
    · intro none
      exact absurd none some

end

theorem sample_tables_above (a : Word) (word : inTables sampleConfig a) : 0x4100 ≤ a.toNat := by
  obtain ⟨v, bound, table, known, rfl⟩ := word
  have low : 0x4100 ≤ table.toNat ∧ table.toNat ≤ 0x4300 := by
    simp only [sampleConfig, List.mem_cons, List.not_mem_nil, or_false] at known
    rcases known with rfl | rfl | rfl <;> decide
  simp only [BitVec.toNat_add, BitVec.toNat_shiftLeft, BitVec.toNat_ofNat, Nat.shiftLeft_eq]
  omega

def tableLayout : Layout sampleConfig where
  threads := sampleLayout.threads
  shared := sampleLayout.shared
  fixed := inTables sampleConfig
  below := sampleLayout.below
  roomy := sampleLayout.roomy
  base := sampleLayout.base
  data := by
    intro K stack
    obtain ⟨state, lock, -⟩ := sampleLayout.data K stack
    refine ⟨state, lock, fun a has word => ?_⟩
    have above := sample_tables_above a word
    have inside := has.2
    rcases stack with rfl | ⟨-, rfl⟩
    · exact absurd inside (by change ¬ a.toNat < 0x2000; omega)
    · exact absurd inside (by change ¬ a.toNat < 0x3000; omega)
  constant :=
    ⟨fun word => absurd (sample_tables_above _ word) (by decide),
      fun word => absurd (sample_tables_above _ word) (by decide)⟩

def interruptedBy (p : Word) : Machine := (sampleMachine.setCtl .ipending p).enter 0x5000 0

theorem interrupted_room (p : Word) : tableLayout.Room (interruptedBy p) := by
  have pointer : (interruptedBy p).get sp = 0x1f00 := rfl
  unfold Layout.Room
  rw [pointer]
  rintro K (rfl | ⟨-, rfl⟩) inside
  · exact ⟨by decide, fun _ _ _ => not_false⟩
  · exact absurd inside.1 (by decide)

theorem interrupted_holds (p : Word) : sampleStack.Holds ((interruptedBy p).get sp) := by
  change sampleStack.Holds 0x1f00
  decide

theorem nothing_transparent {c : Config} (l : Layout c) : Transparent l (fun _ _ => False) :=
  fun _ _ _ _ _ handled => handled.elim

theorem uninterrupted_r6 {target : Word} {a b : Machine}
    (returned : interruptible (fun _ _ => False) target a b) : b.get r6 = a.get r6 := by
  rcases returned with ⟨a', rfl | ⟨-, -, handled⟩, rfl⟩
  · exact Machine.get_set_ne (r := r2) (q := r6) a' 0 (by decide)
  · exact handled.elim

theorem dispatch_correct_sample :
    DispatchCorrect sampleConfig (interruptible fun _ _ => False) (fun _ _ => False)
      (interruptedBy 12) := by
  have quiet := nothing_transparent tableLayout
  refine (dispatch_correct_iff (l := tableLayout) (K := sampleStack) (.inl rfl)
    (interrupted_holds 12) (interrupted_room 12) (by decide) (fun _ word => word) quiet
    (interruptible_conforms tableLayout _ quiet) (interruptible_total _)).mpr ⟨by decide, ?_⟩
  intro v lowest b returned
  exact uninterrupted_r6 returned

def scribbling (_ : Word) (a b : Machine) : Prop :=
  b = { (a.set r2 0).set r6 0 with pc := a.get ra }

theorem scribbling_conforms {c : Config} (l : Layout c) (target : Word) :
    Conforms l (scribbling target) := by
  rintro K a b stacked holds rfl
  have same := ((Same.refl calleeSaved (l.Kept K (a.get sp)) a).set_hidden (r := r2) (by decide)
    0).set_hidden (r := r6) (by decide) 0
  exact ⟨rfl, same.get, same.mem, same.status⟩

theorem scribbling_r6 {target : Word} {a b : Machine} (returned : scribbling target a b) :
    b.get r6 = 0 := by
  subst returned
  exact Machine.get_set_self (r := r6) (a.set r2 0) 0 (by decide)

theorem frame_lost : ¬ DispatchCorrect sampleConfig scribbling (fun _ _ => False) (interruptedBy 12) ∧
    ¬ DispatchCorrect sampleConfig scribbling (fun _ _ => False) (interruptedBy 0) := by
  have total : ∀ target a, ∃ b, scribbling target a b := fun _ _ => ⟨_, rfl⟩
  constructor
  · intro correct
    have keeps := correct_keeps (l := tableLayout) (K := sampleStack) (.inl rfl)
      (interrupted_holds 12) (interrupted_room 12) (fun _ word => word)
      (scribbling_conforms tableLayout) (by decide) total correct
    have lowest : Lowest ((interruptedBy 12).ctl .ipending) 2 := by
      constructor <;> decide
    obtain ⟨b, returned⟩ := total (tableEntry (interruptedBy 12)
      sampleConfig.halInterruptHandlers 2) (isrEntered sampleConfig (interruptedBy 12))
    have kept := keeps 2 lowest b returned
    rw [isr_entered_r6, scribbling_r6 returned] at kept
    exact absurd kept (by decide)
  · exact not_correct_spurious (l := tableLayout) (K := sampleStack) (.inl rfl)
      (interrupted_holds 0) (interrupted_room 0) (scribbling_conforms tableLayout) total (by decide)
      rfl

end InterruptDispatch
