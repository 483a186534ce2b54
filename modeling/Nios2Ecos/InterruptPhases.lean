import Nios2Ecos.InterruptHandler

/- What the handler does before it looks for the interrupt, with interrupts disabled. -/
namespace InterruptHandler
open Nios2Machine

/-- The registers the handler itself neither saves nor changes. -/
def untouched (r : Reg) : Prop := r16 ≤ r ∧ r ≤ r23 ∨ r = fp

instance : DecidablePred untouched := fun r =>
  inferInstanceAs (Decidable (r16 ≤ r ∧ r ≤ r23 ∨ r = fp))

theorem untouched_callee : ∀ r, untouched r → calleeSaved r := by decide

section
variable (c : Config) (m : Machine)

def saved : Machine := execAll saveBlock m

def pending : Machine := execAll (pendingBlock c) (saved m)

def switched : Machine :=
  if c.useInterruptStack then
    let t := execAll (testBlock c) (pending c m)
    if (t.get r2).toNat < (t.get sp).toNat then t else execAll (baseBlock c) t
  else pending c m

def pushed : Machine :=
  if c.useInterruptStack then execAll pushBlock (switched c m) else switched c m

/-- The machine that starts to look for the interrupt. -/
def prologue : Machine := execAll (lockBlock c) (pushed c m)

end

section
variable {c : Config} {m t : Machine} {function : Word → Machine → Machine → Prop}
  {nested : Machine → Machine → Prop} {calls : List Call}

theorem base_quiet : ∀ i ∈ baseBlock c, i.quiet = true := by
  simp [baseBlock, loadAddress, Instr.quiet, Instr.straight]

theorem save_quiet : ∀ i ∈ saveBlock, i.quiet = true := by
  simp [saveBlock, stores, saveSlots, Instr.quiet, Instr.straight]

theorem pending_quiet : ∀ i ∈ pendingBlock c, i.quiet = true := by
  unfold pendingBlock
  split <;> simp [loadAddress, Instr.mov, Instr.quiet, Instr.straight]

theorem test_quiet : ∀ i ∈ testBlock c, i.quiet = true := by
  simp [testBlock, loadAddress, Instr.mov, Instr.quiet, Instr.straight]

theorem push_quiet : ∀ i ∈ pushBlock, i.quiet = true := by
  simp [pushBlock, Instr.quiet, Instr.straight]

theorem lock_quiet : ∀ i ∈ lockBlock c, i.quiet = true := by
  unfold lockBlock
  split <;> simp [loadAddress, Instr.mov, Instr.quiet, Instr.straight]

theorem switched_pie : (switched c m).pie = m.pie := by
  have before : (pending c m).pie = m.pie := by
    rw [pending, pie_quiet pending_quiet, saved, pie_quiet save_quiet]
  unfold switched
  split
  · simp only
    split
    · rw [pie_quiet test_quiet, before]
    · rw [pie_quiet base_quiet, pie_quiet test_quiet, before]
  · exact before

theorem prologue_pie : (prologue c m).pie = m.pie := by
  rw [prologue, pie_quiet lock_quiet, pushed]
  split
  · rw [pie_quiet push_quiet, switched_pie]
  · exact switched_pie

/-- With interrupts disabled the handler comes to the stack it goes on with. -/
theorem switched_iff (disabled : m.pie = false) :
    Run (program c) function nested (handlerCode c) m calls t ↔
      Run (program c) function nested (stackReadyCode c) (switched c m) calls t := by
  have savedOff : (saved m).pie = false := by rw [saved, pie_quiet save_quiet, disabled]
  have off : (pending c m).pie = false := by rw [pending, pie_quiet pending_quiet, savedOff]
  have start : Run (program c) function nested (handlerCode c) m calls t ↔
      Run (program c) function nested (switchCode c) (pending c m) calls t :=
    (Run.block_iff saveBlock List.suffix_rfl save_quiet disabled).trans
      (Run.block_iff (pendingBlock c) (List.suffix_append _ _) pending_quiet savedOff)
  rw [start]
  have placed := switch_placed c
  unfold switchCode at placed ⊢
  unfold switched
  split
  · rename_i stack
    rw [if_pos stack] at placed
    have testOff : (execAll (testBlock c) (pending c m)).pie = false := by
      rw [pie_quiet test_quiet, off]
    have afterTest := suffix_append (testBlock c) placed
    rw [Run.block_iff (testBlock c) placed test_quiet off, Run.step_iff afterTest testOff rfl]
    simp only
    split
    · exact Iff.rfl
    · exact Run.block_iff (baseBlock c) (suffix_append [_] afterTest) base_quiet testOff
  · exact Iff.rfl

theorem prologue_iff (disabled : m.pie = false) :
    Run (program c) function nested (handlerCode c) m calls t ↔
      Run (program c) function nested (searchCode c) (prologue c m) calls t := by
  have off : (switched c m).pie = false := by rw [switched_pie, disabled]
  have placed := stack_ready_placed c
  rw [switched_iff disabled]
  unfold stackReadyCode at placed ⊢
  unfold prologue pushed
  split
  · rename_i stack
    rw [if_pos stack] at placed
    rw [Run.block_iff pushBlock placed push_quiet off]
    exact Run.block_iff (lockBlock c) (suffix_append pushBlock placed) lock_quiet
      (by rw [pie_quiet push_quiet, off])
  · rename_i stack
    rw [if_neg stack] at placed
    exact Run.block_iff (lockBlock c) placed lock_quiet off

end

def testBit : List (Instr Label) := [.andi r3 et 1]

def nextBit : List (Instr Label) := [.addi r4 r4 1, .srli et et 1]

/-- The search through the pending interrupts, and whether it finds one. -/
def search : Nat → Machine → Bool × Machine
  | 0, x => (false, x)
  | n + 1, x =>
    let a := execAll testBit x
    if a.get r3 ≠ a.get r0 then (true, a)
    else
      let b := execAll nextBit a
      if b.get r0 ≠ b.get et then search n b else (false, b)

section
variable {c : Config} {x t : Machine} {function : Word → Machine → Machine → Prop}
  {nested : Machine → Machine → Prop} {calls : List Call}

theorem test_bit_quiet : ∀ i ∈ testBit, i.quiet = true := by
  simp [testBit, Instr.quiet, Instr.straight]

theorem next_bit_quiet : ∀ i ∈ nextBit, i.quiet = true := by
  simp [nextBit, Instr.quiet, Instr.straight]

theorem next_bit_et (x : Machine) :
    (execAll nextBit (execAll testBit x)).get et = x.get et >>> 1 := by
  simp (disch := decide) [testBit, nextBit, Instr.exec, Machine.get_set_self, Machine.get_set_ne]

theorem test_bit_r3 (x : Machine) : (execAll testBit x).get r3 = x.get et &&& 1 := by
  simp (disch := decide) [testBit, Instr.exec, Machine.get_set_self]

def afterSearch (c : Config) (found : Bool) : List (Instr Label) :=
  if found then foundCode c else doneCode c

theorem pass_found (disabled : x.pie = false)
    (bit : (execAll testBit x).get r3 ≠ (execAll testBit x).get r0) :
    Run (program c) function nested (searchCode c) x calls t ↔
      Run (program c) function nested (foundCode c) (execAll testBit x) calls t :=
  (Run.block_iff testBit (search_placed c) test_bit_quiet disabled).trans
    (Run.step_iff (suffix_append testBit (search_placed c))
      (by rw [pie_quiet test_bit_quiet, disabled]) (next_bne_taken bit))

/-- A pass that finds nothing, by whether there are bits left. -/
theorem pass_next (disabled : x.pie = false)
    (bit : (execAll testBit x).get r3 = (execAll testBit x).get r0) :
    Run (program c) function nested (searchCode c) x calls t ↔
      Run (program c) function nested
        (if (execAll nextBit (execAll testBit x)).get r0 ≠
          (execAll nextBit (execAll testBit x)).get et then searchCode c else doneCode c)
        (execAll nextBit (execAll testBit x)) calls t := by
  have testOff : (execAll testBit x).pie = false := by rw [pie_quiet test_bit_quiet, disabled]
  have nextOff : (execAll nextBit (execAll testBit x)).pie = false := by
    rw [pie_quiet next_bit_quiet, testOff]
  have afterTest := suffix_append testBit (search_placed c)
  have afterNext := suffix_append nextBit (suffix_append [_] afterTest)
  refine (Run.block_iff testBit (search_placed c) test_bit_quiet disabled).trans ?_
  refine (Run.step_iff afterTest testOff (next_bne_passed bit)).trans ?_
  refine (Run.block_iff nextBit (suffix_append [_] afterTest) next_bit_quiet testOff).trans ?_
  split
  · rename_i more
    exact Run.step_iff afterNext nextOff (next_bne_taken more)
  · rename_i last
    exact (Run.step_iff afterNext nextOff (next_bne_passed (not_not.mp last))).trans
      (Run.step_iff (suffix_append [_] afterNext) nextOff rfl)

theorem next_bit_bound {n : Nat} (bound : (x.get et).toNat < 2 ^ (n + 1)) :
    ((execAll nextBit (execAll testBit x)).get et).toNat < 2 ^ n := by
  rw [next_bit_et, BitVec.toNat_ushiftRight, Nat.shiftRight_eq_div_pow]
  rw [Nat.pow_succ] at bound
  omega

theorem next_bit_pie : (execAll nextBit (execAll testBit x)).pie = x.pie := by
  rw [pie_quiet next_bit_quiet, pie_quiet test_bit_quiet]

section
variable (n : Nat) (x)

theorem search_found (bit : (execAll testBit x).get r3 ≠ (execAll testBit x).get r0) :
    search (n + 1) x = (true, execAll testBit x) :=
  if_pos bit

theorem search_again (bit : (execAll testBit x).get r3 = (execAll testBit x).get r0)
    (more : (execAll nextBit (execAll testBit x)).get r0 ≠
      (execAll nextBit (execAll testBit x)).get et) :
    search (n + 1) x = search n (execAll nextBit (execAll testBit x)) :=
  (if_neg (not_not.mpr bit)).trans (if_pos more)

theorem search_done (bit : (execAll testBit x).get r3 = (execAll testBit x).get r0)
    (more : (execAll nextBit (execAll testBit x)).get r0 =
      (execAll nextBit (execAll testBit x)).get et) :
    search (n + 1) x = (false, execAll nextBit (execAll testBit x)) :=
  (if_neg (not_not.mpr bit)).trans (if_neg (not_not.mpr more))

end

theorem last_bit (bound : (x.get et).toNat < 2 ^ 0) :
    (execAll nextBit (execAll testBit x)).get r0 = (execAll nextBit (execAll testBit x)).get et := by
  have zero : x.get et = 0 := BitVec.eq_of_toNat_eq (by simpa using bound)
  rw [next_bit_et, zero]
  rfl

/-- The loop ends, as the pending interrupts are shifted out. -/
theorem search_iff (n : Nat) (bound : (x.get et).toNat < 2 ^ n) (disabled : x.pie = false) :
    Run (program c) function nested (searchCode c) x calls t ↔
      Run (program c) function nested (afterSearch c (search (n + 1) x).1) (search (n + 1) x).2
        calls t := by
  induction n generalizing x with
  | zero =>
    by_cases bit : (execAll testBit x).get r3 = (execAll testBit x).get r0
    · rw [search_done x 0 bit (last_bit bound), pass_next disabled bit,
        if_neg (not_not.mpr (last_bit bound))]
      exact Iff.rfl
    · rw [search_found x 0 bit]
      exact pass_found disabled bit
  | succ n ih =>
    by_cases bit : (execAll testBit x).get r3 = (execAll testBit x).get r0
    · rw [pass_next disabled bit]
      by_cases more : (execAll nextBit (execAll testBit x)).get r0 =
          (execAll nextBit (execAll testBit x)).get et
      · rw [search_done x (n + 1) bit more, if_neg (not_not.mpr more)]
        exact Iff.rfl
      · rw [search_again x (n + 1) bit more, if_pos more]
        exact ih (next_bit_bound bound) (by rw [next_bit_pie, disabled])
    · rw [search_found x (n + 1) bit]
      exact pass_found disabled bit

/-- With interrupts disabled the handler comes to where its search has ended. -/
theorem handler_iff {m : Machine} (disabled : m.pie = false) :
    Run (program c) function nested (handlerCode c) m calls t ↔
      Run (program c) function nested (afterSearch c (search 33 (prologue c m)).1)
        (search 33 (prologue c m)).2 calls t :=
  (prologue_iff disabled).trans
    (search_iff 32 ((prologue c m).get et).isLt (by rw [prologue_pie, disabled]))

end
end InterruptHandler
