import Mathlib.Data.BitVec
import Mathlib.Data.List.Basic
import Mathlib.Data.List.GetD

/- A linear feedback shift register that takes one bit at a time: the remainder of a polynomial
   division. The polynomial is `g`, without its leading term. -/
namespace FeedbackRegister
variable {w : Nat} (g : BitVec w)

def feed (s : BitVec w) (b : Bool) : BitVec w :=
  if (s.getMsbD 0 ^^ b) then s <<< 1 ^^^ g else s <<< 1

def run (s : BitVec w) (bits : List Bool) : BitVec w := bits.foldl (feed g) s

variable {g} {s t : BitVec w} {b c : Bool} {bits : List Bool}

theorem feed_bit (i : Nat) :
    (feed g s b).getMsbD i = (s.getMsbD (i + 1) ^^ ((s.getMsbD 0 ^^ b) && g.getMsbD i)) := by
  have shifted : (s <<< 1).getMsbD i = s.getMsbD (i + 1) := by
    rw [BitVec.getMsbD_shiftLeft, Nat.add_comm]
  unfold feed
  split_ifs with carry
  · rw [BitVec.getMsbD_xor, shifted, carry, Bool.true_and]
  · rw [shifted, Bool.eq_false_iff.mpr carry, Bool.false_and, Bool.xor_false]

theorem bits_eq (same : ∀ i, s.getMsbD i = t.getMsbD i) : s = t := by
  apply BitVec.eq_of_getMsbD_eq
  intro i _
  exact same i

theorem feed_xor : feed g (s ^^^ t) (b ^^ c) = feed g s b ^^^ feed g t c := by
  apply bits_eq
  intro i
  rw [feed_bit, BitVec.getMsbD_xor, BitVec.getMsbD_xor, BitVec.getMsbD_xor, feed_bit, feed_bit]
  cases s.getMsbD 0 <;> cases t.getMsbD 0 <;> cases b <;> cases c <;> cases g.getMsbD i <;>
    cases s.getMsbD (i + 1) <;> cases t.getMsbD (i + 1) <;> rfl

theorem run_append (more : List Bool) : run g s (bits ++ more) = run g (run g s bits) more :=
  List.foldl_append

/-- The register is linear in its content and in what it takes. -/
theorem run_xor {others : List Bool} (lengths : bits.length = others.length) :
    run g (s ^^^ t) (List.zipWith xor bits others) = run g s bits ^^^ run g t others := by
  induction bits generalizing s t others with
  | nil =>
    have none_left : others = [] := List.length_eq_zero_iff.mp lengths.symm
    subst none_left
    rfl
  | cons b bits ih =>
    cases others with
    | nil => cases lengths
    | cons c others =>
      have rest : bits.length = others.length := Nat.succ.inj lengths
      have stepped := ih (s := feed g s b) (t := feed g t c) rest
      rw [← feed_xor] at stepped
      exact stepped

theorem wide (odd : g.getMsbD (w - 1) = true) : 0 < w := by
  apply Nat.pos_of_ne_zero
  intro empty
  subst empty
  simp at odd

/-- A polynomial with a constant term loses nothing. -/
theorem feed_injective (odd : g.getMsbD (w - 1) = true) (same : feed g s b = feed g t b) :
    s = t := by
  have room := wide odd
  have bitwise : ∀ i, (s.getMsbD (i + 1) ^^ ((s.getMsbD 0 ^^ b) && g.getMsbD i)) =
      (t.getMsbD (i + 1) ^^ ((t.getMsbD 0 ^^ b) && g.getMsbD i)) := by
    intro i
    rw [← feed_bit, ← feed_bit, same]
  have first : s.getMsbD 0 = t.getMsbD 0 := by
    have last := bitwise (w - 1)
    rw [BitVec.getMsbD_of_ge s _ (by omega), BitVec.getMsbD_of_ge t _ (by omega), odd] at last
    simpa using last
  apply bits_eq
  intro i
  cases i with
  | zero => exact first
  | succ i =>
    have here := bitwise i
    rw [first] at here
    simpa using here

theorem run_injective (odd : g.getMsbD (w - 1) = true) (same : run g s bits = run g t bits) :
    s = t := by
  induction bits generalizing s t with
  | nil => exact same
  | cons b bits ih => exact feed_injective odd (ih same)

/-- The register is empty after at most `w` bits exactly if these were its content. -/
theorem run_zero_iff (odd : g.getMsbD (w - 1) = true) (short : bits.length ≤ w) :
    run g s bits = 0#w ↔ ∀ i, s.getMsbD i = bits.getD i false := by
  have room := wide odd
  induction bits generalizing s with
  | nil =>
    constructor
    · intro empty i
      have is_zero : s = 0#w := empty
      rw [is_zero, BitVec.getMsbD_zero]
      rfl
    · intro all
      apply bits_eq
      intro i
      rw [BitVec.getMsbD_zero]
      exact all i
  | cons b bits ih =>
    have less : bits.length + 1 ≤ w := short
    have rest := ih (s := feed g s b) (by omega)
    constructor
    · intro empty
      have fed := rest.mp empty
      -- the last bit of the content is clear, so nothing was fed back
      have same : s.getMsbD 0 = b := by
        have last := fed (w - 1)
        rw [feed_bit, BitVec.getMsbD_of_ge s _ (by omega), odd,
          List.getD_eq_default _ _ (by omega)] at last
        simpa using last
      intro i
      cases i with
      | zero => exact same
      | succ i =>
        have here := fed i
        rw [feed_bit, same, Bool.xor_self, Bool.false_and, Bool.xor_false] at here
        exact here
    · intro all
      apply rest.mpr
      intro i
      have same : s.getMsbD 0 = b := all 0
      rw [feed_bit, same, Bool.xor_self, Bool.false_and, Bool.xor_false]
      exact all (i + 1)

theorem zipped_bit {others : List Bool} (lengths : bits.length = others.length) (i : Nat) :
    (List.zipWith xor bits others).getD i false = (bits.getD i false ^^ others.getD i false) := by
  induction bits generalizing others i with
  | nil =>
    have none_left : others = [] := List.length_eq_zero_iff.mp lengths.symm
    subst none_left
    rfl
  | cons b bits ih =>
    cases others with
    | nil => cases lengths
    | cons c others =>
      cases i with
      | zero => rfl
      | succ i => exact ih (Nat.succ.inj lengths) i

theorem eq_of_bits {others : List Bool} (lengths : bits.length = others.length)
    (same : ∀ i, bits.getD i false = others.getD i false) : bits = others := by
  apply List.ext_getElem lengths
  intro i inside inside'
  have here := same i
  rwa [List.getD_eq_getElem _ _ inside, List.getD_eq_getElem _ _ inside'] at here

/-- Two messages that differ only within `w` consecutive bits do differ in the remainder. -/
theorem burst_detected (odd : g.getMsbD (w - 1) = true) {before after others : List Bool}
    (lengths : bits.length = others.length) (short : bits.length ≤ w)
    (same : run g s (before ++ bits ++ after) = run g s (before ++ others ++ after)) :
    bits = others := by
  rw [run_append, run_append, run_append, run_append] at same
  have middle := run_injective odd same
  have difference : run g 0#w (List.zipWith xor bits others) = 0#w := by
    have both := run_xor (g := g) (s := run g s before) (t := run g s before) lengths
    rw [middle, BitVec.xor_self, BitVec.xor_self] at both
    exact both
  have short' : (List.zipWith xor bits others).length ≤ w := by
    rw [List.length_zipWith]
    omega
  have none_differs := (run_zero_iff odd short').mp difference
  apply eq_of_bits lengths
  intro i
  have here := none_differs i
  rw [zipped_bit lengths, BitVec.getMsbD_zero] at here
  simpa using here

/-- What is left of any message with its complemented remainder behind it. -/
def residue (g : BitVec w) : BitVec w := run g 0#w (List.replicate w true)

def remainderBits (s : BitVec w) : List Bool := (List.range w).map fun i => !s.getMsbD i

theorem remainderBits_length : (remainderBits s).length = w := by
  simp [remainderBits]

theorem remainderBits_bit {i : Nat} (inside : i < w) :
    (remainderBits s).getD i false = !s.getMsbD i := by
  simp [remainderBits, inside]

theorem residue_iff (odd : g.getMsbD (w - 1) = true) (length : bits.length = w) :
    run g s bits = residue g ↔ bits = remainderBits s := by
  have lengths : bits.length = (List.replicate w true).length := by
    rw [length, List.length_replicate]
  have sum : run g s (List.zipWith xor bits (List.replicate w true)) =
      run g s bits ^^^ residue g := by
    have both := run_xor (g := g) (s := s) (t := 0#w) lengths
    rw [BitVec.xor_zero] at both
    exact both
  have short : (List.zipWith xor bits (List.replicate w true)).length ≤ w := by
    rw [List.length_zipWith]
    omega
  have flipped : ∀ i < w,
      (List.zipWith xor bits (List.replicate w true)).getD i false = !bits.getD i false := by
    intro i inside
    have ones : (List.replicate w true).getD i false = true := by
      rw [List.getD_eq_getElem _ _ (by simpa using inside), List.getElem_replicate]
    rw [zipped_bit lengths, ones, Bool.xor_true]
  rw [← BitVec.xor_eq_zero_iff, ← sum, run_zero_iff odd short]
  constructor
  · intro all
    apply eq_of_bits
    · rw [length, remainderBits_length]
    intro i
    by_cases inside : i < w
    · rw [remainderBits_bit inside, all i, flipped i inside, Bool.not_not]
    · rw [List.getD_eq_default _ _ (by omega), List.getD_eq_default _ _ (by
        rw [remainderBits_length]
        omega)]
  · intro same i
    by_cases inside : i < w
    · rw [flipped i inside, same, remainderBits_bit inside, Bool.not_not]
    · rw [BitVec.getMsbD_of_ge s i (by omega), List.getD_eq_default _ _ (by omega)]

end FeedbackRegister
