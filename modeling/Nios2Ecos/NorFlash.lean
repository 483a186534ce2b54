import Mathlib.Data.List.Basic
import Mathlib.Data.List.GetD

/- NOR flash memory: erasing sets whole blocks to 0xFF and programming only clears
   bits. Programming piece by piece, each piece filled up with 0xFF, is programming
   everything at once. -/
namespace NorFlash

abbrev Content := Nat → UInt8

/-- Blocks of equal size from `base` on. A block is a whole number of 32-bit words. -/
structure Geometry where
  base : Nat
  blockSize : Nat
  positive : 0 < blockSize
  words : 4 ∣ blockSize

/-- The number of the block that holds an address. -/
def Geometry.block (g : Geometry) (x : Nat) : Nat := (x - g.base) / g.blockSize

/-- `x` lies in one of the blocks that overlap `[a, a + n)`. -/
def Geometry.Overlaps (g : Geometry) (a n x : Nat) : Prop :=
  0 < n ∧ g.base ≤ x ∧ g.block a ≤ g.block x ∧ g.block x ≤ g.block (a + n - 1)

instance (g : Geometry) (a n x : Nat) : Decidable (g.Overlaps a n x) :=
  inferInstanceAs (Decidable (_ ∧ _))

def erase (g : Geometry) (a n : Nat) (f : Content) : Content :=
  fun x => if g.Overlaps a n x then 0xFF else f x

/-- Outside of the data the flash is programmed with 0xFF, which keeps it. -/
def program (a : Nat) (data : List UInt8) (f : Content) : Content :=
  fun x => if a ≤ x then f x &&& data.getD (x - a) 0xFF else f x

def blank (a n : Nat) (f : Content) : Content :=
  fun x => if a ≤ x ∧ x < a + n then 0xFF else f x

theorem blank_none (a : Nat) (f : Content) : blank a 0 f = f := by
  funext x
  exact if_neg (by omega)

theorem blank_append (a m n : Nat) (f : Content) :
    blank (a + m) n (blank a m f) = blank a (m + n) f := by
  funext x
  unfold blank
  by_cases inside : a ≤ x ∧ x < a + (m + n)
  · rw [if_pos inside]
    by_cases later : a + m ≤ x ∧ x < a + m + n
    · rw [if_pos later]
    · rw [if_neg later, if_pos (by omega)]
  · rw [if_neg inside, if_neg (by omega), if_neg (by omega)]

theorem blank_same {a n : Nat} {f : Content} (same : ∀ x, a ≤ x → x < a + n → f x = 0xFF) :
    blank a n f = f := by
  funext x
  unfold blank
  split
  · rename_i inside
    exact (same x inside.1 inside.2).symm
  · rfl

theorem and_erased (b : UInt8) : b &&& 0xFF = b := by
  apply UInt8.toBitVec_inj.mp
  exact BitVec.and_allOnes

theorem erased_and (b : UInt8) : 0xFF &&& b = b := by
  rw [UInt8.and_comm, and_erased]

theorem program_nil (a : Nat) (f : Content) : program a [] f = f := by
  funext x
  simp [program, and_erased]

theorem program_outside {a x : Nat} {data : List UInt8} (f : Content)
    (outside : x < a ∨ a + data.length ≤ x) : program a data f x = f x := by
  unfold program
  split
  · rw [List.getD_eq_default _ _ (by omega), and_erased]
  · rfl

theorem program_append (a : Nat) (xs ys : List UInt8) (f : Content) :
    program a (xs ++ ys) f = program (a + xs.length) ys (program a xs f) := by
  funext x
  unfold program
  by_cases before : a ≤ x
  · simp only [if_pos before]
    by_cases later : a + xs.length ≤ x
    · have here : x - a = xs.length + (x - (a + xs.length)) := by omega
      rw [if_pos later, here, List.getD_append_right _ _ _ _ (by omega),
        List.getD_eq_default xs _ (by omega), and_erased]
      simp
    · rw [if_neg later, List.getD_append _ _ _ _ (by omega)]
  · have outside : ¬ a + xs.length ≤ x := by omega
    simp only [if_neg before, if_neg outside]

theorem program_fill (a k : Nat) (f : Content) :
    program a (List.replicate k 0xFF) f = f := by
  funext x
  unfold program
  split
  · rw [List.getD_eq_getElem?_getD, List.getElem?_getD_replicate_default_eq, and_erased]
  · rfl

theorem program_filled (a : Nat) (data : List UInt8) (k : Nat) (f : Content) :
    program a (data ++ List.replicate k 0xFF) f = program a data f := by
  rw [program_append, program_fill]

theorem program_same {a : Nat} {data : List UInt8} {f : Content}
    (same : ∀ i < data.length, f (a + i) = data.getD i 0xFF) : program a data f = f := by
  funext x
  by_cases inside : a ≤ x ∧ x < a + data.length
  · have here := same (x - a) (by omega)
    rw [Nat.add_sub_cancel' inside.1] at here
    rw [program, if_pos inside.1, ← here, UInt8.and_self]
  · exact program_outside f (by omega)

theorem overlaps_of_mem (g : Geometry) {a n x : Nat} (above : g.base ≤ a) (lower : a ≤ x)
    (upper : x < a + n) : g.Overlaps a n x := by
  refine ⟨by omega, by omega, ?_, ?_⟩
  · exact Nat.div_le_div_right (by omega)
  · exact Nat.div_le_div_right (by omega)

/-- A range of whole blocks is not left by erasing inside it. -/
theorem overlaps_inside (g : Geometry) {start length n x : Nat} (aligned : g.blockSize ∣ start)
    (whole : g.blockSize ∣ length) (fits : n ≤ length) (h : g.Overlaps (g.base + start) n x) :
    g.base + start ≤ x ∧ x < g.base + start + length := by
  obtain ⟨some, above, first, last⟩ := h
  obtain ⟨s, rfl⟩ := aligned
  obtain ⟨l, rfl⟩ := whole
  have pos := g.positive
  unfold Geometry.block at first last
  rw [Nat.add_sub_cancel_left, Nat.mul_div_cancel_left s pos] at first
  have low : g.blockSize * s ≤ x - g.base := by
    rw [Nat.mul_comm]
    exact (Nat.le_div_iff_mul_le pos).mp first
  have ends : (g.base + g.blockSize * s + n - 1 - g.base) / g.blockSize < s + l := by
    apply (Nat.div_lt_iff_lt_mul pos).mpr
    rw [Nat.add_mul, Nat.mul_comm s, Nat.mul_comm l]
    omega
  have high : x - g.base < (s + l) * g.blockSize :=
    (Nat.div_lt_iff_lt_mul pos).mp (Nat.lt_of_le_of_lt last ends)
  rw [Nat.add_mul, Nat.mul_comm s, Nat.mul_comm l] at high
  omega

theorem program_erased (g : Geometry) (a : Nat) (image : List UInt8) (f : Content)
    (above : g.base ≤ a) (x : Nat) :
    program a image (erase g a image.length f) x =
      if a ≤ x ∧ x < a + image.length then image.getD (x - a) 0xFF
      else if g.Overlaps a image.length x then 0xFF else f x := by
  by_cases inside : a ≤ x ∧ x < a + image.length
  · have erased := overlaps_of_mem g above inside.1 inside.2
    simp only [program, erase, inside.1, inside.2, erased, and_self, ↓reduceIte, erased_and]
  · rw [if_neg inside, program_outside _ (by omega)]
    rfl

end NorFlash
