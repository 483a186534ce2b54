import Mathlib.Algebra.Order.Ring.Nat
import Mathlib.Data.BitVec
import Mathlib.Data.Nat.Bitwise

/- The two bit searches of hal_misc.c: a multiplicative hash into a table of 64, and a count
   of ones below the most significant bit. -/
namespace BitSearch

abbrev Word := BitVec 32

/-- The table of hal_lsbit_index; most of its zeros fill places that no bit hashes to. -/
def tab : List Int :=
  [-1, 0, 1, 12, 2, 6, 0, 13, 3, 0, 7, 0, 0, 0, 0, 14, 10,
    4, 0, 0, 8, 0, 0, 25, 0, 0, 0, 0, 0, 21, 27, 15, 31, 11,
    5, 0, 0, 0, 0, 0, 9, 0, 0, 24, 0, 0, 20, 26, 30, 0, 0, 0,
    0, 23, 0, 19, 29, 0, 22, 18, 28, 17, 16, 0]

/-- n &= ~(n-1UL) -/
def lowestBit (n : Word) : Word := n &&& ~~~(n - 1)

def hash (n : Word) : Word :=
  let n := (n <<< 16) - n
  let n := (n <<< 6) + n
  let n := (n <<< 4) + n
  n >>> 26

def halLsbitIndex (mask : Word) : Word :=
  BitVec.ofInt 32 (tab.getD (hash (lowestBit mask)).toNat 0)

/-- Phase 1 of hal_msbit_index -/
def smear (x : Word) : Word :=
  let x := x ||| x >>> 16
  let x := x ||| x >>> 8
  let x := x ||| x >>> 4
  let x := x ||| x >>> 2
  x ||| x >>> 1

def pairs (x : Word) : Word := (x &&& 0x55555555) + (x >>> 1 &&& 0x55555555)
def nibbles (w : Word) : Word := (w &&& 0x33333333) + (w >>> 2 &&& 0x33333333)
def bytes (w : Word) : Word := w + w >>> 4
def halves (w : Word) : Word := (w &&& 0x000F000F) + (w >>> 8 &&& 0x000F000F)
def total (w : Word) : Word := w + w >>> 16

def halMsbitIndex (mask : Word) : Word :=
  let w := halves (bytes (nibbles (pairs (smear mask))))
  (total w &&& 0xFF) - 1

def IsLsb (mask : Word) (k : Nat) : Prop :=
  mask.getLsbD k = true ∧ ∀ j, j < k → mask.getLsbD j = false

def IsMsb (mask : Word) (k : Nat) : Prop :=
  mask.getLsbD k = true ∧ ∀ j, k < j → mask.getLsbD j = false

/-- The places of the table that stand for no bit: their 0 is not the index of bit 0. -/
def Filler (i : Nat) : Prop := tab.getD i 0 = 0 ∧ i ≠ 1

instance (i : Nat) : Decidable (Filler i) := inferInstanceAs (Decidable (_ ∧ _))

def field (width i : Nat) (w : Word) : Nat := w.toNat / 2 ^ (width * i) % 2 ^ width

def NoCarry (width : Nat) (a b : Word) : Prop :=
  ∀ i, i < 32 / width → field width i (a + b) = field width i a + field width i b

instance (width : Nat) (a b : Word) : Decidable (NoCarry width a b) :=
  inferInstanceAs (Decidable (∀ i, i < 32 / width → _))

/-- None of the five sums of the count carries from one field to the next. -/
structure NoCarries (x : Word) : Prop where
  inPairs : NoCarry 2 (x &&& 0x55555555) (x >>> 1 &&& 0x55555555)
  inNibbles : NoCarry 4 (pairs x &&& 0x33333333) (pairs x >>> 2 &&& 0x33333333)
  inBytes : NoCarry 4 (nibbles (pairs x)) (nibbles (pairs x) >>> 4)
  inHalves : NoCarry 16 (bytes (nibbles (pairs x)) &&& 0x000F000F)
    (bytes (nibbles (pairs x)) >>> 8 &&& 0x000F000F)
  inTotal : NoCarry 16 (halves (bytes (nibbles (pairs x))))
    (halves (bytes (nibbles (pairs x))) >>> 16)

instance (x : Word) : Decidable (NoCarries x) :=
  decidable_of_iff
    (NoCarry 2 (x &&& 0x55555555) (x >>> 1 &&& 0x55555555) ∧
      NoCarry 4 (pairs x &&& 0x33333333) (pairs x >>> 2 &&& 0x33333333) ∧
      NoCarry 4 (nibbles (pairs x)) (nibbles (pairs x) >>> 4) ∧
      NoCarry 16 (bytes (nibbles (pairs x)) &&& 0x000F000F)
        (bytes (nibbles (pairs x)) >>> 8 &&& 0x000F000F) ∧
      NoCarry 16 (halves (bytes (nibbles (pairs x))))
        (halves (bytes (nibbles (pairs x))) >>> 16))
    ⟨fun ⟨first, second, third, fourth, fifth⟩ => ⟨first, second, third, fourth, fifth⟩,
      fun ⟨first, second, third, fourth, fifth⟩ => ⟨first, second, third, fourth, fifth⟩⟩

theorem nonzero_has_bit {mask : Word} (nonzero : mask ≠ 0) : ∃ i, mask.getLsbD i = true := by
  by_contra none
  apply nonzero
  apply BitVec.eq_of_getLsbD_eq
  intro i _
  have clear : (0 : Word).getLsbD i = false := BitVec.getLsbD_zero
  rw [clear]
  by_contra set
  exact none ⟨i, by simpa using set⟩

theorem lsb_exists {mask : Word} (nonzero : mask ≠ 0) : ∃ k, IsLsb mask k := by
  have some_bit := nonzero_has_bit nonzero
  refine ⟨Nat.find some_bit, Nat.find_spec some_bit, ?_⟩
  intro j below
  simpa using Nat.find_min some_bit below

theorem msb_exists {mask : Word} (nonzero : mask ≠ 0) : ∃ k, IsMsb mask k := by
  have positive : mask.toNat ≠ 0 := by
    intro zero
    exact nonzero (BitVec.eq_of_toNat_eq zero)
  obtain ⟨k, set, above⟩ := Nat.exists_most_significant_bit positive
  exact ⟨k, set, above⟩

theorem set_inside {mask : Word} {k : Nat} (set : mask.getLsbD k = true) : k < 32 := by
  by_contra outside
  rw [BitVec.getLsbD_of_ge mask k (by omega)] at set
  cases set

theorem lsb_splits {mask : Word} {k : Nat} (lsb : IsLsb mask k) :
    mask.toNat = 2 ^ k * (2 * (mask.toNat / 2 ^ (k + 1)) + 1) := by
  have low : mask.toNat % 2 ^ k = 0 := by
    apply Nat.eq_of_testBit_eq
    intro j
    rw [Nat.testBit_mod_two_pow, Nat.zero_testBit]
    by_cases below : j < k
    · have clear : mask.toNat.testBit j = false := lsb.2 j below
      rw [clear, Bool.and_false]
    · simp [below]
  have odd : mask.toNat / 2 ^ k % 2 = 1 := by
    have set : mask.toNat.testBit k = true := lsb.1
    rwa [Nat.testBit_eq_decide_div_mod_eq, decide_eq_true_eq] at set
  have halved : mask.toNat / 2 ^ (k + 1) = mask.toNat / 2 ^ k / 2 := by
    rw [Nat.pow_succ, Nat.div_div_eq_div_mul]
  have whole : mask.toNat / 2 ^ k = 2 * (mask.toNat / 2 ^ (k + 1)) + 1 := by
    rw [halved]
    omega
  rw [← whole]
  have split := Nat.div_add_mod mask.toNat (2 ^ k)
  omega

theorem lowest_bit_of_lsb {mask : Word} {k : Nat} (lsb : IsLsb mask k) :
    lowestBit mask = BitVec.twoPow 32 k := by
  have inside := set_inside lsb.1
  have split := lsb_splits lsb
  generalize mask.toNat / 2 ^ (k + 1) = m at split
  have power : 1 ≤ 2 ^ k := Nat.one_le_two_pow
  have less : (mask - 1).toNat = 2 ^ k * (2 * m) + (2 ^ k - 1) := by
    have small := mask.isLt
    have expanded : 2 ^ k * (2 * m + 1) = 2 ^ k * (2 * m) + 2 ^ k :=
      Nat.mul_succ _ _
    rw [BitVec.toNat_sub]
    have one : (1 : Word).toNat = 1 := by decide
    rw [one]
    omega
  apply BitVec.eq_of_getLsbD_eq
  intro i bound
  rw [lowestBit, BitVec.getLsbD_and, BitVec.getLsbD_not, BitVec.getLsbD_twoPow]
  have here : mask.getLsbD i = (2 ^ k * (2 * m + 1) + 0).testBit i := by
    rw [Nat.add_zero, ← split]
    rfl
  have there : (mask - 1).getLsbD i = (2 ^ k * (2 * m) + (2 ^ k - 1)).testBit i := by
    rw [← less]
    rfl
  rw [there, here, Nat.testBit_two_pow_mul_add _ (by omega),
    Nat.testBit_two_pow_mul_add _ (by omega)]
  by_cases below : i < k
  · rw [if_pos below, Nat.zero_testBit]
    simp
    omega
  · rw [if_neg below, if_neg below]
    by_cases same : i = k
    · subst same
      simp [bound]
    · obtain ⟨d, further⟩ : ∃ d, i - k = d + 1 := ⟨i - k - 1, by omega⟩
      have odd : (2 * m + 1) / 2 = m := by omega
      have even : 2 * m / 2 = m := by omega
      rw [further, Nat.testBit_succ, Nat.testBit_succ, odd, even]
      have apart : k ≠ i := fun eq => same eq.symm
      simp [bound, apart]

/-- The hash of every single bit finds its index, at a place of its own. -/
theorem hash_finds : ∀ k : Fin 32, tab.getD (hash (BitVec.twoPow 32 k)).toNat 0 = (k.val : Int) ∧
    ¬ Filler (hash (BitVec.twoPow 32 k)).toNat := by
  decide +kernel

theorem lsbit_of_lsb {mask : Word} {k : Nat} (lsb : IsLsb mask k) :
    halLsbitIndex mask = BitVec.ofNat 32 k ∧ ¬ Filler (hash (lowestBit mask)).toNat := by
  obtain ⟨found, used⟩ := hash_finds ⟨k, set_inside lsb.1⟩
  rw [halLsbitIndex, lowest_bit_of_lsb lsb, found]
  exact ⟨BitVec.ofInt_natCast 32 k, used⟩

/- The smearing, as a window of bits that doubles with every step. -/

theorem or_shift_window {mask x : Word} {stride count : Nat}
    (window : ∀ i, x.getLsbD i = true ↔ ∃ d, d < count ∧ mask.getLsbD (i + 2 * stride * d) = true)
    (i : Nat) :
    (x ||| x >>> stride).getLsbD i = true ↔
      ∃ d, d < 2 * count ∧ mask.getLsbD (i + stride * d) = true := by
  rw [BitVec.getLsbD_or, BitVec.getLsbD_ushiftRight, Bool.or_eq_true, window, window]
  constructor
  · rintro (⟨d, below, set⟩ | ⟨d, below, set⟩)
    · refine ⟨2 * d, by omega, ?_⟩
      rwa [show i + stride * (2 * d) = i + 2 * stride * d by
        rw [← Nat.mul_assoc, Nat.mul_comm stride 2]]
    · refine ⟨2 * d + 1, by omega, ?_⟩
      rwa [show i + stride * (2 * d + 1) = stride + i + 2 * stride * d by
        rw [Nat.mul_succ, ← Nat.mul_assoc, Nat.mul_comm stride 2]
        omega]
  · rintro ⟨d, below, set⟩
    obtain ⟨e, even | odd⟩ := Nat.even_or_odd' d
    · left
      refine ⟨e, by omega, ?_⟩
      rwa [show i + 2 * stride * e = i + stride * d by
        rw [even, ← Nat.mul_assoc, Nat.mul_comm stride 2]]
    · right
      refine ⟨e, by omega, ?_⟩
      rwa [show stride + i + 2 * stride * e = i + stride * d by
        rw [odd, Nat.mul_succ, ← Nat.mul_assoc, Nat.mul_comm stride 2]
        omega]

theorem smear_window (mask : Word) (i : Nat) :
    (smear mask).getLsbD i = true ↔ ∃ d, d < 32 ∧ mask.getLsbD (i + d) = true := by
  have one : ∀ i, mask.getLsbD i = true ↔
      ∃ d, d < 1 ∧ mask.getLsbD (i + 2 * 16 * d) = true := by
    intro i
    constructor
    · intro set
      exact ⟨0, Nat.one_pos, set⟩
    · rintro ⟨d, below, set⟩
      cases Nat.lt_one_iff.mp below
      exact set
  unfold smear
  dsimp only
  have two : ∀ i, (mask ||| mask >>> 16).getLsbD i = true ↔
      ∃ d, d < 2 ∧ mask.getLsbD (i + 2 * 8 * d) = true := or_shift_window one
  generalize mask ||| mask >>> 16 = x at two ⊢
  have four : ∀ i, (x ||| x >>> 8).getLsbD i = true ↔
      ∃ d, d < 4 ∧ mask.getLsbD (i + 2 * 4 * d) = true := or_shift_window two
  generalize x ||| x >>> 8 = y at four ⊢
  have eight : ∀ i, (y ||| y >>> 4).getLsbD i = true ↔
      ∃ d, d < 8 ∧ mask.getLsbD (i + 2 * 2 * d) = true := or_shift_window four
  generalize y ||| y >>> 4 = z at eight ⊢
  have sixteen : ∀ i, (z ||| z >>> 2).getLsbD i = true ↔
      ∃ d, d < 16 ∧ mask.getLsbD (i + 2 * 1 * d) = true := or_shift_window eight
  have all := or_shift_window sixteen i
  simp only [Nat.one_mul] at all
  exact all

theorem smear_of_msb {mask : Word} {k : Nat} (msb : IsMsb mask k) :
    smear mask = BitVec.ofNat 32 (2 ^ (k + 1) - 1) := by
  have inside := set_inside msb.1
  apply BitVec.eq_of_getLsbD_eq
  intro i bound
  rw [BitVec.getLsbD_ofNat, Nat.testBit_two_pow_sub_one, Bool.eq_iff_iff, smear_window]
  simp only [bound, decide_true, Bool.true_and, decide_eq_true_eq]
  constructor
  · rintro ⟨d, below, set⟩
    by_contra above
    rw [msb.2 (i + d) (by omega)] at set
    cases set
  · intro below
    refine ⟨k - i, by omega, ?_⟩
    rw [show i + (k - i) = k by omega]
    exact msb.1

theorem smear_zero : smear 0 = 0 := by decide

theorem counts_ones : ∀ k : Fin 33,
    (total (halves (bytes (nibbles (pairs (BitVec.ofNat 32 (2 ^ k.val - 1)))))) &&& 0xFF) =
      BitVec.ofNat 32 k.val := by
  decide +kernel

theorem ones_no_carry : ∀ k : Fin 33, NoCarries (BitVec.ofNat 32 (2 ^ k.val - 1)) := by
  decide +kernel

theorem smear_ones (mask : Word) :
    ∃ k, k < 33 ∧ smear mask = BitVec.ofNat 32 (2 ^ k - 1) ∧
      (mask = 0 → k = 0) ∧ ∀ m, IsMsb mask m → k = m + 1 := by
  by_cases zero : mask = 0
  · subst zero
    refine ⟨0, by decide, smear_zero, fun _ => rfl, ?_⟩
    intro m msb
    have clear : (0 : Word).getLsbD m = false := BitVec.getLsbD_zero
    have set := msb.1
    rw [clear] at set
    cases set
  · obtain ⟨k, msb⟩ := msb_exists zero
    have inside := set_inside msb.1
    refine ⟨k + 1, by omega, smear_of_msb msb, fun empty => absurd empty zero, ?_⟩
    intro m msb'
    have same : k = m := by
      rcases Nat.lt_trichotomy k m with below | same | above
      · exact absurd ((msb.2 m below).symm.trans msb'.1) Bool.false_ne_true
      · exact same
      · exact absurd ((msb'.2 k above).symm.trans msb.1) Bool.false_ne_true
    rw [same]

theorem msbit_count {mask : Word} {k : Nat} (small : k < 33)
    (ones : smear mask = BitVec.ofNat 32 (2 ^ k - 1)) :
    halMsbitIndex mask = BitVec.ofNat 32 k - 1 := by
  have count := counts_ones ⟨k, small⟩
  rw [halMsbitIndex, ones, count]

structure Searches (mask : Word) : Prop where
  lsbit : mask ≠ 0 → ∃ k, IsLsb mask k ∧ halLsbitIndex mask = BitVec.ofNat 32 k
  msbit : mask ≠ 0 → ∃ k, IsMsb mask k ∧ halMsbitIndex mask = BitVec.ofNat 32 k
  zero : mask = 0 → halLsbitIndex mask = 0xFFFFFFFF ∧ halMsbitIndex mask = 0xFFFFFFFF
  noFiller : ¬ Filler (hash (lowestBit mask)).toNat
  noCarries : NoCarries (smear mask)

theorem bit_searches (mask : Word) : Searches mask := by
  obtain ⟨k, small, ones, none, top⟩ := smear_ones mask
  have count := msbit_count small ones
  constructor
  · intro nonzero
    obtain ⟨i, lsb⟩ := lsb_exists nonzero
    exact ⟨i, lsb, (lsbit_of_lsb lsb).1⟩
  · intro nonzero
    obtain ⟨m, msb⟩ := msb_exists nonzero
    refine ⟨m, msb, ?_⟩
    rw [count, top m msb, BitVec.ofNat_add]
    exact BitVec.add_sub_cancel _ _
  · intro zero
    subst zero
    rw [count, none rfl]
    constructor
    · decide
    · decide
  · by_cases zero : mask = 0
    · subst zero
      decide
    · obtain ⟨i, lsb⟩ := lsb_exists zero
      exact (lsbit_of_lsb lsb).2
  · rw [ones]
    exact ones_no_carry ⟨k, small⟩

end BitSearch
