import Mathlib.Data.BitVec
import Mathlib.Tactic.IntervalCases
import Nios2Ecos.FeedbackRegister

/- The check sum register of the Ethernet MAC, which takes four bits of a frame at each edge of
   the clock. -/
namespace EthCrc
open FeedbackRegister

def crcNextBits (c d : Nat → Bool) (enable : Bool) : List Bool := [
  enable && (d 0 ^^ c 28),
  enable && (d 1 ^^ d 0 ^^ c 28 ^^ c 29),
  enable && (d 2 ^^ d 1 ^^ d 0 ^^ c 28 ^^ c 29 ^^ c 30),
  enable && (d 3 ^^ d 2 ^^ d 1 ^^ c 29 ^^ c 30 ^^ c 31),
  (enable && (d 3 ^^ d 2 ^^ d 0 ^^ c 28 ^^ c 30 ^^ c 31)) ^^ c 0,
  (enable && (d 3 ^^ d 1 ^^ d 0 ^^ c 28 ^^ c 29 ^^ c 31)) ^^ c 1,
  (enable && (d 2 ^^ d 1 ^^ c 29 ^^ c 30)) ^^ c 2,
  (enable && (d 3 ^^ d 2 ^^ d 0 ^^ c 28 ^^ c 30 ^^ c 31)) ^^ c 3,
  (enable && (d 3 ^^ d 1 ^^ d 0 ^^ c 28 ^^ c 29 ^^ c 31)) ^^ c 4,
  (enable && (d 2 ^^ d 1 ^^ c 29 ^^ c 30)) ^^ c 5,
  (enable && (d 3 ^^ d 2 ^^ d 0 ^^ c 28 ^^ c 30 ^^ c 31)) ^^ c 6,
  (enable && (d 3 ^^ d 1 ^^ d 0 ^^ c 28 ^^ c 29 ^^ c 31)) ^^ c 7,
  (enable && (d 2 ^^ d 1 ^^ d 0 ^^ c 28 ^^ c 29 ^^ c 30)) ^^ c 8,
  (enable && (d 3 ^^ d 2 ^^ d 1 ^^ c 29 ^^ c 30 ^^ c 31)) ^^ c 9,
  (enable && (d 3 ^^ d 2 ^^ c 30 ^^ c 31)) ^^ c 10,
  (enable && (d 3 ^^ c 31)) ^^ c 11,
  (enable && (d 0 ^^ c 28)) ^^ c 12,
  (enable && (d 1 ^^ c 29)) ^^ c 13,
  (enable && (d 2 ^^ c 30)) ^^ c 14,
  (enable && (d 3 ^^ c 31)) ^^ c 15,
  c 16,
  c 17,
  (enable && (d 0 ^^ c 28)) ^^ c 18,
  (enable && (d 1 ^^ d 0 ^^ c 29 ^^ c 28)) ^^ c 19,
  (enable && (d 2 ^^ d 1 ^^ c 30 ^^ c 29)) ^^ c 20,
  (enable && (d 3 ^^ d 2 ^^ c 31 ^^ c 30)) ^^ c 21,
  (enable && (d 3 ^^ d 0 ^^ c 31 ^^ c 28)) ^^ c 22,
  (enable && (d 1 ^^ c 29)) ^^ c 23,
  (enable && (d 2 ^^ c 30)) ^^ c 24,
  (enable && (d 3 ^^ c 31)) ^^ c 25,
  c 26,
  c 27]

def crcNext (crc : BitVec 32) (data : BitVec 4) (enable : Bool) : BitVec 32 :=
  BitVec.ofBoolListLE (crcNextBits crc.getLsbD data.getLsbD enable)

def crcStep (crc : BitVec 32) (data : BitVec 4) (enable initialize_ : Bool) : BitVec 32 :=
  if initialize_ then 0xFFFFFFFF#32 else crcNext crc data enable

def crcError (crc : BitVec 32) : Bool := crc != 0xC704DD7B#32

/-- `Data_Crc`: both MACs turn the nibble round. -/
def dataCrc (nibble : BitVec 4) : BitVec 4 :=
  BitVec.ofBoolListLE [nibble.getLsbD 3, nibble.getLsbD 2, nibble.getLsbD 1, nibble.getLsbD 0]

def fcsNibble (crc : BitVec 32) : BitVec 4 :=
  BitVec.ofBoolListLE [!crc.getLsbD 31, !crc.getLsbD 30, !crc.getLsbD 29, !crc.getLsbD 28]

def polynomial : BitVec 32 := 0x04C11DB7#32

def nibbleBits (nibble : BitVec 4) : List Bool :=
  [nibble.getLsbD 0, nibble.getLsbD 1, nibble.getLsbD 2, nibble.getLsbD 3]

def bits (nibbles : List (BitVec 4)) : List Bool := nibbles.flatMap nibbleBits

def crcRun (crc : BitVec 32) (nibbles : List (BitVec 4)) : BitVec 32 :=
  nibbles.foldl (fun crc nibble => crcStep crc (dataCrc nibble) true false) crc

/-- What is sent of the register in `n` clocks, while it is not enabled. -/
def fcs (crc : BitVec 32) : Nat → List (BitVec 4)
  | 0 => []
  | n + 1 => fcsNibble crc :: fcs (crcNext crc 0#4 false) n

theorem crcNext_bit {crc : BitVec 32} {data : BitVec 4} {enable : Bool} {i : Nat} :
    (crcNext crc data enable).getLsbD i =
      (crcNextBits crc.getLsbD data.getLsbD enable).getD i false :=
  BitVec.getLsbD_ofBoolListLE

/-- The equations are four steps of the register that takes one bit at a time. -/
theorem crcNext_enabled (crc : BitVec 32) (data : BitVec 4) :
    crcNext crc data true =
      run polynomial crc [data.getLsbD 3, data.getLsbD 2, data.getLsbD 1, data.getLsbD 0] := by
  apply BitVec.eq_of_getMsbD_eq
  intro i inside
  simp only [run, List.foldl_cons, List.foldl_nil, feed_bit]
  simp only [BitVec.getMsbD, crcNext_bit, inside, decide_true, Bool.true_and]
  interval_cases i <;>
    simp only [crcNextBits, polynomial, List.getD_cons_succ, List.getD_cons_zero, Nat.reduceAdd,
      Nat.reduceSub, Nat.reduceLT, decide_true, decide_false, Bool.true_and, Bool.false_and,
      Bool.and_true, Bool.and_false, Bool.xor_false, Bool.false_xor, BitVec.reduceGetLsb]
  all_goals simp only [Bool.xor_comm, Bool.xor_left_comm, Bool.xor_assoc]

theorem crcNext_disabled (crc : BitVec 32) (data : BitVec 4) :
    crcNext crc data false = crc <<< 4 := by
  apply BitVec.eq_of_getLsbD_eq
  intro i inside
  rw [crcNext_bit, BitVec.getLsbD_shiftLeft]
  interval_cases i <;> simp [crcNextBits]

theorem crcStep_nibble (crc : BitVec 32) (nibble : BitVec 4) :
    crcStep crc (dataCrc nibble) true false = run polynomial crc (nibbleBits nibble) := by
  have turned : ∀ i, (dataCrc nibble).getLsbD i =
      [nibble.getLsbD 3, nibble.getLsbD 2, nibble.getLsbD 1, nibble.getLsbD 0].getD i false :=
    fun i => BitVec.getLsbD_ofBoolListLE
  rw [crcStep, if_neg (by decide), crcNext_enabled, turned, turned, turned, turned]
  rfl

theorem bits_cons (nibble : BitVec 4) (nibbles : List (BitVec 4)) :
    bits (nibble :: nibbles) = nibbleBits nibble ++ bits nibbles :=
  List.flatMap_cons

theorem bits_append (first second : List (BitVec 4)) :
    bits (first ++ second) = bits first ++ bits second :=
  List.flatMap_append

theorem crcRun_eq (crc : BitVec 32) (nibbles : List (BitVec 4)) :
    crcRun crc nibbles = run polynomial crc (bits nibbles) := by
  induction nibbles generalizing crc with
  | nil => rfl
  | cons nibble nibbles ih =>
    have first : crcRun crc (nibble :: nibbles) =
        crcRun (crcStep crc (dataCrc nibble) true false) nibbles := rfl
    rw [first, ih, crcStep_nibble, bits_cons, run_append]

theorem polynomial_odd : polynomial.getMsbD (32 - 1) = true := by decide

theorem residue_eq : residue polynomial = 0xC704DD7B#32 := by decide +kernel

theorem bits_length (nibbles : List (BitVec 4)) : (bits nibbles).length = 4 * nibbles.length := by
  induction nibbles with
  | nil => rfl
  | cons nibble nibbles ih =>
    have four : (nibbleBits nibble).length = 4 := rfl
    rw [bits_cons, List.length_append, ih, List.length_cons]
    omega

theorem nibble_eq {a b : BitVec 4} (same : nibbleBits a = nibbleBits b) : a = b := by
  apply BitVec.eq_of_getLsbD_eq
  intro i inside
  simp only [nibbleBits, List.cons.injEq] at same
  obtain ⟨bit0, bit1, bit2, bit3, _⟩ := same
  interval_cases i
  · exact bit0
  · exact bit1
  · exact bit2
  · exact bit3

theorem bits_injective {xs ys : List (BitVec 4)} (same : bits xs = bits ys) : xs = ys := by
  induction xs generalizing ys with
  | nil =>
    have length := congrArg List.length same
    rw [bits_length, bits_length] at length
    exact (List.length_eq_zero_iff.mp (by simpa using length.symm)).symm
  | cons x xs ih =>
    cases ys with
    | nil =>
      have length := congrArg List.length same
      rw [bits_length, bits_length] at length
      simp at length
    | cons y ys =>
      rw [bits_cons, bits_cons] at same
      obtain ⟨first, rest⟩ := List.append_inj same rfl
      rw [nibble_eq first, ih rest]

theorem fcs_length (crc : BitVec 32) (n : Nat) : (fcs crc n).length = n := by
  induction n generalizing crc with
  | zero => rfl
  | succ n ih => rw [fcs, List.length_cons, ih]

theorem fcsNibble_bits (crc : BitVec 32) :
    nibbleBits (fcsNibble crc) =
      [!crc.getLsbD 31, !crc.getLsbD 30, !crc.getLsbD 29, !crc.getLsbD 28] := by
  have sent : ∀ i, (fcsNibble crc).getLsbD i =
      [!crc.getLsbD 31, !crc.getLsbD 30, !crc.getLsbD 29, !crc.getLsbD 28].getD i false :=
    fun i => BitVec.getLsbD_ofBoolListLE
  rw [nibbleBits, sent, sent, sent, sent]
  rfl

theorem fcs_bits (crc : BitVec 32) : bits (fcs crc 8) = remainderBits crc := by
  simp only [fcs, crcNext_disabled, bits, List.flatMap_cons, List.flatMap_nil, fcsNibble_bits,
    BitVec.getLsbD_shiftLeft, remainderBits, BitVec.getMsbD]
  simp [List.range_succ]

theorem check_iff {crc : BitVec 32} {data trailer : List (BitVec 4)}
    (length : trailer.length = 8) :
    crcError (crcRun crc (data ++ trailer)) = false ↔ trailer = fcs (crcRun crc data) 8 := by
  have bit_length : (bits trailer).length = 32 := by
    rw [bits_length, length]
  have split : crcRun crc (data ++ trailer) =
      run polynomial (crcRun crc data) (bits trailer) := by
    rw [crcRun_eq, crcRun_eq, bits_append, run_append]
  have passes : crcError (crcRun crc (data ++ trailer)) = false ↔
      bits trailer = remainderBits (crcRun crc data) := by
    rw [split, crcError, bne_eq_false_iff_eq, ← residue_eq]
    exact residue_iff polynomial_odd bit_length
  rw [passes, ← fcs_bits]
  constructor
  · exact bits_injective
  · intro same
    rw [same]

theorem burst_seen {crc : BitVec 32} {before burst other after : List (BitVec 4)}
    (lengths : burst.length = other.length) (short : burst.length ≤ 8)
    (different : burst ≠ other)
    (passes : crcError (crcRun crc (before ++ burst ++ after)) = false) :
    crcError (crcRun crc (before ++ other ++ after)) = true := by
  cases verdict : crcError (crcRun crc (before ++ other ++ after)) with
  | true => rfl
  | false =>
    rw [crcError, bne_eq_false_iff_eq] at passes verdict
    have same := passes.trans verdict.symm
    rw [crcRun_eq, crcRun_eq] at same
    simp only [bits_append] at same
    have no_burst := burst_detected polynomial_odd (by
      rw [bits_length, bits_length, lengths]) (by
      rw [bits_length]
      omega) same
    exact absurd (bits_injective no_burst) different

end EthCrc
