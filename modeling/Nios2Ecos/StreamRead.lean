import Nios2Ecos.PacketReceiver

/- One call of xyzModem_stream_read, against the bytes still to come. The call
   delivers exactly as many of them as it is asked for, or all of them and then
   how the transfer ended. -/
namespace StreamRead
open XyzModem LineTranscript PacketReceiver
variable (crc : List UInt8 → UInt16)

/- The value left in `*err`, if it is written at all. -/
def Ending.report : Ending → Option Stat
  | .eot .ok => none
  | .eot stat => some stat
  | .failed stat => some stat

/-- The record after the last call. A failed search leaves the length -1 behind. -/
def Ended (y : Xyz) : Ending → Prop
  | .eot _ => y.atEof = true
  | .failed _ => y.atEof = false ∧ y.len = -1

def Delivers (total : List UInt8) (size : Nat) (r : Received) (res : ReadResult) : Prop :=
  if size ≤ r.bytes.length then
    ∃ y, res = .done (total ++ r.bytes.take size) none y ∧ Receiving y ∧
      (upcoming crc y).bytes = r.bytes.drop size ∧ (upcoming crc y).ending = r.ending
  else ∃ y, res = .done (total ++ r.bytes) (Ending.report r.ending) y ∧ Ended y r.ending

theorem stat_code_negative (stat : Stat) : stat.code < 0 ↔ stat ≠ .ok := by
  cases stat <;> simp [Stat.code]

theorem bytes_prepend (chunk : List UInt8) (r : Received) :
    (r.prepend chunk).bytes = chunk ++ r.bytes := by
  simp [Received.bytes, Received.prepend]

theorem upcoming_bytes (x : Xyz) :
    (upcoming crc x).bytes = pending x ++
      (receive x.nextBlk spareTries (transcript crc x.crcMode x.line)).bytes :=
  bytes_prepend _ _

theorem delivers_congr {total : List UInt8} {size : Nat} {r r' : Received} {res : ReadResult}
    (bytes : r.bytes = r'.bytes) (ending : r.ending = r'.ending)
    (h : Delivers crc total size r' res) : Delivers crc total size r res := by
  unfold Delivers at *
  rw [bytes, ending]
  exact h

/- Copying the first `n` bytes and reading on is reading them all. -/
theorem delivers_after_copy {total : List UInt8} {size n : Nat} {r r' : Received}
    {res : ReadResult} (fits : n ≤ size) (there : n ≤ r.bytes.length)
    (bytes : r'.bytes = r.bytes.drop n) (ending : r'.ending = r.ending)
    (h : Delivers crc (total ++ r.bytes.take n) (size - n) r' res) :
    Delivers crc total size r res := by
  have length : r'.bytes.length = r.bytes.length - n := by rw [bytes, List.length_drop]
  have rejoin : r.bytes.take n ++ r'.bytes = r.bytes := by rw [bytes, List.take_append_drop]
  unfold Delivers at *
  by_cases enough : size ≤ r.bytes.length
  · rw [if_pos (by omega)] at h
    rw [if_pos enough]
    obtain ⟨y, result, receiving, rest, last⟩ := h
    refine ⟨y, ?_, receiving, ?_, last.trans ending⟩
    · rw [result, List.append_assoc, bytes, ← List.take_add, Nat.add_sub_cancel' fits]
    · rw [rest, bytes, List.drop_drop, Nat.add_sub_cancel' fits]
  · rw [if_neg (by omega)] at h
    rw [if_neg enough]
    obtain ⟨y, result, ended⟩ := h
    rw [ending] at result ended
    refine ⟨y, ?_, ended⟩
    rw [result, List.append_assoc, rejoin]

theorem copy_length_eq {x : Xyz} (h : Receiving x) (size : Nat) :
    copyLength x size = (min size x.len.toNat : Nat) := by
  have nonneg := h.nonneg
  unfold copyLength
  split <;> omega

theorem copied_eq {x : Xyz} (h : Receiving x) (size : Nat) :
    copied x size = (pending x).take (min size x.len.toNat) := by
  simp only [copied, pending, copy_length_eq h size, Int.toNat_natCast, List.take_take]
  rw [Nat.min_assoc, Nat.min_self]

theorem advance_receiving {x : Xyz} (h : Receiving x) {n : Nat} (le : n ≤ x.len.toNat) :
    Receiving (advanceBuffer x n) ∧ pending (advanceBuffer x n) = (pending x).drop n := by
  have nonneg := h.nonneg
  have inside := h.inside
  have shorter : (advanceBuffer x n).len.toNat = x.len.toNat - n := by
    simp only [advanceBuffer]; omega
  refine ⟨⟨h.mode, h.running, ?_, ?_⟩, ?_⟩
  · simp only [advanceBuffer]; omega
  · rw [shorter]
    simp only [advanceBuffer, Int.toNat_natCast, List.length_drop] at *
    omega
  · unfold pending
    rw [shorter]
    simp only [advanceBuffer, Int.toNat_natCast, ← List.drop_drop, List.drop_take]

/- The copy of one round, whatever made the packet available. -/
theorem copy_round {fuel : Nat} {total : List UInt8} {size : Nat} {x : Xyz} (h : Receiving x)
    (ih : ∀ (total : List UInt8) (size : Nat) (y : Xyz), Receiving y →
      size + y.line.length + 2 ≤ fuel →
      Delivers crc total size (upcoming crc y) (readLoop crc fuel total size y))
    (budget : size - min size x.len.toNat + x.line.length + 2 ≤ fuel) :
    Delivers crc total size (upcoming crc x)
      (readLoop crc fuel (total ++ copied x size) (size - copyLength x size)
        (advanceBuffer x (copyLength x size))) := by
  obtain ⟨receiving, rest⟩ := advance_receiving h (Nat.min_le_right size x.len.toNat)
  have sizes : (size : Int) - copyLength x size = (size - min size x.len.toNat : Nat) := by
    rw [copy_length_eq h size]; omega
  have length := h.pending_length
  have enough : min size x.len.toNat ≤ (pending x).length := by omega
  rw [sizes, copy_length_eq h size, copied_eq h size]
  have all := upcoming_bytes crc x
  have there : min size x.len.toNat ≤ (upcoming crc x).bytes.length := by
    rw [all, List.length_append]
    omega
  have drops : (upcoming crc (advanceBuffer x (min size x.len.toNat : Nat))).bytes =
      (upcoming crc x).bytes.drop (min size x.len.toNat) := by
    rw [upcoming_bytes, rest, all, List.drop_append_of_le_length enough]
    rfl
  apply delivers_after_copy crc (Nat.min_le_left size x.len.toNat) there drops rfl
  rw [all, List.take_append_of_le_length enough]
  exact ih _ _ _ receiving budget

theorem read_loop_delivers (fuel : Nat) (total : List UInt8) (size : Nat) (x : Xyz)
    (h : Receiving x) (budget : size + x.line.length + 2 ≤ fuel) :
    Delivers crc total size (upcoming crc x) (readLoop crc fuel total size x) := by
  induction fuel generalizing total size x with
  | zero => omega
  | succ fuel ih =>
    have running := h.running
    by_cases full : size = 0
    · subst full
      refine (if_pos (Nat.zero_le _)).mpr ⟨x, ?_, h, rfl, rfl⟩
      simp [readLoop]
    have open_ : ¬(x.atEof = true ∨ (size : Int) ≤ 0) := by simp [running, full]
    simp only [readLoop, if_neg open_]
    by_cases empty : x.len = 0
    · -- the packet is used up: search for the next one first
      have bytes : (upcoming crc x).bytes =
          (receive x.nextBlk spareTries (transcript crc x.crcMode x.line)).bytes := by
        rw [upcoming_bytes, pending, empty]
        rfl
      have ending : (upcoming crc x).ending =
          (receive x.nextBlk spareTries (transcript crc x.crcMode x.line)).ending := rfl
      simp only [empty, ↓reduceIte]
      have outcome := next_packet_outcome crc spareTries .cancel x h.mode running
      change SearchOutcome crc x _ (nextPacket crc maxRetries .cancel x).1
        (nextPacket crc maxRetries .cancel x).2 at outcome
      generalize nextPacket crc maxRetries .cancel x = search at outcome
      obtain ⟨stat, y⟩ := search
      rcases outcome with ⟨ok, receiving, shorter, same⟩ | ⟨ended, same⟩ | ⟨bad, going, same⟩
      · dsimp only at ok receiving shorter same ⊢
        have valid : ¬ copyLength y size < 0 := by rw [copy_length_eq receiving size]; omega
        rw [if_neg (by simp [ok, Stat.code]), if_neg (by simp [receiving.running]), if_neg valid]
        apply delivers_congr crc (bytes.trans (congrArg _ same)) (ending.trans (congrArg _ same))
        exact copy_round crc receiving ih (by omega)
      · dsimp only at ended same ⊢
        apply delivers_congr crc (bytes.trans (congrArg _ same)) (ending.trans (congrArg _ same))
        refine (if_neg (by simp [Received.bytes, full])).mpr ?_
        by_cases fine : stat = .ok
        · subst fine
          refine ⟨y, ?_, ended⟩
          obtain ⟨more, rfl⟩ : ∃ k, fuel = k + 1 := ⟨fuel - 1, by omega⟩
          simp [readLoop, ended, Stat.code, Received.bytes, Ending.report]
        · refine ⟨{ y with len := -1 }, ?_, ended⟩
          rw [if_pos ((stat_code_negative stat).mpr fine)]
          cases stat <;> simp_all [Received.bytes, Ending.report]
      · dsimp only at bad going same ⊢
        apply delivers_congr crc (bytes.trans (congrArg _ same)) (ending.trans (congrArg _ same))
        refine (if_neg (by simp [Received.bytes, full])).mpr ⟨{ y with len := -1 }, ?_, going, rfl⟩
        rw [if_pos ((stat_code_negative stat).mpr bad)]
        simp [Received.bytes, Ending.report]
    · have nonneg := h.nonneg
      have valid : ¬ copyLength x size < 0 := by rw [copy_length_eq h size]; omega
      simp only [empty, ↓reduceIte, running, Bool.false_eq_true, if_neg valid, Stat.code,
        Int.lt_irrefl]
      exact copy_round crc h ih (by omega)

/-- The call as the uploader makes it: `size` bytes wanted, a transfer in progress. -/
theorem stream_read_delivers (size : Nat) (x : Xyz) (h : Receiving x) :
    Delivers crc [] size (upcoming crc x) (xyzModemStreamRead crc size x) :=
  read_loop_delivers crc _ [] size x h (by simp [readFuel])

end StreamRead
