import Nios2Ecos.UploadFidelity

/- The verdict of an upload. A failure is reported through the return value of the
   call that meets it, so it is seen only by a call that has delivered nothing. -/
namespace UploadVerdict
open XyzModem LineTranscript PacketReceiver StreamRead YmodemUpload YmodemSender UploadFidelity
variable (crc : List UInt8 → UInt16)

/-- A transfer that is broken off before EOT: the packets accepted until then, and
    whether the last of the twenty tries heard a retransmission. -/
structure Abort where
  payloads : List (List UInt8)
  repeated : Bool
  deriving DecidableEq, Repr

def Abort.prepend (data : List UInt8) (a : Abort) : Abort := ⟨data :: a.payloads, a.repeated⟩

/-- Three CANs in one search, or twenty tries in a row without the packet that is due. -/
def aborted (n : UInt8) (left : Nat) : List Heard → Option Abort
  | [] => some ⟨[], false⟩
  | .packet b data :: hs =>
    if b = n then (aborted (n + 1) spareTries hs).map (Abort.prepend data)
    else if left = 0 then some ⟨[], b = n - 1⟩
    else aborted n (left - 1) hs
  | .eot :: _ => none
  | .cancel :: _ => some ⟨[], false⟩
  | .noise _ :: hs => if left = 0 then some ⟨[], false⟩ else aborted n (left - 1) hs

def Abort.bytes (a : Abort) : List UInt8 := (a.payloads.map kept).flatten

/-- Every copy had a proper length, nothing was copied after the failing search, the
    failure is reported and the file is gone. -/
structure CleanAbort (a : Abort) (u : Upload) : Prop where
  copies : u.verdict ≠ .fault
  nothingAfter : u.taken = a.bytes
  reported : ∃ err, u.verdict = .failed err
  removed : u.file = none

theorem abort_received {n : UInt8} {left : Nat} {hs : List Heard} {a : Abort}
    (h : aborted n left hs = some a) (silent : a.repeated = false) :
    ∃ stat, receive n left hs = ⟨a.payloads.map kept, .failed stat⟩ := by
  induction hs generalizing n left a with
  | nil =>
    cases h
    exact ⟨.timeout, rfl⟩
  | cons heard hs ih =>
    cases heard with
    | packet b data =>
      simp only [aborted, receive] at h ⊢
      by_cases turn : b = n
      · rw [if_pos turn] at h ⊢
        obtain ⟨rest, later, rfl⟩ := Option.map_eq_some_iff.mp h
        obtain ⟨stat, same⟩ := ih later silent
        refine ⟨stat, ?_⟩
        rw [same]
        rfl
      · rw [if_neg turn] at h ⊢
        by_cases spent : left = 0
        · rw [if_pos spent] at h
          cases h
          have other : ¬ b = n - 1 := by simpa using silent
          rw [if_neg other, if_pos spent]
          exact ⟨.sequence, rfl⟩
        · rw [if_neg spent] at h
          simp only [if_neg spent, ite_self]
          exact ih h silent
    | eot => cases h
    | cancel =>
      cases h
      exact ⟨.cancel, rfl⟩
    | noise s =>
      simp only [aborted, receive] at h ⊢
      by_cases spent : left = 0
      · rw [if_pos spent] at h ⊢
        cases h
        exact ⟨s.stat, rfl⟩
      · rw [if_neg spent] at h ⊢
        exact ih h silent

/- A retransmission on the last try is delivered on top of the accepted packets. -/
theorem repeated_longer {n : UInt8} {left : Nat} {hs : List Heard} {a : Abort}
    (sizes : ∀ b data, .packet b data ∈ hs → 0 < data.length)
    (h : aborted n left hs = some a) (again : a.repeated = true) :
    a.bytes.length < (receive n left hs).bytes.length := by
  induction hs generalizing n left a with
  | nil => cases h; cases again
  | cons heard hs ih =>
    have later : ∀ b data, .packet b data ∈ hs → 0 < data.length :=
      fun b data mem => sizes b data (List.mem_cons_of_mem _ mem)
    cases heard with
    | packet b data =>
      simp only [aborted, receive] at h ⊢
      by_cases turn : b = n
      · rw [if_pos turn] at h ⊢
        obtain ⟨rest, found, rfl⟩ := Option.map_eq_some_iff.mp h
        have more := ih later found again
        simp only [Abort.bytes, Abort.prepend, List.map_cons, List.flatten_cons,
          List.length_append, bytes_prepend] at more ⊢
        omega
      · rw [if_neg turn] at h ⊢
        by_cases spent : left = 0
        · rw [if_pos spent] at h
          cases h
          have same : b = n - 1 := by simpa using again
          have positive := sizes b data List.mem_cons_self
          rw [if_pos same, if_pos spent, bytes_prepend, List.length_append]
          simp only [Abort.bytes, List.map_nil, List.flatten_nil, List.length_nil]
          omega
        · rw [if_neg spent] at h
          simp only [if_neg spent, ite_self]
          exact ih later h again
    | eot => cases h
    | cancel => cases h; cases again
    | noise s =>
      simp only [aborted, receive] at h ⊢
      by_cases spent : left = 0
      · rw [if_pos spent] at h
        cases h
        cases again
      · rw [if_neg spent] at h ⊢
        exact ih later h again

theorem heard_packet_positive (chan : Int) (xyz : Xyz) (b : UInt8) (data : List UInt8)
    (h : .packet b data ∈ heardAfterOpen crc chan xyz) : 0 < data.length := by
  unfold heardAfterOpen at h
  split at h
  · exact transcript_packet_positive crc _ _ b data h
  · cases h

theorem aborted_upload_clean_iff (disk : Disk) (stores : disk.Stores) (chan : Int)
    (old : Option (List UInt8)) (xyz : Xyz) (a : Abort) (opened : opens crc chan xyz = true)
    (h : aborted 1 spareTries (heardAfterOpen crc chan xyz) = some a) :
    CleanAbort a (ymodemUpload crc disk chan old xyz) ↔
      a.repeated = false ∧ a.bytes.length % writeBufSize = 0 := by
  obtain ⟨verdict, taken, -, removes⟩ := upload_concludes crc disk stores chan old xyz opened
  have length := congrArg List.length taken
  cases again : a.repeated with
  | true =>
    have more := repeated_longer (heard_packet_positive crc chan xyz) h again
    constructor
    · intro clean
      have same := congrArg List.length clean.nothingAfter
      unfold received at length
      omega
    · intro impossible
      cases impossible.1
  | false =>
    obtain ⟨stat, same⟩ := abort_received h again
    have bytes : (received crc chan xyz).bytes = a.bytes := by
      unfold received
      rw [same]
      rfl
    have decided : (ymodemUpload crc disk chan old xyz).verdict =
        if a.bytes.length % writeBufSize = 0 then .failed stat else .fault := by
      rw [verdict, ← bytes]
      unfold received verdictOf
      rw [same]
    constructor
    · intro clean
      refine ⟨rfl, ?_⟩
      by_contra unaligned
      rw [if_neg unaligned] at decided
      exact clean.copies decided
    · rintro ⟨-, aligned⟩
      rw [if_pos aligned] at decided
      constructor
      · rw [decided]
        intro no
        cases no
      · rw [taken, bytes]
      · exact ⟨stat, decided⟩
      · exact removes stat decided

def cancelled : Line := List.replicate 3 (some CAN)

def letters : List UInt8 := List.replicate 128 0x41

def block : List UInt8 := List.replicate 1024 0x41

def fourBlocks : Xyz := transfer [(1, block), (2, block), (3, block), (4, block)] cancelled

def fullBuffer : Abort := ⟨List.replicate 4 block, false⟩

set_option maxRecDepth 100000 in
theorem aborted_upload_clean_iff_full_buffer :
    fullBuffer.bytes.length = 4096 ∧
    (CleanAbort fullBuffer (ymodemUpload crcXmodem ramDisk 0 none fourBlocks) ↔
      fullBuffer.repeated = false ∧ fullBuffer.bytes.length % writeBufSize = 0) :=
  ⟨by decide +kernel,
    aborted_upload_clean_iff crcXmodem ramDisk ram_disk_stores 0 none fourBlocks fullBuffer
      (by decide +kernel) (by decide +kernel)⟩

set_option maxRecDepth 10000 in
/-- Cancelled after one packet: the next call copies -1 bytes. -/
theorem cancelled_upload_faults :
    aborted 1 spareTries (heardAfterOpen crcXmodem 0 (transfer [(1, letters)] cancelled)) =
      some ⟨[letters], false⟩ ∧
    ¬ CleanAbort ⟨[letters], false⟩
      (ymodemUpload crcXmodem ramDisk 0 none (transfer [(1, letters)] cancelled)) := by
  constructor
  · decide +kernel
  · intro clean
    exact clean.copies (by decide +kernel)

def SameVerdict (u v : Upload) : Prop :=
  u.verdict = v.verdict ∧ u.file.isSome = v.file.isSome

/- The upload after EOT, when the search for the final header gave `final`. -/
theorem ended_verdict {r : Received} {u : Upload} {final : Stat} (h : Concludes r u)
    (ends : r.ending = .eot final) :
    (u.verdict = .complete ∧ u.file.isSome = true ∧
        (final = .ok ∨ r.bytes.length % writeBufSize ≠ 0)) ∨
      (u.verdict = .failed final ∧ u.file.isSome = false ∧
        final ≠ .ok ∧ r.bytes.length % writeBufSize = 0) := by
  obtain ⟨verdict, -, keeps, removes⟩ := h
  unfold verdictOf at verdict
  rw [ends] at verdict
  by_cases fine : final = .ok
  · subst fine
    left
    exact ⟨verdict, by rw [keeps verdict]; rfl, Or.inl rfl⟩
  · have decided : u.verdict =
        if r.bytes.length % writeBufSize = 0 then .failed final else .complete := by
      cases final <;> first | exact absurd rfl fine | exact verdict
    by_cases aligned : r.bytes.length % writeBufSize = 0
    · rw [if_pos aligned] at decided
      right
      exact ⟨decided, by rw [removes final decided]; rfl, fine, aligned⟩
    · rw [if_neg aligned] at decided
      left
      exact ⟨decided, by rw [keeps decided]; rfl, Or.inr aligned⟩

theorem ended_uploads_agree_iff (disk disk' : Disk) (stores : disk.Stores)
    (stores' : disk'.Stores) (chan chan' : Int) (old old' : Option (List UInt8)) (xyz xyz' : Xyz)
    (final : Stat) (opened : opens crc chan xyz = true) (opened' : opens crc chan' xyz' = true)
    (ends : (received crc chan xyz).ending = .eot final)
    (ends' : (received crc chan' xyz').ending = .eot final) :
    SameVerdict (ymodemUpload crc disk chan old xyz) (ymodemUpload crc disk' chan' old' xyz') ↔
      final = .ok ∨
        ((received crc chan xyz).bytes.length % writeBufSize = 0 ↔
          (received crc chan' xyz').bytes.length % writeBufSize = 0) := by
  have first := ended_verdict (upload_concludes crc disk stores chan old xyz opened) ends
  have second := ended_verdict (upload_concludes crc disk' stores' chan' old' xyz' opened') ends'
  unfold SameVerdict
  rcases first with ⟨v, f, c⟩ | ⟨v, f, c, d⟩
  · rcases second with ⟨v', f', c'⟩ | ⟨v', f', c', d'⟩
    · rw [v, v', f, f']
      simp only [and_self, true_iff]
      rcases c with fine | unaligned
      · exact Or.inl fine
      · rcases c' with fine | unaligned'
        · exact Or.inl fine
        · exact Or.inr ⟨fun h => absurd h unaligned, fun h => absurd h unaligned'⟩
    · rw [v, v', f, f']
      simp only [reduceCtorEq, false_and, false_iff]
      rintro (fine | same)
      · exact c' fine
      · rcases c with fine | unaligned
        · exact c' fine
        · exact unaligned (same.mpr d')
  · rcases second with ⟨v', f', c'⟩ | ⟨v', f', c', d'⟩
    · rw [v, v', f, f']
      simp only [reduceCtorEq, false_and, false_iff]
      rintro (fine | same)
      · exact c fine
      · rcases c' with fine | unaligned
        · exact c fine
        · exact unaligned (same.mp d)
    · rw [v, v', f, f']
      simp only [and_self, true_iff]
      exact Or.inr ⟨fun _ => d', fun _ => d⟩

/- EOT, and then nothing: the search for the final header times out. -/
def endedSilently : Line := [some EOT]

set_option maxRecDepth 10000 in
theorem ended_uploads_agree_iff_without_header :
    SameVerdict (ymodemUpload crcXmodem ramDisk 0 none (transfer [(1, letters)] endedSilently))
        (ymodemUpload crcXmodem ramDisk 0 none
          (transfer [(1, letters), (2, letters)] endedSilently)) ↔
      Stat.timeout = .ok ∨
        ((received crcXmodem 0 (transfer [(1, letters)] endedSilently)).bytes.length
            % writeBufSize = 0 ↔
          (received crcXmodem 0 (transfer [(1, letters), (2, letters)] endedSilently)).bytes.length
            % writeBufSize = 0) :=
  ended_uploads_agree_iff crcXmodem ramDisk ramDisk ram_disk_stores ram_disk_stores 0 0 none none
    _ _ .timeout (by decide +kernel) (by decide +kernel) (by decide +kernel) (by decide +kernel)

set_option maxRecDepth 10000 in
theorem ended_uploads_disagree :
    (received crcXmodem 0 (transfer [] endedSilently)).ending = .eot .timeout ∧
    (received crcXmodem 0 (transfer [(1, letters)] endedSilently)).ending = .eot .timeout ∧
    ¬ SameVerdict (ymodemUpload crcXmodem ramDisk 0 none (transfer [] endedSilently))
      (ymodemUpload crcXmodem ramDisk 0 none (transfer [(1, letters)] endedSilently)) := by
  refine ⟨by decide +kernel, by decide +kernel, ?_⟩
  unfold SameVerdict
  decide +kernel

end UploadVerdict
