import Nios2Ecos.XyzModem

/- What a line says, apart from the receiver that listens to it. A transcript is
   the sequence of messages found by repeated header searches; it depends on the
   characters and the error check in force only. The receiver of the source is
   then a function of the transcript: which packets it takes and how it ends. -/
namespace LineTranscript
open XyzModem
variable (crc : List UInt8 → UInt16)

/-- Why a search found no message: silence, or a message that fails its checks. -/
inductive Noise where
  | timeout | frame | cksum
  deriving DecidableEq, Repr

def Noise.stat : Noise → Stat
  | .timeout => .timeout
  | .frame => .frame
  | .cksum => .cksum

inductive Heard where
  | packet (blk : UInt8) (data : List UInt8)
  | eot
  | cancel
  | noise (n : Noise)
  deriving DecidableEq, Repr

def Heard.stat : Heard → Stat
  | .packet _ _ => .ok
  | .eot => .eof
  | .cancel => .cancel
  | .noise n => n.stat

/-- Looks for the byte that starts a message: the sum's left side is that byte. -/
def seekHeader (cans chars : Nat) : Line → (UInt8 ⊕ Heard) × Line
  | [] => (.inr (.noise .timeout), [])
  | none :: rest => (.inr (.noise .timeout), afterIdle rest)
  | some c :: rest =>
    if c = SOH ∨ c = STX then (.inl c, rest)
    else if c = CAN then
      if cans + 1 = canCount then (.inr .cancel, rest) else seekHeader (cans + 1) (chars + 1) rest
    else if c = EOT ∧ chars = 0 then (.inr .eot, rest)
    else seekHeader cans (chars + 1) rest

/-- The check bytes agree with the data: two CRC bytes, or one sum byte. -/
def Matches (crcMode : Bool) (data : List UInt8) (c1 c2 : UInt8) : Prop :=
  if crcMode then crc data = (c1.toUInt16 <<< 8) ||| c2.toUInt16
  else c1.toUInt16 = checksum data &&& 0xFF

instance (crcMode : Bool) (data : List UInt8) (c1 c2 : UInt8) :
    Decidable (Matches crc crcMode data c1 c2) :=
  inferInstanceAs (Decidable (ite _ _ _))

def judge (crcMode : Bool) (blk cblk c1 c2 : UInt8) (data : List UInt8) (line : Line) :
    Heard × Line :=
  if blk ^^^ cblk ≠ 0xFF then (.noise .frame, afterIdle line)
  else if Matches crc crcMode data c1 c2 then (.packet blk data, line)
  else (.noise .cksum, line)

def hearTrailer (crcMode : Bool) (blk cblk : UInt8) (data : List UInt8) : Line → Heard × Line
  | some c1 :: rest =>
    if crcMode then
      match rest with
      | some c2 :: rest => judge crc crcMode blk cblk c1 c2 data rest
      | rest => (.noise .timeout, rest.tail)
    else judge crc crcMode blk cblk c1 0 data rest
  | rest => (.noise .timeout, rest.tail)

/-- The message that follows the header byte `c`. -/
def hearMessage (crcMode : Bool) (c : UInt8) : Line → Heard × Line
  | some blk :: some cblk :: body =>
    let data := (takeBytes (messageLength c) body).1
    let rest := (takeBytes (messageLength c) body).2
    if data.length < messageLength c then (.noise .timeout, rest)
    else hearTrailer crc crcMode blk cblk data rest
  | some _ :: rest => (.noise .timeout, rest.tail)
  | rest => (.noise .timeout, rest.tail)

/-- One search: what is heard next, and the line after it. -/
def hear (crcMode : Bool) (line : Line) : Heard × Line :=
  match seekHeader 0 0 line with
  | (.inl c, rest) => hearMessage crc crcMode c rest
  | (.inr h, rest) => (h, rest)

def transcriptFuel (crcMode : Bool) : Nat → Line → List Heard
  | 0, _ => []
  | _ + 1, [] => []
  | n + 1, e :: rest =>
    (hear crc crcMode (e :: rest)).1 :: transcriptFuel crcMode n (hear crc crcMode (e :: rest)).2

/-- Everything heard until the line falls silent for good. -/
def transcript (crcMode : Bool) (line : Line) : List Heard :=
  transcriptFuel crc crcMode line.length line

theorem after_idle_length (line : Line) : (afterIdle line).length ≤ line.length := by
  induction line with
  | nil => simp [afterIdle]
  | cons e rest ih =>
    cases e with
    | none => simp [afterIdle]
    | some b => simp only [afterIdle, List.length_cons]; omega

theorem take_bytes_total (n : Nat) (line : Line) :
    (takeBytes n line).1.length + (takeBytes n line).2.length ≤ line.length ∧
    (takeBytes n line).1.length ≤ n := by
  induction n generalizing line with
  | zero => simp [takeBytes]
  | succ n ih =>
    cases line with
    | nil => simp [takeBytes]
    | cons e rest =>
      cases e with
      | none => simp [takeBytes]
      | some b =>
        have tail := ih rest
        simp only [takeBytes, List.length_cons]
        omega

theorem seek_header_length (cans chars : Nat) (line : Line) :
    (seekHeader cans chars line).2.length ≤ line.length - 1 := by
  induction line generalizing cans chars with
  | nil => simp [seekHeader]
  | cons e rest ih =>
    cases e with
    | none =>
      have idle := after_idle_length rest
      simpa [seekHeader] using idle
    | some c =>
      have later := ih (cans + 1) (chars + 1)
      have same := ih cans (chars + 1)
      simp only [seekHeader, List.length_cons, Nat.add_sub_cancel]
      split_ifs
      · exact Nat.le_refl _
      · exact Nat.le_refl _
      · omega
      · exact Nat.le_refl _
      · omega

theorem seek_header_no_packet {cans chars : Nat} {line : Line} {h : Heard}
    (found : (seekHeader cans chars line).1 = .inr h) (b : UInt8) (d : List UInt8) :
    h ≠ .packet b d := by
  induction line generalizing cans chars with
  | nil => cases found; simp
  | cons e rest ih =>
    cases e with
    | none => cases found; simp
    | some c =>
      simp only [seekHeader] at found
      split_ifs at found
      · cases found; simp
      · exact ih found
      · cases found; simp
      · exact ih found

theorem judge_length (crcMode : Bool) (blk cblk c1 c2 : UInt8) (data : List UInt8) (line : Line) :
    (judge crc crcMode blk cblk c1 c2 data line).2.length ≤ line.length := by
  simp only [judge]
  split_ifs
  · exact after_idle_length line
  · exact Nat.le_refl _
  · exact Nat.le_refl _

theorem hear_trailer_length (crcMode : Bool) (blk cblk : UInt8) (data : List UInt8)
    (line : Line) : (hearTrailer crc crcMode blk cblk data line).2.length ≤ line.length := by
  unfold hearTrailer
  split
  · rename_i c1 rest
    split
    · split
      · rename_i c2 rest
        have := judge_length crc crcMode blk cblk c1 c2 data rest
        simp only [List.length_cons]
        omega
      · simp only [List.length_tail, List.length_cons]
        omega
    · have := judge_length crc crcMode blk cblk c1 0 data rest
      simp only [List.length_cons]
      omega
  · simp only [List.length_tail]
    omega

theorem hear_message_length (crcMode : Bool) (c : UInt8) (line : Line) :
    (hearMessage crc crcMode c line).2.length ≤ line.length := by
  unfold hearMessage
  split
  · rename_i blk cblk body
    have taken := (take_bytes_total (messageLength c) body).1
    have trailer := hear_trailer_length crc crcMode blk cblk (takeBytes (messageLength c) body).1
      (takeBytes (messageLength c) body).2
    simp only [List.length_cons]
    split
    · dsimp only
      omega
    · omega
  · simp only [List.length_cons, List.length_tail]
    omega
  · simp only [List.length_tail]
    omega

theorem hear_length (crcMode : Bool) (line : Line) :
    (hear crc crcMode line).2.length ≤ line.length - 1 := by
  have seek := seek_header_length 0 0 line
  unfold hear
  split
  · rename_i c rest found
    rw [found] at seek
    exact Nat.le_trans (hear_message_length crc crcMode c rest) seek
  · rename_i h rest found
    rwa [found] at seek

theorem judge_packet {crcMode : Bool} {blk cblk c1 c2 b : UInt8} {data d : List UInt8}
    {line : Line} (h : (judge crc crcMode blk cblk c1 c2 data line).1 = .packet b d) : d = data := by
  unfold judge at h
  split_ifs at h
  exact (Heard.packet.inj h).2.symm

theorem hear_trailer_packet {crcMode : Bool} {blk cblk b : UInt8} {data d : List UInt8}
    {line : Line} (h : (hearTrailer crc crcMode blk cblk data line).1 = .packet b d) :
    d = data := by
  unfold hearTrailer at h
  split at h
  · split at h
    · split at h
      · exact judge_packet crc h
      · cases h
    · exact judge_packet crc h
  · cases h

theorem hear_message_packet {crcMode : Bool} {c b : UInt8} {d : List UInt8} {line : Line}
    (h : (hearMessage crc crcMode c line).1 = .packet b d) :
    d.length + (hearMessage crc crcMode c line).2.length ≤ line.length := by
  unfold hearMessage at h ⊢
  split at h
  · rename_i blk cblk body
    have total := (take_bytes_total (messageLength c) body).1
    have trailer := hear_trailer_length crc crcMode blk cblk (takeBytes (messageLength c) body).1
      (takeBytes (messageLength c) body).2
    dsimp only at h ⊢
    split at h
    · cases h
    · rename_i whole
      rw [if_neg whole, hear_trailer_packet crc h]
      simp only [List.length_cons]
      omega
  · cases h
  · cases h

theorem hear_packet_length (crcMode : Bool) (line : Line) (b : UInt8) (d : List UInt8)
    (h : (hear crc crcMode line).1 = .packet b d) :
    d.length + (hear crc crcMode line).2.length ≤ line.length - 1 := by
  have seek := seek_header_length 0 0 line
  have noPacket := @seek_header_no_packet 0 0 line
  unfold hear at h ⊢
  generalize seekHeader 0 0 line = found at h seek noPacket
  obtain ⟨c | h', rest⟩ := found
  · exact Nat.le_trans (hear_message_packet crc h) seek
  · exact absurd h (noPacket rfl b d)

/- A packet has one of the two sizes that its header byte can announce. -/
theorem hear_message_size {crcMode : Bool} {c b : UInt8} {d : List UInt8} {line : Line}
    (h : (hearMessage crc crcMode c line).1 = .packet b d) : d.length = messageLength c := by
  unfold hearMessage at h
  split at h
  · rename_i blk cblk body
    have upper := (take_bytes_total (messageLength c) body).2
    dsimp only at h
    split at h
    · cases h
    · rw [hear_trailer_packet crc h]
      omega
  · cases h
  · cases h

theorem message_length_positive (c : UInt8) : 0 < messageLength c := by
  unfold messageLength
  split <;> omega

theorem hear_packet_positive (crcMode : Bool) (line : Line) (b : UInt8) (d : List UInt8)
    (h : (hear crc crcMode line).1 = .packet b d) : 0 < d.length := by
  have noPacket := @seek_header_no_packet 0 0 line
  unfold hear at h
  generalize seekHeader 0 0 line = found at h noPacket
  obtain ⟨c | h', rest⟩ := found
  · rw [hear_message_size crc h]
    exact message_length_positive c
  · exact absurd h (noPacket rfl b d)

theorem transcript_fuel_enough (crcMode : Bool) (n m : Nat) (line : Line)
    (hn : line.length ≤ n) (hm : line.length ≤ m) :
    transcriptFuel crc crcMode n line = transcriptFuel crc crcMode m line := by
  induction n generalizing m line with
  | zero =>
    have empty : line = [] := List.length_eq_zero_iff.mp (by omega)
    subst line
    cases m <;> rfl
  | succ n ih =>
    cases line with
    | nil => cases m <;> rfl
    | cons e rest =>
      cases m with
      | zero => simp at hm
      | succ m =>
        have shorter := hear_length crc crcMode (e :: rest)
        simp only [List.length_cons] at hn hm shorter
        simp only [transcriptFuel]
        rw [ih m _ (by omega) (by omega)]

theorem transcript_nil (crcMode : Bool) : transcript crc crcMode [] = [] := rfl

theorem transcript_cons (crcMode : Bool) (e : Option UInt8) (rest : Line) :
    transcript crc crcMode (e :: rest) =
      (hear crc crcMode (e :: rest)).1 ::
        transcript crc crcMode (hear crc crcMode (e :: rest)).2 := by
  have shorter := hear_length crc crcMode (e :: rest)
  simp only [List.length_cons] at shorter
  simp only [transcript, List.length_cons, transcriptFuel]
  rw [transcript_fuel_enough crc crcMode rest.length _ _ (by omega) (Nat.le_refl _)]

/-- Past the end of its transcript a line only times out. -/
theorem hear_head (crcMode : Bool) (line : Line) :
    (hear crc crcMode line).1 = (transcript crc crcMode line).headD (.noise .timeout) := by
  cases line with
  | nil => rfl
  | cons e rest => rw [transcript_cons]; rfl

theorem hear_tail (crcMode : Bool) (line : Line) :
    transcript crc crcMode (hear crc crcMode line).2 = (transcript crc crcMode line).tail := by
  cases line with
  | nil => rfl
  | cons e rest => rw [transcript_cons]; rfl

theorem transcript_packet_positive (crcMode : Bool) (line : Line) (b : UInt8) (d : List UInt8)
    (h : .packet b d ∈ transcript crc crcMode line) : 0 < d.length := by
  induction size : line.length using Nat.strongRecOn generalizing line with
  | ind size ih =>
    cases line with
    | nil => cases h
    | cons e rest =>
      have shorter := hear_length crc crcMode (e :: rest)
      simp only [List.length_cons] at size shorter
      rw [transcript_cons] at h
      rcases List.mem_cons.mp h with first | later
      · exact hear_packet_positive crc crcMode (e :: rest) b d first.symm
      · exact ih _ (by omega) _ later rfl

end LineTranscript
