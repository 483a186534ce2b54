import Nios2Ecos.LineTranscript

/- The receiver of the source against the transcript of its line. Every search,
   retry and buffer operation of xyzModem_stream_read is accounted for by one
   recursive function on transcripts. -/
namespace PacketReceiver
open XyzModem LineTranscript
variable (crc : List UInt8 → UInt16)

/-- The part of the record that listening to the line leaves alone. -/
structure Session where
  crcMode : Bool
  nextBlk : UInt8
  mode : Mode
  atEof : Bool

def session (x : Xyz) : Session := ⟨x.crcMode, x.nextBlk, x.mode, x.atEof⟩

/-- A packet has been heard and nothing of it has been copied. -/
structure Holding (x : Xyz) (data : List UInt8) : Prop where
  len : x.len = data.length
  positive : 0 < data.length
  bufp : x.bufp = 0
  stored : x.pkt.take data.length = data

/- What one call of xyzModem_get_hdr leaves behind when `h` was heard. -/
def Carries (h : Heard) (stat : Stat) (y : Xyz) : Prop :=
  stat = h.stat ∧ ∀ blk data, h = .packet blk data → y.blk = blk ∧ Holding y data

theorem Carries.of_noise {n : Noise} {stat : Stat} {y : Xyz} (h : stat = n.stat) :
    Carries (.noise n) stat y :=
  ⟨h, by intro blk data eq; cases eq⟩

structure Listened (x : Xyz) (h : Heard × Line) (r : Stat × Xyz) : Prop where
  line : r.2.line = h.2
  same : session r.2 = session x
  carries : Carries h.1 r.1 r.2

theorem get_char_some {x : Xyz} {c : UInt8} {rest : Line} (h : x.line = some c :: rest) :
    getCharTimeout x = (some c, { x with line := rest }) := by
  simp [getCharTimeout, h]

theorem get_char_none {x : Xyz} (h : ∀ c rest, x.line ≠ some c :: rest) :
    getCharTimeout x = (none, { x with line := x.line.tail }) := by
  unfold getCharTimeout
  split
  · rename_i empty
    rw [empty, List.tail_nil, ← empty]
  · rename_i e rest shape
    cases e with
    | none => simp [shape]
    | some c => exact absurd shape (h c rest)

theorem find_hdr_spec (cans chars : Nat) (x : Xyz) (line : Line) :
    (findHdr cans chars x line).2.line = (seekHeader cans chars line).2 ∧
    session (findHdr cans chars x line).2 = session x ∧
    (match (seekHeader cans chars line).1 with
      | .inl c => (findHdr cans chars x line).1 = .header c
      | .inr h => (findHdr cans chars x line).1 = .stop h.stat) := by
  induction line generalizing cans chars x with
  | nil => exact ⟨rfl, rfl, rfl⟩
  | cons e rest ih =>
    cases e with
    | none => exact ⟨rfl, rfl, rfl⟩
    | some c =>
      simp only [findHdr, seekHeader]
      by_cases soh : c = SOH
      · rw [if_pos soh, if_pos (Or.inl soh)]
        exact ⟨rfl, rfl, rfl⟩
      by_cases stx : c = STX
      · rw [if_neg soh, if_pos stx, if_pos (Or.inr stx)]
        exact ⟨rfl, rfl, rfl⟩
      simp only [soh, stx, ↓reduceIte, or_self]
      by_cases can : c = CAN
      · simp only [can, ↓reduceIte]
        split
        · exact ⟨rfl, rfl, rfl⟩
        · obtain ⟨lines, same, found⟩ :=
            ih (cans + 1) (chars + 1) { x with totalCAN := x.totalCAN + 1 }
          exact ⟨lines, same, found⟩
      simp only [can, ↓reduceIte, Nat.add_eq_right]
      split
      · exact ⟨rfl, rfl, rfl⟩
      · exact ih cans (chars + 1) x

theorem check_message_stat (x : Xyz) :
    (checkMessage crc x).1 = if x.blk ^^^ x.cblk ≠ 0xFF then .frame
      else if Matches crc x.crcMode (x.pkt.take x.len.toNat) x.crc1 x.crc2 then .ok
      else .cksum := by
  simp only [checkMessage, Matches]
  cases x.crcMode <;> split <;> simp <;> split <;> simp_all

theorem check_message_state (x : Xyz) :
    (checkMessage crc x).2 = if x.blk ^^^ x.cblk ≠ 0xFF then xyzModemFlush x else x := by
  simp only [checkMessage]
  cases x.crcMode <;> split <;> simp <;> split <;> rfl

theorem check_message_listened (x : Xyz) (data : List UInt8) (h : Holding x data) :
    Listened x (judge crc x.crcMode x.blk x.cblk x.crc1 x.crc2 data x.line)
      (checkMessage crc x) := by
  have taken : x.pkt.take x.len.toNat = data := by simpa [h.len] using h.stored
  have stat := check_message_stat crc x
  have state := check_message_state crc x
  rw [taken] at stat
  unfold judge
  split
  · rename_i unframed
    rw [if_pos unframed] at stat state
    exact ⟨by rw [state]; rfl, by rw [state]; rfl, .of_noise stat⟩
  · rename_i framed
    rw [if_neg framed] at stat state
    split
    · rename_i agree
      rw [if_pos agree] at stat
      refine ⟨by rw [state], by rw [state], stat, ?_⟩
      intro blk d eq
      cases eq
      rw [state]
      exact ⟨rfl, h⟩
    · rename_i differ
      rw [if_neg differ] at stat
      exact ⟨by rw [state], by rw [state], .of_noise stat⟩

theorem judge_sum_mode (blk cblk c1 c2 : UInt8) (data : List UInt8) (line : Line) :
    judge crc false blk cblk c1 0 data line = judge crc false blk cblk c1 c2 data line := rfl

theorem Listened.frame {x y : Xyz} {h : Heard × Line} {r : Stat × Xyz}
    (l : Listened y h r) (same : session y = session x) : Listened x h r :=
  ⟨l.line, l.same.trans same, l.carries⟩

/-- A timeout: the statement every early exit of the message reader comes to. -/
theorem timed_out {x y : Xyz} {line : Line} (same : session y = session x) (h : y.line = line) :
    Listened x (.noise .timeout, line) (.timeout, y) :=
  ⟨h, same, .of_noise rfl⟩

theorem read_trailer_listened (x : Xyz) (data : List UInt8) (h : Holding x data) :
    Listened x (hearTrailer crc x.crcMode x.blk x.cblk data x.line) (readTrailer crc x) := by
  unfold hearTrailer readTrailer
  split
  · rename_i c1 rest first
    rw [get_char_some first]
    dsimp only
    split
    · rename_i crcMode
      split
      · rename_i tail c2 rest
        rw [get_char_some (x := { x with line := _, crc1 := c1 }) rfl]
        exact (check_message_listened crc
          { x with line := rest, crc1 := c1, crc2 := c2 } data
          ⟨h.len, h.positive, h.bufp, h.stored⟩).frame rfl
      · rename_i silent
        rw [get_char_none (x := { x with line := _, crc1 := c1 }) (by
          intro c rest eq; exact silent c rest eq)]
        exact timed_out rfl rfl
    · rename_i sumMode
      have mode : x.crcMode = false := by simpa using sumMode
      rw [mode, judge_sum_mode crc x.blk x.cblk c1 x.crc2, ← mode]
      exact (check_message_listened crc { x with line := rest, crc1 := c1 } data
        ⟨h.len, h.positive, h.bufp, h.stored⟩).frame rfl
  · rename_i silent
    rw [get_char_none (by intro c rest eq; exact silent c rest eq)]
    exact timed_out rfl rfl

theorem read_message_listened (x : Xyz) (c : UInt8) :
    Listened x (hearMessage crc x.crcMode c x.line) (readMessage crc c x) := by
  unfold hearMessage readMessage
  split
  · rename_i blk cblk body shape
    rw [get_char_some shape]
    dsimp only
    rw [get_char_some (x := { x with line := some cblk :: body, blk := blk }) rfl]
    dsimp only
    have upper := (take_bytes_total (messageLength c) body).2
    split
    · exact timed_out rfl rfl
    · rename_i whole
      have full : (takeBytes (messageLength c) body).1.length = messageLength c := by omega
      have pos := message_length_positive c
      let y : Xyz := { x with
        blk := blk, cblk := cblk, len := messageLength c, bufp := 0
        pkt := (takeBytes (messageLength c) body).1 ++
          x.pkt.drop (takeBytes (messageLength c) body).1.length
        line := (takeBytes (messageLength c) body).2 }
      have trailer := read_trailer_listened crc y (takeBytes (messageLength c) body).1
        ⟨by simp only [y, full], by omega, rfl, List.take_left⟩
      exact trailer.frame rfl
  · rename_i blk rest silent shape
    rw [get_char_some shape]
    dsimp only
    rw [get_char_none (x := { x with line := rest, blk := blk }) (by
      intro c' rest' eq
      exact silent c' rest' (by rw [← eq]))]
    exact timed_out rfl rfl
  · rename_i h1 h2
    rw [get_char_none (by intro c' rest' eq; exact h2 c' rest' eq)]
    exact timed_out rfl rfl

/-- One call of xyzModem_get_hdr hears exactly the next message of the line. -/
theorem get_hdr_listened (x : Xyz) :
    Listened x (hear crc x.crcMode x.line) (xyzModemGetHdr crc x) := by
  have same : session (sendPendingAck x) = session x := by
    unfold sendPendingAck
    split <;> exact rfl
  have line : (sendPendingAck x).line = x.line := by
    unfold sendPendingAck
    split <;> rfl
  obtain ⟨rest, kept, found⟩ := find_hdr_spec 0 0 (sendPendingAck x) x.line
  unfold hear xyzModemGetHdr
  rw [line]
  split
  · rename_i c line' seek
    rw [seek] at rest found
    have header : findHdr 0 0 (sendPendingAck x) x.line = (.header c, (findHdr 0 0 (sendPendingAck x) x.line).2) :=
      Prod.ext found rfl
    rw [header]
    have mode : (findHdr 0 0 (sendPendingAck x) x.line).2.crcMode = x.crcMode :=
      congrArg Session.crcMode (kept.trans same)
    have message := read_message_listened crc (findHdr 0 0 (sendPendingAck x) x.line).2 c
    rw [mode, rest] at message
    exact message.frame (kept.trans same)
  · rename_i h line' seek
    rw [seek] at rest found
    have stopped : findHdr 0 0 (sendPendingAck x) x.line = (.stop h.stat, (findHdr 0 0 (sendPendingAck x) x.line).2) :=
      Prod.ext found rfl
    rw [stopped]
    refine ⟨rest, kept.trans same, rfl, ?_⟩
    intro blk data eq
    exact absurd eq (seek_header_no_packet (by rw [seek]) blk data)

/- How a transfer ends: EOT was accepted and the search for the final header gave
   `final`, or a search for the next packet failed. -/
inductive Ending where
  | eot (final : Stat)
  | failed (stat : Stat)
  deriving DecidableEq, Repr

structure Received where
  chunks : List (List UInt8)
  ending : Ending
  deriving DecidableEq, Repr

def Received.prepend (chunk : List UInt8) (r : Received) : Received :=
  ⟨chunk :: r.chunks, r.ending⟩

def Received.bytes (r : Received) : List UInt8 := r.chunks.flatten

/-- The part of an accepted packet that reaches the file. -/
def kept (data : List UInt8) : List UInt8 := data.take (keptLength data data.length)

/-- Tries left to a search after its first one. -/
def spareTries : Nat := maxRetries - 1

/-- What the receiver of the source makes of a transcript when it waits for block
    `n` and has `left` tries after the current one. A retransmission that uses up
    the last try is taken for data. -/
def receive (n : UInt8) (left : Nat) : List Heard → Received
  | [] => ⟨[], .failed .timeout⟩
  | .packet b data :: hs =>
    if b = n then (receive (n + 1) spareTries hs).prepend (kept data)
    else if b = n - 1 then
      if left = 0 then (receive n spareTries hs).prepend data else receive n (left - 1) hs
    else if left = 0 then ⟨[], .failed .sequence⟩ else receive n (left - 1) hs
  | .eot :: hs => ⟨[], .eot (hs.headD (.noise .timeout)).stat⟩
  | .cancel :: _ => ⟨[], .failed .cancel⟩
  | .noise s :: hs => if left = 0 then ⟨[], .failed s.stat⟩ else receive n (left - 1) hs

theorem drop_padding_le (data : List UInt8) (n : Nat) : dropPadding data n ≤ n := by
  induction n with
  | zero => exact Nat.le_refl _
  | succ n ih =>
    simp only [dropPadding]
    split <;> omega

theorem kept_length_le (data : List UInt8) (n : Nat) : keptLength data n ≤ n := by
  unfold keptLength
  split
  · exact drop_padding_le data n
  · exact Nat.le_refl n

theorem drop_padding_take (data : List UInt8) (n m : Nat) (h : n ≤ m) :
    dropPadding (data.take m) n = dropPadding data n := by
  induction n with
  | zero => rfl
  | succ n ih =>
    have inside : n < m := by omega
    simp only [dropPadding, List.getElem?_take_of_lt inside, ih (by omega)]

theorem kept_length_take (data : List UInt8) (n : Nat) (pos : 0 < n) :
    keptLength (data.take n) n = keptLength data n := by
  have h1 : n - 1 < n := by omega
  have h2 : n - 2 < n := by omega
  have h3 : n - 3 < n := by omega
  simp only [keptLength, List.getElem?_take_of_lt h1, List.getElem?_take_of_lt h2,
    List.getElem?_take_of_lt h3, drop_padding_take data n n (Nat.le_refl n)]

/- The bytes of the current packet that have not been copied yet. -/
def pending (x : Xyz) : List UInt8 := (x.pkt.drop x.bufp).take x.len.toNat

/-- A receiver in the middle of a transfer, its packet length a length. -/
structure Receiving (x : Xyz) : Prop where
  mode : x.mode = .ymodem
  running : x.atEof = false
  nonneg : 0 ≤ x.len
  inside : x.len.toNat ≤ (x.pkt.drop x.bufp).length

theorem Receiving.pending_length {x : Xyz} (r : Receiving x) :
    (pending x).length = x.len.toNat := by
  have inside := r.inside
  simp only [pending, List.length_take]
  omega

/- All the bytes still to come, and the end. -/
def upcoming (x : Xyz) : Received :=
  (receive x.nextBlk spareTries (transcript crc x.crcMode x.line)).prepend (pending x)

theorem Holding.pending_eq {x : Xyz} {data : List UInt8} (h : Holding x data) :
    pending x = data := by
  simp [pending, h.bufp, h.len, h.stored]

theorem Holding.enough {x : Xyz} {data : List UInt8} (h : Holding x data) :
    data.length ≤ x.pkt.length := by
  have := congrArg List.length h.stored
  rw [List.length_take] at this
  omega

theorem Holding.receiving {x : Xyz} {data : List UInt8} (h : Holding x data)
    (mode : x.mode = .ymodem) (running : x.atEof = false) : Receiving x := by
  have enough := h.enough
  refine ⟨mode, running, ?_, ?_⟩
  · rw [h.len]; omega
  · simp only [h.len, h.bufp, List.drop_zero]; omega

theorem Holding.accept {x : Xyz} {data : List UInt8} (h : Holding x data)
    (mode : x.mode = .ymodem) (running : x.atEof = false) :
    Receiving (acceptPacket x) ∧ pending (acceptPacket x) = kept data := by
  have enough := h.enough
  have le := kept_length_le data data.length
  have same : keptLength x.pkt data.length = keptLength data data.length := by
    conv_rhs => rw [← h.stored]
    rw [List.length_take, Nat.min_eq_left enough, kept_length_take x.pkt _ h.positive]
  have length : (acceptPacket x).len = (keptLength data data.length : Nat) := by
    simp [acceptPacket, h.bufp, h.len, same]
  refine ⟨⟨mode, running, by rw [length]; omega, ?_⟩, ?_⟩
  · rw [length]
    simp only [acceptPacket, h.bufp, List.drop_zero]
    omega
  · unfold pending kept
    rw [length]
    conv_rhs => rw [← h.stored]
    simp only [acceptPacket, h.bufp, List.drop_zero, Int.toNat_natCast, List.take_take]
    rw [List.length_take, Nat.min_eq_left enough, h.stored, Nat.min_eq_left le]

/- The three ways a search ends, on both sides: the receiver of the source and the
   function on transcripts. -/
def SearchOutcome (x : Xyz) (r : Received) (stat : Stat) (y : Xyz) : Prop :=
  (stat = .ok ∧ Receiving y ∧ y.line.length < x.line.length ∧ r = upcoming crc y) ∨
  (y.atEof = true ∧ r = ⟨[], .eot stat⟩) ∨
  (stat ≠ .ok ∧ y.atEof = false ∧ r = ⟨[], .failed stat⟩)

theorem SearchOutcome.farther {x x' : Xyz} {r : Received} {stat : Stat} {y : Xyz}
    (h : SearchOutcome crc x' r stat y) (shorter : x'.line.length ≤ x.line.length) :
    SearchOutcome crc x r stat y := by
  rcases h with ⟨ok, receiving, less, eq⟩ | ended
  · exact Or.inl ⟨ok, receiving, by omega, eq⟩
  · exact Or.inr ended

theorem finish_transfer_outcome (x : Xyz) (mode : x.mode = .ymodem) :
    (finishTransfer crc x).2.atEof = true ∧
    (finishTransfer crc x).1 = (hear crc x.crcMode x.line).1.stat := by
  have listened := get_hdr_listened crc (askAgain (putChar x ACK))
  simp only [finishTransfer, mode]
  exact ⟨trivial, listened.carries.1⟩

/- A transcript that has run out continues with timeouts. -/
theorem receive_heard (n : UInt8) (left : Nat) (hs : List Heard) :
    receive n left hs = receive n left (hs.headD (.noise .timeout) :: hs.tail) := by
  cases hs with
  | nil => cases left <;> rfl
  | cons h hs => rfl

theorem receive_hear (n : UInt8) (left : Nat) (crcMode : Bool) (line : Line) :
    receive n left (transcript crc crcMode line) =
      receive n left ((hear crc crcMode line).1 ::
        transcript crc crcMode (hear crc crcMode line).2) := by
  rw [receive_heard, hear_head, hear_tail]

/- How the search goes on after one try, by what the try heard. -/
def afterTry (left : Nat) (y : Xyz) : Heard → Stat × Xyz
  | .packet _ _ =>
    if y.blk = y.nextBlk then (.ok, acceptPacket y)
    else if y.blk = y.nextBlk - 1 then nextPacket crc left .ok (putChar y ACK)
    else nextPacket crc left .sequence (askAgain y)
  | .eot => finishTransfer crc y
  | .cancel => (.cancel, y)
  | .noise s => nextPacket crc left s.stat (askAgain y)

theorem next_packet_step (left : Nat) (stat : Stat) (x y : Xyz) (h : Heard)
    (result : xyzModemGetHdr crc x = (h.stat, y)) :
    nextPacket crc (left + 1) stat x = afterTry crc left y h := by
  simp only [nextPacket, result]
  cases h with
  | packet blk data => rfl
  | eot => rfl
  | cancel => rfl
  | noise s => cases s <;> rfl

/- The search goes on, or its tries are used up with a failing status. -/
theorem retry_outcome (left : Nat) (s : Stat) (x y : Xyz) (bad : s ≠ .ok)
    (running : y.atEof = false) (shorter : y.line.length ≤ x.line.length)
    (ih : ∀ k, left = k + 1 → SearchOutcome crc y
      (receive y.nextBlk k (transcript crc y.crcMode y.line))
      (nextPacket crc left s y).1 (nextPacket crc left s y).2) :
    SearchOutcome crc x
      (if left = 0 then ⟨[], .failed s⟩
        else receive y.nextBlk (left - 1) (transcript crc y.crcMode y.line))
      (nextPacket crc left s y).1 (nextPacket crc left s y).2 := by
  cases left with
  | zero => exact Or.inr (Or.inr ⟨bad, running, rfl⟩)
  | succ k => exact (ih k rfl).farther crc shorter

theorem next_packet_outcome (left : Nat) (stat : Stat) (x : Xyz) (mode : x.mode = .ymodem)
    (running : x.atEof = false) :
    SearchOutcome crc x (receive x.nextBlk left (transcript crc x.crcMode x.line))
      (nextPacket crc (left + 1) stat x).1 (nextPacket crc (left + 1) stat x).2 := by
  induction left using Nat.strongRecOn generalizing stat x with
  | ind left ih =>
    obtain ⟨line, same, carries⟩ := get_hdr_listened crc x
    have shorter := hear_length crc x.crcMode x.line
    have packetLength := hear_packet_length crc x.crcMode x.line
    have step := receive_hear crc x.nextBlk left x.crcMode x.line
    generalize hear crc x.crcMode x.line = heard at line carries shorter packetLength step
    obtain ⟨h, rest⟩ := heard
    generalize state : (xyzModemGetHdr crc x).2 = y at line same carries
    have yMode : y.mode = .ymodem := (congrArg Session.mode same).trans mode
    have yRunning : y.atEof = false := (congrArg Session.atEof same).trans running
    have yNext : x.nextBlk = y.nextBlk := (congrArg Session.nextBlk same).symm
    have yCrc : x.crcMode = y.crcMode := (congrArg Session.crcMode same).symm
    rw [next_packet_step crc left stat x y h (Prod.ext carries.1 state), step, yNext, yCrc]
    simp only at line
    subst line
    -- with `left = k + 1` the rest of the search is one with `k` spare tries
    have again : ∀ (s : Stat) (z : Xyz), z.mode = .ymodem → z.atEof = false →
        ∀ k, left = k + 1 → SearchOutcome crc z
          (receive z.nextBlk k (transcript crc z.crcMode z.line))
          (nextPacket crc left s z).1 (nextPacket crc left s z).2 := by
      intro s z zMode zRunning k eq
      subst eq
      exact ih k (Nat.lt_succ_self k) s z zMode zRunning
    cases h with
    | packet blk data =>
      obtain ⟨block, holding⟩ := carries.2 blk data rfl
      have total := packetLength blk data rfl
      have positive := holding.positive
      have less : y.line.length < x.line.length := by
        dsimp only at total
        omega
      subst block
      simp only [receive, afterTry]
      by_cases expected : y.blk = y.nextBlk
      · simp only [expected, ↓reduceIte]
        obtain ⟨receiving, keeps⟩ := holding.accept yMode yRunning
        refine Or.inl ⟨rfl, receiving, less, ?_⟩
        simp only [upcoming, keeps]
        rfl
      · simp only [expected, ↓reduceIte]
        by_cases repeated : y.blk = y.nextBlk - 1
        · simp only [repeated, ↓reduceIte]
          cases left with
          | zero =>
            have receiving := holding.receiving yMode yRunning
            refine Or.inl ⟨rfl, ⟨receiving.1, receiving.2, receiving.3, receiving.4⟩, less, ?_⟩
            have keeps : pending (putChar y ACK) = data := holding.pending_eq
            simp only [nextPacket, upcoming, keeps, ↓reduceIte]
            rfl
          | succ k =>
            exact (again .ok (putChar y ACK) yMode yRunning k rfl).farther crc (Nat.le_of_lt less)
        · simp only [repeated, ↓reduceIte]
          exact retry_outcome crc left .sequence x (askAgain y) (by simp) yRunning
            (Nat.le_of_lt less) (again .sequence (askAgain y) yMode yRunning)
    | eot =>
      obtain ⟨ended, final⟩ := finish_transfer_outcome crc y yMode
      rw [hear_head] at final
      refine Or.inr (Or.inl ⟨ended, ?_⟩)
      simp only [receive, afterTry, final]
    | cancel => exact Or.inr (Or.inr ⟨by simp [afterTry], yRunning, rfl⟩)
    | noise s =>
      have bad : s.stat ≠ .ok := by cases s <;> simp [Noise.stat]
      simp only [receive, afterTry]
      exact retry_outcome crc left s.stat x (askAgain y) bad yRunning
        (Nat.le_trans shorter (Nat.sub_le _ _)) (again s.stat (askAgain y) yMode yRunning)

end PacketReceiver
