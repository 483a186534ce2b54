import Nios2Ecos.UploadFidelity

/- A whole Y-modem session over a line that damages packets and loses acknowledgements: the
   sender's packets as they arrive, each after its damaged copies and with its repetitions, and
   what the upload makes of them. -/
namespace YmodemTransfer
open XyzModem LineTranscript PacketReceiver YmodemUpload YmodemSender
open UploadFidelity (fileHeader ramDisk ram_disk_stores)
variable (crc : List UInt8 → UInt16)

def framed (c : UInt16) (blk : UInt8) (data : List UInt8) : Line :=
  some (if data.length = 128 then SOH else STX) :: some blk :: some (0xFF ^^^ blk) ::
    (data.map some ++ [some (c >>> 8).toUInt8, some c.toUInt8])

/-- How often a packet is on the line: the data of its damaged copies before the first good one,
    and the number of good copies after that. -/
structure Attempts where
  bad : List (List UInt8)
  repeats : Nat

def attempts (blk : UInt8) (data : List UInt8) (a : Attempts) : Line :=
  a.bad.flatMap (framed (crc data) blk) ++
    (List.replicate (a.repeats + 1) (packet crc blk data)).flatten

def dataPhase (blk : UInt8) : List (List UInt8 × Attempts) → Line
  | [] => []
  | p :: ps => attempts crc blk p.1 p.2 ++ dataPhase (blk + 1) ps

def session (quiet : Nat) (header : List UInt8) (first : Attempts)
    (ps : List (List UInt8 × Attempts)) (final : List UInt8) : Line :=
  List.replicate (2 * quiet) none ++ (attempts crc 0 header first ++
    (dataPhase crc 1 ps ++ some EOT :: packet crc 0 final))

/-- A packet of a legal size, and damage that the check finds. -/
structure Sound (data : List UInt8) (a : Attempts) : Prop where
  size : data.length = 128 ∨ data.length = 1024
  found : ∀ d ∈ a.bad, d.length = data.length ∧ crc d ≠ crc data

/-- No search for a packet needs more tries than the receiver has; `before` copies of the last
    packet come first. -/
def Patient (before : Nat) : List (List UInt8 × Attempts) → Prop
  | [] => before ≤ spareTries
  | p :: ps => before + p.2.bad.length ≤ spareTries ∧ Patient p.2.repeats ps

def events (blk : UInt8) : List (List UInt8 × Attempts) → List Heard
  | [] => []
  | p :: ps =>
    List.replicate p.2.bad.length (.noise .cksum) ++
      (.packet blk p.1 :: List.replicate p.2.repeats (.packet blk p.1)) ++ events (blk + 1) ps

def payloads (full : List (List UInt8)) (tail : List UInt8) (room : Nat) : List (List UInt8) :=
  full ++ if tail = [] then [] else [tail ++ List.replicate (room - tail.length) PAD]

def EndsInPads (data : List UInt8) : Prop := [PAD, PAD, PAD] <:+ data

instance (data : List UInt8) : Decidable (EndsInPads data) :=
  inferInstanceAs (Decidable ([PAD, PAD, PAD] <:+ data))

/-- No packet ends in bytes of the file that look like padding, and there is enough padding
    behind the file for the receiver to take it off. -/
def Intact (full : List (List UInt8)) (tail : List UInt8) (room : Nat) : Prop :=
  (∀ b ∈ full, ¬ EndsInPads b) ∧
    (tail = [] ∨ tail.length + 3 ≤ room ∧ tail.getLast? ≠ some PAD)

theorem hear_damaged {c : UInt16} (blk : UInt8) {data : List UInt8} (rest : Line)
    (length : data.length = 128 ∨ data.length = 1024) (bad : crc data ≠ c) :
    hear crc true (framed c blk data ++ rest) = (.noise .cksum, rest) := by
  have block : blk ^^^ (0xFF ^^^ blk) = 0xFF := by
    rw [UInt8.xor_comm 0xFF, ← UInt8.xor_assoc, UInt8.xor_self, UInt8.zero_xor]
  have size : messageLength (if data.length = 128 then SOH else STX) = data.length := by
    rcases length with small | large
    · rw [if_pos small, small]; rfl
    · rw [if_neg (by omega), large]; rfl
  have found : seekHeader 0 0 (framed c blk data ++ rest) =
      (.inl (if data.length = 128 then SOH else STX), (framed c blk data ++ rest).tail) := by
    simp only [framed, List.cons_append, seekHeader, List.tail_cons]
    apply if_pos
    by_cases small : data.length = 128
    · exact Or.inl (if_pos small)
    · exact Or.inr (if_neg small)
  unfold hear
  rw [found]
  simp only [framed, List.cons_append, List.tail_cons, hearMessage, List.append_assoc, size,
    take_bytes_sent, Nat.lt_irrefl, ↓reduceIte]
  simp only [List.nil_append, hearTrailer, judge, block, Matches, crc_bytes, ne_eq,
    not_true_eq_false, ↓reduceIte, bad]

theorem transcript_heard {crcMode : Bool} {line rest : Line} {h : Heard} (some_left : line ≠ [])
    (heard : hear crc crcMode line = (h, rest)) :
    transcript crc crcMode line = h :: transcript crc crcMode rest := by
  cases line with
  | nil => exact absurd rfl some_left
  | cons e tail => rw [transcript_cons, heard]

theorem transcript_damaged {blk : UInt8} {data : List UInt8} {bad : List (List UInt8)}
    (size : data.length = 128 ∨ data.length = 1024)
    (found : ∀ d ∈ bad, d.length = data.length ∧ crc d ≠ crc data) (rest : Line) :
    transcript crc true (bad.flatMap (framed (crc data) blk) ++ rest) =
      List.replicate bad.length (.noise .cksum) ++ transcript crc true rest := by
  induction bad with
  | nil => rfl
  | cons d bad ih =>
    obtain ⟨length, differs⟩ := found d (by simp)
    have heard := hear_damaged crc blk (bad.flatMap (framed (crc data) blk) ++ rest)
      (by rw [length]; exact size) differs
    rw [List.flatMap_cons, List.append_assoc, transcript_heard crc (by simp [framed]) heard,
      ih (fun e there => found e (List.mem_cons_of_mem _ there))]
    rfl

theorem transcript_repeats {blk : UInt8} {data : List UInt8}
    (size : data.length = 128 ∨ data.length = 1024) (k : Nat) (rest : Line) :
    transcript crc true ((List.replicate k (packet crc blk data)).flatten ++ rest) =
      List.replicate k (.packet blk data) ++ transcript crc true rest := by
  induction k with
  | zero => rfl
  | succ k ih =>
    have heard := hear_sent_packet crc blk data
      ((List.replicate k (packet crc blk data)).flatten ++ rest) size
    rw [List.replicate_succ, List.flatten_cons, List.append_assoc,
      transcript_heard crc (by simp [packet]) heard, ih]
    rfl

theorem transcript_data (blk : UInt8) (ps : List (List UInt8 × Attempts))
    (sound : ∀ p ∈ ps, Sound crc p.1 p.2) (rest : Line) :
    transcript crc true (dataPhase crc blk ps ++ rest) =
      events blk ps ++ transcript crc true rest := by
  induction ps generalizing blk with
  | nil => rfl
  | cons p ps ih =>
    obtain ⟨size, found⟩ := sound p (by simp)
    rw [dataPhase, attempts, List.append_assoc, List.append_assoc,
      transcript_damaged crc size found, transcript_repeats crc size,
      ih (blk + 1) (fun q there => sound q (List.mem_cons_of_mem _ there)), events]
    simp [List.replicate_succ]

theorem transcript_end {final : List UInt8} (size : final.length = 128 ∨ final.length = 1024) :
    transcript crc true (some EOT :: packet crc 0 final) = [.eot, .packet 0 final] := by
  have eot : hear crc true (some EOT :: packet crc 0 final) = (.eot, packet crc 0 final) := by
    simp [hear, seekHeader, EOT, SOH, STX, CAN]
  have last := hear_sent_packet crc 0 final [] size
  rw [List.append_nil] at last
  rw [transcript_heard crc (by simp) eot, transcript_heard crc (by simp [packet]) last]
  rfl

theorem receive_repeats {n : UInt8} {data : List UInt8} {k left : Nat} (enough : k ≤ left)
    (hs : List Heard) :
    receive n left (List.replicate k (.packet (n - 1) data) ++ hs) = receive n (left - k) hs := by
  induction k generalizing left with
  | zero => rfl
  | succ k ih =>
    have other : n - 1 ≠ n := by
      intro same
      have shifted := congrArg (fun b => b - n) same
      simp only [UInt8.sub_self] at shifted
      have one : n - 1 - n = (255 : UInt8) := by grind
      rw [one] at shifted
      cases shifted
    rw [List.replicate_succ, List.cons_append, receive, if_neg other, if_pos rfl,
      if_neg (by omega), ih (by omega), Nat.sub_sub, Nat.add_comm 1 k]

theorem receive_noise {n : UInt8} {s : Noise} {k left : Nat} (enough : k ≤ left)
    (hs : List Heard) :
    receive n left (List.replicate k (.noise s) ++ hs) = receive n (left - k) hs := by
  induction k generalizing left with
  | zero => rfl
  | succ k ih =>
    rw [List.replicate_succ, List.cons_append, receive, if_neg (by omega), ih (by omega),
      Nat.sub_sub, Nat.add_comm 1 k]

theorem receive_events {n : UInt8} {before : Nat} {last final : List UInt8}
    {ps : List (List UInt8 × Attempts)} (patient : Patient before ps) :
    receive n spareTries (List.replicate before (.packet (n - 1) last) ++
        (events n ps ++ [.eot, .packet 0 final])) =
      ⟨ps.map fun p => kept p.1, .eot .ok⟩ := by
  induction ps generalizing n before last with
  | nil =>
    rw [receive_repeats patient]
    rfl
  | cons p ps ih =>
    obtain ⟨enough, later⟩ := patient
    have follows : n + 1 - 1 = n := by grind
    have rest := @ih (n + 1) p.2.repeats p.1 later
    rw [follows] at rest
    rw [receive_repeats (by omega), events, List.append_assoc, List.append_assoc,
      receive_noise (by omega), List.cons_append, receive, if_pos rfl, rest]
    rfl

theorem hdr_heard {x : Xyz} {h : Heard} {rest : Line} (crcMode : x.crcMode = true)
    (heard : hear crc true x.line = (h, rest)) :
    ∃ y, xyzModemGetHdr crc x = (h.stat, y) ∧ y.line = rest ∧ y.crcMode = true := by
  have listened := get_hdr_listened crc x
  rw [crcMode, heard] at listened
  have mode := congrArg Session.crcMode listened.same
  exact ⟨_, Prod.ext listened.carries.1 rfl, listened.line, mode.trans crcMode⟩

theorem open_waits {k retries : Nat} {crcRetries : Int} {stat : Stat} {x : Xyz} {rest : Line}
    (line : x.line = List.replicate (2 * k) none ++ rest) (crcMode : x.crcMode = true)
    (early : (k : Int) < crcRetries) :
    ∃ stat' y, y.line = rest ∧ y.crcMode = true ∧
      openLoop crc (retries + k) crcRetries stat x =
        openLoop crc retries (crcRetries - k) stat' y := by
  induction k generalizing crcRetries stat x with
  | zero => exact ⟨stat, x, line, crcMode, by simp⟩
  | succ k ih =>
    have two : List.replicate (2 * (k + 1)) (none : Option UInt8) ++ rest =
        none :: none :: (List.replicate (2 * k) none ++ rest) := rfl
    have silent : hear crc true x.line =
        (.noise .timeout, List.replicate (2 * k) none ++ rest) := by
      rw [line, two]
      rfl
    obtain ⟨y, found, left, mode⟩ := hdr_heard crc crcMode silent
    have still : (retryOpen (crcRetries - 1) y).crcMode = true := by
      have positive : ¬ crcRetries - 1 ≤ 0 := by omega
      simp [retryOpen, askAgain, prompt, putChar, positive, mode]
    obtain ⟨stat', z, line', mode', opened⟩ := @ih (crcRetries - 1) .timeout
      (retryOpen (crcRetries - 1) y) left still (by omega)
    refine ⟨stat', z, line', mode', ?_⟩
    have step : openLoop crc (retries + (k + 1)) crcRetries stat x =
        openLoop crc (retries + k) (crcRetries - 1) .timeout (retryOpen (crcRetries - 1) y) := by
      rw [← Nat.add_assoc, openLoop, found]
      rfl
    rw [step, opened]
    congr 1
    push_cast
    omega

theorem open_damaged {header : List UInt8} {bad : List (List UInt8)} {retries : Nat}
    {crcRetries : Int} {stat : Stat} {x : Xyz} {rest : Line}
    (size : header.length = 128 ∨ header.length = 1024)
    (found : ∀ d ∈ bad, d.length = header.length ∧ crc d ≠ crc header)
    (line : x.line = bad.flatMap (framed (crc header) 0) ++ rest) (crcMode : x.crcMode = true) :
    ∃ stat' y, y.line = rest ∧ y.crcMode = true ∧
      openLoop crc (retries + bad.length) crcRetries stat x =
        openLoop crc retries crcRetries stat' y := by
  induction bad generalizing stat x with
  | nil => exact ⟨stat, x, line, crcMode, rfl⟩
  | cons d bad ih =>
    obtain ⟨length, differs⟩ := found d (by simp)
    rw [List.flatMap_cons, List.append_assoc] at line
    have heard := hear_damaged crc 0 (bad.flatMap (framed (crc header) 0) ++ rest)
      (by rw [length]; exact size) differs
    rw [← line] at heard
    obtain ⟨y, result, left, mode⟩ := hdr_heard crc crcMode heard
    obtain ⟨stat', z, line', mode', opened⟩ := @ih .cksum y
      (fun e there => found e (List.mem_cons_of_mem _ there)) left mode
    refine ⟨stat', z, line', mode', ?_⟩
    rw [List.length_cons, ← Nat.add_assoc, openLoop, result]
    exact opened

theorem session_opens {quiet : Nat} {header final : List UInt8} {first : Attempts}
    {ps : List (List UInt8 × Attempts)} {chan : Int} {xyz : Xyz} (port : 0 ≤ chan)
    (line : xyz.line = session crc quiet header first ps final) (sound : Sound crc header first)
    (early : quiet < maxRetriesWithCrc) (tries : quiet + first.bad.length < maxRetries) :
    ∃ x, xyzModemStreamOpen crc chan .ymodem xyz = .ok x ∧ x.crcMode = true ∧
      x.line = (List.replicate first.repeats (packet crc 0 header)).flatten ++
        (dataPhase crc 1 ps ++ some EOT :: packet crc 0 final) := by
  obtain ⟨size, found⟩ := sound
  obtain ⟨spare, all⟩ : ∃ spare, maxRetries = spare + 1 + first.bad.length + quiet :=
    ⟨maxRetries - 1 - first.bad.length - quiet, by omega⟩
  have start : (prompt (openChannel .ymodem xyz)).line = List.replicate (2 * quiet) none ++
      (first.bad.flatMap (framed (crc header) 0) ++ (packet crc 0 header ++
        ((List.replicate first.repeats (packet crc 0 header)).flatten ++
          (dataPhase crc 1 ps ++ some EOT :: packet crc 0 final)))) := by
    change xyz.line = _
    rw [line, session, attempts, List.replicate_succ, List.flatten_cons]
    simp only [List.append_assoc]
  obtain ⟨s₁, x₁, line₁, mode₁, waited⟩ := @open_waits crc quiet (spare + 1 + first.bad.length)
    maxRetriesWithCrc .ok _ _ start rfl (by exact_mod_cast early)
  obtain ⟨s₂, x₂, line₂, mode₂, damaged⟩ := @open_damaged crc header first.bad (spare + 1)
    (maxRetriesWithCrc - quiet) s₁ x₁ _ size found line₁ mode₁
  have heard := hear_sent_packet crc 0 header ((List.replicate first.repeats
    (packet crc 0 header)).flatten ++ (dataPhase crc 1 ps ++ some EOT :: packet crc 0 final)) size
  rw [← line₂] at heard
  obtain ⟨y, result, left, mode⟩ := hdr_heard crc mode₂ heard
  refine ⟨{ y with txAck := if y.blk = 0 then true else y.txAck, nextBlk := 1, len := 0 }, ?_,
    mode, left⟩
  rw [xyzModemStreamOpen, if_neg (by omega), all, waited, damaged, openLoop, result]
  rfl

theorem ends_in_pads_iff {data : List UInt8} (three : 3 ≤ data.length) :
    EndsInPads data ↔ data[data.length - 1]? = some PAD ∧ data[data.length - 2]? = some PAD ∧
      data[data.length - 3]? = some PAD := by
  obtain ⟨front, a, b, c, rfl⟩ : ∃ front a b c, data = front ++ [a, b, c] := by
    refine ⟨data.take (data.length - 3), data[data.length - 3], data[data.length - 2],
      data[data.length - 1], ?_⟩
    conv_lhs => rw [← List.take_append_drop (data.length - 3) data]
    congr 1
    apply List.ext_getElem
    · simp
      omega
    · intro i small other
      simp only [List.length_cons, List.length_nil] at other
      rw [List.getElem_drop]
      rcases i with _ | _ | _ | i
      · rfl
      · simp only [List.getElem_cons_succ, List.getElem_cons_zero]
        congr 1
        omega
      · simp only [List.getElem_cons_succ, List.getElem_cons_zero]
        congr 1
        omega
      · omega
  have length : (front ++ [a, b, c]).length = front.length + 3 := by simp
  have suffix : EndsInPads (front ++ [a, b, c]) ↔ [PAD, PAD, PAD] = [a, b, c] := by
    rw [EndsInPads, List.suffix_iff_eq_drop, length]
    simp
  rw [suffix, length, List.getElem?_append_right (by omega),
    List.getElem?_append_right (by omega), List.getElem?_append_right (by omega)]
  have one : front.length + 3 - 1 - front.length = 2 := by omega
  have two : front.length + 3 - 2 - front.length = 1 := by omega
  have three : front.length + 3 - 3 - front.length = 0 := by omega
  rw [one, two, three]
  simp only [List.getElem?_cons_succ, List.getElem?_cons_zero, Option.some.injEq, List.cons.injEq,
    and_true]
  constructor
  · rintro ⟨first, second, third⟩
    exact ⟨third.symm, second.symm, first.symm⟩
  · rintro ⟨third, second, first⟩
    exact ⟨first.symm, second.symm, third.symm⟩

theorem kept_full {data : List UInt8} (three : 3 ≤ data.length) (free : ¬ EndsInPads data) :
    kept data = data := by
  have plain : keptLength data data.length = data.length := by
    rw [keptLength, if_neg]
    intro pads
    exact free ((ends_in_pads_iff three).mpr pads)
  rw [kept, plain, List.take_length]

theorem kept_of_pads {data : List UInt8} (three : 3 ≤ data.length) (pads : EndsInPads data) :
    kept data = data.take (dropPadding data data.length) := by
  rw [kept, keptLength, if_pos ((ends_in_pads_iff three).mp pads)]

theorem drop_padding_pad {data : List UInt8} {n : Nat} (pad : data[n]? = some PAD) :
    dropPadding data (n + 1) ≤ n := by
  rw [dropPadding, if_pos pad]
  exact drop_padding_le data n

theorem kept_short {data : List UInt8} (three : 3 ≤ data.length) (pads : EndsInPads data) :
    (kept data).length + 3 ≤ data.length := by
  obtain ⟨one, two, third⟩ := (ends_in_pads_iff three).mp pads
  obtain ⟨n, length⟩ : ∃ n, data.length = n + 3 := ⟨data.length - 3, by omega⟩
  have cut : dropPadding data data.length ≤ n := by
    rw [length] at one two third ⊢
    have first : dropPadding data (n + 3) = dropPadding data (n + 2) := if_pos one
    have second : dropPadding data (n + 2) = dropPadding data (n + 1) := if_pos two
    rw [first, second]
    exact drop_padding_pad third
  rw [kept_of_pads three pads, List.length_take]
  omega

theorem drop_padding_behind {tail : List UInt8} {j k : Nat} (small : j ≤ k) :
    dropPadding (tail ++ List.replicate k PAD) (tail.length + j) =
      dropPadding (tail ++ List.replicate k PAD) tail.length := by
  induction j with
  | zero => rfl
  | succ j ih =>
    have pad : (tail ++ List.replicate k PAD)[tail.length + j]? = some PAD := by
      rw [List.getElem?_append_right (Nat.le_add_right _ _), Nat.add_sub_cancel_left,
        List.getElem?_replicate, if_pos (by omega)]
    rw [← Nat.add_assoc, dropPadding, if_pos pad, ih (by omega)]

theorem drop_padding_all {tail : List UInt8} {k : Nat} (last : tail.getLast? ≠ some PAD) :
    dropPadding (tail ++ List.replicate k PAD) (tail.length + k) = tail.length := by
  rw [drop_padding_behind (Nat.le_refl k)]
  cases length : tail.length with
  | zero => rfl
  | succ m =>
    have other : (tail ++ List.replicate k PAD)[m]? ≠ some PAD := by
      rw [List.getElem?_append_left (by omega)]
      rw [List.getLast?_eq_getElem?, length] at last
      exact last
    rw [dropPadding, if_neg other]

theorem ends_in_padding {tail : List UInt8} {k : Nat} (enough : 3 ≤ k) :
    EndsInPads (tail ++ List.replicate k PAD) := by
  obtain ⟨m, rfl⟩ : ∃ m, k = m + 3 := ⟨k - 3, by omega⟩
  refine ⟨tail ++ List.replicate m PAD, ?_⟩
  rw [List.replicate_add, List.append_assoc]
  rfl

theorem kept_padded {tail : List UInt8} {k : Nat} (enough : 3 ≤ k) :
    (kept (tail ++ List.replicate k PAD)).length ≤ tail.length := by
  have length : (tail ++ List.replicate k PAD).length = tail.length + k := by simp
  rw [kept_of_pads (by omega) (ends_in_padding enough), length, List.length_take,
    drop_padding_behind (Nat.le_refl k)]
  exact Nat.le_trans (Nat.min_le_left _ _) (drop_padding_le _ tail.length)

theorem drop_padding_stops {data : List UInt8} {n : Nat} (inside : n ≤ data.length) :
    (data.take (dropPadding data n)).getLast? ≠ some PAD := by
  induction n with
  | zero => simp [dropPadding]
  | succ n ih =>
    rw [dropPadding]
    split
    · exact ih (by omega)
    · rename_i other
      have byte := List.getElem?_eq_getElem inside
      rw [List.take_add_one, byte, Option.toList_some, List.getLast?_concat, ← byte]
      exact other

theorem kept_unpadded {data : List UInt8} (three : 3 ≤ data.length) (pads : EndsInPads data) :
    (kept data).getLast? ≠ some PAD := by
  rw [kept_of_pads three pads]
  exact drop_padding_stops (Nat.le_refl _)

theorem kept_tail_iff {tail : List UInt8} {room : Nat} (short : tail.length < room)
    (three : 3 ≤ room) :
    kept (tail ++ List.replicate (room - tail.length) PAD) = tail ↔
      tail.length + 3 ≤ room ∧ tail.getLast? ≠ some PAD := by
  have length : (tail ++ List.replicate (room - tail.length) PAD).length = room := by
    rw [List.length_append, List.length_replicate]
    omega
  have sized : 3 ≤ (tail ++ List.replicate (room - tail.length) PAD).length := by
    rw [length]
    exact three
  constructor
  · intro same
    have cut : EndsInPads (tail ++ List.replicate (room - tail.length) PAD) := by
      by_contra free
      have whole := kept_full sized free
      have lengths := congrArg List.length (whole.symm.trans same)
      omega
    have less := kept_short sized cut
    have last := kept_unpadded sized cut
    rw [same] at less last
    exact ⟨by omega, last⟩
  · rintro ⟨enough, last⟩
    have cut := @ends_in_padding tail (room - tail.length) (by omega)
    have dropped := @drop_padding_all tail (room - tail.length) last
    rw [Nat.add_sub_cancel' (by omega)] at dropped
    rw [kept_of_pads sized cut, length, dropped, List.take_left]

theorem kept_all_le (blocks : List (List UInt8)) :
    (blocks.map kept).flatten.length ≤ blocks.flatten.length := by
  induction blocks with
  | nil => exact Nat.le_refl 0
  | cons b blocks ih =>
    have less := kept_le b
    simp only [List.map_cons, List.flatten_cons, List.length_append]
    omega

theorem kept_all_full {blocks : List (List UInt8)} (sizes : ∀ b ∈ blocks, 3 ≤ b.length)
    (free : ∀ b ∈ blocks, ¬ EndsInPads b) : blocks.map kept = blocks := by
  induction blocks with
  | nil => rfl
  | cons b blocks ih =>
    rw [List.map_cons, kept_full (sizes b (by simp)) (free b (by simp)),
      ih (fun c there => sizes c (List.mem_cons_of_mem _ there))
        (fun c there => free c (List.mem_cons_of_mem _ there))]

theorem kept_all_short {blocks : List (List UInt8)} (sizes : ∀ b ∈ blocks, 3 ≤ b.length)
    {b : List UInt8} (there : b ∈ blocks) (pads : EndsInPads b) :
    (blocks.map kept).flatten.length + 3 ≤ blocks.flatten.length := by
  induction blocks with
  | nil => cases there
  | cons c blocks ih =>
    have less := kept_le c
    have rest := kept_all_le blocks
    simp only [List.map_cons, List.flatten_cons, List.length_append]
    rcases List.mem_cons.mp there with first | later
    · have short := kept_short (sizes c (by simp)) (first ▸ pads)
      omega
    · have short := ih (fun d inside => sizes d (List.mem_cons_of_mem _ inside)) later
      omega

/-- The receiver cuts what the sender has added, and nothing else, exactly for such a file: too
    much cut off one packet is never made up for by padding left on another. -/
theorem kept_payloads_iff {full : List (List UInt8)} {tail : List UInt8} {room : Nat}
    (sizes : ∀ b ∈ full, 3 ≤ b.length) (short : tail.length < room) (three : 3 ≤ room) :
    ((payloads full tail room).map kept).flatten = full.flatten ++ tail ↔
      Intact full tail room := by
  by_cases empty : tail = []
  · subst empty
    simp only [payloads, if_true, List.append_nil, Intact, true_or, and_true]
    constructor
    · intro same b there pads
      have less := kept_all_short sizes there pads
      rw [same] at less
      omega
    · intro free
      rw [kept_all_full sizes free]
  · have split : ((payloads full tail room).map kept).flatten =
        (full.map kept).flatten ++ kept (tail ++ List.replicate (room - tail.length) PAD) := by
      rw [payloads, if_neg empty, List.map_append, List.flatten_append]
      simp
    rw [split, Intact]
    simp only [empty, false_or]
    constructor
    · intro same
      have free : ∀ b ∈ full, ¬ EndsInPads b := by
        intro b there pads
        have less := kept_all_short sizes there pads
        have lengths := congrArg List.length same
        rw [List.length_append, List.length_append] at lengths
        have whole : (tail ++ List.replicate (room - tail.length) PAD).length = room := by
          rw [List.length_append, List.length_replicate]
          omega
        have bound : (kept (tail ++ List.replicate (room - tail.length) PAD)).length <
            tail.length + 3 := by
          by_cases enough : 3 ≤ room - tail.length
          · have stripped := @kept_padded tail _ enough
            omega
          · have most := kept_le (tail ++ List.replicate (room - tail.length) PAD)
            omega
        omega
      rw [kept_all_full sizes free] at same
      exact ⟨free, (kept_tail_iff short three).mp (List.append_cancel_left same)⟩
    · rintro ⟨free, last⟩
      rw [kept_all_full sizes free, (kept_tail_iff short three).mpr last]

structure Sends (quiet : Nat) (header : List UInt8) (first : Attempts)
    (ps : List (List UInt8 × Attempts)) (final : List UInt8) : Prop where
  header : Sound crc header first
  packets : ∀ p ∈ ps, Sound crc p.1 p.2
  final : final.length = 128 ∨ final.length = 1024
  early : quiet < maxRetriesWithCrc
  tries : quiet + first.bad.length < maxRetries
  patient : Patient first.repeats ps

/-- Such a session is always reported complete, whatever was damaged or repeated on the way, and
    the file is the one that was sent exactly if none of its packets ends in what looks like
    padding and the last one has at least three bytes of it. -/
theorem session_stores_file (disk : Disk) (stores : disk.Stores) {chan : Int} (port : 0 ≤ chan)
    (old : Option (List UInt8)) {xyz : Xyz} {quiet : Nat} {header final : List UInt8}
    {first : Attempts} {ps : List (List UInt8 × Attempts)}
    (line : xyz.line = session crc quiet header first ps final)
    (sends : Sends crc quiet header first ps final) (full : List (List UInt8))
    (tail : List UInt8) (room : Nat) (file : ps.map Prod.fst = payloads full tail room)
    (short : tail.length < room) (legal : room = 128 ∨ room = 1024) :
    (ymodemUpload crc disk chan old xyz).verdict = .complete ∧
    ((ymodemUpload crc disk chan old xyz).file = some (full.flatten ++ tail) ↔
      Intact full tail room) := by
  obtain ⟨x, opened, crcMode, left⟩ :=
    session_opens crc port line sends.header sends.early sends.tries
  have opens_ : opens crc chan xyz = true := by
    rw [opens, opened]
  have heard : heardAfterOpen crc chan xyz =
      List.replicate first.repeats (.packet (1 - 1) header) ++
        (events 1 ps ++ [.eot, .packet 0 final]) := by
    rw [heardAfterOpen, opened]
    dsimp only
    rw [crcMode, left, transcript_repeats crc sends.header.size,
      transcript_data crc 1 ps sends.packets, transcript_end crc sends.final]
    rfl
  have concludes := upload_concludes crc disk stores chan old xyz opens_
  have all : received crc chan xyz = ⟨ps.map fun p => kept p.1, .eot .ok⟩ := by
    rw [received, heard]
    exact receive_events sends.patient
  have complete : (ymodemUpload crc disk chan old xyz).verdict = .complete := by
    rw [concludes.verdict, all]
    rfl
  have bytes : (received crc chan xyz).bytes = ((payloads full tail room).map kept).flatten := by
    rw [all, ← file, List.map_map]
    rfl
  have sizes : ∀ b ∈ full, 3 ≤ b.length := by
    intro b there
    have sent : b ∈ ps.map Prod.fst := by
      rw [file, payloads]
      exact List.mem_append_left _ there
    obtain ⟨p, inside, rfl⟩ := List.mem_map.mp sent
    have size := (sends.packets p inside).size
    omega
  refine ⟨complete, ?_⟩
  rw [concludes.keeps complete, bytes, Option.some.injEq]
  exact kept_payloads_iff sizes short (by omega)

def twoPackets : List (List UInt8 × Attempts) :=
  [(List.replicate 128 0x41, ⟨[List.replicate 128 0x51], 1⟩),
    ([0x42, 0x43] ++ List.replicate 126 PAD, ⟨[], 0⟩)]

def lateSession : Xyz :=
  idleReceiver (session crcXmodem 1 fileHeader ⟨[], 2⟩ twoPackets (List.replicate 128 0))

set_option maxRecDepth 10000 in
theorem session_stores_two_packets :
    (ymodemUpload crcXmodem ramDisk 0 none lateSession).verdict = .complete ∧
    ((ymodemUpload crcXmodem ramDisk 0 none lateSession).file =
        some ([List.replicate 128 0x41].flatten ++ [0x42, 0x43]) ↔
      Intact [List.replicate 128 0x41] [0x42, 0x43] 128) ∧
    Intact [List.replicate 128 0x41] [0x42, 0x43] 128 := by
  have sends : Sends crcXmodem 1 fileHeader ⟨[], 2⟩ twoPackets (List.replicate 128 0) := by
    refine ⟨⟨Or.inl (by decide), by intro d there; cases there⟩, ?_, Or.inl (by decide),
      by decide, by decide, ⟨by decide, by decide, Nat.zero_le _⟩⟩
    intro p there
    rcases List.mem_cons.mp there with rfl | there
    · refine ⟨Or.inl (by decide), ?_⟩
      intro d inside
      rw [List.mem_singleton.mp inside]
      exact ⟨by decide, by decide +kernel⟩
    · rw [List.mem_singleton.mp there]
      exact ⟨Or.inl (by decide), by intro d inside; cases inside⟩
  have line : lateSession.line =
      session crcXmodem 1 fileHeader ⟨[], 2⟩ twoPackets (List.replicate 128 0) := rfl
  have stored := session_stores_file crcXmodem ramDisk ram_disk_stores (Int.le_refl 0) none line
    sends [List.replicate 128 0x41] [0x42, 0x43] 128 rfl (by decide) (Or.inl rfl)
  refine ⟨stored.1, stored.2, ?_, Or.inr ⟨by decide, by decide⟩⟩
  intro b there
  rw [List.mem_singleton.mp there]
  decide

end YmodemTransfer
