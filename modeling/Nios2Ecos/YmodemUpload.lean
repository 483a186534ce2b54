import Nios2Ecos.StreamRead

/- ymodemUpload of the bootloader: the loop that fills WRITE_BUF and writes it out,
   and the verdict after it. -/
namespace YmodemUpload
open XyzModem LineTranscript PacketReceiver StreamRead
variable (crc : List UInt8 → UInt16)

def writeBufSize : Nat := 4096

/-- The calls made on the file: what creat returns and what the i-th write returns
    when it is given n bytes. -/
structure Disk where
  creat : Int
  write : Nat → Nat → Int

structure Disk.Stores (disk : Disk) : Prop where
  created : 0 ≤ disk.creat
  written : ∀ i n, disk.write i n = n

/-- The locals of the loop. `buf` is WRITE_BUF up to `pos`, `stored` what the file holds,
    and `taken` collects every byte that xyzModem_stream_read copied. -/
structure Loop where
  x : Xyz
  buf : List UInt8
  stored : List UInt8
  taken : List UInt8
  writes : Nat

inductive LoopEnd where
  | ended (err : Stat)
  | abortedByWrite
  | fault
  | unfinished
  deriving DecidableEq, Repr

structure LoopResult where
  how : LoopEnd
  stored : List UInt8
  taken : List UInt8
  deriving DecidableEq, Repr

/-- `((actual == 0) && (pos > 0)) || (pos > (WRITE_BUF_SIZE - 0x100))` -/
def writesOut (actual pos : Nat) : Bool :=
  (actual = 0 ∧ 0 < pos) ∨ writeBufSize - 0x100 < pos

def uploadLoop (disk : Disk) : Nat → Loop → LoopResult
  | 0, l => ⟨.unfinished, l.stored, l.taken⟩
  | fuel + 1, l =>
    match xyzModemStreamRead crc (writeBufSize - l.buf.length) l.x with
    | .unfinished => ⟨.unfinished, l.stored, l.taken⟩
    | .fault bytes _ => ⟨.fault, l.stored, l.taken ++ bytes⟩
    | .done bytes err y =>
      let buf := l.buf ++ bytes
      let taken := l.taken ++ bytes
      let out := writesOut bytes.length buf.length
      let written := disk.write l.writes buf.length
      if out ∧ written < buf.length then
        ⟨.abortedByWrite, l.stored ++ buf.take written.toNat, taken⟩
      else
        let l := if out then ⟨y, [], l.stored ++ buf, taken, l.writes + 1⟩
          else ⟨y, buf, l.stored, taken, l.writes⟩
        if bytes = [] then ⟨.ended (err.getD .ok), l.stored, l.taken⟩
        else uploadLoop disk fuel l

inductive Verdict where
  | openFailed (err : Stat)
  | createFailed
  | complete
  | writeFailed
  | failed (err : Stat)
  | fault
  | unfinished
  deriving DecidableEq, Repr

structure Upload where
  verdict : Verdict
  file : Option (List UInt8)
  taken : List UInt8
  deriving DecidableEq, Repr

/- `if ((!abortedByWrite) && (actual == 0) && (err == 0))` and the removal after it. -/
def conclude (r : LoopResult) : Upload :=
  match r.how with
  | .ended .ok => ⟨.complete, some r.stored, r.taken⟩
  | .ended err => ⟨.failed err, none, r.taken⟩
  | .abortedByWrite => ⟨.writeFailed, none, r.taken⟩
  | .fault => ⟨.fault, some r.stored, r.taken⟩
  | .unfinished => ⟨.unfinished, some r.stored, r.taken⟩

/- Calls of the loop that are enough: each but the last two uses up characters. -/
def uploadFuel (x : Xyz) : Nat := x.line.length + 2

/-- `chan` is the serial port, `xyz` the static record with the line to be read, and
    `old` the file from before, which only creat touches. -/
def ymodemUpload (disk : Disk) (chan : Int) (old : Option (List UInt8)) (xyz : Xyz) : Upload :=
  match xyzModemStreamOpen crc chan .ymodem xyz with
  | .error err => ⟨.openFailed err, old, []⟩
  | .ok x =>
    if disk.creat < 0 then ⟨.createFailed, old, []⟩
    else conclude (uploadLoop crc disk (uploadFuel x) ⟨x, [], [], [], 0⟩)

theorem kept_le (data : List UInt8) : (kept data).length ≤ data.length := by
  simp only [kept, List.length_take]
  omega

theorem receive_length (n : UInt8) (left : Nat) (crcMode : Bool) (line : Line) :
    (receive n left (transcript crc crcMode line)).bytes.length ≤ line.length := by
  induction size : line.length using Nat.strongRecOn generalizing n left line with
  | ind size ih =>
    cases line with
    | nil => simp [transcript_nil, receive, Received.bytes]
    | cons e rest =>
      have shorter := hear_length crc crcMode (e :: rest)
      have whole := hear_packet_length crc crcMode (e :: rest)
      rw [transcript_cons]
      generalize hear crc crcMode (e :: rest) = heard at shorter whole
      obtain ⟨h, line⟩ := heard
      simp only [List.length_cons] at size shorter whole
      have later : ∀ n left, (receive n left (transcript crc crcMode line)).bytes.length ≤
          line.length :=
        fun n left => ih line.length (by omega) n left line rfl
      cases h with
      | packet blk data =>
        have data_le := whole blk data rfl
        have short := kept_le data
        have next := later (n + 1) spareTries
        have same := later n spareTries
        have retry := later n (left - 1)
        simp only [receive]
        split_ifs
        · rw [bytes_prepend, List.length_append]; omega
        · rw [bytes_prepend, List.length_append]; omega
        · omega
        · simp [Received.bytes]
        · omega
      | eot => simp [receive, Received.bytes]
      | cancel => simp [receive, Received.bytes]
      | noise s =>
        have retry := later n (left - 1)
        simp only [receive]
        split_ifs
        · simp [Received.bytes]
        · omega

/- The end of the loop, by what was received. An error is seen only in a call that
   has delivered nothing, so only at a multiple of the buffer size. -/
def loopEnd (r : Received) : LoopEnd :=
  match r.ending with
  | .eot .ok => .ended .ok
  | .eot stat => if r.bytes.length % writeBufSize = 0 then .ended stat else .ended .ok
  | .failed stat => if r.bytes.length % writeBufSize = 0 then .ended stat else .fault

/- The call after the last bytes have been delivered. -/
theorem read_after_end {y : Xyz} {ending : Ending} (h : Ended y ending) (size : Nat)
    (pos : 0 < size) :
    xyzModemStreamRead crc size y =
      match ending with
      | .eot _ => .done [] none y
      | .failed _ => .fault [] y := by
  cases ending with
  | eot stat =>
    have atEnd : y.atEof = true := h
    simp [xyzModemStreamRead, readFuel, readLoop, atEnd]
  | failed stat =>
    obtain ⟨running, len⟩ := h
    have open_ : ¬(y.atEof = true ∨ (size : Int) ≤ 0) := by simp [running]; omega
    have negative : copyLength y size < 0 := by simp only [copyLength, len]; split <;> omega
    simp [xyzModemStreamRead, readFuel, readLoop, running, len, Stat.code, negative]
    omega

theorem writes_out_nothing : writesOut 0 0 = false := by decide

/- The end seen by a call after one that had delivered bytes: the error is gone. -/
def lateEnd : Ending → LoopEnd
  | .eot _ => .ended .ok
  | .failed _ => .fault

theorem loop_after_end (disk : Disk) (stores : disk.Stores) (fuel : Nat) (l : Loop)
    (ending : Ending) (h : Ended l.x ending) (room : l.buf.length < writeBufSize)
    (budget : 0 < fuel) :
    ∃ file, uploadLoop crc disk fuel l = ⟨lateEnd ending, file, l.taken⟩ ∧
      (lateEnd ending ≠ .fault → file = l.stored ++ l.buf) := by
  obtain ⟨k, rfl⟩ : ∃ k, fuel = k + 1 := ⟨fuel - 1, by omega⟩
  have size : (writeBufSize : Int) - l.buf.length = (writeBufSize - l.buf.length : Nat) := by omega
  have call := read_after_end crc h (writeBufSize - l.buf.length) (by omega)
  simp only [uploadLoop, size, call]
  cases ending with
  | failed stat => exact ⟨l.stored, by simp [lateEnd], fun no => absurd rfl no⟩
  | eot stat =>
    refine ⟨l.stored ++ l.buf, ?_, fun _ => rfl⟩
    cases buf : l.buf with
    | nil => simp [writes_out_nothing, lateEnd]
    | cons b rest => simp [writesOut, stores.written, lateEnd]

theorem loop_end_next {r r' : Received} (ending : r'.ending = r.ending)
    (length : r'.bytes.length + writeBufSize = r.bytes.length) : loopEnd r' = loopEnd r := by
  have modulo : r'.bytes.length % writeBufSize = r.bytes.length % writeBufSize := by
    rw [← length, Nat.add_mod_right]
  simp only [loopEnd, ending, modulo]

/- An end met by a call that had nothing to deliver. -/
theorem loop_end_at_once {r : Received} (none : r.bytes = []) :
    loopEnd r = .ended ((Ending.report r.ending).getD .ok) := by
  unfold loopEnd
  rw [none]
  cases ending : r.ending with
  | eot stat => cases stat <;> rfl
  | failed stat => rfl

/- An end met by a call that had delivered some bytes but not a whole buffer. -/
theorem loop_end_late {r : Received} (some : r.bytes ≠ []) (short : r.bytes.length < writeBufSize) :
    loopEnd r = lateEnd r.ending := by
  have pos := List.length_pos_of_ne_nil some
  have rest : ¬ r.bytes.length % writeBufSize = 0 := by
    rw [Nat.mod_eq_of_lt short]
    omega
  simp only [loopEnd, if_neg rest]
  cases ending : r.ending with
  | eot stat => cases stat <;> rfl
  | failed stat => rfl

theorem upload_loop_result (disk : Disk) (stores : disk.Stores) (fuel : Nat) (x : Xyz)
    (stored taken : List UInt8) (writes : Nat) (h : Receiving x)
    (budget : (upcoming crc x).bytes.length + 2 ≤ fuel) :
    ∃ file, uploadLoop crc disk fuel ⟨x, [], stored, taken, writes⟩ =
      ⟨loopEnd (upcoming crc x), file, taken ++ (upcoming crc x).bytes⟩ ∧
      (loopEnd (upcoming crc x) ≠ .fault → file = stored ++ (upcoming crc x).bytes) := by
  induction fuel generalizing x stored taken writes with
  | zero => omega
  | succ fuel ih =>
    have delivers := stream_read_delivers crc writeBufSize x h
    unfold Delivers at delivers
    simp only [uploadLoop, List.length_nil, Int.natCast_zero, Int.sub_zero, List.nil_append]
    by_cases more : writeBufSize ≤ (upcoming crc x).bytes.length
    · rw [if_pos more] at delivers
      obtain ⟨y, result, receiving, rest, last⟩ := delivers
      have taken4096 : ((upcoming crc x).bytes.take writeBufSize).length = writeBufSize :=
        List.length_take_of_le more
      have length : (upcoming crc y).bytes.length + writeBufSize =
          (upcoming crc x).bytes.length := by
        rw [rest, List.length_drop]
        omega
      have nonempty : (upcoming crc x).bytes.take writeBufSize ≠ [] := by
        intro empty
        rw [empty] at taken4096
        exact absurd taken4096 (by decide)
      have out : writesOut writeBufSize writeBufSize = true := by decide
      simp only [result, List.nil_append, taken4096, stores.written, out, Int.lt_irrefl, and_false,
        ↓reduceIte, nonempty]
      obtain ⟨file, ran, all⟩ := ih y (stored ++ (upcoming crc x).bytes.take writeBufSize)
        (taken ++ (upcoming crc x).bytes.take writeBufSize) (writes + 1) receiving
        (by have : 0 < writeBufSize := by decide
            omega)
      rw [loop_end_next last length, rest, List.append_assoc, List.take_append_drop] at ran
      rw [loop_end_next last length, rest, List.append_assoc, List.take_append_drop] at all
      exact ⟨file, ran, all⟩
    · rw [if_neg more] at delivers
      obtain ⟨y, result, ended⟩ := delivers
      simp only [result, List.nil_append, stores.written, Int.lt_irrefl, and_false, ↓reduceIte]
      by_cases none : (upcoming crc x).bytes = []
      · rw [loop_end_at_once none]
        simp [none, writes_out_nothing]
      · have short : (upcoming crc x).bytes.length < writeBufSize := by omega
        rw [if_neg none, loop_end_late none short]
        have after : ∀ l : Loop, l.x = y → l.buf.length < writeBufSize →
            l.stored ++ l.buf = stored ++ (upcoming crc x).bytes →
            l.taken = taken ++ (upcoming crc x).bytes →
            ∃ file, uploadLoop crc disk fuel l =
                ⟨lateEnd (upcoming crc x).ending, file, taken ++ (upcoming crc x).bytes⟩ ∧
              (lateEnd (upcoming crc x).ending ≠ .fault →
                file = stored ++ (upcoming crc x).bytes) := by
          intro l state room all copies
          subst state
          rw [← all, ← copies]
          exact loop_after_end crc disk stores fuel l _ ended room (by omega)
        cases writesOut (upcoming crc x).bytes.length (upcoming crc x).bytes.length with
        | true =>
          exact after ⟨y, [], stored ++ (upcoming crc x).bytes, taken ++ (upcoming crc x).bytes,
            writes + 1⟩ rfl (by simp [writeBufSize]) (by simp) rfl
        | false =>
          exact after ⟨y, (upcoming crc x).bytes, stored, taken ++ (upcoming crc x).bytes, writes⟩
            rfl short rfl rfl

theorem open_loop_receiving (retries : Nat) (crcRetries : Int) (stat : Stat) (x y : Xyz)
    (mode : x.mode = .ymodem) (running : x.atEof = false)
    (opened : openLoop crc retries crcRetries stat x = .ok y) :
    Receiving y ∧ y.len = 0 ∧ y.nextBlk = 1 := by
  induction retries generalizing crcRetries stat x with
  | zero => cases opened
  | succ retries ih =>
    have same := (get_hdr_listened crc x).same
    simp only [openLoop] at opened
    generalize xyzModemGetHdr crc x = result at opened same
    obtain ⟨s, z⟩ := result
    have zMode : z.mode = .ymodem := (congrArg Session.mode same).trans mode
    have zRunning : z.atEof = false := (congrArg Session.atEof same).trans running
    split at opened
    · rename_i eq
      cases eq
      cases opened
      exact ⟨⟨zMode, zRunning, Int.le_refl 0, Nat.zero_le _⟩, rfl, rfl⟩
    · rename_i eq
      cases eq
      exact ih _ _ (retryOpen (crcRetries - 1) z) zMode zRunning opened
    · cases opened
    · rename_i eq
      cases eq
      exact ih _ _ _ zMode zRunning opened

theorem stream_open_receiving {chan : Int} {xyz x : Xyz}
    (opened : xyzModemStreamOpen crc chan .ymodem xyz = .ok x) :
    Receiving x ∧ x.len = 0 ∧ x.nextBlk = 1 := by
  unfold xyzModemStreamOpen at opened
  split at opened
  · cases opened
  · exact open_loop_receiving crc _ _ _ _ _ rfl rfl opened

def heardAfterOpen (chan : Int) (xyz : Xyz) : List Heard :=
  match xyzModemStreamOpen crc chan .ymodem xyz with
  | .ok x => transcript crc x.crcMode x.line
  | .error _ => []

def opens (chan : Int) (xyz : Xyz) : Bool :=
  match xyzModemStreamOpen crc chan .ymodem xyz with
  | .ok _ => true
  | .error _ => false

def received (chan : Int) (xyz : Xyz) : Received :=
  receive 1 spareTries (heardAfterOpen crc chan xyz)

theorem receive_failed_stat (n : UInt8) (left : Nat) (hs : List Heard) (stat : Stat)
    (h : (receive n left hs).ending = .failed stat) : stat ≠ .ok := by
  induction hs generalizing n left with
  | nil => cases h; simp
  | cons heard hs ih =>
    cases heard with
    | packet b data =>
      simp only [receive] at h
      split_ifs at h
      · exact ih _ _ h
      · exact ih _ _ h
      · exact ih _ _ h
      · cases h; simp
      · exact ih _ _ h
    | eot => cases h
    | cancel => cases h; simp
    | noise s =>
      simp only [receive] at h
      split_ifs at h
      · cases h; cases s <;> simp [Noise.stat]
      · exact ih _ _ h

/-- The verdict as a function of what was received. -/
def verdictOf (r : Received) : Verdict :=
  match r.ending with
  | .eot .ok => .complete
  | .eot stat => if r.bytes.length % writeBufSize = 0 then .failed stat else .complete
  | .failed stat => if r.bytes.length % writeBufSize = 0 then .failed stat else .fault

/- The answer of a whole upload, what it took from the line and what it left on the disk. -/
structure Concludes (r : Received) (u : Upload) : Prop where
  verdict : u.verdict = verdictOf r
  taken : u.taken = r.bytes
  keeps : u.verdict = .complete → u.file = some r.bytes
  removes : ∀ err, u.verdict = .failed err → u.file = none

theorem conclude_concludes (r : Received) (file : List UInt8)
    (bad : ∀ stat, r.ending = .failed stat → stat ≠ .ok)
    (all : loopEnd r ≠ .fault → file = r.bytes) :
    Concludes r (conclude ⟨loopEnd r, file, r.bytes⟩) := by
  cases ending : r.ending with
  | eot stat =>
    have same : file = r.bytes := by
      apply all
      simp only [loopEnd, ending]
      cases stat <;> simp <;> split <;> simp
    subst same
    by_cases aligned : r.bytes.length % writeBufSize = 0
    · cases stat <;>
        exact ⟨by simp [loopEnd, verdictOf, conclude, ending, aligned],
          by simp [loopEnd, conclude, ending, aligned],
          by simp [loopEnd, conclude, ending, aligned],
          by simp [loopEnd, conclude, ending, aligned]⟩
    · cases stat <;>
        exact ⟨by simp [loopEnd, verdictOf, conclude, ending, aligned],
          by simp [loopEnd, conclude, ending, aligned],
          by simp [loopEnd, conclude, ending, aligned],
          by simp [loopEnd, conclude, ending, aligned]⟩
  | failed stat =>
    have error := bad stat ending
    by_cases aligned : r.bytes.length % writeBufSize = 0
    · cases stat <;> first
        | exact absurd rfl error
        | exact ⟨by simp [loopEnd, verdictOf, conclude, ending, aligned],
          by simp [loopEnd, conclude, ending, aligned],
          by simp [loopEnd, conclude, ending, aligned],
          by simp [loopEnd, conclude, ending, aligned]⟩
    · exact ⟨by simp [loopEnd, verdictOf, conclude, ending, aligned],
          by simp [loopEnd, conclude, ending, aligned],
          by simp [loopEnd, conclude, ending, aligned],
          by simp [loopEnd, conclude, ending, aligned]⟩

theorem upload_concludes (disk : Disk) (stores : disk.Stores) (chan : Int)
    (old : Option (List UInt8)) (xyz : Xyz) (opened : opens crc chan xyz = true) :
    Concludes (received crc chan xyz) (ymodemUpload crc disk chan old xyz) := by
  unfold opens at opened
  unfold received heardAfterOpen ymodemUpload
  cases start : xyzModemStreamOpen crc chan .ymodem xyz with
  | error err => rw [start] at opened; cases opened
  | ok x =>
    obtain ⟨receiving, len, next⟩ := stream_open_receiving crc start
    have created : ¬ disk.creat < 0 := Int.not_lt.mpr stores.created
    have nothing : pending x = [] := by simp [pending, len]
    have chunks : (upcoming crc x).bytes =
        (receive 1 spareTries (transcript crc x.crcMode x.line)).bytes := by
      rw [upcoming_bytes, nothing, next, List.nil_append]
    have ending : (upcoming crc x).ending =
        (receive 1 spareTries (transcript crc x.crcMode x.line)).ending := by
      rw [← next]; rfl
    have enough := receive_length crc 1 spareTries x.crcMode x.line
    obtain ⟨file, ran, all⟩ := upload_loop_result crc disk stores (uploadFuel x) x [] [] 0
      receiving (by rw [chunks]; unfold uploadFuel; omega)
    have same : loopEnd (upcoming crc x) =
        loopEnd (receive 1 spareTries (transcript crc x.crcMode x.line)) := by
      simp only [loopEnd, chunks, ending]
    rw [same, chunks, List.nil_append] at all ran
    simp only [if_neg created, ran]
    exact conclude_concludes _ file (fun stat h => receive_failed_stat _ _ _ stat h) all

end YmodemUpload
