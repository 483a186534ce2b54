import Nios2Ecos.FirmwareUtil

/- The inflate phase. Whatever the environment answers, the decompressor is given the
   bytes after the header in order, the temporary file holds what came out so far, and
   neither the flash nor the uploaded file is touched. -/
namespace GunzipFirmware
open NorFlash InflateStream FirmwareUtil
variable (env : Env) (z : Inflater bufferSize)

def Event.Failing : Event → Prop
  | .openUpload fd => fd ≤ 0
  | .openTmp fd => fd ≤ 0
  | .readUpload actual => actual < 0
  | .inflateInit err => err = zMemError
  | .inflate err => err ≠ zStreamEnd ∧ err ≠ zOk
  | .writeTmp len actual => actual ≠ len
  | _ => False

def Event.OnFlash : Event → Prop
  | .flashUnlock _ _ _ => True
  | .flashErase _ _ _ => True
  | .flashProgram _ _ _ => True
  | .info .incorrectAmount => True
  | _ => False

/-- Nothing but the temporary file has been changed. -/
structure Untouched (upload : Option (List UInt8)) (flash : Content) (w : World) : Prop where
  upload : w.upload = upload
  flash : w.flash = flash
  quiet : ∀ e ∈ w.log, ¬ Event.OnFlash e

def Faultless (w : World) : Prop := ∀ e ∈ w.log, ¬ Event.Failing e

variable {upload : Option (List UInt8)} {flash : Content} {w : World}

theorem Untouched.emit (h : Untouched upload flash w) (e : Event) (quiet : ¬ Event.OnFlash e) :
    Untouched upload flash (w.emit e) := by
  refine ⟨h.upload, h.flash, ?_⟩
  intro e' mem
  simp only [World.emit, List.mem_append, List.mem_singleton] at mem
  rcases mem with old | rfl
  · exact h.quiet e' old
  · exact quiet

theorem Untouched.report (h : Untouched upload flash w) (i : Info)
    (quiet : ¬ Event.OnFlash (.info i)) : Untouched upload flash (w.report i) :=
  h.emit (.info i) quiet

theorem Faultless.emit (h : Faultless w) (e : Event) (fine : ¬ Event.Failing e) :
    Faultless (w.emit e) := by
  intro e' mem
  simp only [World.emit, List.mem_append, List.mem_singleton] at mem
  rcases mem with old | rfl
  · exact h e' old
  · exact fine

/- One read of the uploaded file: an error, or the next bytes. -/
theorem read_upload_cases (n : Nat) (rest : List UInt8) (w : World) :
    readUpload env n rest w = (none, rest, w.emit (.readUpload (-1))) ∨
    ∃ k, env.readUpload w.log.length = some k ∧
      readUpload env n rest w = (some (rest.take (min k n)), rest.drop (min k n),
        w.emit (.readUpload (rest.take (min k n)).length)) := by
  unfold readUpload
  cases answer : env.readUpload w.log.length with
  | none => exact Or.inl rfl
  | some k => exact Or.inr ⟨k, rfl, rfl⟩

theorem expect_untouched (strin cs rest : List UInt8) (w : World)
    (h : Untouched upload flash w) :
    Untouched upload flash (expect env strin cs rest w).2.2 := by
  induction cs generalizing rest w with
  | nil => exact h
  | cons c cs ih =>
    simp only [expect]
    rcases read_upload_cases env 1 rest w with failed | ⟨k, -, ok⟩
    · rw [failed]
      exact (h.emit _ id).report _ id
    · have step := h.emit (.readUpload (rest.take (min k 1)).length) id
      rw [ok]
      generalize rest.take (min k 1) = front at step ⊢
      match front with
      | [] => exact step.report _ id
      | _ :: _ :: _ => exact step.report _ id
      | [t] =>
        simp only
        split
        · exact step.report _ id
        · exact ih _ _ step

/- No call of inflate is made for the header. -/
theorem expect_calls (strin cs rest : List UInt8) (w : World) :
    (expect env strin cs rest w).2.2.calls = w.calls := by
  induction cs generalizing rest w with
  | nil => rfl
  | cons c cs ih =>
    simp only [expect]
    rcases read_upload_cases env 1 rest w with failed | ⟨k, -, ok⟩
    · rw [failed]
      rfl
    · rw [ok]
      generalize rest.take (min k 1) = front
      match front with
      | [] => rfl
      | _ :: _ :: _ => rfl
      | [t] =>
        simp only
        split
        · rfl
        · exact ih _ _

/- A header that was accepted stands at the front of the file. -/
theorem expect_true (strin cs rest : List UInt8) (w : World) (faultless : Faultless w)
    (accepted : (expect env strin cs rest w).1 = true) :
    rest = cs ++ (expect env strin cs rest w).2.1 ∧
    Faultless (expect env strin cs rest w).2.2 ∧
    (expect env strin cs rest w).2.2.tmp = w.tmp := by
  induction cs generalizing rest w with
  | nil => exact ⟨rfl, faultless, rfl⟩
  | cons c cs ih =>
    simp only [expect] at accepted ⊢
    rcases read_upload_cases env 1 rest w with failed | ⟨k, -, ok⟩
    · rw [failed] at accepted
      cases accepted
    · have step := faultless.emit (.readUpload (rest.take (min k 1)).length)
        (by simp only [Event.Failing]; omega)
      have joined := List.take_append_drop (min k 1) rest
      rw [ok] at accepted ⊢
      generalize rest.take (min k 1) = front at accepted step joined ⊢
      generalize rest.drop (min k 1) = back at accepted joined ⊢
      match front with
      | [] => cases accepted
      | _ :: _ :: _ => cases accepted
      | [t] =>
        simp only at accepted ⊢
        by_cases same : t = c
        · rw [if_neg (not_not_intro same)] at accepted ⊢
          obtain ⟨file, fine, tmp⟩ := ih _ _ step accepted
          refine ⟨?_, fine, tmp⟩
          rw [← joined, List.cons_append, List.cons_append, ← file, same, List.nil_append]
        · rw [if_pos same] at accepted
          cases accepted

/- The header is accepted exactly if the file begins with it and each of its bytes can be
   read. -/
theorem expect_iff (strin cs rest : List UInt8) (w : World) :
    (expect env strin cs rest w).1 = true ↔ cs <+: rest ∧
      ∀ j, j < cs.length → ∃ k, env.readUpload (w.log.length + j) = some (k + 1) := by
  induction cs generalizing rest w with
  | nil => simp [expect]
  | cons c cs ih =>
    simp only [expect, readUpload]
    have first : (∀ j, j < (c :: cs).length →
        ∃ k, env.readUpload (w.log.length + j) = some (k + 1)) →
        ∃ k, env.readUpload w.log.length = some (k + 1) := fun reads => reads 0 (Nat.succ_pos _)
    cases answer : env.readUpload w.log.length with
    | none =>
      rw [answer] at first
      exact iff_of_false Bool.false_ne_true fun both => nomatch first both.2
    | some n =>
      cases n with
      | zero =>
        rw [answer] at first
        exact iff_of_false Bool.false_ne_true fun both => nomatch first both.2
      | succ n =>
        have one : min (n + 1) 1 = 1 := by omega
        dsimp only
        rw [one]
        cases rest with
        | nil => simp
        | cons t rest =>
          have here : ∃ k, env.readUpload (w.log.length + 0) = some (k + 1) := ⟨n, answer⟩
          have reads : (∀ j, j < (c :: cs).length →
              ∃ k, env.readUpload (w.log.length + j) = some (k + 1)) ↔
              ∀ j, j < cs.length → ∃ k, env.readUpload (w.log.length + 1 + j) = some (k + 1) := by
            rw [List.length_cons, Nat.forall_lt_succ_left, and_iff_right here]
            simp only [Nat.add_assoc, Nat.add_comm 1]
          rw [reads, List.cons_prefix_cons, List.take_succ_cons, List.take_zero]
          by_cases same : t = c
          · simp only [same, ne_eq, not_true_eq_false, if_false, true_and]
            rw [ih]
            simp [World.emit]
          · simp [same, Ne.symm same]

structure Streaming (upload : Option (List UInt8)) (flash : Content) (body : List UInt8)
    (s : Gunzip) : Prop where
  buffer : s.input.length = bufferSize
  inside : s.nextIn + s.availIn ≤ bufferSize
  order : consumed s.world.calls ++ (available s ++ s.rest) = body
  output : s.world.tmp = produced s.world.calls
  offset : s.offset = s.world.tmp.length
  history : History z s.world.calls
  fine : ∀ c ∈ s.world.calls, c.reply.code = zOk
  untouched : Untouched upload flash s.world
  faultless : Faultless s.world

variable {body : List UInt8} {s : Gunzip}

theorem Streaming.available_length {z : Inflater bufferSize}
    (h : Streaming z upload flash body s) : (available s).length = s.availIn := by
  have buffer := h.buffer
  have inside := h.inside
  simp only [available, List.length_take, List.length_drop]
  omega

/- The buffer after memmove and a read of `bytes` behind what was there. -/
theorem refilled_available {z : Inflater bufferSize} (h : Streaming z upload flash body s)
    (bytes : List UInt8) (room : bytes.length ≤ bufferSize - s.availIn) (w : World)
    (rest : List UInt8) (offset : Nat) :
    let input := (moved s).take s.availIn ++ bytes ++ (moved s).drop (s.availIn + bytes.length)
    input.length = bufferSize ∧
    available ⟨w, rest, input, 0, s.availIn + bytes.length, offset⟩ = available s ++ bytes := by
  have length := h.available_length
  have buffer := h.buffer
  have inside := h.inside
  have front : (moved s).take s.availIn = available s := by
    unfold moved
    rw [← length, List.take_left]
  have whole : (moved s).length = bufferSize := by
    simp only [moved, List.length_append, List.length_drop]
    omega
  constructor
  · simp only [List.length_append, List.length_take, List.length_drop, whole]
    omega
  · simp only [available, List.drop_zero] at front ⊢
    rw [front]
    have total : s.availIn + bytes.length =
        ((s.input.drop s.nextIn).take s.availIn ++ bytes).length := by
      simp only [List.length_append]
      unfold available at length
      omega
    rw [total, List.take_left]

theorem refill_streaming {z : Inflater bufferSize} (h : Streaming z upload flash body s) :
    Untouched upload flash (refill env s).2.world ∧
    ((refill env s).1 = true → Streaming z upload flash body (refill env s).2) ∧
    (refill env s).2.world.calls = s.world.calls := by
  unfold refill
  by_cases room : s.availIn < bufferSize
  · rw [if_pos room]
    rcases read_upload_cases env (bufferSize - s.availIn) s.rest s.world with failed | ⟨k, -, ok⟩
    · rw [failed]
      refine ⟨h.untouched.emit _ id, ?_, rfl⟩
      intro no
      cases no
    · rw [ok]
      have fits : (s.rest.take (min k (bufferSize - s.availIn))).length ≤
          bufferSize - s.availIn := by
        rw [List.length_take]
        omega
      obtain ⟨length, same⟩ := refilled_available h _ fits
        (s.world.emit (.readUpload (s.rest.take (min k (bufferSize - s.availIn))).length))
        (s.rest.drop (min k (bufferSize - s.availIn))) s.offset
      refine ⟨h.untouched.emit _ id, ?_, rfl⟩
      intro _
      constructor
      · exact length
      · simp only [Nat.zero_add]
        omega
      · rw [same, List.append_assoc, List.take_append_drop]
        exact h.order
      · exact h.output
      · exact h.offset
      · exact h.history
      · exact h.fine
      · exact h.untouched.emit _ id
      · exact h.faultless.emit _ (by simp only [Event.Failing]; omega)
  · rw [if_neg room]
    exact ⟨h.untouched, fun _ => h, rfl⟩

theorem inflated_available (s : Gunzip) (r : Reply) :
    available (inflated s r) = (available s).drop r.used := by
  simp only [available, inflated]
  rw [← List.drop_drop, List.drop_take]

/-- The state in which gunzip_firmware returns true. -/
structure Unpacked (upload : Option (List UInt8)) (flash : Content) (body : List UInt8)
    (n : Nat) (w : World) : Prop where
  output : w.tmp = produced w.calls
  length : n = w.tmp.length
  ended : ∃ calls given, History z calls ∧ w.calls = calls ++ [z.next calls given] ∧
    (z.inflate calls given).code = zStreamEnd
  order : consumed w.calls <+: body
  logged : Event.inflate zStreamEnd ∈ w.log
  untouched : Untouched upload flash w
  faultless : Faultless w

/- What a round makes of the stream. -/
def RoundOutcome (upload : Option (List UInt8)) (flash : Content) (body : List UInt8)
    (calls : List Call) : Round → Prop
  | .failed s => Untouched upload flash s.world
  | .ended s => Unpacked z upload flash body s.offset s.world
  | .again s => Streaming z upload flash body s ∧
      ∃ given, s.world.calls = calls ++ [z.next calls given] ∧
        (z.inflate calls given).code = zOk

variable {z}

/- The parts of a round that do not depend on whether the stream has ended. -/
structure Advanced (upload : Option (List UInt8)) (flash : Content) (body : List UInt8)
    (done : List Call) (s : Gunzip) : Prop where
  calls : s.world.calls = done
  output : s.world.tmp = produced done
  offset : s.offset = s.world.tmp.length
  order : consumed done ++ (available s ++ s.rest) = body
  untouched : Untouched upload flash s.world
  faultless : Faultless s.world

theorem inflated_untouched (h : Untouched upload flash s.world) (r : Reply) :
    Untouched upload flash (inflated s r).world := by
  have called := h.emit (.inflate r.code) id
  exact ⟨called.upload, called.flash, called.quiet⟩

theorem written_untouched (h : Untouched upload flash s.world) (bytes : List UInt8)
    (actual : Int) : Untouched upload flash (written s bytes actual).world := by
  have called := h.emit (.writeTmp bytes.length actual) id
  exact ⟨called.upload, called.flash, called.quiet⟩

theorem round_advanced (h : Streaming z upload flash body s) (actual : Int)
    (all : actual = (reply z s).out.length)
    (good : (reply z s).code = zStreamEnd ∨ (reply z s).code = zOk) :
    Advanced upload flash body (s.world.calls ++ [z.next s.world.calls (available s)])
      ((written (inflated s (reply z s)) (reply z s).out actual).advance
        (reply z s).out.length) := by
  have whole : (reply z s).out.take actual.toNat = (reply z s).out := by
    rw [all, Int.toNat_natCast, List.take_length]
  constructor
  · rfl
  · rw [produced_snoc, ← h.output]
    simp only [Gunzip.advance, written, inflated, whole]
    rfl
  · simp only [Gunzip.advance, written, inflated, whole, List.length_append, h.offset]
  · have here := inflated_available s (reply z s)
    have split := List.take_append_drop (reply z s).used (available s)
    rw [consumed_snoc, ← h.order, List.append_assoc]
    congr 1
    rw [← List.append_assoc]
    congr 1
    exact (congrArg _ here).trans split
  · exact written_untouched (inflated_untouched h.untouched _) _ _
  · have first := h.faultless.emit (.inflate (reply z s).code) (by
      intro bad
      rcases good with ends | ok
      · exact bad.1 ends
      · exact bad.2 ok)
    exact first.emit (.writeTmp (reply z s).out.length actual) (fun bad => bad all)

theorem inflate_and_write_outcome (h : Streaming z upload flash body s) :
    RoundOutcome z upload flash body s.world.calls (inflateAndWrite env z s) := by
  unfold inflateAndWrite
  dsimp only
  by_cases bad : (reply z s).code ≠ zStreamEnd ∧ (reply z s).code ≠ zOk
  · rw [if_pos bad]
    exact (inflated_untouched h.untouched _).report _ id
  rw [if_neg bad]
  have good : (reply z s).code = zStreamEnd ∨ (reply z s).code = zOk := by
    by_contra none
    exact bad (not_or.mp none)
  generalize env.writeTmp (inflated s (reply z s)).world.log.length (reply z s).out.length = actual
  by_cases short : actual ≠ (reply z s).out.length
  · rw [if_pos short]
    exact (written_untouched (inflated_untouched h.untouched _) _ _).report _ id
  rw [if_neg short]
  have advanced := round_advanced h actual (not_not.mp short) good
  by_cases ends : (reply z s).code = zStreamEnd
  · rw [if_pos ends]
    constructor
    · exact advanced.output
    · exact advanced.offset
    · exact ⟨_, _, h.history, rfl, ends⟩
    · exact ⟨_, advanced.order⟩
    · rw [← ends]
      simp [Gunzip.advance, written, inflated]
    · exact advanced.untouched
    · exact advanced.faultless
  · rw [if_neg ends]
    have ok := good.resolve_left ends
    refine ⟨?_, available s, rfl, ok⟩
    constructor
    · exact h.buffer
    · have inside := h.inside
      have used : (reply z s).used ≤ (available s).length := z.used_le _ _
      rw [h.available_length] at used
      simp only [Gunzip.advance, written, inflated]
      omega
    · exact advanced.order
    · exact advanced.output
    · exact advanced.offset
    · exact .call _ _ h.history
    · intro c mem
      rcases List.mem_append.mp mem with old | new
      · exact h.fine c old
      · rw [List.mem_singleton.mp new]
        exact ok
    · exact advanced.untouched
    · exact advanced.faultless

theorem gunzip_round_outcome (h : Streaming z upload flash body s) :
    RoundOutcome z upload flash body s.world.calls (gunzipRound env z s) := by
  obtain ⟨quiet, filled, calls⟩ := refill_streaming env h
  unfold gunzipRound
  generalize refill env s = result at quiet filled calls
  obtain ⟨readOk, t⟩ := result
  cases readOk with
  | false => exact quiet.report _ id
  | true =>
    have outcome := inflate_and_write_outcome env (filled rfl)
    rw [calls] at outcome
    exact outcome

theorem gunzip_loop_result (fuel : Nat) (h : Streaming z upload flash body s) (ok : Bool)
    (s' : Gunzip) (ran : gunzipLoop env z fuel s = some (ok, s')) :
    Untouched upload flash s'.world ∧
    (ok = true → Unpacked z upload flash body s'.offset s'.world) := by
  induction fuel generalizing s with
  | zero => cases ran
  | succ fuel ih =>
    have outcome := gunzip_round_outcome env h
    simp only [gunzipLoop] at ran
    generalize gunzipRound env z s = round at ran outcome
    cases round with
    | failed t =>
      cases ran
      exact ⟨outcome, fun no => by cases no⟩
    | ended t =>
      cases ran
      exact ⟨outcome.untouched, fun _ => outcome⟩
    | again t => exact ih outcome.1 ran

/- What is left to do: bytes to be consumed, and bytes to come out. -/
def workLeft (bound : Nat) (body : List UInt8) (calls : List Call) : Nat :=
  (body.length - (consumed calls).length) + (bound - (produced calls).length)

theorem work_left_decreases {bound : Nat} (h : Streaming z upload flash body s)
    (small : (produced s.world.calls).length ≤ bound) (calls : List Call) (given : List UInt8)
    (grown : s.world.calls = calls ++ [z.next calls given])
    (moves : 0 < (z.inflate calls given).used ∨ (z.inflate calls given).out ≠ []) :
    workLeft bound body s.world.calls < workLeft bound body calls := by
  have whole := congrArg List.length h.order
  have used := z.used_le calls given
  rw [grown, produced_snoc] at small
  unfold workLeft
  rw [grown, consumed_snoc, produced_snoc] at *
  simp only [List.length_append, List.length_take, Inflater.next] at *
  rcases moves with some | out
  · omega
  · have := List.length_pos_of_ne_nil out
    omega

/-- The loop ends as soon as every good call moves the stream and the output is bounded. -/
theorem gunzip_loop_returns (progress : Progresses z) (bound : Nat)
    (bounded : ∀ calls, History z calls → consumed calls <+: body →
      (produced calls).length ≤ bound) (fuel : Nat) (h : Streaming z upload flash body s)
    (enough : workLeft bound body s.world.calls < fuel) :
    (gunzipLoop env z fuel s).isSome = true := by
  induction fuel generalizing s with
  | zero => omega
  | succ fuel ih =>
    have outcome := gunzip_round_outcome env h
    simp only [gunzipLoop]
    generalize gunzipRound env z s = round at outcome
    cases round with
    | failed t => rfl
    | ended t => rfl
    | again t =>
      obtain ⟨streaming, given, grown, ok⟩ := outcome
      have moves := progress.moves _ given h.history ok
      have small := bounded _ streaming.history ⟨_, streaming.order⟩
      have less := work_left_decreases streaming small _ given grown moves
      exact ih streaming (by omega)

def initial (upload : Option (List UInt8)) (tmp : List UInt8) (flash : Content) : World :=
  ⟨upload, tmp, flash, [], []⟩

theorem initial_untouched (upload : Option (List UInt8)) (tmp : List UInt8) (flash : Content) :
    Untouched upload flash (initial upload tmp flash) :=
  ⟨rfl, rfl, fun _ mem => by cases mem⟩

theorem start_streaming (rest : List UInt8) (h : Untouched upload flash w) (f : Faultless w)
    (tmp : w.tmp = []) (calls : w.calls = []) :
    Streaming z upload flash rest (startGunzip rest w) := by
  constructor
  · exact List.length_replicate
  · exact Nat.zero_le _
  · change consumed w.calls ++ rest = rest
    rw [calls]
    rfl
  · change w.tmp = produced w.calls
    rw [tmp, calls]
    rfl
  · change 0 = w.tmp.length
    rw [tmp]
    rfl
  · change History z w.calls
    rw [calls]
    exact .start
  · intro c mem
    change c ∈ w.calls at mem
    rw [calls] at mem
    cases mem
  · exact h
  · exact f

def HeaderRead (header file : List UInt8) : Prop :=
  header <+: file ∧ ∀ j, j < header.length → ∃ k, env.readUpload (2 + j) = some (k + 1)

/-- Why the loop of gunzip_firmware is not reached. -/
def Refused (info : UpgradeInfo) (upload : Option (List UInt8)) : Prop :=
  upload = none ∨ env.openUpload ≤ 0 ∨ env.openTmp ≤ 0 ∨ env.inflateInit = zMemError ∨
    ¬ HeaderRead env info.header (upload.getD [])

/-- gunzip_firmware gives up before its loop, for one of the reasons, or runs the loop over
    what follows the header. -/
theorem gunzip_firmware_cases (z : Inflater bufferSize) (info : UpgradeInfo)
    (upload : Option (List UInt8)) (tmp : List UInt8) (flash : Content) :
    (Refused env info upload ∧ ∃ w, Untouched upload flash w ∧ w.calls = [] ∧
      ∀ fuel, gunzipFirmware env z fuel info (initial upload tmp flash) = some (none, w)) ∨
    ¬ Refused env info upload ∧ ∃ body s, upload = some (info.header ++ body) ∧
      Streaming z upload flash body s ∧ s.world.calls = [] ∧
      ∀ fuel, gunzipFirmware env z fuel info (initial upload tmp flash) =
        (gunzipLoop env z fuel s).map
          (fun r => (if r.1 then some r.2.offset else none, r.2.world)) := by
  unfold gunzipFirmware openUpload
  dsimp only
  generalize fdEq : (if (initial upload tmp flash).upload.isSome = true then env.openUpload
    else -1) = fd
  have opened := (initial_untouched upload tmp flash).emit (.openUpload fd) id
  by_cases noFile : fd ≤ 0
  · refine Or.inl ⟨?_, _, opened.report (.couldNotOpen info.file) id, rfl, ?_⟩
    · cases upload with
      | none => exact Or.inl rfl
      | some file => exact Or.inr (Or.inl (by rw [← fdEq] at noFile; exact noFile))
    · intro fuel
      rw [if_pos noFile]
  have created : Untouched upload flash
      (openTmp env ((initial upload tmp flash).emit (.openUpload fd))) := by
    have step := opened.emit (.openTmp env.openTmp) id
    exact ⟨step.upload, step.flash, step.quiet⟩
  by_cases noTmp : env.openTmp ≤ 0
  · refine Or.inl ⟨Or.inr (Or.inr (Or.inl noTmp)), _, created.report .couldNotOpenTemp id, rfl, ?_⟩
    intro fuel
    rw [if_neg noFile, if_pos noTmp]
  have faultless : Faultless
      (openTmp env ((initial upload tmp flash).emit (.openUpload fd))) := by
    have start : Faultless (initial upload tmp flash) := fun _ mem => by cases mem
    exact (start.emit (.openUpload fd) noFile).emit (.openTmp env.openTmp) noTmp
  have empty : (openTmp env ((initial upload tmp flash).emit (.openUpload fd))).tmp = [] :=
    if_neg noTmp
  have uncalled : (openTmp env ((initial upload tmp flash).emit (.openUpload fd))).calls = [] := rfl
  have calls : (openTmp env ((initial upload tmp flash).emit (.openUpload fd))).log.length = 2 :=
    rfl
  rw [created.upload]
  generalize openTmp env ((initial upload tmp flash).emit (.openUpload fd)) = w1
    at created faultless empty uncalled calls
  have checked := expect_untouched env info.header info.header (upload.getD []) w1 created
  have header := expect_true env info.header info.header (upload.getD []) w1 faultless
  have silent := expect_calls env info.header info.header (upload.getD []) w1
  rw [uncalled] at silent
  have readable : (expect env info.header info.header (upload.getD []) w1).1 = true ↔
      HeaderRead env info.header (upload.getD []) := by
    rw [expect_iff, calls, HeaderRead]
  generalize expect env info.header info.header (upload.getD []) w1 = result
    at checked header silent readable
  obtain ⟨accepted, rest, w2⟩ := result
  cases accepted with
  | false =>
    have unread : ¬ HeaderRead env info.header (upload.getD []) := by
      intro read
      cases readable.mpr read
    refine Or.inl ⟨Or.inr (Or.inr (Or.inr (Or.inr unread))), _,
      checked.report .invalidImage id, silent, ?_⟩
    intro fuel
    rw [if_neg noFile, if_neg noTmp]
  | true =>
    obtain ⟨file, fine, same⟩ := header rfl
    have initialised : Untouched upload flash (initInflate env w2) := by
      have step := checked.emit (.inflateInit env.inflateInit) id
      exact ⟨step.upload, step.flash, step.quiet⟩
    by_cases noMemory : env.inflateInit = zMemError
    · refine Or.inl ⟨Or.inr (Or.inr (Or.inr (Or.inl noMemory))), _,
        initialised.report (.initFailed env.inflateInit) id, rfl, ?_⟩
      intro fuel
      rw [if_neg noFile, if_neg noTmp]
      exact if_pos noMemory
    · have there : ∃ content, upload = some content ∧ ¬ env.openUpload ≤ 0 := by
        cases upload with
        | none =>
          rw [← fdEq] at noFile
          exact absurd (show (-1 : Int) ≤ 0 by decide) noFile
        | some content => exact ⟨content, rfl, by rwa [← fdEq] at noFile⟩
      obtain ⟨content, rfl, opens⟩ := there
      refine Or.inr ⟨?_, rest, startGunzip rest (initInflate env w2), congrArg some file, ?_, rfl,
        ?_⟩
      · rintro (none | no | no | no | no)
        · cases none
        · exact opens no
        · exact noTmp no
        · exact noMemory no
        · exact no (readable.mp rfl)
      · exact start_streaming rest initialised
          (fine.emit (.inflateInit env.inflateInit) noMemory) (same.trans empty) rfl
      · intro fuel
        rw [if_neg noFile, if_neg noTmp]
        exact if_neg noMemory

end GunzipFirmware
