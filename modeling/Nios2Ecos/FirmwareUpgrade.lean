import Nios2Ecos.GunzipFirmware

/- The flash phase, and the whole upgrade. -/
namespace FirmwareUpgrade
open NorFlash InflateStream FirmwareUtil GunzipFirmware
variable (env : Env)

/-- The log has only grown, by events of one kind. -/
def Extends (kind : Event → Prop) (w w' : World) : Prop :=
  ∃ es, w'.log = w.log ++ es ∧ ∀ e ∈ es, kind e

section
variable {kind : Event → Prop} {w w' w'' : World}

theorem Extends.refl (kind : Event → Prop) (w : World) : Extends kind w w :=
  ⟨[], (List.append_nil _).symm, fun _ mem => by cases mem⟩

theorem Extends.trans (first : Extends kind w w') (second : Extends kind w' w'') :
    Extends kind w w'' := by
  obtain ⟨es, log, all⟩ := first
  obtain ⟨es', log', all'⟩ := second
  refine ⟨es ++ es', by rw [log', log, List.append_assoc], ?_⟩
  intro e mem
  rcases List.mem_append.mp mem with old | new
  · exact all e old
  · exact all' e new

theorem Extends.one {e : Event} (here : kind e) (log : w'.log = w.log ++ [e]) :
    Extends kind w w' := by
  refine ⟨[e], log, ?_⟩
  intro e' mem
  rw [List.mem_singleton.mp mem]
  exact here

theorem Extends.emit (h : Extends kind w w') {e : Event} (here : kind e) :
    Extends kind w (w'.emit e) :=
  h.trans (.one here rfl)

theorem Extends.mem {e : Event} (h : Extends kind w w') (mem : e ∈ w'.log) :
    e ∈ w.log ∨ kind e := by
  obtain ⟨es, log, all⟩ := h
  rw [log] at mem
  rcases List.mem_append.mp mem with old | new
  · exact Or.inl old
  · exact Or.inr (all e new)

theorem Extends.subset (h : Extends kind w w') {e : Event} (mem : e ∈ w.log) : e ∈ w'.log := by
  obtain ⟨es, log, -⟩ := h
  rw [log]
  exact List.mem_append_left es mem

end

/-- The calls of the flash phase: one range to unlock and erase, where programming is
    allowed, and whether the warning about the amount of data may be given. -/
def OfFlashPhase (start n : Nat) (inside : Nat → Nat → Prop) (warn : Prop) : Event → Prop
  | .reopenTmp _ => True
  | .readTmp _ => True
  | .flashUnlock a m _ => a = start ∧ m = n
  | .flashErase a m _ => a = start ∧ m = n
  | .flashProgram a m _ => inside a m
  | .removeUpload => True
  | .info i => i = .incorrectAmount → warn
  | _ => False

theorem bytes_to_write_bounds (n : Nat) : n ≤ bytesToWrite n ∧ bytesToWrite n < n + 4 := by
  unfold bytesToWrite
  omega

theorem filled_eq {chunk : List UInt8} (fits : chunk.length ≤ flashBufferSize) :
    filled chunk =
      chunk ++ List.replicate (bytesToWrite chunk.length - chunk.length) 0xFF := by
  have bounds := bytes_to_write_bounds chunk.length
  have room : bytesToWrite chunk.length ≤ flashBufferSize := by
    unfold bytesToWrite
    unfold flashBufferSize at *
    omega
  unfold filled
  rw [List.take_append, List.take_of_length_le bounds.1, List.take_replicate,
    Nat.min_eq_left (by omega)]

theorem filled_length {chunk : List UInt8} (fits : chunk.length ≤ flashBufferSize) :
    (filled chunk).length = bytesToWrite chunk.length := by
  have bounds := bytes_to_write_bounds chunk.length
  rw [filled_eq fits, List.length_append, List.length_replicate]
  omega

/- One read of the temporary file: an error, or the next bytes. -/
theorem read_tmp_cases (n : Nat) (rest : List UInt8) (w : World) :
    readTmp env n rest w = (none, rest, w.emit (.readTmp (-1))) ∨
    ∃ k, env.readTmp w.log.length = some k ∧
      readTmp env n rest w = (some (rest.take (min k n)), rest.drop (min k n),
        w.emit (.readTmp (rest.take (min k n)).length)) := by
  unfold readTmp
  cases answer : env.readTmp w.log.length with
  | none => exact Or.inl rfl
  | some k => exact Or.inr ⟨k, rfl, rfl⟩

/- Every message but the warning is one of the flash phase. -/
theorem of_flash_phase_info {start n : Nat} {inside : Nat → Nat → Prop} {warn : Prop} {i : Info}
    (other : i ≠ .incorrectAmount) : OfFlashPhase start n inside warn (.info i) :=
  fun same => absurd same other

theorem progress_log {start n : Nat} {inside : Nat → Nat → Prop} {warn : Prop} (times : Nat)
    (w : World) : Extends (OfFlashPhase start n inside warn) w (progress times w) := by
  have dotted := (Extends.refl (OfFlashPhase start n inside warn) w).emit
    (of_flash_phase_info (i := .dot) (by simp))
  unfold progress
  split
  · exact dotted.emit (of_flash_phase_info (by simp))
  · exact dotted

theorem progress_flash (times : Nat) (w : World) : (progress times w).flash = w.flash := by
  unfold progress
  split <;> rfl

theorem flash_program_log {kind : Event → Prop} {addr : Nat} {data : List UInt8} {w : World}
    (here : ∀ stat, kind (.flashProgram addr data.length stat)) :
    Extends kind w (flashProgram env addr data w).2 :=
  .one (here _) rfl

/- The chunk read at the head of a round, when the read does not fail. -/
def chunkOf (k : Nat) (rest : List UInt8) : List UInt8 := rest.take (min k flashBufferSize)

theorem chunk_fits (k : Nat) (rest : List UInt8) : (chunkOf k rest).length ≤ flashBufferSize := by
  simp only [chunkOf, List.length_take]
  omega

/- The three ways a round of the programming loop goes. -/
theorem program_round (fuel addr times : Nat) (rest : List UInt8) (w : World) :
    programLoop env (fuel + 1) addr times rest w =
        some (.readFailed addr, w.emit (.readTmp (-1))) ∨
    ∃ k, env.readTmp w.log.length = some k ∧
      let w1 := w.emit (.readTmp (chunkOf k rest).length)
      let programmed := flashProgram env addr (filled (chunkOf k rest)) w1
      (chunkOf k rest = [] ∧
        programLoop env (fuel + 1) addr times rest w = some (.endOfFile addr, w1)) ∨
      (chunkOf k rest ≠ [] ∧ programmed.1 ≠ 0 ∧
        programLoop env (fuel + 1) addr times rest w =
          some (.programFailed, programmed.2.report (.programFailed programmed.1))) ∨
      (chunkOf k rest ≠ [] ∧ programmed.1 = 0 ∧
        programLoop env (fuel + 1) addr times rest w =
          programLoop env fuel (addr + (chunkOf k rest).length) (times + 1)
            (rest.drop (min k flashBufferSize)) (progress times programmed.2)) := by
  rcases read_tmp_cases env flashBufferSize rest w with failed | ⟨k, answer, ok⟩
  · left
    simp only [programLoop, failed]
  · right
    refine ⟨k, answer, ?_⟩
    change readTmp env flashBufferSize rest w = (some (chunkOf k rest), _,
      w.emit (.readTmp (chunkOf k rest).length)) at ok
    simp only [programLoop, ok]
    cases chunkOf k rest with
    | nil => exact Or.inl ⟨rfl, rfl⟩
    | cons b bs =>
      right
      by_cases stat : (flashProgram env addr (filled (b :: bs))
          (w.emit (.readTmp (b :: bs).length))).1 = 0
      · right
        refine ⟨by simp, stat, ?_⟩
        simp only [stat, ne_eq, not_true_eq_false, ↓reduceIte]
      · left
        refine ⟨by simp, stat, ?_⟩
        simp only [stat, ne_eq, not_false_eq_true, ↓reduceIte]

/-- An invariant of the programming loop that allows programming only where `inside` says. -/
structure Guards (inside : Nat → Nat → Prop) (inv : Nat → List UInt8 → Prop) : Prop where
  step : ∀ addr rest t k, inv addr rest → env.readTmp t = some k → chunkOf k rest ≠ [] →
    inside addr (bytesToWrite (chunkOf k rest).length) ∧
    inv (addr + (chunkOf k rest).length) (rest.drop (min k flashBufferSize))

/- The events of the loop. -/
theorem program_loop_log {start n : Nat} {inside : Nat → Nat → Prop} {warn : Prop}
    {inv : Nat → List UInt8 → Prop} (guards : Guards env inside inv) (fuel addr times : Nat)
    (rest : List UInt8) (w w' : World) (exit : LoopExit) (holds : inv addr rest)
    (ran : programLoop env fuel addr times rest w = some (exit, w')) :
    Extends (OfFlashPhase start n inside warn) w w' := by
  induction fuel generalizing addr times rest w with
  | zero => cases ran
  | succ fuel ih =>
    rcases program_round env fuel addr times rest w with failed | ⟨k, answer, round⟩
    · rw [failed] at ran
      cases ran
      exact (Extends.refl _ w).emit trivial
    · have read : Extends (OfFlashPhase start n inside warn) w
          (w.emit (.readTmp (chunkOf k rest).length)) := (Extends.refl _ w).emit trivial
      have programs : chunkOf k rest ≠ [] → Extends (OfFlashPhase start n inside warn) w
          (flashProgram env addr (filled (chunkOf k rest))
            (w.emit (.readTmp (chunkOf k rest).length))).2 := by
        intro nonempty
        have allowed := (guards.step addr rest _ k holds answer nonempty).1
        rw [← filled_length (chunk_fits k rest)] at allowed
        exact read.trans (flash_program_log env (fun _ => allowed))
      rcases round with ⟨-, ends⟩ | ⟨nonempty, -, stops⟩ | ⟨nonempty, -, goes⟩
      · rw [ends] at ran
        cases ran
        exact read
      · rw [stops] at ran
        cases ran
        exact (programs nonempty).emit (of_flash_phase_info (by simp))
      · rw [goes] at ran
        have later := ih _ _ _ _ (guards.step addr rest _ k holds answer nonempty).2 ran
        exact ((programs nonempty).trans (progress_log times _)).trans later

/-- Reads of the temporary file that do not fail give at least one byte while there is one. -/
def TmpReadsOn : Prop := ∀ t k, env.readTmp t = some k → 0 < k

/-- Programming chunk by chunk, each filled up with 0xFF, programs the file as a whole. -/
theorem program_loop_flash (reads : TmpReadsOn env) (fuel addr addr' times : Nat)
    (rest : List UInt8) (w w' : World)
    (ran : programLoop env fuel addr times rest w = some (.endOfFile addr', w')) :
    addr' = addr + rest.length ∧ w'.flash = NorFlash.program addr rest w.flash := by
  induction fuel generalizing addr times rest w with
  | zero => cases ran
  | succ fuel ih =>
    rcases program_round env fuel addr times rest w with failed | ⟨k, answer, round⟩
    · rw [failed] at ran
      cases ran
    · have positive := reads _ k answer
      rcases round with ⟨empty, ends⟩ | ⟨-, -, stops⟩ | ⟨-, stat, goes⟩
      · rw [ends] at ran
        cases ran
        have nothing : rest = [] := by
          have room : 0 < flashBufferSize := by decide
          rcases List.take_eq_nil_iff.mp empty with zero | nil
          · omega
          · exact nil
        subst nothing
        exact ⟨rfl, (program_nil _ _).symm⟩
      · rw [stops] at ran
        cases ran
      · rw [goes] at ran
        obtain ⟨last, same⟩ := ih _ _ _ _ ran
        have parts := List.take_append_drop (min k flashBufferSize) rest
        have total := congrArg List.length parts
        rw [List.length_append] at total
        refine ⟨by unfold chunkOf at last; omega, ?_⟩
        have programmed : (flashProgram env addr (filled (chunkOf k rest))
            (w.emit (.readTmp (chunkOf k rest).length))).2.flash =
            NorFlash.program addr (chunkOf k rest) w.flash := by
          have done : env.program (w.emit (.readTmp (chunkOf k rest).length)).log.length = 0 :=
            stat
          simp only [flashProgram, done, ↓reduceIte]
          rw [filled_eq (chunk_fits k rest), program_filled]
          rfl
        rw [same, progress_flash, programmed, ← program_append]
        congr 1

theorem program_loop_returns (fuel addr times : Nat) (rest : List UInt8) (w : World)
    (enough : rest.length < fuel) :
    (programLoop env fuel addr times rest w).isSome = true := by
  induction fuel generalizing addr times rest w with
  | zero => omega
  | succ fuel ih =>
    rcases program_round env fuel addr times rest w with failed | ⟨k, -, round⟩
    · rw [failed]
      rfl
    · rcases round with ⟨-, ends⟩ | ⟨-, -, stops⟩ | ⟨nonempty, -, goes⟩
      · rw [ends]
        rfl
      · rw [stops]
        rfl
      · rw [goes]
        apply ih
        have some := List.length_pos_of_ne_nil nonempty
        simp only [chunkOf, List.length_take] at some
        simp only [List.length_drop]
        omega

section
variable {start n : Nat} {inside : Nat → Nat → Prop} {warn : Prop}

theorem finish_log (info : UpgradeInfo) (ends addr : Nat) (readOk : Bool) (w : World)
    (warned : ends ≠ addr → warn) :
    Extends (OfFlashPhase start n inside warn) w (finish info ends addr readOk w).2 := by
  have done := (Extends.refl (OfFlashPhase start n inside warn) w).emit
    (of_flash_phase_info (i := .done) (by simp))
  have checked : Extends (OfFlashPhase start n inside warn) w
      (if ends ≠ addr then (w.report .done).report .incorrectAmount else w.report .done) := by
    split
    · rename_i differ
      exact done.emit (fun _ => warned differ)
    · exact done
  have removed : Extends (OfFlashPhase start n inside warn) w (removeUpload
      (if ends ≠ addr then (w.report .done).report .incorrectAmount else w.report .done)) :=
    checked.trans (.one (e := .removeUpload) trivial rfl)
  unfold finish
  dsimp only
  cases readOk with
  | false => exact removed.emit (of_flash_phase_info (by simp))
  | true => exact removed.emit (of_flash_phase_info (by simp))

theorem finish_flash (info : UpgradeInfo) (ends addr : Nat) (readOk : Bool) (w : World) :
    (finish info ends addr readOk w).2.flash = w.flash := by
  unfold finish
  dsimp only
  by_cases same : ends ≠ addr
  · rw [if_pos same]
    cases readOk <;> rfl
  · rw [if_neg same]
    cases readOk <;> rfl

theorem flash_unlock_log (addr : Nat) (w : World) :
    Extends (OfFlashPhase addr n inside warn) w (flashUnlock env addr n w).2 :=
  .one (e := .flashUnlock addr n (env.unlock w.log.length)) ⟨rfl, rfl⟩ rfl

theorem flash_erase_log (addr : Nat) (w : World) :
    Extends (OfFlashPhase addr n inside warn) w (flashErase env addr n w).2 :=
  .one (e := .flashErase addr n (env.erase w.log.length)) ⟨rfl, rfl⟩ rfl

/- The world after the erase, whether it failed or not. -/
def afterErase (info : UpgradeInfo) (n : Nat) (w : World) : World :=
  (flashErase env (startAddr info) n (w.report .erasing)).2

theorem after_erase_log (info : UpgradeInfo) (w : World) :
    Extends (OfFlashPhase (startAddr info) n inside warn) w (afterErase env info n w) := by
  have first := (Extends.refl (OfFlashPhase (startAddr info) n inside warn) w).emit
    (of_flash_phase_info (i := .erasing) (by simp))
  exact first.trans (flash_erase_log env (startAddr info) _)

/- The world in which the programming loop starts. -/
def erased (info : UpgradeInfo) (n : Nat) (w : World) : World :=
  ((afterErase env info n w).report .done).report (.programming (startAddr info) n)

theorem erased_log (info : UpgradeInfo) (w : World) :
    Extends (OfFlashPhase (startAddr info) n inside warn) w (erased env info n w) :=
  ((after_erase_log env info w).emit (of_flash_phase_info (by simp))).emit
    (of_flash_phase_info (by simp))

/- The erase fails, or the loop runs over the temporary file. -/
theorem erase_and_program_cases (fuel : Nat) (info : UpgradeInfo) (n : Nat) (w : World) :
    (∃ stat, eraseAndProgram env fuel info n w =
      some (false, (afterErase env info n w).report (.eraseFailed stat))) ∨
    (env.erase (w.report .erasing).log.length = 0 ∧
      eraseAndProgram env fuel info n w =
        (programLoop env fuel (startAddr info) 1 w.tmp (erased env info n w)).map
          (afterLoop info n)) := by
  unfold eraseAndProgram
  by_cases stat : env.erase (w.report .erasing).log.length = 0
  · right
    refine ⟨stat, ?_⟩
    have zero : (flashErase env (startAddr info) n (w.report .erasing)).1 = 0 := stat
    simp only [zero, ne_eq, not_true_eq_false, ↓reduceIte]
    rfl
  · left
    have failed : (flashErase env (startAddr info) n (w.report .erasing)).1 ≠ 0 := stat
    exact ⟨_, if_pos failed⟩

/- What the programming loop leaves to its end is logged as part of the phase. -/
theorem after_loop_log (info : UpgradeInfo) (r : LoopExit × World)
    (warned : ∀ addr, r.1 = .endOfFile addr ∨ r.1 = .readFailed addr →
      startAddr info + n ≠ addr → warn) :
    Extends (OfFlashPhase start n inside warn) r.2 (afterLoop info n r).2 := by
  obtain ⟨exit, w⟩ := r
  cases exit with
  | programFailed => exact Extends.refl _ w
  | endOfFile addr => exact finish_log info _ addr true w (warned addr (Or.inl rfl))
  | readFailed addr => exact finish_log info _ addr false w (warned addr (Or.inr rfl))

end

section
variable {inside : Nat → Nat → Prop} {inv : Nat → List UInt8 → Prop} {fuel n : Nat}
  {info : UpgradeInfo} {w w' : World} {ok : Bool}

theorem erase_and_program_log (guards : Guards env inside inv)
    (holds : inv (startAddr info) w.tmp)
    (ran : eraseAndProgram env fuel info n w = some (ok, w')) :
    Extends (OfFlashPhase (startAddr info) n inside True) (afterErase env info n w) w' := by
  have done : Extends (OfFlashPhase (startAddr info) n inside True) (afterErase env info n w)
      (erased env info n w) :=
    ((Extends.refl _ _).emit (of_flash_phase_info (by simp))).emit
      (of_flash_phase_info (by simp))
  rcases erase_and_program_cases env fuel info n w with ⟨stat, failed⟩ | ⟨-, loop⟩
  · rw [failed] at ran
    cases ran
    exact (Extends.refl _ _).emit (of_flash_phase_info (by simp))
  · rw [loop] at ran
    obtain ⟨r, looped, result⟩ := Option.map_eq_some_iff.mp ran
    have events : Extends (OfFlashPhase (startAddr info) n inside True) (erased env info n w) r.2 :=
      program_loop_log env guards fuel _ _ _ _ _ _ holds looped
    have ends : Extends (OfFlashPhase (startAddr info) n inside True) r.2 (afterLoop info n r).2 :=
      after_loop_log info r (fun _ _ _ => trivial)
    rw [result] at ends
    exact (done.trans events).trans ends

theorem erase_and_program_true (reads : TmpReadsOn env) (length : n = w.tmp.length)
    (ran : eraseAndProgram env fuel info n w = some (true, w')) :
    w'.flash = NorFlash.program (startAddr info) w.tmp
      (NorFlash.erase env.geometry (startAddr info) n w.flash) ∧
    Extends (OfFlashPhase (startAddr info) n (fun _ _ => True) False) w w' := by
  rcases erase_and_program_cases env fuel info n w with ⟨stat, failed⟩ | ⟨stat, loop⟩
  · rw [failed] at ran
    cases ran
  · rw [loop] at ran
    obtain ⟨⟨exit, w1⟩, looped, result⟩ := Option.map_eq_some_iff.mp ran
    have flash : (erased env info n w).flash =
        NorFlash.erase env.geometry (startAddr info) n w.flash := if_pos stat
    have anywhere : Guards env (fun _ _ => True) (fun _ _ => True) :=
      ⟨fun _ _ _ _ _ _ _ => ⟨trivial, trivial⟩⟩
    have events : Extends (OfFlashPhase (startAddr info) n (fun _ _ => True) False)
        (erased env info n w) w1 :=
      program_loop_log env anywhere fuel _ _ _ _ _ _ trivial looped
    cases exit with
    | programFailed => cases result
    | readFailed addr => cases result
    | endOfFile addr =>
      obtain ⟨last, programmed⟩ := program_loop_flash env reads fuel _ _ _ _ _ _ looped
      have ends : Extends (OfFlashPhase (startAddr info) n (fun _ _ => True) False) w1
          (finish info (startAddr info + n) addr true w1).2 :=
        finish_log info (startAddr info + n) addr true w1 (fun differ => differ (by omega))
      have final := finish_flash info (startAddr info + n) addr true w1
      change finish info (startAddr info + n) addr true w1 = (true, w') at result
      rw [result] at ends final
      refine ⟨?_, ((erased_log env info w).trans events).trans ends⟩
      rw [final, programmed, flash]

/- The flash phase gives up before the erase, or goes on to it with the image as it is. -/
theorem flash_image_cases (fuel : Nat) (info : UpgradeInfo) (n : Nat) (w : World)
    (inside : Nat → Nat → Prop) (warn : Prop) :
    ∃ w1, Extends (OfFlashPhase (startAddr info) n inside warn) w w1 ∧
      ((flashImage env fuel info n w = some (false, w1) ∧
          (env.reopenTmp ≤ 0 ∨ ∃ stat, .flashUnlock (startAddr info) n stat ∈ w1.log)) ∨
        (flashImage env fuel info n w = eraseAndProgram env fuel info n w1 ∧
          w1.tmp = w.tmp ∧ w1.flash = w.flash)) := by
  have opened : Extends (OfFlashPhase (startAddr info) n inside warn) w
      (w.emit (.reopenTmp env.reopenTmp)) := (Extends.refl _ w).emit trivial
  have started := opened.emit (of_flash_phase_info (i := .inProgress info.name) (by simp))
  unfold flashImage
  dsimp only
  by_cases noTmp : env.reopenTmp ≤ 0
  · rw [if_pos noTmp]
    exact ⟨_, opened.emit (of_flash_phase_info (by simp)), Or.inl ⟨rfl, Or.inl noTmp⟩⟩
  rw [if_neg noTmp]
  cases locking : env.blockLocking with
  | false => exact ⟨_, started, Or.inr ⟨rfl, rfl, rfl⟩⟩
  | true =>
    simp only [↓reduceIte]
    generalize start : (w.emit (.reopenTmp env.reopenTmp)).report (.inProgress info.name) = w0
    have unlocked : Extends (OfFlashPhase (startAddr info) n inside warn) w
        (flashUnlock env (startAddr info) n w0).2 := by
      rw [← start]
      exact started.trans (flash_unlock_log env (startAddr info) _)
    have logged : .flashUnlock (startAddr info) n (flashUnlock env (startAddr info) n w0).1 ∈
        (flashUnlock env (startAddr info) n w0).2.log :=
      List.mem_append_right _ List.mem_cons_self
    have same : (flashUnlock env (startAddr info) n w0).2.tmp = w.tmp ∧
        (flashUnlock env (startAddr info) n w0).2.flash = w.flash := by
      rw [← start]
      exact ⟨rfl, rfl⟩
    generalize flashUnlock env (startAddr info) n w0 = result at unlocked logged same
    obtain ⟨stat, w2⟩ := result
    by_cases failed : stat ≠ 0
    · refine ⟨_, unlocked.emit (of_flash_phase_info (i := .unlockFailed stat) (by simp)),
        Or.inl ⟨if_pos failed, Or.inr ⟨stat, List.mem_append_left _ logged⟩⟩⟩
    · exact ⟨w2, unlocked, Or.inr ⟨if_neg failed, same⟩⟩

theorem flash_image_log (guards : Guards env inside inv) (holds : inv (startAddr info) w.tmp)
    (ran : flashImage env fuel info n w = some (ok, w')) :
    Extends (OfFlashPhase (startAddr info) n inside True) w w' := by
  obtain ⟨w1, log, ⟨stops, -⟩ | ⟨goes, tmp, -⟩⟩ := flash_image_cases env fuel info n w inside True
  · rw [stops] at ran
    cases ran
    exact log
  · rw [goes] at ran
    have rest := erase_and_program_log env guards (by rw [tmp]; exact holds) ran
    exact (log.trans (after_erase_log env info w1)).trans rest

/- Once the temporary file is open again the range of the image is unlocked or erased. -/
theorem flash_image_erases (opens : 0 < env.reopenTmp)
    (ran : flashImage env fuel info n w = some (ok, w')) :
    (∃ stat, .flashUnlock (startAddr info) n stat ∈ w'.log) ∨
      ∃ stat, .flashErase (startAddr info) n stat ∈ w'.log := by
  obtain ⟨w1, -, ⟨stops, why⟩ | ⟨goes, -, -⟩⟩ :=
    flash_image_cases env fuel info n w (fun _ _ => True) True
  · rw [stops] at ran
    cases ran
    rcases why with closed | unlocked
    · omega
    · exact Or.inl unlocked
  · rw [goes] at ran
    have anywhere : Guards env (fun _ _ => True) (fun _ _ => True) :=
      ⟨fun _ _ _ _ _ _ _ => ⟨trivial, trivial⟩⟩
    have rest := erase_and_program_log env anywhere trivial ran
    refine Or.inr ⟨env.erase (w1.report .erasing).log.length, rest.subset ?_⟩
    simp [afterErase, flashErase, World.emit, World.report]

theorem flash_image_true (reads : TmpReadsOn env) (length : n = w.tmp.length)
    (ran : flashImage env fuel info n w = some (true, w')) :
    w'.flash = NorFlash.program (startAddr info) w.tmp
      (NorFlash.erase env.geometry (startAddr info) n w.flash) ∧
    Extends (OfFlashPhase (startAddr info) n (fun _ _ => True) False) w w' := by
  obtain ⟨w1, log, ⟨stops, -⟩ | ⟨goes, tmp, flash⟩⟩ :=
    flash_image_cases env fuel info n w (fun _ _ => True) False
  · rw [stops] at ran
    cases ran
  · rw [goes] at ran
    obtain ⟨final, rest⟩ := erase_and_program_true env reads (by rw [tmp]; exact length) ran
    rw [tmp, flash] at final
    exact ⟨final, log.trans rest⟩

theorem flash_image_returns (enough : w.tmp.length < fuel) :
    (flashImage env fuel info n w).isSome = true := by
  obtain ⟨w1, -, ⟨stops, -⟩ | ⟨goes, tmp, -⟩⟩ :=
    flash_image_cases env fuel info n w (fun _ _ => True) True
  · rw [stops]
    rfl
  · rw [goes]
    rcases erase_and_program_cases env fuel info n w1 with ⟨stat, failed⟩ | ⟨-, loop⟩
    · rw [failed]
      rfl
    · rw [loop, Option.isSome_map]
      exact program_loop_returns env fuel _ _ _ _ (by rw [tmp]; exact enough)

end

/-- An upgrade fails while unpacking and touches nothing, or it has unpacked the image and
    goes on to the flash. -/
theorem upgrade_cases (z : Inflater bufferSize) (fuel : Nat) (info : UpgradeInfo)
    (file tmp : List UInt8) (flash : Content) (ok : Bool) (w' : World)
    (ran : cygFirmwareUpgrade env z fuel info (initial (some file) tmp flash) = some (ok, w')) :
    (ok = false ∧ Untouched (some file) flash w') ∨
    ∃ body n w, file = info.header ++ body ∧ Unpacked z (some file) flash body n w ∧
      flashImage env fuel info n w = some (ok, w') := by
  unfold cygFirmwareUpgrade at ran
  rcases gunzip_firmware_cases env z info (some file) tmp flash with
    ⟨-, w, untouched, -, refused⟩ | ⟨-, body, s, content, streaming, -, loop⟩
  · rw [refused fuel] at ran
    cases ran
    exact Or.inl ⟨rfl, untouched⟩
  · rw [loop fuel] at ran
    cases looped : gunzipLoop env z fuel s with
    | none =>
      rw [looped] at ran
      cases ran
    | some r =>
      obtain ⟨unpacked, s'⟩ := r
      obtain ⟨untouched, image⟩ := gunzip_loop_result env fuel streaming unpacked s' looped
      rw [looped] at ran
      cases unpacked with
      | false =>
        cases ran
        exact Or.inl ⟨rfl, untouched⟩
      | true => exact Or.inr ⟨body, s'.offset, s'.world, Option.some.inj content, image rfl, ran⟩

/-- The flash holds the image, the rest of its blocks is blank, and nothing else changed. -/
structure Updated (g : Geometry) (start : Nat) (image : List UInt8) (before after : Content) :
    Prop where
  holds : ∀ i (h : i < image.length), after (start + i) = image[i]
  blank : ∀ x, g.Overlaps start image.length x → start + image.length ≤ x → after x = 0xFF
  others : ∀ x, ¬ g.Overlaps start image.length x → after x = before x

theorem updated_of_program (g : Geometry) (start : Nat) (image : List UInt8) (before : Content)
    (above : g.base ≤ start) :
    Updated g start image before
      (NorFlash.program start image (NorFlash.erase g start image.length before)) := by
  constructor
  · intro i h
    rw [program_erased g start image before above, if_pos (by omega), Nat.add_sub_cancel_left,
      List.getD_eq_getElem _ _ h]
  · intro x erased beyond
    rw [program_erased g start image before above, if_neg (by omega), if_pos erased]
  · intro x apart
    have outside : ¬ (start ≤ x ∧ x < start + image.length) :=
      fun inside => apart (overlaps_of_mem g above inside.1 inside.2)
    rw [program_erased g start image before above, if_neg outside, if_neg apart]

theorem unpacked_decodes {z : Inflater bufferSize} {decode : List UInt8 → Option (List UInt8)}
    (decodes : Decodes z decode) {upload : Option (List UInt8)} {flash : Content}
    {body : List UInt8} {n : Nat} {w : World} (h : Unpacked z upload flash body n w) :
    decode body = some w.tmp := by
  obtain ⟨calls, given, history, same, ended⟩ := h.ended
  obtain ⟨rest, order⟩ := h.order
  rw [h.output, ← order, same]
  exact decodes.sound calls given history ended rest

def smoothEnv (g : Geometry) : Env where
  geometry := g
  blockLocking := true
  openUpload := 3
  openTmp := 4
  reopenTmp := 3
  inflateInit := zOk
  readUpload := fun _ => some bufferSize
  writeTmp := fun _ n => n
  readTmp := fun _ => some flashBufferSize
  unlock := fun _ => 0
  erase := fun _ => 0
  program := fun _ => 0
  torn := fun _ _ => 0

def smallFlash : Geometry := ⟨0, 4, by decide, by decide⟩

/- "hello" in a zlib stream with one stored block. -/
def hello : List UInt8 := [0x68, 0x65, 0x6C, 0x6C, 0x6F]

def helloStream : List UInt8 :=
  [0x78, 0x01, 0x01, 0x05, 0x00, 0xFA, 0xFF, 0x68, 0x65, 0x6C, 0x6C, 0x6F, 0x06, 0x2C, 0x02, 0x15]

def inflateHello : Inflater bufferSize := known helloStream hello (by decide)

/-- The header "ZylinNiosFirmware" with its line feed. -/
def firmwareHeader : List UInt8 :=
  [0x5A, 0x79, 0x6C, 0x69, 0x6E, 0x4E, 0x69, 0x6F, 0x73,
    0x46, 0x69, 0x72, 0x6D, 0x77, 0x61, 0x72, 0x65, 0x0A]

def firmware : UpgradeInfo where
  flashBase := 0
  file := "/ram/firmware.phi"
  name := "Firmware"
  startAddress := 8
  length := 16
  header := firmwareHeader

def helloFile : List UInt8 := firmwareHeader ++ helloStream

theorem upgrade_true_updates_flash (z : Inflater bufferSize)
    (decode : List UInt8 → Option (List UInt8)) (decodes : Decodes z decode)
    (reads : TmpReadsOn env) (fuel : Nat) (info : UpgradeInfo)
    (base : env.geometry.base ≤ startAddr info) (file tmp : List UInt8) (flash : Content)
    (w' : World)
    (ran : cygFirmwareUpgrade env z fuel info (initial (some file) tmp flash) = some (true, w')) :
    ∃ body image, file = info.header ++ body ∧ decode body = some image ∧
      Updated env.geometry (startAddr info) image flash w'.flash ∧
      .info .incorrectAmount ∉ w'.log := by
  rcases upgrade_cases env z fuel info file tmp flash true w' ran with
    ⟨no, -⟩ | ⟨body, n, w, content, unpacked, flashed⟩
  · cases no
  · obtain ⟨final, log⟩ := flash_image_true env reads unpacked.length flashed
    refine ⟨body, w.tmp, content, unpacked_decodes decodes unpacked, ?_, ?_⟩
    · rw [final, unpacked.length, unpacked.untouched.flash]
      exact updated_of_program env.geometry (startAddr info) w.tmp flash base
    · intro warned
      rcases log.mem warned with old | new
      · exact unpacked.untouched.quiet _ old trivial
      · exact new rfl

theorem upgrade_true_updates_flash_hello :
    ∃ w', cygFirmwareUpgrade (smoothEnv smallFlash) inflateHello 4 firmware
        (initial (some helloFile) [] (fun _ => 0)) = some (true, w') ∧
      ∃ body image, helloFile = firmware.header ++ body ∧
        decodeKnown helloStream hello body = some image ∧
        Updated smallFlash 8 image (fun _ => 0) w'.flash ∧ .info .incorrectAmount ∉ w'.log := by
  have success : (cygFirmwareUpgrade (smoothEnv smallFlash) inflateHello 4 firmware
      (initial (some helloFile) [] (fun _ => 0))).map Prod.fst = some true := by decide +kernel
  obtain ⟨⟨ok, w'⟩, ran, rfl⟩ := Option.map_eq_some_iff.mp success
  refine ⟨w', ran, ?_⟩
  exact upgrade_true_updates_flash (smoothEnv smallFlash) inflateHello
    (decodeKnown helloStream hello) (known_decodes _ _ _) (by intro t k answer; cases answer; decide)
    4 firmware (Nat.zero_le _) helloFile [] (fun _ => 0) w' ran

/-- The file has another header, its stream does not end, or a call failed. -/
def BadImage (info : UpgradeInfo) (file : List UInt8) (log : List Event) : Prop :=
  ¬ info.header <+: file ∨ .inflate zStreamEnd ∉ log ∨ ∃ e ∈ log, Event.Failing e

/- The calls of the flash phase are not among those of the inflate phase. -/
theorem flash_phase_not_failing {start n : Nat} {inside : Nat → Nat → Prop} {warn : Prop}
    {e : Event} (h : OfFlashPhase start n inside warn e) : ¬ Event.Failing e := by
  intro failing
  cases e <;> first | exact h | exact failing

theorem upgrade_returns (z : Inflater bufferSize) (progress : Progresses z) (info : UpgradeInfo)
    (file tmp : List UInt8) (flash : Content) :
    ∃ fuel, (cygFirmwareUpgrade env z fuel info (initial (some file) tmp flash)).isSome = true := by
  unfold cygFirmwareUpgrade
  rcases gunzip_firmware_cases env z info (some file) tmp flash with
    ⟨-, w, -, -, refused⟩ | ⟨-, body, s, -, streaming, -, loop⟩
  · refine ⟨0, ?_⟩
    rw [refused 0]
    rfl
  · obtain ⟨bound, bounded⟩ := progress.finite body
    let fuel := workLeft bound body s.world.calls + bound + 1
    have returns := gunzip_loop_returns env progress bound bounded fuel streaming (by omega)
    refine ⟨fuel, ?_⟩
    rw [loop fuel]
    obtain ⟨⟨unpacked, s'⟩, looped⟩ := Option.isSome_iff_exists.mp returns
    rw [looped]
    cases unpacked with
    | false => rfl
    | true =>
      have image := (gunzip_loop_result env fuel streaming true s' looped).2 rfl
      apply flash_image_returns
      obtain ⟨calls, given, history, same, -⟩ := image.ended
      have all := bounded s'.world.calls (by rw [same]; exact .call calls given history)
        image.order
      rw [image.output]
      omega

theorem bad_image_leaves_flash (z : Inflater bufferSize) (progress : Progresses z)
    (info : UpgradeInfo) (file tmp : List UInt8) (flash : Content) :
    (∃ fuel,
      (cygFirmwareUpgrade env z fuel info (initial (some file) tmp flash)).isSome = true) ∧
    ∀ fuel ok w',
      cygFirmwareUpgrade env z fuel info (initial (some file) tmp flash) = some (ok, w') →
      BadImage info file w'.log →
      ok = false ∧ w'.flash = flash ∧ w'.upload = some file ∧
        ∀ e ∈ w'.log, ¬ Event.OnFlash e := by
  refine ⟨upgrade_returns env z progress info file tmp flash, ?_⟩
  intro fuel ok w' ran bad
  rcases upgrade_cases env z fuel info file tmp flash ok w' ran with
    ⟨failed, untouched⟩ | ⟨body, n, w, content, unpacked, flashed⟩
  · exact ⟨failed, untouched.flash, untouched.upload, untouched.quiet⟩
  · have anywhere : Guards env (fun _ _ => True) (fun _ _ => True) :=
      ⟨fun _ _ _ _ _ _ _ => ⟨trivial, trivial⟩⟩
    have log := flash_image_log env anywhere trivial flashed
    exfalso
    rcases bad with header | endless | ⟨e, mem, failing⟩
    · exact header ⟨body, content.symm⟩
    · exact endless (log.subset unpacked.logged)
    · rcases log.mem mem with old | new
      · exact unpacked.faultless e old failing
      · exact flash_phase_not_failing new failing

/-- The compressed file without its header. -/
theorem bad_image_leaves_flash_hello :
    ∃ fuel w', cygFirmwareUpgrade (smoothEnv smallFlash) inflateHello fuel firmware
        (initial (some helloStream) [] (fun _ => 0)) = some (false, w') ∧
      w'.flash = (fun _ => 0) ∧ w'.upload = some helloStream ∧
        ∀ e ∈ w'.log, ¬ Event.OnFlash e := by
  obtain ⟨⟨fuel, returns⟩, kept⟩ := bad_image_leaves_flash (smoothEnv smallFlash) inflateHello
    (known_progresses _ _ _) firmware helloStream [] (fun _ => 0)
  obtain ⟨⟨ok, w'⟩, ran⟩ := Option.isSome_iff_exists.mp returns
  have bad : BadImage firmware helloStream w'.log := .inl (by decide)
  obtain ⟨rfl, rest⟩ := kept fuel ok w' ran bad
  exact ⟨fuel, w', ran, rest⟩

end FirmwareUpgrade
