import Nios2Ecos.FirmwareUpgrade

/- The partition an upgrade works on. The `length` of struct cyg_upgrade_info is not
   read anywhere in firmwareutil.c, so the flash calls stay inside the partition
   exactly when the image happens to fit. -/
namespace FirmwarePartition
open NorFlash InflateStream FirmwareUtil GunzipFirmware FirmwareUpgrade
variable (env : Env)

def Touches (g : Geometry) : Event → Nat → Prop
  | .flashUnlock a n _, x => g.Overlaps a n x
  | .flashErase a n _, x => g.Overlaps a n x
  | .flashProgram a n _, x => a ≤ x ∧ x < a + n
  | _, _ => False

def InPartition (info : UpgradeInfo) (x : Nat) : Prop :=
  startAddr info ≤ x ∧ x < startAddr info + info.length

/-- Every run of an upgrade with `file` stays inside the partition, and an image that is
    too long for it is rejected with the flash as it was. -/
structure Confined (z : Inflater bufferSize) (decode : List UInt8 → Option (List UInt8))
    (info : UpgradeInfo) (file tmp : List UInt8) (flash : Content) : Prop where
  inside : ∀ fuel ok w,
    cygFirmwareUpgrade env z fuel info (initial (some file) tmp flash) = some (ok, w) →
    ∀ e ∈ w.log, ∀ x, Touches env.geometry e x → InPartition info x
  rejects : ∀ fuel ok w,
    cygFirmwareUpgrade env z fuel info (initial (some file) tmp flash) = some (ok, w) →
    ∀ body image, file = info.header ++ body → decode body = some image →
    info.length < image.length → ok = false ∧ w.flash = flash

def Fits (decode : List UInt8 → Option (List UInt8)) (info : UpgradeInfo)
    (file : List UInt8) : Prop :=
  ∀ body image, file = info.header ++ body → decode body = some image →
    image.length ≤ info.length

structure Reliable : Prop where
  opensUpload : 0 < env.openUpload
  opensTmp : 0 < env.openTmp
  reopensTmp : 0 < env.reopenTmp
  inflates : env.inflateInit ≠ zMemError
  reads : ∀ t, ∃ k, env.readUpload t = some k ∧ 0 < k
  writes : ∀ t n, env.writeTmp t n = n

/-- A read of the temporary file that does not fail fills flashbuffer or reaches the end. -/
def TmpReadsWhole : Prop := ∀ t k, env.readTmp t = some k → flashBufferSize ≤ k

theorem touches_on_flash {g : Geometry} {e : Event} {x : Nat} (h : Touches g e x) :
    Event.OnFlash e := by
  cases e <;> first | exact trivial | exact absurd h id

theorem Reliable.header_read {env : Env} (h : Reliable env) (header body : List UInt8) :
    HeaderRead env header (header ++ body) := by
  refine ⟨List.prefix_append header body, ?_⟩
  intro j _
  obtain ⟨k, answer, positive⟩ := h.reads (2 + j)
  exact ⟨k - 1, by rw [answer, Nat.sub_add_cancel positive]⟩

theorem Reliable.refills {env : Env} (h : Reliable env) {z : Inflater bufferSize}
    {upload : Option (List UInt8)} {flash : Content} {body : List UInt8} {s : Gunzip}
    (streaming : Streaming z upload flash body s) :
    (refill env s).1 = true ∧
      (available (refill env s).2 ≠ [] ∨ (refill env s).2.rest = []) := by
  unfold refill
  by_cases room : s.availIn < bufferSize
  · rw [if_pos room]
    obtain ⟨k, answer, positive⟩ := h.reads s.world.log.length
    simp only [readUpload, answer]
    refine ⟨trivial, ?_⟩
    have fits : (s.rest.take (min k (bufferSize - s.availIn))).length ≤ bufferSize - s.availIn := by
      rw [List.length_take]
      omega
    by_cases more : s.rest = []
    · right
      rw [more]
      exact List.drop_nil
    · left
      rw [(refilled_available streaming _ fits _ _ _).2]
      intro none
      have length := congrArg List.length (List.append_eq_nil_iff.mp none).2
      have some := List.length_pos_of_ne_nil more
      rw [List.length_take, List.length_nil] at length
      omega
  · rw [if_neg room]
    refine ⟨rfl, Or.inl ?_⟩
    intro none
    have length := streaming.available_length
    rw [none, List.length_nil] at length
    unfold bufferSize at room
    omega

section
variable {env : Env} {z : Inflater bufferSize} {decode : List UInt8 → Option (List UInt8)}
  {upload : Option (List UInt8)} {flash : Content} {body image : List UInt8} {s : Gunzip}

theorem Reliable.round_goes_on (h : Reliable env) (decodes : Decodes z decode)
    (whole : decode body = some image) (streaming : Streaming z upload flash body s) :
    ∀ t, gunzipRound env z s ≠ .failed t := by
  obtain ⟨ready, more⟩ := h.refills streaming
  obtain ⟨-, filled, -⟩ := refill_streaming env streaming
  have next := filled ready
  unfold gunzipRound
  generalize refill env s = result at ready more next
  obtain ⟨readOk, t⟩ := result
  cases ready
  have body' : decode (consumed t.world.calls ++ (available t ++ t.rest)) = some image := by
    rw [next.order]
    exact whole
  have live : (reply z t).code = zOk ∨ (reply z t).code = zStreamEnd :=
    decodes.live _ _ _ image next.history next.fine body' more
  intro t' failed
  simp only [inflateAndWrite, h.writes, ne_eq, not_true_eq_false, ↓reduceIte] at failed
  rcases live with ok | ended
  · rw [if_neg (fun no => no.2 ok)] at failed
    split at failed <;> cases failed
  · rw [if_neg (fun no => no.1 ended), if_pos ended] at failed
    cases failed

theorem Reliable.unpacks (h : Reliable env) (decodes : Decodes z decode)
    (progress : Progresses z) (whole : decode body = some image) (fuel : Nat)
    (streaming : Streaming z upload flash body s)
    (enough : workLeft image.length body s.world.calls < fuel) :
    ∃ s', gunzipLoop env z fuel s = some (true, s') := by
  induction fuel generalizing s with
  | zero => omega
  | succ fuel ih =>
    have goes := h.round_goes_on decodes whole streaming
    have outcome := gunzip_round_outcome env streaming
    simp only [gunzipLoop]
    generalize gunzipRound env z s = round at goes outcome
    cases round with
    | failed t => exact absurd rfl (goes t)
    | ended t => exact ⟨t, rfl⟩
    | again t =>
      obtain ⟨next, given, grown, ok⟩ := outcome
      have moves := progress.moves _ given streaming.history ok
      have small := decodes.bounded _ _ image next.history next.fine (by rw [next.order]; exact whole)
      have less := work_left_decreases next small _ given grown moves
      exact ih next (by omega)

end

/- A reliable upgrade of a complete image reaches the flash with all of it. -/
theorem Reliable.reaches_flash {env : Env} (h : Reliable env) {z : Inflater bufferSize}
    {decode : List UInt8 → Option (List UInt8)} (decodes : Decodes z decode)
    (progress : Progresses z) (info : UpgradeInfo) (body image tmp : List UInt8)
    (flash : Content) (whole : decode body = some image) :
    ∃ fuel ok w', cygFirmwareUpgrade env z fuel info
        (initial (some (info.header ++ body)) tmp flash) = some (ok, w') ∧
      ((∃ stat, .flashUnlock (startAddr info) image.length stat ∈ w'.log) ∨
        ∃ stat, .flashErase (startAddr info) image.length stat ∈ w'.log) := by
  rcases gunzip_firmware_cases env z info (some (info.header ++ body)) tmp flash with
    ⟨why, -⟩ | ⟨-, body', s, content, streaming, -, loop⟩
  · exfalso
    rcases why with no | no | no | no | no
    · cases no
    · have := h.opensUpload
      omega
    · have := h.opensTmp
      omega
    · exact h.inflates no
    · exact no (h.header_read info.header body)
  · have same : body' = body := (List.append_cancel_left (Option.some.inj content)).symm
    subst same
    let fuel := workLeft image.length body' s.world.calls + image.length + 1
    obtain ⟨s', looped⟩ := h.unpacks decodes progress whole fuel streaming (by omega)
    have unpacked := (gunzip_loop_result env fuel streaming true s' looped).2 rfl
    have tmpEq : s'.world.tmp = image := by
      have decoded := unpacked_decodes decodes unpacked
      rw [whole] at decoded
      exact (Option.some.inj decoded).symm
    have returns : (flashImage env fuel info s'.offset s'.world).isSome = true := by
      apply flash_image_returns
      rw [tmpEq]
      omega
    obtain ⟨⟨ok, w'⟩, flashed⟩ := Option.isSome_iff_exists.mp returns
    refine ⟨fuel, ok, w', ?_, ?_⟩
    · unfold cygFirmwareUpgrade
      rw [loop fuel, looped]
      exact flashed
    · have erases := flash_image_erases env h.reopensTmp flashed
      rwa [unpacked.length, tmpEq] at erases

/- Where the programming loop is when it reads whole buffers. -/
def Ahead (info : UpgradeInfo) (addr : Nat) (rest : List UInt8) : Prop :=
  startAddr info ≤ addr ∧ addr + bytesToWrite rest.length ≤ startAddr info + info.length

def ProgramInside (info : UpgradeInfo) (addr n : Nat) : Prop :=
  startAddr info ≤ addr ∧ addr + n ≤ startAddr info + info.length

theorem ahead_guards (reads : TmpReadsWhole env) (info : UpgradeInfo) :
    Guards env (ProgramInside info) (Ahead info) := by
  constructor
  intro addr rest t k ahead answer _
  obtain ⟨low, high⟩ := ahead
  have all : min k flashBufferSize = flashBufferSize := Nat.min_eq_right (reads t k answer)
  unfold chunkOf ProgramInside Ahead
  rw [all, List.length_take, List.length_drop]
  unfold bytesToWrite flashBufferSize at *
  refine ⟨⟨low, by omega⟩, by omega, ?_⟩
  -- a full buffer is a whole number of words, so the rounding happens at the end only
  by_cases last : rest.length ≤ 65536
  · omega
  · omega

theorem fitting_event_inside (info : UpgradeInfo) (base : info.flashBase = env.geometry.base)
    (aligned : env.geometry.blockSize ∣ info.startAddress)
    (blocks : env.geometry.blockSize ∣ info.length) {n : Nat} (fits : n ≤ info.length) {e : Event}
    (h : OfFlashPhase (startAddr info) n (ProgramInside info) True e) {x : Nat}
    (touches : Touches env.geometry e x) : InPartition info x := by
  have range : ∀ {x}, env.geometry.Overlaps (startAddr info) n x → InPartition info x := by
    intro x overlaps
    unfold startAddr at overlaps
    rw [base] at overlaps
    have bounds := overlaps_inside env.geometry aligned blocks fits overlaps
    rw [← base] at bounds
    exact bounds
  cases e with
  | flashUnlock a m stat =>
    obtain ⟨rfl, rfl⟩ := h
    exact range touches
  | flashErase a m stat =>
    obtain ⟨rfl, rfl⟩ := h
    exact range touches
  | flashProgram a m stat =>
    obtain ⟨low, high⟩ := h
    obtain ⟨lower, upper⟩ := touches
    exact ⟨by omega, by omega⟩
  | _ => exact absurd touches id

theorem confined_of_fits (z : Inflater bufferSize) (decode : List UInt8 → Option (List UInt8))
    (decodes : Decodes z decode) (whole : TmpReadsWhole env) (info : UpgradeInfo)
    (base : info.flashBase = env.geometry.base)
    (aligned : env.geometry.blockSize ∣ info.startAddress)
    (blocks : env.geometry.blockSize ∣ info.length) (file tmp : List UInt8) (flash : Content)
    (fits : Fits decode info file) : Confined env z decode info file tmp flash := by
  constructor
  · intro fuel ok w' ran e mem x touches
    rcases upgrade_cases env z fuel info file tmp flash ok w' ran with
      ⟨-, untouched⟩ | ⟨body, n, w, content, unpacked, flashed⟩
    · exact absurd (touches_on_flash touches) (untouched.quiet e mem)
    · have small : n ≤ info.length := by
        rw [unpacked.length]
        exact fits body w.tmp content (unpacked_decodes decodes unpacked)
      have rounded : bytesToWrite w.tmp.length ≤ info.length := by
        rw [unpacked.length] at small
        obtain ⟨m, words⟩ := Nat.dvd_trans env.geometry.words blocks
        unfold bytesToWrite
        omega
      have log := flash_image_log env (ahead_guards env whole info)
        ⟨Nat.le_refl _, Nat.add_le_add_left rounded _⟩ flashed
      rcases log.mem mem with old | new
      · exact absurd (touches_on_flash touches) (unpacked.untouched.quiet e old)
      · exact fitting_event_inside env info base aligned blocks small new touches
  · intro fuel ok w' _ body image content decoded long
    have short := fits body image content decoded
    omega

/-- An upgrade keeps to its partition when the image fits, whatever the environment does;
    when nothing fails before the flash is reached, only then. -/
theorem upgrade_confined_iff_fits (z : Inflater bufferSize)
    (decode : List UInt8 → Option (List UInt8)) (decodes : Decodes z decode)
    (progress : Progresses z) (whole : TmpReadsWhole env) (info : UpgradeInfo)
    (base : info.flashBase = env.geometry.base)
    (aligned : env.geometry.blockSize ∣ info.startAddress)
    (blocks : env.geometry.blockSize ∣ info.length) (file tmp : List UInt8) (flash : Content) :
    (Fits decode info file → Confined env z decode info file tmp flash) ∧
    (Reliable env → Confined env z decode info file tmp flash → Fits decode info file) := by
  constructor
  · exact confined_of_fits env z decode decodes whole info base aligned blocks file tmp flash
  · intro reliable confined body image content decoded
    by_contra long
    subst content
    obtain ⟨fuel, ok, w', ran, erases⟩ :=
      reliable.reaches_flash decodes progress info body image tmp flash decoded
    -- the first byte after the partition lies in the range of the image
    have beyond : env.geometry.Overlaps (startAddr info) image.length
        (startAddr info + info.length) := by
      apply overlaps_of_mem
      · unfold startAddr
        omega
      · omega
      · omega
    have outside : ¬ InPartition info (startAddr info + info.length) := by
      intro inside
      exact Nat.lt_irrefl _ inside.2
    rcases erases with ⟨stat, mem⟩ | ⟨stat, mem⟩
    · exact outside (confined.inside fuel ok w' ran _ mem _ beyond)
    · exact outside (confined.inside fuel ok w' ran _ mem _ beyond)

def oneBlock : UpgradeInfo := { firmware with startAddress := 8, length := 4 }

theorem small_flash_reads_whole : TmpReadsWhole (smoothEnv smallFlash) := by
  intro t k answer
  cases answer
  decide

theorem smooth_reliable (g : Geometry) : Reliable (smoothEnv g) where
  opensUpload := by change (0 : Int) < 3; decide
  opensTmp := by change (0 : Int) < 4; decide
  reopensTmp := by change (0 : Int) < 3; decide
  inflates := by change zOk ≠ zMemError; decide
  reads := fun _ => ⟨bufferSize, rfl, by decide⟩
  writes := fun _ _ => rfl

theorem upgrade_confined_iff_fits_hello :
    Fits (decodeKnown helloStream hello) firmware helloFile ↔
      Confined (smoothEnv smallFlash) inflateHello (decodeKnown helloStream hello) firmware
        helloFile [] (fun _ => 0) := by
  have both := upgrade_confined_iff_fits (smoothEnv smallFlash) inflateHello
    (decodeKnown helloStream hello) (known_decodes _ _ _) (known_progresses _ _ _)
    small_flash_reads_whole firmware rfl (by decide) (by decide) helloFile [] (fun _ => 0)
  exact ⟨both.1, both.2 (smooth_reliable smallFlash)⟩

theorem long_image_leaves_partition :
    smallFlash.blockSize ∣ oneBlock.startAddress ∧ smallFlash.blockSize ∣ oneBlock.length ∧
    ¬ Confined (smoothEnv smallFlash) inflateHello (decodeKnown helloStream hello) oneBlock
      helloFile [] (fun _ => 0) := by
  refine ⟨by decide, by decide, ?_⟩
  intro confined
  have erases : (cygFirmwareUpgrade (smoothEnv smallFlash) inflateHello 4 oneBlock
      (initial (some helloFile) [] (fun _ => 0))).map
        (fun r => decide (Event.flashErase 8 5 0 ∈ r.2.log)) = some true := by decide +kernel
  obtain ⟨⟨ok, w⟩, ran, logged⟩ := Option.map_eq_some_iff.mp erases
  have after : Touches smallFlash (.flashErase 8 5 0) 12 :=
    show smallFlash.Overlaps 8 5 12 by decide
  have inside := confined.inside 4 ok w ran _ (of_decide_eq_true logged) 12 after
  exact absurd inside.2 (by decide)

end FirmwarePartition
