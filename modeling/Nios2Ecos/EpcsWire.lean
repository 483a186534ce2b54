import Mathlib.Algebra.Order.Ring.Nat
import Nios2Ecos.EpcsChip
import Nios2Ecos.EpcsFlash
import Nios2Ecos.FuelledResult
import Nios2Ecos.SpiMaster

/- The flash controller's calls over the SPI bus do to the chip what the same calls do to the
   flash, whatever the timing. -/
namespace EpcsWire
open EpcsFlash EpcsChip SpiMaster FuelledResult

section
variable (part : Part) (t : Timing)

def bySignature (siliconId : UInt8) : Option FlashDev :=
  if siliconId = 0x16 then some (fillIn siliconId (64 * 1024 * 1024 / 8) 128 65536)
  else if siliconId = 0x14 then some (fillIn siliconId (16 * 1024 * 1024 / 8) 32 65536)
  else if siliconId = 0x13 then some (fillIn siliconId (8 * 1024 * 1024 / 8) 16 65536)
  else if siliconId = 0x12 then some (fillIn siliconId (4 * 1024 * 1024 / 8) 8 65536)
  else if siliconId = 0x10 then some (fillIn siliconId (1 * 1024 * 1024 / 8) 4 32768)
  else none

def flashQuery (bus : Bus Chip) (fuel : Nat) : Option (Except Int FlashDev × Bus Chip) :=
  (epcsReadElectronicSignature part t bus fuel).bind fun r =>
    match bySignature r.1 with
    | some dev => some (.ok dev, r.2)
    | none =>
      (epcsReadDeviceId part t r.2 fuel).map fun r =>
        if r.1 = 0x18 then (.ok (fillIn r.1 (128 * 1024 * 1024 / 8) 64 262144), r.2)
        else (.error (-enodev), r.2)

def flashEraseBlock (dev : FlashDev) (blockOffset : Nat) (bus : Bus Chip) (fuel : Nat) :
    Option (Int × Bus Chip) :=
  let retCode := altEpcsTestAddress dev blockOffset
  if 0 ≤ retCode then
    (epcsWriteEnable part t bus fuel).bind fun bus =>
      (EpcsChip.epcsSectorErase part t blockOffset bus fuel).map fun bus => (retCode, bus)
  else some (retCode, bus)

/-- The loop of `alt_epcs_flash_write_block`, a page at a time. -/
def flashWritePages (dataOffset : Nat) (data : List UInt8) (bus : Bus Chip) (fuel : Nat) :
    Option (Bus Chip) :=
  match data with
  | [] => some bus
  | b :: bs =>
    let nextPageStart := (dataOffset + pageSize) / pageSize * pageSize
    let lengthOfCurrentWrite := min (b :: bs).length (nextPageStart - dataOffset)
    (EpcsChip.epcsWriteBuffer part t dataOffset ((b :: bs).take lengthOfCurrentWrite) bus
        fuel).bind fun bus =>
      flashWritePages nextPageStart ((b :: bs).drop lengthOfCurrentWrite) bus fuel
termination_by data.length
decreasing_by exact drop_lt b bs (Nat.lt_min.mpr ⟨Nat.zero_lt_succ _, next_page dataOffset⟩)

def flashWriteBlock (dev : FlashDev) (dataOffset : Nat) (data : List UInt8) (bus : Bus Chip)
    (fuel : Nat) : Option (Int × Bus Chip) :=
  let retCode := altEpcsTestAddress dev dataOffset
  if 0 ≤ retCode then
    (flashWritePages part t dataOffset data bus fuel).map fun bus => (retCode, bus)
  else some (retCode, bus)

def flashRead (dev : FlashDev) (offset length : Nat) (bus : Bus Chip) (fuel : Nat) :
    Option (Except Int (List UInt8) × Bus Chip) :=
  if 0 ≤ altEpcsTestAddress dev offset then
    (EpcsChip.epcsReadBuffer part t offset length bus fuel).map fun r => (.ok r.1, r.2)
  else some (.error (altEpcsTestAddress dev offset), bus)

inductive Call where
  | eraseBlock (blockOffset : Nat)
  | writeBlock (dataOffset : Nat) (data : List UInt8)
  | read (offset length : Nat)

inductive Answer where
  | code (retCode : Int)
  | data (bytes : Except Int (List UInt8))

def onWire (dev : FlashDev) (c : Call) (bus : Bus Chip) (fuel : Nat) :
    Option (Answer × Bus Chip) :=
  match c with
  | .eraseBlock offset =>
    (flashEraseBlock part t dev offset bus fuel).map fun r => (.code r.1, r.2)
  | .writeBlock offset data =>
    (flashWriteBlock part t dev offset data bus fuel).map fun r => (.code r.1, r.2)
  | .read offset length =>
    (flashRead part t dev offset length bus fuel).map fun r => (.data r.1, r.2)

def onWires (dev : FlashDev) : List Call → Bus Chip → Nat → Option (List Answer × Bus Chip)
  | [], bus, _ => some ([], bus)
  | c :: cs, bus, fuel =>
    (onWire part t dev c bus fuel).bind fun r =>
      (onWires dev cs r.2 fuel).map fun rest => (r.1 :: rest.1, rest.2)

end

def onFlash (dev : FlashDev) (c : Call) (f : Flash) : Answer × Flash :=
  match c with
  | .eraseBlock offset =>
    let done := altEpcsFlashEraseBlock dev f offset
    (.code done.1, done.2)
  | .writeBlock offset data =>
    let done := altEpcsFlashWriteBlock dev f offset data
    (.code done.1, done.2)
  | .read offset length => (.data (altEpcsFlashRead dev f offset length), f)

def onFlashes (dev : FlashDev) : List Call → Flash → List Answer × Flash
  | [], f => ([], f)
  | c :: cs, f =>
    let (answer, f) := onFlash dev c f
    let (answers, f) := onFlashes dev cs f
    (answer :: answers, f)

/-- The chip is what the driver takes it for. -/
structure Describes (dev : FlashDev) (part : Part) : Prop where
  size : dev.sizeInBytes = part.sizeInBytes
  sector : sectorSize dev = part.sectorSize

variable {part : Part} {t : Timing} {dev : FlashDev}

theorem asked_yields {bus : Bus Chip} (resting : Resting bus) {op : UInt8}
    {dummy : List UInt8} {answer : UInt8} (other : op ≠ rdsr)
    (answers : ∀ chip : Chip, chip.frame = op :: dummy → chip.busy = 0 →
      reply part chip = answer)
    (unmoved : ∀ chip : Chip, chip.frame = op :: (dummy ++ [0]) → obey part chip = chip) :
    ∃ bus', Kept bus bus' bus.chip.content ∧
      Yields (fun fuel => (command part t plain (op :: dummy) 1 bus fuel).map
        fun r => (r.1.headD 0, r.2)) (answer, bus') := by
  obtain ⟨bus', left, yielded⟩ := @command_left part t plain bus (op :: dummy) 1 resting.idle
    rfl (by simp)
  have opening : opened bus = { bus.chip with frame := [] } := by
    simp [opened, resting.released]
  have head := @exchanged_frame part { bus.chip with frame := [] } (op :: dummy)
    (by simpa using other)
  have all := @exchanged_frame part { bus.chip with frame := [] }
    (op :: dummy ++ List.replicate 1 0) (by simpa using other)
  have size := @exchangeAll_length _ (epcs part) true { bus.chip with frame := [] } (op :: dummy)
  have data : (exchangeAll (epcs part) true (opened bus)
      (op :: dummy ++ List.replicate 1 0)).1.drop (op :: dummy).length = [answer] := by
    rw [opening, exchangeAll_append, ← size, List.drop_left, head]
    have given := answers { bus.chip with frame := [] ++ (op :: dummy) } rfl resting.finished
    simp only [List.replicate_one, exchangeAll, exchanged_reply]
    rw [given]
  have same : bus'.chip = { bus.chip with
      frame := [] ++ (op :: dummy ++ List.replicate 1 0) } := by
    rw [left.chip, opening, all]
    exact unmoved _ rfl
  rw [data] at yielded
  refine ⟨bus', ⟨⟨left.idle, left.sso, ?_⟩, left.lost, ?_⟩, yields_map yielded⟩
  · rw [same]
    exact resting.finished
  · rw [same]

theorem signature_yields {bus : Bus Chip} (resting : Resting bus) :
    ∃ bus', Kept bus bus' bus.chip.content ∧
      Yields (epcsReadElectronicSignature part t bus) (part.signature, bus') := by
  apply asked_yields resting
  · decide
  · intro chip asked finished
    simp [reply, asked, finished, res, rdsr, rdid, EpcsChip.read]
  · intro chip asked
    simp [obey, asked, res, pp]

theorem device_id_yields {bus : Bus Chip} (resting : Resting bus) :
    ∃ bus', Kept bus bus' bus.chip.content ∧
      Yields (epcsReadDeviceId part t bus) (part.deviceId, bus') := by
  apply asked_yields resting
  · decide
  · intro chip asked finished
    simp [reply, asked, finished, rdsr, rdid]
  · intro chip asked
    simp [obey, asked, rdid, se]

theorem kept_trans {a b c : Bus Chip} {f g : NorFlash.Content} (first : Kept a b f)
    (second : Kept b c g) : Kept a c g :=
  ⟨second.resting, second.lost.trans first.lost, second.content⟩

theorem write_pages_yields {f : Flash} {bus : Bus Chip} (resting : Resting bus)
    (same : bus.chip.content = f.content) (offset : Nat) (data : List UInt8) :
    ∃ bus', Kept bus bus' (writePages dev offset data f).content ∧
      Yields (flashWritePages part t offset data bus) bus' := by
  induction size : data.length using Nat.strongRecOn generalizing data offset f bus with
  | ind n ih =>
    cases data with
    | nil =>
      refine ⟨bus, ⟨resting, rfl, ?_⟩, ?_⟩
      · rw [writePages, same]
      · have nothing : flashWritePages part t offset [] bus = fun _ => some bus := by
          funext fuel
          rw [flashWritePages]
        rw [nothing]
        exact yields_pure bus
    | cons b bs =>
      let next := (offset + pageSize) / pageSize * pageSize
      let now := min (b :: bs).length (next - offset)
      have positive : 0 < now := Nat.lt_min.mpr ⟨Nat.zero_lt_succ _, next_page offset⟩
      have some_data : (b :: bs).take now ≠ [] := by
        obtain ⟨k, more⟩ : ∃ k, now = k + 1 := ⟨now - 1, by omega⟩
        simp [more]
      obtain ⟨middle, first, wrote⟩ := @write_yields part t bus resting offset _ some_data
      have stored : middle.chip.content =
          (EpcsFlash.epcsWriteBuffer dev offset ((b :: bs).take now) f).content := by
        rw [first.content, same]
        rfl
      obtain ⟨bus', last, rest⟩ := ih ((b :: bs).drop now).length
        (by rw [← size]; exact drop_lt b bs positive) first.resting stored next
        ((b :: bs).drop now) rfl
      refine ⟨bus', ?_, ?_⟩
      · rw [writePages]
        exact kept_trans first last
      · have unfolded : flashWritePages part t offset (b :: bs) bus = fun fuel =>
            (EpcsChip.epcsWriteBuffer part t offset ((b :: bs).take now) bus fuel).bind
              fun bus => flashWritePages part t next ((b :: bs).drop now) bus fuel := by
          funext fuel
          rw [flashWritePages]
        rw [unfolded]
        exact yields_bind wrote rest

theorem on_wire_yields (describes : Describes dev part) {f : Flash} {bus : Bus Chip}
    (resting : Resting bus) (same : bus.chip.content = f.content) (c : Call) :
    ∃ bus', Kept bus bus' (onFlash dev c f).2.content ∧
      Yields (onWire part t dev c bus) ((onFlash dev c f).1, bus') := by
  have still : Kept bus bus f.content := ⟨resting, rfl, same⟩
  cases c with
  | eraseBlock offset =>
    by_cases inside : 0 ≤ altEpcsTestAddress dev offset
    · obtain ⟨middle, first, wel, enabled⟩ := @enable_yields part t bus resting
      obtain ⟨bus', last, erased⟩ := @erase_yields part t middle first.resting wel offset
      refine ⟨bus', ?_, ?_⟩
      · have kept := kept_trans first last
        rw [first.content, same, ← describes.sector] at kept
        simpa [onFlash, altEpcsFlashEraseBlock, inside, EpcsFlash.epcsSectorErase, send] using kept
      · have answered := yields_map (g := fun bus : Bus Chip =>
          (Answer.code (altEpcsTestAddress dev offset), bus)) (yields_bind enabled erased)
        apply yields_congr (by simpa [onFlash, altEpcsFlashEraseBlock, inside] using answered)
        intro m
        simp [onWire, flashEraseBlock, inside, Option.map_bind, Function.comp_def]
    · refine ⟨bus, ?_, ?_⟩
      · simpa [onFlash, altEpcsFlashEraseBlock, inside] using still
      · apply yields_congr (yields_pure _)
        intro m
        simp [onWire, onFlash, altEpcsFlashEraseBlock, flashEraseBlock, inside]
  | writeBlock offset data =>
    by_cases inside : 0 ≤ altEpcsTestAddress dev offset
    · obtain ⟨bus', kept, written⟩ := @write_pages_yields part t dev f bus resting same offset data
      refine ⟨bus', ?_, ?_⟩
      · simpa [onFlash, altEpcsFlashWriteBlock, inside] using kept
      · have answered := yields_map (g := fun bus : Bus Chip =>
          (Answer.code (altEpcsTestAddress dev offset), bus)) written
        apply yields_congr (by simpa [onFlash, altEpcsFlashWriteBlock, inside] using answered)
        intro m
        simp [onWire, flashWriteBlock, inside, Function.comp_def]
    · refine ⟨bus, ?_, ?_⟩
      · simpa [onFlash, altEpcsFlashWriteBlock, inside] using still
      · apply yields_congr (yields_pure _)
        intro m
        simp [onWire, onFlash, altEpcsFlashWriteBlock, flashWriteBlock, inside]
  | read offset length =>
    by_cases inside : 0 ≤ altEpcsTestAddress dev offset
    · obtain ⟨bus', kept, given⟩ := @read_yields part t bus resting offset length
      rw [same, ← describes.size] at given
      rw [same] at kept
      refine ⟨bus', kept, ?_⟩
      have answered := yields_map (g := fun r : List UInt8 × Bus Chip =>
        (Answer.data (.ok r.1), r.2)) given
      apply yields_congr (by simpa [onFlash, altEpcsFlashRead, inside,
        EpcsFlash.epcsReadBuffer] using answered)
      intro m
      simp [onWire, flashRead, inside, Function.comp_def]
    · refine ⟨bus, still, ?_⟩
      apply yields_congr (yields_pure _)
      intro m
      simp [onWire, onFlash, altEpcsFlashRead, flashRead, inside]

theorem query_yields {bus : Bus Chip} (resting : Resting bus) :
    ∃ bus', Kept bus bus' bus.chip.content ∧
      Yields (flashQuery part t bus)
        (altEpcsFlashQuery part.signature part.deviceId, bus') := by
  obtain ⟨middle, first, signature⟩ := @signature_yields part t bus resting
  obtain ⟨last, second, device⟩ := @device_id_yields part t middle first.resting
  have both := kept_trans first second
  rw [first.content] at both
  have known : ∀ dev, bySignature part.signature = some dev →
      altEpcsFlashQuery part.signature part.deviceId = .ok dev := by
    intro dev found
    unfold bySignature at found
    unfold altEpcsFlashQuery
    repeat' split at found
    all_goals simp_all
  have unknown : bySignature part.signature = none →
      altEpcsFlashQuery part.signature part.deviceId =
        if part.deviceId = 0x18 then
          .ok (fillIn part.deviceId (128 * 1024 * 1024 / 8) 64 262144)
        else .error (-enodev) := by
    intro missing
    unfold bySignature at missing
    unfold altEpcsFlashQuery
    repeat' split at missing
    all_goals simp_all
  cases found : bySignature part.signature with
  | some dev =>
    refine ⟨middle, first, ?_⟩
    rw [known dev found]
    refine yields_bind signature ?_
    simp only [found]
    exact yields_pure _
  | none =>
    refine ⟨last, both, ?_⟩
    rw [unknown found]
    refine yields_bind signature ?_
    simp only [found]
    have mapped := yields_map (g := fun r : UInt8 × Bus Chip =>
      if r.1 = 0x18 then
        ((.ok (fillIn r.1 (128 * 1024 * 1024 / 8) 64 262144), r.2) :
          Except Int FlashDev × Bus Chip)
      else (.error (-enodev), r.2)) device
    by_cases larger : part.deviceId = 0x18
    · simpa [larger] using mapped
    · simpa [larger] using mapped

theorem calls_yield (describes : Describes dev part) {bus : Bus Chip} (resting : Resting bus)
    (cs : List Call) :
    ∃ bus', Kept bus bus' (onFlashes dev cs ⟨bus.chip.content, []⟩).2.content ∧
      Yields (onWires part t dev cs bus)
        ((onFlashes dev cs ⟨bus.chip.content, []⟩).1, bus') := by
  have general : ∀ (cs : List Call) (f : Flash) (bus : Bus Chip), Resting bus →
      bus.chip.content = f.content →
      ∃ bus', Kept bus bus' (onFlashes dev cs f).2.content ∧
        Yields (onWires part t dev cs bus) ((onFlashes dev cs f).1, bus') := by
    intro cs
    induction cs with
    | nil =>
      intro f bus resting same
      exact ⟨bus, ⟨resting, rfl, same⟩, yields_pure _⟩
    | cons c cs ih =>
      intro f bus resting same
      obtain ⟨middle, first, answered⟩ := @on_wire_yields part t dev describes f bus resting same c
      obtain ⟨bus', last, rest⟩ := ih (onFlash dev c f).2 middle first.resting first.content
      exact ⟨bus', kept_trans first last, yields_bind answered (yields_map rest)⟩
  exact general cs ⟨bus.chip.content, []⟩ bus resting rfl

/-- The query and then any calls, one after the other, over a bus of any timing to a chip of any
    cycle times: the query finds the chip, every call returns with the answer that it has on the
    flash, the chip's content goes through the same changes, and the bus loses no byte. -/
theorem calls_over_wire (known : altEpcsFlashQuery part.signature part.deviceId = .ok dev)
    (describes : Describes dev part) {bus : Bus Chip} (resting : Resting bus) (cs : List Call) :
    ∃ middle bus', Yields (flashQuery part t bus) (.ok dev, middle) ∧
      Yields (onWires part t dev cs middle)
        ((onFlashes dev cs ⟨bus.chip.content, []⟩).1, bus') ∧
      bus'.chip.content = (onFlashes dev cs ⟨bus.chip.content, []⟩).2.content ∧
      bus'.lost = bus.lost ∧ Resting bus' := by
  obtain ⟨middle, first, found⟩ := @query_yields part t bus resting
  obtain ⟨bus', last, answered⟩ := @calls_yield part t dev describes middle first.resting cs
  rw [known] at found
  rw [first.content] at last answered
  exact ⟨middle, bus', found, answered, last.content, last.lost.trans first.lost, last.resting⟩

def epcs1 : Part := ⟨131072, 32768, 0x10, 0, fun cycle => cycle + 2⟩

def zeroChip : Bus Chip :=
  ⟨⟨fun _ => 0, false, 0, 0, []⟩, none, none, 0, 0, true, false, 0, false⟩

theorem erase_write_read_over_wire :
    ∃ middle bus', Yields (flashQuery epcs1 ⟨fun n => n % 3, fun _ => 1⟩ zeroChip)
        (.ok (fillIn 0x10 131072 4 32768), middle) ∧
      Yields (onWires epcs1 ⟨fun n => n % 3, fun _ => 1⟩ (fillIn 0x10 131072 4 32768)
        [.eraseBlock 0, .writeBlock 255 [1, 2], .read 255 2] middle)
        ((onFlashes (fillIn 0x10 131072 4 32768)
          [.eraseBlock 0, .writeBlock 255 [1, 2], .read 255 2] ⟨fun _ => 0, []⟩).1, bus') ∧
      bus'.chip.content = (onFlashes (fillIn 0x10 131072 4 32768)
        [.eraseBlock 0, .writeBlock 255 [1, 2], .read 255 2] ⟨fun _ => 0, []⟩).2.content ∧
      bus'.lost = false ∧ Resting bus' :=
  @calls_over_wire epcs1 ⟨fun n => n % 3, fun _ => 1⟩ (fillIn 0x10 131072 4 32768) rfl
    ⟨rfl, rfl⟩ zeroChip ⟨⟨rfl, rfl⟩, rfl, rfl⟩
    [.eraseBlock 0, .writeBlock 255 [1, 2], .read 255 2]

end EpcsWire
