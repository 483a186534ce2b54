import Mathlib.Algebra.Order.Ring.Nat
import Nios2Ecos.EpcsFlash
import Nios2Ecos.FuelledResult
import Nios2Ecos.NorFlash
import Nios2Ecos.SpiMaster

/- The serial flash as a chip on the SPI bus, and the driver's commands as the transactions
   they are. -/
namespace EpcsChip
open NorFlash SpiMaster

def pp : UInt8 := 0x02
def read : UInt8 := 0x03
def wrdi : UInt8 := 0x04
def rdsr : UInt8 := 0x05
def wren : UInt8 := 0x06
def se : UInt8 := 0xD8
def res : UInt8 := 0xAB
def rdid : UInt8 := 0x9F

/-- What does not change in a chip. A write cycle lasts for a number of status bytes. -/
structure Part where
  sizeInBytes : Nat
  sectorSize : Nat
  signature : UInt8
  deviceId : UInt8
  cycleTime : Nat → Nat

/-- `frame` is what has come in since the chip was selected; `busy` counts the status bytes
    that will still show WIP. -/
structure Chip where
  content : Content
  wel : Bool
  busy : Nat
  cycles : Nat
  frame : List UInt8

def address (a b c : UInt8) : Nat := a.toNat * 2 ^ 16 + b.toNat * 2 ^ 8 + c.toNat

def statusRegister (chip : Chip) : UInt8 :=
  (if 0 < chip.busy then 1 else 0) ||| (if chip.wel then 2 else 0)

/-- What is sent back while a byte comes in. A chip in a write cycle knows only RDSR. -/
def reply (part : Part) (chip : Chip) : UInt8 :=
  match chip.frame with
  | [] => 0
  | op :: arguments =>
    if op = rdsr then statusRegister chip
    else if 0 < chip.busy then 0
    else if op = rdid then if 2 ≤ arguments.length then part.deviceId else 0
    else
      match arguments with
      | a :: b :: c :: dummy =>
        if op = read then chip.content ((address a b c + dummy.length) % part.sizeInBytes)
        else if op = res then part.signature
        else 0
      | _ => 0

def exchange (part : Part) (chip : Chip) (byte : UInt8) : UInt8 × Chip :=
  (reply part chip,
    { chip with
      busy := if chip.frame.head? = some rdsr then chip.busy - 1 else chip.busy
      frame := chip.frame ++ [byte] })

def writeCycle (part : Part) (chip : Chip) (content : Content) : Chip :=
  { chip with
    content := content
    wel := false
    busy := part.cycleTime chip.cycles
    cycles := chip.cycles + 1 }

/-- What a whole frame asks for; it is carried out when the chip is deselected. -/
def obey (part : Part) (chip : Chip) : Chip :=
  if 0 < chip.busy then chip
  else
    match chip.frame with
    | [op] =>
      if op = wren then { chip with wel := true }
      else if op = wrdi then { chip with wel := false }
      else chip
    | [op, a, b, c] =>
      if op = se ∧ chip.wel = true then
        writeCycle part chip
          ((EpcsFlash.Command.sectorErase (address a b c)).effect part.sectorSize chip.content)
      else chip
    | op :: a :: b :: c :: data =>
      if op = pp ∧ chip.wel = true then
        writeCycle part chip (EpcsFlash.pageProgram (address a b c) data chip.content)
      else chip
    | _ => chip

def epcs (part : Part) : Slave Chip where
  select chip := { chip with frame := [] }
  exchange := exchange part
  deselect := obey part

section
variable (part : Part) (t : Timing)

def plain : Flags := ⟨false, false⟩

def merged : Flags := ⟨true, false⟩

def command (flags : Flags) (writeData : List UInt8) (readLength : Nat) (bus : Bus Chip)
    (fuel : Nat) : Option (List UInt8 × Bus Chip) :=
  altAvalonSpiCommand (epcs part) t flags writeData readLength bus fuel

def epcsReadStatusRegister (bus : Bus Chip) (fuel : Nat) : Option (UInt8 × Bus Chip) :=
  (command part t plain [rdsr] 1 bus fuel).map fun r => (r.1.headD 0, r.2)

def awaitWip (fuel : Nat) : Nat → Bus Chip → Option (Bus Chip)
  | 0, _ => none
  | n + 1, bus =>
    (epcsReadStatusRegister part t bus fuel).bind fun r =>
      if r.1 &&& 1 ≠ 0 then awaitWip fuel n r.2 else some r.2

def epcsAwaitWipReleased (bus : Bus Chip) (fuel : Nat) : Option (Bus Chip) :=
  awaitWip part t fuel fuel bus

def offsetBytes (offset : Nat) : List UInt8 :=
  [UInt8.ofNat (offset >>> 16), UInt8.ofNat (offset >>> 8), UInt8.ofNat offset]

def epcsSectorErase (offset : Nat) (bus : Bus Chip) (fuel : Nat) : Option (Bus Chip) :=
  (command part t plain (se :: offsetBytes offset) 0 bus fuel).bind fun r =>
    epcsAwaitWipReleased part t r.2 fuel

def epcsReadBuffer (offset length : Nat) (bus : Bus Chip) (fuel : Nat) :
    Option (List UInt8 × Bus Chip) :=
  (epcsAwaitWipReleased part t bus fuel).bind fun bus =>
    command part t plain (read :: offsetBytes offset) length bus fuel

def epcsWriteEnable (bus : Bus Chip) (fuel : Nat) : Option (Bus Chip) :=
  (command part t plain [wren] 0 bus fuel).map fun r => r.2

/-- The header keeps the chip selected for the data. -/
def epcsWriteBuffer (offset : Nat) (src : List UInt8) (bus : Bus Chip) (fuel : Nat) :
    Option (Bus Chip) :=
  (epcsWriteEnable part t bus fuel).bind fun bus =>
    (command part t merged (pp :: offsetBytes offset) 0 bus fuel).bind fun r =>
      (command part t plain src 0 r.2 fuel).bind fun r => epcsAwaitWipReleased part t r.2 fuel

def epcsReadElectronicSignature (bus : Bus Chip) (fuel : Nat) : Option (UInt8 × Bus Chip) :=
  (command part t plain [res, 0, 0, 0] 1 bus fuel).map fun r => (r.1.headD 0, r.2)

def epcsReadDeviceId (bus : Bus Chip) (fuel : Nat) : Option (UInt8 × Bus Chip) :=
  (command part t plain [rdid, 0, 0] 1 bus fuel).map fun r => (r.1.headD 0, r.2)

end

variable {part : Part} {t : Timing}

def opened (bus : Bus Chip) : Chip :=
  if bus.sso then bus.chip else { bus.chip with frame := [] }

structure Left (bus bus' : Bus Chip) (sso : Bool) (chip : Chip) : Prop where
  idle : Idle bus'
  sso : bus'.sso = sso
  lost : bus'.lost = bus.lost
  chip : bus'.chip = chip

theorem command_left {flags : Flags} {bus : Bus Chip} {writeData : List UInt8}
    {readLength : Nat} (idle : Idle bus) (held : flags.toggle = false)
    (some_bytes : 0 < writeData.length + readLength) :
    ∃ bus', Left bus bus' flags.merge
        (let chip := (exchangeAll (epcs part) true (opened bus)
          (writeData ++ List.replicate readLength 0)).2
        if flags.merge then chip else obey part chip) ∧
      FuelledResult.Yields (command part t flags writeData readLength bus)
        ((exchangeAll (epcs part) true (opened bus)
          (writeData ++ List.replicate readLength 0)).1.drop writeData.length, bus') := by
  obtain ⟨readData, bus', moved, yielded⟩ := @command_yields _ (epcs part) t readLength flags
    writeData bus idle some_bytes
  have sso : (selected (epcs part) flags bus).sso = true := by
    simp [selected, held, writeControl]
  have chip : (selected (epcs part) flags bus).chip = opened bus := by
    cases on : bus.sso <;> simp [selected, held, writeControl, opened, on, epcs]
  have replies := moved.replies
  have left_chip := moved.chip
  have left_sso := moved.sso
  rw [sso, chip] at replies left_chip
  rw [sso, Bool.and_true] at left_sso
  rw [replies] at yielded
  refine ⟨bus', ⟨⟨moved.ready.empty, moved.ready.idle⟩, left_sso, moved.lost, ?_⟩, yielded⟩
  rw [left_chip]
  cases flags.merge <;> simp [epcs]

theorem exchanged_frame {chip : Chip} {bytes : List UInt8}
    (other : (chip.frame ++ bytes).head? ≠ some rdsr) :
    (exchangeAll (epcs part) true chip bytes).2 = { chip with frame := chip.frame ++ bytes } := by
  induction bytes generalizing chip with
  | nil => simp [exchangeAll]
  | cons byte bytes ih =>
    have not_status : chip.frame.head? ≠ some rdsr := by
      intro same
      apply other
      cases frame : chip.frame with
      | nil => simp [frame] at same
      | cons op rest => simpa [frame] using same
    have step : (exchanged (epcs part) true chip byte).2 =
        { chip with frame := chip.frame ++ [byte] } := by
      simp [exchanged, epcs, exchange, not_status]
    have rest := @ih { chip with frame := chip.frame ++ [byte] } (by simpa using other)
    simp only [exchangeAll, step, rest]
    simp

theorem exchanged_reply (chip : Chip) (byte : UInt8) :
    (exchanged (epcs part) true chip byte).1 = reply part chip := rfl

theorem status_wip (chip : Chip) : statusRegister chip &&& 1 ≠ 0 ↔ 0 < chip.busy := by
  unfold statusRegister
  by_cases busy : 0 < chip.busy
  · cases chip.wel
    · simp [busy]
    · simp only [busy, if_true]
      decide
  · cases chip.wel
    · simp [busy]
    · simp only [busy, if_true, if_false]
      decide

theorem obey_status {chip : Chip} (asked : chip.frame = [rdsr, 0]) : obey part chip = chip := by
  unfold obey
  split
  · rfl
  · simp [asked]

theorem status_yields {bus : Bus Chip} (idle : Idle bus) (released : bus.sso = false) :
    ∃ bus', Left bus bus' false
        { bus.chip with busy := bus.chip.busy - 1, frame := [rdsr, 0] } ∧
      FuelledResult.Yields (epcsReadStatusRegister part t bus)
        (statusRegister bus.chip, bus') := by
  obtain ⟨bus', left, yielded⟩ := @command_left part t plain bus [rdsr] 1 idle rfl (by decide)
  have taken : exchangeAll (epcs part) true (opened bus) ([rdsr] ++ List.replicate 1 0) =
      ([0, statusRegister bus.chip],
        { bus.chip with busy := bus.chip.busy - 1, frame := [rdsr, 0] }) := by
    simp [exchangeAll, exchanged, epcs, exchange, reply, opened, released, statusRegister]
  rw [taken] at left yielded
  refine ⟨bus', ?_, FuelledResult.yields_map yielded⟩
  have unmoved : obey part { bus.chip with busy := bus.chip.busy - 1, frame := [rdsr, 0] } =
      { bus.chip with busy := bus.chip.busy - 1, frame := [rdsr, 0] } := obey_status rfl
  simp only [plain, unmoved] at left
  simpa using left

theorem await_yields {bus : Bus Chip} (idle : Idle bus) (released : bus.sso = false) :
    ∃ bus', Left bus bus' false { bus.chip with busy := 0, frame := [rdsr, 0] } ∧
      FuelledResult.Yields (epcsAwaitWipReleased part t bus) bus' := by
  have both : ∃ bus', Left bus bus' false { bus.chip with busy := 0, frame := [rdsr, 0] } ∧
      ∃ k, ∀ fuel n, k ≤ fuel → k ≤ n → awaitWip part t fuel n bus = some bus' := by
    induction cycle : bus.chip.busy generalizing bus with
    | zero =>
      obtain ⟨bus', left, k, enough⟩ := @status_yields part t bus idle released
      have over_now : ¬ statusRegister bus.chip &&& 1 ≠ 0 := by
        rw [status_wip]
        omega
      refine ⟨bus', by simpa [cycle] using left, k + 1, ?_⟩
      intro fuel n large more
      obtain ⟨n, rfl⟩ : ∃ i, n = i + 1 := ⟨n - 1, by omega⟩
      rw [awaitWip, enough fuel (by omega), Option.bind_some, if_neg over_now]
    | succ busy ih =>
      obtain ⟨next, left, k, enough⟩ := @status_yields part t bus idle released
      have still : statusRegister bus.chip &&& 1 ≠ 0 := by
        rw [status_wip]
        omega
      have less : next.chip.busy = busy := by
        rw [left.chip]
        dsimp only
        omega
      obtain ⟨bus', last, j, later⟩ := ih left.idle left.sso less
      refine ⟨bus', ⟨last.idle, last.sso, last.lost.trans left.lost, ?_⟩, max k j + 1, ?_⟩
      · rw [last.chip, left.chip]
      · intro fuel n large more
        obtain ⟨n, rfl⟩ : ∃ i, n = i + 1 := ⟨n - 1, by omega⟩
        rw [awaitWip, enough fuel (by omega), Option.bind_some, if_pos still]
        exact later fuel n (by omega) (by omega)
  obtain ⟨bus', left, k, enough⟩ := both
  exact ⟨bus', left, k, by intro m large; exact enough m m large large⟩

theorem frame_left {bus : Bus Chip} {bytes : List UInt8} (idle : Idle bus)
    (released : bus.sso = false) (some_bytes : bytes ≠ []) (other : bytes.head? ≠ some rdsr) :
    ∃ bus', Left bus bus' false (obey part { bus.chip with frame := bytes }) ∧
      ∃ replies, FuelledResult.Yields (command part t plain bytes 0 bus) (replies, bus') := by
  have positive : 0 < bytes.length + 0 := List.length_pos_iff.mpr some_bytes
  obtain ⟨bus', left, yielded⟩ := @command_left part t plain bus bytes 0 idle rfl positive
  have gathered := @exchanged_frame part (opened bus) (bytes ++ List.replicate 0 0)
    (by simpa [opened, released] using other)
  refine ⟨bus', ?_, _, yielded⟩
  rw [gathered] at left
  simpa [plain, opened, released] using left

/-- Between two calls of the driver: the bus rests, and the chip is neither selected nor in a
    write cycle. -/
structure Resting (bus : Bus Chip) : Prop where
  idle : Idle bus
  released : bus.sso = false
  finished : bus.chip.busy = 0

structure Kept (bus bus' : Bus Chip) (content : Content) : Prop where
  resting : Resting bus'
  lost : bus'.lost = bus.lost
  content : bus'.chip.content = content

theorem enable_yields {bus : Bus Chip} (resting : Resting bus) :
    ∃ bus', Kept bus bus' bus.chip.content ∧ bus'.chip.wel = true ∧
      FuelledResult.Yields (epcsWriteEnable part t bus) bus' := by
  obtain ⟨bus', left, replies, yielded⟩ := @frame_left part t bus [wren] resting.idle
    resting.released (by decide) (by decide)
  have enabled : obey part { bus.chip with frame := [wren] } =
      { bus.chip with frame := [wren], wel := true } := by
    simp [obey, resting.finished]
  rw [enabled] at left
  refine ⟨bus', ⟨⟨left.idle, left.sso, ?_⟩, left.lost, ?_⟩, ?_, FuelledResult.yields_map yielded⟩
  · rw [left.chip]
    exact resting.finished
  · rw [left.chip]
  · rw [left.chip]

theorem address_bytes (offset : Nat) :
    address (UInt8.ofNat (offset >>> 16)) (UInt8.ofNat (offset >>> 8)) (UInt8.ofNat offset) =
      EpcsFlash.threeBytes offset := by
  simp only [address, EpcsFlash.threeBytes, UInt8.toNat_ofNat', Nat.shiftRight_eq_div_pow]
  omega

theorem erase_yields {bus : Bus Chip} (resting : Resting bus) (enabled : bus.chip.wel = true)
    (offset : Nat) :
    ∃ bus', Kept bus bus' ((EpcsFlash.Command.sectorErase
        (EpcsFlash.threeBytes offset)).effect part.sectorSize bus.chip.content) ∧
      FuelledResult.Yields (epcsSectorErase part t offset bus) bus' := by
  obtain ⟨next, left, replies, yielded⟩ := @frame_left part t bus (se :: offsetBytes offset)
    resting.idle resting.released (by simp) (by simp [rdsr, se])
  have erased : obey part { bus.chip with frame := se :: offsetBytes offset } =
      writeCycle part { bus.chip with frame := se :: offsetBytes offset }
        ((EpcsFlash.Command.sectorErase (EpcsFlash.threeBytes offset)).effect part.sectorSize
          bus.chip.content) := by
    simp [obey, resting.finished, offsetBytes, enabled, address_bytes]
  obtain ⟨bus', last, waited⟩ := @await_yields part t next left.idle left.sso
  refine ⟨bus', ⟨⟨last.idle, last.sso, ?_⟩, last.lost.trans left.lost, ?_⟩,
    FuelledResult.yields_bind yielded waited⟩
  · rw [last.chip]
  · rw [last.chip, left.chip, erased]
    rfl

/-- The program of a page: the command with its address keeps the chip selected, and the data
    goes on in the same frame. -/
theorem write_yields {bus : Bus Chip} (resting : Resting bus) (offset : Nat) {src : List UInt8}
    (some_data : src ≠ []) :
    ∃ bus', Kept bus bus' (EpcsFlash.pageProgram (EpcsFlash.threeBytes offset) src
        bus.chip.content) ∧
      FuelledResult.Yields (epcsWriteBuffer part t offset src bus) bus' := by
  obtain ⟨first, kept, wel, enabled⟩ := @enable_yields part t bus resting
  obtain ⟨second, held, headed⟩ := @command_left part t merged first (pp :: offsetBytes offset) 0
    kept.resting.idle rfl (by simp [offsetBytes])
  have header := @exchanged_frame part (opened first) (pp :: offsetBytes offset ++
    List.replicate 0 0) (by simp [opened, kept.resting.released, pp, rdsr])
  rw [header] at held
  have inside : second.chip =
      { first.chip with frame := pp :: offsetBytes offset } := by
    rw [held.chip]
    simp [merged, opened, kept.resting.released]
  have selected : second.sso = true := held.sso
  obtain ⟨third, left, sent⟩ := @command_left part t plain second src 0 held.idle rfl
    (List.length_pos_iff.mpr some_data)
  have gathered := @exchanged_frame part (opened second) (src ++ List.replicate 0 0)
    (by simp [opened, selected, inside, pp, rdsr])
  rw [gathered] at left
  obtain ⟨d, ds, rfl⟩ := List.exists_cons_of_ne_nil some_data
  have programmed : third.chip.content =
      EpcsFlash.pageProgram (EpcsFlash.threeBytes offset) (d :: ds) bus.chip.content := by
    rw [left.chip]
    simp [plain, opened, selected, inside, obey, kept.resting.finished, offsetBytes, wel,
      writeCycle, address_bytes, kept.content]
  obtain ⟨bus', last, waited⟩ := @await_yields part t third left.idle left.sso
  refine ⟨bus', ⟨⟨last.idle, last.sso, ?_⟩, ?_, ?_⟩,
    FuelledResult.yields_bind enabled (FuelledResult.yields_bind headed
      (FuelledResult.yields_bind sent waited))⟩
  · rw [last.chip]
  · rw [last.lost, left.lost, held.lost, kept.lost]
  · rw [last.chip]
    exact programmed

theorem read_replies {chip : Chip} {a b c : UInt8} {dummy : List UInt8} (n : Nat)
    (asked : chip.frame = read :: a :: b :: c :: dummy) (finished : chip.busy = 0) :
    (exchangeAll (epcs part) true chip (List.replicate n 0)).1 =
      (List.range n).map fun i =>
        chip.content ((address a b c + (dummy.length + i)) % part.sizeInBytes) := by
  induction n generalizing chip dummy with
  | zero => rfl
  | succ n ih =>
    have answer : reply part chip =
        chip.content ((address a b c + dummy.length) % part.sizeInBytes) := by
      simp [reply, asked, finished, read, rdsr, rdid]
    have step : (exchanged (epcs part) true chip 0).2 =
        { chip with frame := read :: a :: b :: c :: (dummy ++ [0]) } := by
      simp [exchanged, epcs, exchange, asked, read, rdsr]
    have rest := @ih { chip with frame := read :: a :: b :: c :: (dummy ++ [0]) } (dummy ++ [0])
      rfl finished
    rw [List.replicate_succ, exchangeAll]
    simp only [exchanged_reply, step, rest, answer, List.range_succ_eq_map, List.map_cons,
      List.map_map, List.length_append, List.length_singleton, Nat.add_zero]
    congr 1
    apply List.map_congr_left
    intro i _
    simp only [Function.comp_apply]
    congr 2
    omega

theorem read_yields {bus : Bus Chip} (resting : Resting bus) (offset length : Nat) :
    ∃ bus', Kept bus bus' bus.chip.content ∧
      FuelledResult.Yields (epcsReadBuffer part t offset length bus)
        ((List.range length).map fun i =>
          bus.chip.content ((EpcsFlash.threeBytes offset + i) % part.sizeInBytes), bus') := by
  obtain ⟨next, first, waited⟩ := @await_yields part t bus resting.idle resting.released
  obtain ⟨bus', left, yielded⟩ := @command_left part t plain next (read :: offsetBytes offset)
    length first.idle rfl (by simp [offsetBytes])
  have content : next.chip.content = bus.chip.content := by rw [first.chip]
  have finished : next.chip.busy = 0 := by rw [first.chip]
  have released : next.sso = false := first.sso
  have opening : opened next = { next.chip with frame := [] } := by simp [opened, released]
  have header := @exchanged_frame part { next.chip with frame := [] } (read :: offsetBytes offset)
    (by simp [read, rdsr])
  have all := @exchanged_frame part { next.chip with frame := [] }
    (read :: offsetBytes offset ++ List.replicate length 0) (by simp [read, rdsr])
  have size := @exchangeAll_length _ (epcs part) true { next.chip with frame := [] }
    (read :: offsetBytes offset)
  have answers := @read_replies part { next.chip with frame := read :: offsetBytes offset }
    (UInt8.ofNat (offset >>> 16)) (UInt8.ofNat (offset >>> 8)) (UInt8.ofNat offset) [] length
    rfl finished
  have data : (exchangeAll (epcs part) true (opened next)
      (read :: offsetBytes offset ++ List.replicate length 0)).1.drop
        (read :: offsetBytes offset).length =
      (List.range length).map fun i =>
        bus.chip.content ((EpcsFlash.threeBytes offset + i) % part.sizeInBytes) := by
    rw [opening, exchangeAll_append, ← size, List.drop_left, header]
    simpa [address_bytes, content] using answers
  rw [data] at yielded
  rw [opening, all] at left
  have unmoved : obey part { next.chip with
      frame := [] ++ (read :: offsetBytes offset ++ List.replicate length 0) } =
      { next.chip with frame := [] ++ (read :: offsetBytes offset ++ List.replicate length 0) } := by
    cases length with
    | zero => simp [obey, finished, offsetBytes, read, se]
    | succ n => simp [obey, finished, offsetBytes, read, pp, List.replicate_succ]
  have same : bus'.chip = { next.chip with
      frame := [] ++ (read :: offsetBytes offset ++ List.replicate length 0) } := by
    rw [left.chip]
    simp only [plain, unmoved]
    simp
  refine ⟨bus', ⟨⟨left.idle, left.sso, ?_⟩, left.lost.trans first.lost, ?_⟩,
    FuelledResult.yields_bind waited yielded⟩
  · rw [same]
    exact finished
  · rw [same]
    exact content

end EpcsChip
