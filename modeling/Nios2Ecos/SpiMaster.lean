import Mathlib.Data.List.Basic
import Nios2Ecos.FuelledResult
import Nios2Ecos.WhileLoop

/- The SPI master and one transaction over it. A byte goes out and a byte comes in at the same
   time; how many status reads that takes is up to the hardware. -/
namespace SpiMaster
variable {Chip : Type}

/-- The chip behind the slave select: what its edges do to it and how it answers a byte. -/
structure Slave (Chip : Type) where
  select : Chip → Chip
  exchange : Chip → UInt8 → UInt8 × Chip
  deselect : Chip → Chip

/-- The status reads that a byte needs to be shifted, and those that TMT takes after it. -/
structure Timing where
  shift : Nat → Nat
  settle : Nat → Nat

/-- The core. `lost` says that a byte was overwritten, on its way in or out (ROE, TOE). -/
structure Bus (Chip : Type) where
  chip : Chip
  holding : Option UInt8
  shifting : Option (UInt8 × Nat)
  settling : Nat
  rxdata : UInt8
  rrdy : Bool
  sso : Bool
  shifted : Nat
  lost : Bool

structure Status where
  tmt : Bool
  trdy : Bool
  rrdy : Bool
  deriving DecidableEq

variable (slave : Slave Chip) (t : Timing)

def exchanged (sso : Bool) (chip : Chip) (byte : UInt8) : UInt8 × Chip :=
  if sso then slave.exchange chip byte
  else
    let (reply, chip) := slave.exchange (slave.select chip) byte
    (reply, slave.deselect chip)

def complete (byte : UInt8) (b : Bus Chip) : Bus Chip :=
  let (reply, chip) := exchanged slave b.sso b.chip byte
  { b with
    chip := chip
    holding := none
    shifting := b.holding.map fun next => (next, t.shift (b.shifted + 1))
    settling := t.settle b.shifted
    rxdata := reply
    rrdy := true
    shifted := b.shifted + 1
    lost := b.lost || b.rrdy }

def elapse (b : Bus Chip) : Bus Chip :=
  match b.shifting with
  | some (byte, 0) => complete slave t byte b
  | some (byte, n + 1) => { b with shifting := some (byte, n) }
  | none => { b with settling := b.settling - 1 }

def status (b : Bus Chip) : Status :=
  ⟨b.shifting.isNone && b.holding.isNone && b.settling == 0, b.holding.isNone, b.rrdy⟩

def writeTxdata (byte : UInt8) (b : Bus Chip) : Bus Chip :=
  if b.shifting.isNone then { b with shifting := some (byte, t.shift b.shifted) }
  else { b with holding := some byte, lost := b.lost || b.holding.isSome }

def readRxdata (b : Bus Chip) : UInt8 × Bus Chip := (b.rxdata, { b with rrdy := false })

def writeControl (sso : Bool) (b : Bus Chip) : Bus Chip :=
  let chip :=
    if sso && !b.sso then slave.select b.chip
    else if !sso && b.sso then slave.deselect b.chip
    else b.chip
  { b with chip := chip, sso := sso }

inductive Phase where
  | transfer
  | finish
  | done
  deriving DecidableEq

structure Command (Chip : Type) where
  phase : Phase
  credits : Int
  writeData : List UInt8
  writeZeros : Nat
  readIgnore : Nat
  readData : List UInt8
  bus : Bus Chip

def sendNext (c : Command Chip) : Command Chip :=
  match c.writeData with
  | byte :: rest =>
    { c with
      credits := c.credits - 1
      writeData := rest
      bus := writeTxdata t byte c.bus }
  | [] =>
    if 0 < c.writeZeros then
      { c with
        credits := c.credits - 1
        writeZeros := c.writeZeros - 1
        bus := writeTxdata t 0 c.bus }
    else { c with credits := -1024 }

def takeReply (readLength : Nat) (c : Command Chip) : Command Chip :=
  let (rxdata, bus) := readRxdata c.bus
  let readIgnore := c.readIgnore - 1
  let readData := if 0 < c.readIgnore then c.readData else c.readData ++ [rxdata]
  { c with
    phase := if readIgnore = 0 ∧ readData.length = readLength then .finish else .transfer
    credits := c.credits + 1
    readIgnore := readIgnore
    readData := readData
    bus := bus }

def turn (readLength : Nat) (c : Command Chip) : Command Chip :=
  let bus := elapse slave t c.bus
  let s := status bus
  let c := { c with bus := bus }
  match c.phase with
  | .transfer =>
    if (!s.trdy || c.credits == 0) && !s.rrdy then c
    else
      let c := if s.trdy ∧ 0 < c.credits then sendNext t c else c
      if s.rrdy then takeReply readLength c else c
  | .finish => if s.tmt then { c with phase := .done } else c
  | .done => c

def running (c : Command Chip) : Bool := c.phase != .done

structure Flags where
  merge : Bool
  toggle : Bool
  deriving DecidableEq

def begin (flags : Flags) (writeData : List UInt8) (readLength : Nat) (b : Bus Chip) :
    Command Chip :=
  let b := if flags.toggle then b else writeControl slave true b
  ⟨.transfer, 1, writeData, readLength, writeData.length, [], (readRxdata b).2⟩

def ended (flags : Flags) (b : Bus Chip) : Bus Chip :=
  if flags.merge then b else writeControl slave false b

def altAvalonSpiCommand (flags : Flags) (writeData : List UInt8) (readLength : Nat)
    (b : Bus Chip) (fuel : Nat) : Option (List UInt8 × Bus Chip) :=
  (WhileLoop.turns running (turn slave t readLength) fuel
    (begin slave flags writeData readLength b)).map fun c => (c.readData, ended slave flags c.bus)

def exchangeAll (sso : Bool) : Chip → List UInt8 → List UInt8 × Chip
  | chip, [] => ([], chip)
  | chip, byte :: bytes =>
    let (reply, chip) := exchanged slave sso chip byte
    let (replies, chip) := exchangeAll sso chip bytes
    (reply :: replies, chip)

structure Ready (b : Bus Chip) : Prop where
  empty : b.holding = none
  idle : b.shifting = none
  unread : b.rrdy = false

variable {slave t} {readLength : Nat} {c r : Command Chip}

theorem shifting_returns {byte : UInt8} {n : Nat} (phase : c.phase = .transfer)
    (credits : c.credits = 0) (empty : c.bus.holding = none)
    (shifting : c.bus.shifting = some (byte, n)) (unread : c.bus.rrdy = false)
    (rest : WhileLoop.Returns running (turn slave t readLength)
      (takeReply readLength { c with bus := complete slave t byte c.bus }) r) :
    WhileLoop.Returns running (turn slave t readLength) c r := by
  have on : running c = true := by simp [running, phase]
  induction n generalizing c with
  | zero =>
    have step : turn slave t readLength c =
        takeReply readLength { c with bus := complete slave t byte c.bus } := by
      simp [turn, elapse, shifting, phase, credits, status, complete, empty]
    exact WhileLoop.returns_turn on (by rwa [step])
  | succ n ih =>
    have step : turn slave t readLength c =
        { c with bus := { c.bus with shifting := some (byte, n) } } := by
      simp [turn, elapse, shifting, phase, credits, status, empty, unread]
    have later := @ih { c with bus := { c.bus with shifting := some (byte, n) } } phase credits
      empty rfl unread (by simpa [complete] using rest) (by simp [running, phase])
    exact WhileLoop.returns_turn on (by rwa [step])

def afterByte (slave : Slave Chip) (t : Timing) (byte : UInt8) (b : Bus Chip) : Bus Chip :=
  { b with
    chip := (exchanged slave b.sso b.chip byte).2
    settling := t.settle b.shifted
    rxdata := (exchanged slave b.sso b.chip byte).1
    shifted := b.shifted + 1 }

theorem afterByte_ready {b : Bus Chip} (ready : Ready b) (byte : UInt8) :
    Ready (afterByte slave t byte b) := by
  exact ⟨ready.empty, ready.idle, ready.unread⟩

def due (readLength readIgnore : Nat) (readData : List UInt8) : Phase :=
  if readIgnore = 0 ∧ readData.length = readLength then .finish else .transfer

theorem byte_returns (byte : UInt8) (rest : List UInt8) (zeros : Nat) {data : List UInt8}
    {ignore : Nat} {b : Bus Chip} {writeData : List UInt8} {writeZeros : Nat} (ready : Ready b)
    (sends : ∀ bus : Bus Chip, sendNext t ⟨.transfer, 1, writeData, writeZeros, ignore, data, bus⟩ =
      ⟨.transfer, 0, rest, zeros, ignore, data, writeTxdata t byte bus⟩)
    (returned : WhileLoop.Returns running (turn slave t readLength)
      ⟨due readLength (ignore - 1)
          (if 0 < ignore then data else data ++ [(exchanged slave b.sso b.chip byte).1]), 1, rest,
        zeros, ignore - 1,
        if 0 < ignore then data else data ++ [(exchanged slave b.sso b.chip byte).1],
        afterByte slave t byte b⟩ r) :
    WhileLoop.Returns running (turn slave t readLength)
      ⟨.transfer, 1, writeData, writeZeros, ignore, data, b⟩ r := by
  have step : turn slave t readLength ⟨.transfer, 1, writeData, writeZeros, ignore, data, b⟩ =
      ⟨.transfer, 0, rest, zeros, ignore, data,
        { b with settling := b.settling - 1, shifting := some (byte, t.shift b.shifted) }⟩ := by
    simp [turn, elapse, ready.idle, status, ready.empty, ready.unread, sends, writeTxdata]
  apply WhileLoop.returns_turn rfl
  rw [step]
  refine shifting_returns rfl rfl ready.empty rfl ready.unread ?_
  have taken : takeReply readLength
      { (⟨.transfer, 0, rest, zeros, ignore, data,
          { b with settling := b.settling - 1, shifting := some (byte, t.shift b.shifted) }⟩ :
            Command Chip) with
        bus := complete slave t byte
          { b with settling := b.settling - 1, shifting := some (byte, t.shift b.shifted) } } =
      ⟨due readLength (ignore - 1)
          (if 0 < ignore then data else data ++ [(exchanged slave b.sso b.chip byte).1]), 1, rest,
        zeros, ignore - 1,
        if 0 < ignore then data else data ++ [(exchanged slave b.sso b.chip byte).1],
        afterByte slave t byte b⟩ := by
    simp [takeReply, readRxdata, complete, due, afterByte, ready.empty, ready.idle, ready.unread]
  exact taken ▸ returned

theorem finish_returns {data : List UInt8} {b : Bus Chip} (ready : Ready b) :
    WhileLoop.Returns running (turn slave t readLength) ⟨.finish, 1, [], 0, 0, data, b⟩
      ⟨.done, 1, [], 0, 0, data, { b with settling := 0 }⟩ := by
  have settled : ∀ b : Bus Chip, Ready b → b.settling ≤ 1 →
      WhileLoop.Returns running (turn slave t readLength) ⟨.finish, 1, [], 0, 0, data, b⟩
        ⟨.done, 1, [], 0, 0, data, { b with settling := 0 }⟩ := by
    intro b ready small
    have zero : b.settling - 1 = 0 := by omega
    have step : turn slave t readLength ⟨.finish, 1, [], 0, 0, data, b⟩ =
        ⟨.done, 1, [], 0, 0, data, { b with settling := 0 }⟩ := by
      simp [turn, elapse, ready.idle, status, ready.empty, zero]
    apply WhileLoop.returns_turn rfl
    rw [step]
    exact WhileLoop.returns_done rfl
  induction left : b.settling generalizing b with
  | zero => exact settled b ready (by omega)
  | succ k ih =>
    by_cases last : k = 0
    · exact settled b ready (by omega)
    · have less : b.settling - 1 = k := by omega
      have step : turn slave t readLength ⟨.finish, 1, [], 0, 0, data, b⟩ =
          ⟨.finish, 1, [], 0, 0, data, { b with settling := k }⟩ := by
        simp [turn, elapse, ready.idle, status, ready.empty, less, last]
      have later := @ih { b with settling := k } ⟨ready.empty, ready.idle, ready.unread⟩ rfl
      apply WhileLoop.returns_turn rfl
      rwa [step]

theorem exchangeAll_append (sso : Bool) (chip : Chip) (xs ys : List UInt8) :
    exchangeAll slave sso chip (xs ++ ys) =
      ((exchangeAll slave sso chip xs).1 ++
          (exchangeAll slave sso (exchangeAll slave sso chip xs).2 ys).1,
        (exchangeAll slave sso (exchangeAll slave sso chip xs).2 ys).2) := by
  induction xs generalizing chip with
  | nil => rfl
  | cons x xs ih => simp [exchangeAll, ih]

theorem exchangeAll_length (sso : Bool) (chip : Chip) (xs : List UInt8) :
    (exchangeAll slave sso chip xs).1.length = xs.length := by
  induction xs generalizing chip with
  | nil => rfl
  | cons x xs ih => simp [exchangeAll, ih]

theorem transfer_returns {writeData data : List UInt8} {zeros : Nat} {b : Bus Chip}
    (ready : Ready b) (size : data.length + zeros = readLength) :
    ∃ b', Ready b' ∧ b'.settling = 0 ∧ b'.sso = b.sso ∧ b'.lost = b.lost ∧
      b'.chip = (exchangeAll slave b.sso b.chip (writeData ++ List.replicate zeros 0)).2 ∧
      WhileLoop.Returns running (turn slave t readLength)
        ⟨due readLength writeData.length data, 1, writeData, zeros, writeData.length, data, b⟩
        ⟨.done, 1, [], 0, 0, data ++ (exchangeAll slave b.sso b.chip
          (writeData ++ List.replicate zeros 0)).1.drop writeData.length, b'⟩ := by
  induction writeData generalizing b with
  | nil =>
    induction zeros generalizing b data with
    | zero =>
      have over_now : due readLength 0 data = .finish := by
        simp [due]
        omega
      refine ⟨{ b with settling := 0 }, ⟨ready.empty, ready.idle, ready.unread⟩, rfl, rfl, rfl,
        rfl, ?_⟩
      rw [List.length_nil, over_now]
      simpa [exchangeAll] using finish_returns ready
    | succ zeros ih =>
      have more : due readLength 0 data = .transfer := by
        simp [due]
        omega
      obtain ⟨b', ready', settled, sso, lost, chip, returned⟩ :=
        @ih (data ++ [(exchanged slave b.sso b.chip 0).1]) (by simp; omega)
          (afterByte slave t 0 b) (afterByte_ready ready 0)
      refine ⟨b', ready', settled, sso, lost, ?_, ?_⟩
      · rw [chip]
        rfl
      · rw [List.length_nil, more]
        apply byte_returns 0 [] zeros ready
        · intro bus
          simp [sendNext]
        · simpa [exchangeAll, List.replicate_succ, afterByte, due] using returned
  | cons byte rest ih =>
    have more : due readLength (byte :: rest).length data = .transfer := by simp [due]
    obtain ⟨b', ready', settled, sso, lost, chip, returned⟩ :=
      @ih (afterByte slave t byte b) (afterByte_ready ready byte)
    refine ⟨b', ready', settled, sso, lost, ?_, ?_⟩
    · rw [chip]
      rfl
    · rw [more]
      apply byte_returns byte rest zeros ready
      · intro bus
        simp [sendNext]
      · simpa [exchangeAll, afterByte] using returned

def selected (slave : Slave Chip) (flags : Flags) (b : Bus Chip) : Bus Chip :=
  if flags.toggle then b else writeControl slave true b

structure Idle (b : Bus Chip) : Prop where
  empty : b.holding = none
  idle : b.shifting = none

/-- What a command leaves behind: the bytes have been exchanged with the chip while it was
    selected, in order and none twice, and no byte has been lost on the way. -/
structure Transferred (slave : Slave Chip) (flags : Flags) (writeData : List UInt8)
    (readLength : Nat) (b : Bus Chip) (readData : List UInt8) (b' : Bus Chip) : Prop where
  ready : Ready b'
  settled : b'.settling = 0
  lost : b'.lost = b.lost
  replies : readData = (exchangeAll slave (selected slave flags b).sso
    (selected slave flags b).chip (writeData ++ List.replicate readLength 0)).1.drop
      writeData.length
  chip : b'.chip =
    let chip := (exchangeAll slave (selected slave flags b).sso (selected slave flags b).chip
      (writeData ++ List.replicate readLength 0)).2
    if flags.merge = false ∧ (selected slave flags b).sso = true then slave.deselect chip
    else chip
  sso : b'.sso = (flags.merge && (selected slave flags b).sso)

theorem writeControl_ready {b : Bus Chip} (ready : Ready b) (sso : Bool) :
    Ready (writeControl slave sso b) :=
  ⟨ready.empty, ready.idle, ready.unread⟩

theorem begin_ready {flags : Flags} {b : Bus Chip} (idle : Idle b) :
    Ready (readRxdata (selected slave flags b)).2 := by
  constructor
  · simp only [readRxdata, selected, writeControl]
    split <;> exact idle.empty
  · simp only [readRxdata, selected, writeControl]
    split <;> exact idle.idle
  · rfl

theorem command_yields {flags : Flags} {writeData : List UInt8} {b : Bus Chip} (idle : Idle b)
    (some_bytes : 0 < writeData.length + readLength) :
    ∃ readData b', Transferred slave flags writeData readLength b readData b' ∧
      FuelledResult.Yields (altAvalonSpiCommand slave t flags writeData readLength b)
        (readData, b') := by
  obtain ⟨b', ready', settled, sso, lost, chip, returned⟩ :=
    @transfer_returns _ slave t readLength writeData [] readLength _
      (@begin_ready _ slave flags b idle) (by simp)
  have first : due readLength writeData.length [] = .transfer := by
    simp [due]
    intro none_written
    simp [none_written] at some_bytes
    omega
  rw [first] at returned
  have yielded := FuelledResult.yields_map (g := fun c => (c.readData, ended slave flags c.bus))
    (FuelledResult.yields_loop returned)
  refine ⟨_, ended slave flags b', ?_, yielded⟩
  have kept : (selected slave flags b).lost = b.lost := by
    unfold selected writeControl
    split <;> rfl
  cases merge : flags.merge with
  | true =>
    have same : ended slave flags b' = b' := by simp [ended, merge]
    rw [same]
    exact ⟨ready', settled, lost.trans kept, rfl, by simpa [merge, readRxdata] using chip,
      by simpa [merge, readRxdata] using sso⟩
  | false =>
    refine ⟨?_, ?_, ?_, rfl, ?_, ?_⟩
    · simpa [ended, merge] using writeControl_ready ready' false
    · simpa [ended, merge, writeControl] using settled
    · simpa [ended, merge, writeControl] using lost.trans kept
    · have open_or_not : b'.sso = (selected slave flags b).sso := sso
      simp only [ended, merge, writeControl, open_or_not]
      simp [chip, readRxdata]
    · simp [ended, merge, writeControl]

/-- A command without a byte takes its credit for the end and waits for a reply for ever. -/
theorem empty_command_stuck {flags : Flags} {b : Bus Chip} (idle : Idle b) (fuel : Nat) :
    altAvalonSpiCommand slave t flags [] 0 b fuel = none := by
  have never : WhileLoop.turns running (turn slave t 0) fuel (begin slave flags [] 0 b) = none := by
    apply WhileLoop.never_returns (fun c => c.phase = .transfer ∧ c.writeData = [] ∧
      c.writeZeros = 0 ∧ c.credits ≠ 0 ∧ Ready c.bus)
    · intro c stuck
      simp [running, stuck.1]
    · intro c stuck
      obtain ⟨phase, written, zeros, credits, ready⟩ := stuck
      have calm : Ready { c.bus with settling := c.bus.settling - 1 } :=
        ⟨ready.empty, ready.idle, ready.unread⟩
      by_cases positive : 0 < c.credits
      · have step : turn slave t 0 c =
            { c with credits := -1024, bus := { c.bus with settling := c.bus.settling - 1 } } := by
          simp [turn, elapse, ready.idle, status, ready.empty, ready.unread, phase, credits,
            positive, sendNext, written, zeros]
        rw [step]
        exact ⟨phase, written, zeros, by simp, calm⟩
      · have step : turn slave t 0 c =
            { c with bus := { c.bus with settling := c.bus.settling - 1 } } := by
          simp [turn, elapse, ready.idle, status, ready.empty, ready.unread, phase, credits,
            positive]
        rw [step]
        exact ⟨phase, written, zeros, credits, calm⟩
    · exact ⟨rfl, rfl, rfl, by simp [begin], @begin_ready _ slave flags b idle⟩
  simp [altAvalonSpiCommand, never]

/-- A command returns exactly when it has a byte to write or to read, and has then exchanged
    its bytes with the chip. -/
theorem spi_command_exchange (slave : Slave Chip) (t : Timing) (flags : Flags)
    (writeData : List UInt8) (readLength : Nat) {b : Bus Chip} (idle : Idle b) :
    (0 < writeData.length + readLength → ∃ readData b',
      Transferred slave flags writeData readLength b readData b' ∧
      FuelledResult.Yields (altAvalonSpiCommand slave t flags writeData readLength b)
        (readData, b')) ∧
    (writeData.length + readLength = 0 →
      ∀ fuel, altAvalonSpiCommand slave t flags writeData readLength b fuel = none) := by
  constructor
  · intro some_bytes
    exact command_yields idle some_bytes
  · intro no_bytes
    have no_data : writeData = [] := List.eq_nil_of_length_eq_zero (by omega)
    have no_length : readLength = 0 := by omega
    rw [no_data, no_length]
    exact empty_command_stuck idle

def echo : Slave UInt8 := ⟨fun _ => 0, fun last byte => (last, byte), fun last => last⟩

def echoBus : Bus UInt8 := ⟨7, none, none, 0, 0, true, false, 0, false⟩

theorem echo_exchange :
    (0 < [(1 : UInt8), 2].length + 1 → ∃ readData b',
      Transferred echo ⟨false, false⟩ [1, 2] 1 echoBus readData b' ∧
      FuelledResult.Yields (altAvalonSpiCommand echo ⟨fun n => n, fun _ => 1⟩ ⟨false, false⟩
        [1, 2] 1 echoBus) (readData, b')) ∧
    ([(1 : UInt8), 2].length + 1 = 0 → ∀ fuel, altAvalonSpiCommand echo
      ⟨fun n => n, fun _ => 1⟩ ⟨false, false⟩ [1, 2] 1 echoBus fuel = none) :=
  spi_command_exchange echo ⟨fun n => n, fun _ => 1⟩ ⟨false, false⟩ [1, 2] 1 ⟨rfl, rfl⟩

end SpiMaster
