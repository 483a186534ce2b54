import Mathlib.Data.BitVec
import Nios2Ecos.EthCrc
import Nios2Ecos.EthTransmit

/- The receiver of the Ethernet MAC, clock by clock: its state machine, its counters, the check
   of the address, the bytes that it hands on and the status of a frame. -/
namespace EthReceive
open EthCrc
open EthTransmit (latch)

abbrev Byte := BitVec 8

/-- What the receiver reads of the registers. -/
structure Config where
  r_IFG : Bool
  hugEn : Bool
  dlyCrcEn : Bool
  minFL : BitVec 16
  maxFL : BitVec 16
  mAC : BitVec 48
  r_Bro : Bool
  r_Pro : Bool
  r_HASH0 : BitVec 32
  r_HASH1 : BitVec 32
  passAll : Bool

structure Inputs where
  mRxDV : Bool
  mRxD : BitVec 4
  transmitting : Bool
  controlFrmAddressOK : Bool

structure State where
  stateIdle : Bool
  stateDrop : Bool
  statePreamble : Bool
  stateSFD : Bool
  stateData0 : Bool
  stateData1 : Bool
  byteCnt : BitVec 16
  iFGCounter : BitVec 5
  dlyCrcCnt : BitVec 4
  crc : BitVec 32
  crcHashGood : Bool
  crcHash : BitVec 6
  rxData_d : Byte
  delayData : Bool
  latchedByte : Byte
  rxData : Byte
  broadcast : Bool
  multicast : Bool
  rxValid_d : Bool
  rxValid : Bool
  rxStartFrm_d : Bool
  rxStartFrm : Bool
  rxEndFrm_d : Bool
  rxEndFrm : Bool
  rxAbort : Bool
  addressMiss : Bool
  multicastOK : Bool
  unicastOK : Bool
  latchedCrcError : Bool
  loadRxStatus : Bool
  shortFrame : Bool
  dribbleNibble : Bool
  receivedPacketTooBig : Bool

/-- `CrcHashGood` and `CrcHash` have no asynchronous reset, but the clocks during the reset clear
    them. -/
def reset : State where
  stateIdle := false
  stateDrop := true
  statePreamble := false
  stateSFD := false
  stateData0 := false
  stateData1 := false
  byteCnt := 0#16
  iFGCounter := 0#5
  dlyCrcCnt := 0#4
  crc := 0xFFFFFFFF#32
  crcHashGood := false
  crcHash := 0#6
  rxData_d := 0#8
  delayData := false
  latchedByte := 0#8
  rxData := 0#8
  broadcast := false
  multicast := false
  rxValid_d := false
  rxValid := false
  rxStartFrm_d := false
  rxStartFrm := false
  rxEndFrm_d := false
  rxEndFrm := false
  rxAbort := false
  addressMiss := false
  multicastOK := false
  unicastOK := false
  latchedCrcError := false
  loadRxStatus := false
  shortFrame := false
  dribbleNibble := false
  receivedPacketTooBig := false

variable (cfg : Config) (inp : Inputs) (s : State)

def stateData : Bool := s.stateData0 || s.stateData1

def mRxDEq5 : Bool := inp.mRxD == 5#4

def mRxDEqD : Bool := inp.mRxD == 0xD#4

def byteCntMaxFrame : Bool := s.byteCnt == cfg.maxFL && !cfg.hugEn

def byteCntGreat2 : Bool := (2#16).ult s.byteCnt

def byteCntOut : BitVec 16 := if cfg.dlyCrcEn then s.byteCnt + 4#16 else s.byteCnt

def iFGCounterEq24 : Bool := s.iFGCounter == 0x18#5 || cfg.r_IFG

/- The next state. -/

def startIdle : Bool :=
  !inp.mRxDV && (s.stateDrop || s.statePreamble || s.stateSFD || stateData s)

def startPreamble : Bool := inp.mRxDV && !mRxDEq5 inp && (s.stateIdle && !inp.transmitting)

def startSFD : Bool :=
  inp.mRxDV && mRxDEq5 inp && (s.stateIdle && !inp.transmitting || s.statePreamble)

def startData0 : Bool :=
  inp.mRxDV && (s.stateSFD && mRxDEqD inp && iFGCounterEq24 cfg s || s.stateData1)

def startData1 : Bool := inp.mRxDV && s.stateData0 && !byteCntMaxFrame cfg s

def startDrop : Bool :=
  inp.mRxDV && (s.stateIdle && inp.transmitting ||
    s.stateSFD && !iFGCounterEq24 cfg s && mRxDEqD inp || s.stateData0 && byteCntMaxFrame cfg s)

/- The counters. -/

def resetByteCounter : Bool :=
  inp.mRxDV && (s.stateSFD && mRxDEqD inp || s.stateData0 && byteCntMaxFrame cfg s)

def incrementByteCounter : Bool :=
  !resetByteCounter cfg inp s && inp.mRxDV &&
    (s.statePreamble || s.stateSFD || s.stateIdle && !inp.transmitting ||
      s.stateData1 && s.byteCnt != 0xFFFF#16 && !(cfg.dlyCrcEn && s.dlyCrcCnt != 0#4))

def resetIFGCounter : Bool := s.stateSFD && inp.mRxDV && mRxDEqD inp || s.stateDrop

def incrementIFGCounter : Bool :=
  !resetIFGCounter inp s && (s.stateDrop || s.stateIdle || s.statePreamble || s.stateSFD) &&
    !iFGCounterEq24 cfg s

/- What is handed on. -/

def enable_Crc : Bool := inp.mRxDV && (stateData s && !byteCntMaxFrame cfg s)

def initialize_Crc : Bool :=
  s.stateSFD || cfg.dlyCrcEn && s.dlyCrcCnt != 0#4 && s.dlyCrcCnt.ult 9#4

def generateRxValid : Bool := s.stateData0 && (s.byteCnt != 0#16 || (3#4).ule s.dlyCrcCnt)

def generateRxStartFrm : Bool :=
  s.stateData0 &&
    (s.byteCnt == 1#16 && !cfg.dlyCrcEn || s.dlyCrcCnt == 3#4 && cfg.dlyCrcEn)

def generateRxEndFrm : Bool :=
  s.stateData0 && (!inp.mRxDV && byteCntGreat2 s || byteCntMaxFrame cfg s)

def dribbleRxEndFrm : Bool := s.stateData1 && !inp.mRxDV && byteCntGreat2 s

/- The address. -/

def broadcastOK : Bool := s.broadcast && !cfg.r_Bro

def rxAddressInvalid : Bool :=
  !(s.unicastOK || broadcastOK cfg s || s.multicastOK || cfg.r_Pro)

/-- The bit of the hash table at a hash. -/
def hashBit (hash : BitVec 6) : Bool :=
  let intHash := if hash.getLsbD 5 then cfg.r_HASH1 else cfg.r_HASH0
  let byteHash := (intHash >>> (8 * (hash.extractLsb' 3 2).toNat)).setWidth 8
  byteHash.getLsbD (hash.setWidth 3).toNat

/-- The byte of the station address that a received byte is compared with, the first one from
    the top. -/
def mACByte (i : Nat) : Byte := (cfg.mAC >>> (8 * (5 - i))).setWidth 8

def nextUnicastOK : Bool :=
  if stateData s && s.byteCnt == 2#16 then s.rxData == mACByte cfg 0
  else if stateData s && s.byteCnt == 3#16 then s.rxData == mACByte cfg 1 && s.unicastOK
  else if stateData s && s.byteCnt == 4#16 then s.rxData == mACByte cfg 2 && s.unicastOK
  else if stateData s && s.byteCnt == 5#16 then s.rxData == mACByte cfg 3 && s.unicastOK
  else if stateData s && s.byteCnt == 6#16 then s.rxData == mACByte cfg 4 && s.unicastOK
  else if stateData s && s.byteCnt == 7#16 then s.rxData == mACByte cfg 5 && s.unicastOK
  else if s.rxEndFrm || s.rxAbort then false
  else s.unicastOK

/- The status. -/

def takeSample : Bool :=
  stateData s && !inp.mRxDV || s.stateData0 && inp.mRxDV && byteCntMaxFrame cfg s

/-- An edge of the receive clock. -/
def step : State where
  stateIdle :=
    latch (startPreamble inp s || startSFD inp s || startDrop cfg inp s) (startIdle inp s)
      s.stateIdle
  stateDrop := latch (startIdle inp s) (startDrop cfg inp s) s.stateDrop
  statePreamble :=
    latch (startSFD inp s || startIdle inp s || startDrop cfg inp s) (startPreamble inp s)
      s.statePreamble
  stateSFD :=
    latch (startPreamble inp s || startIdle inp s || startData0 cfg inp s || startDrop cfg inp s)
      (startSFD inp s) s.stateSFD
  stateData0 :=
    latch (startIdle inp s || startData1 cfg inp s || startDrop cfg inp s)
      (startData0 cfg inp s) s.stateData0
  stateData1 :=
    latch (startIdle inp s || startData0 cfg inp s || startDrop cfg inp s)
      (startData1 cfg inp s) s.stateData1
  byteCnt :=
    if resetByteCounter cfg inp s then 0#16
    else if incrementByteCounter cfg inp s then s.byteCnt + 1#16
    else s.byteCnt
  iFGCounter :=
    if resetIFGCounter inp s then 0#5
    else if incrementIFGCounter cfg inp s then s.iFGCounter + 1#5
    else s.iFGCounter
  dlyCrcCnt :=
    if s.dlyCrcCnt == 9#4 then 0#4
    else if cfg.dlyCrcEn && s.stateSFD then 1#4
    else if cfg.dlyCrcEn && s.dlyCrcCnt != 0#4 then s.dlyCrcCnt + 1#4
    else s.dlyCrcCnt
  crc := crcStep s.crc (dataCrc inp.mRxD) (enable_Crc cfg inp s) (initialize_Crc cfg s)
  crcHashGood := s.stateData0 && s.byteCnt == 6#16
  crcHash :=
    if s.stateIdle then 0#6
    else if s.stateData0 && s.byteCnt == 6#16 then s.crc.extractLsb' 26 6
    else s.crcHash
  rxData_d :=
    if generateRxValid s then if stateData s then s.latchedByte else 0#8
    else if !s.delayData then 0#8
    else s.rxData_d
  delayData := s.stateData0
  latchedByte := inp.mRxD ++ s.latchedByte.extractLsb' 4 4
  rxData := s.rxData_d
  broadcast :=
    if s.stateData0 && s.latchedByte != 0xFF#8 && s.byteCnt.ult 7#16 then false
    else if s.stateData0 && s.latchedByte == 0xFF#8 && s.byteCnt == 1#16 then true
    else if s.rxAbort || s.rxEndFrm then false
    else s.broadcast
  multicast :=
    if s.stateData0 && s.byteCnt == 1#16 && s.latchedByte.getLsbD 0 then true
    else if s.rxAbort || s.rxEndFrm then false
    else s.multicast
  rxValid_d := generateRxValid s
  rxValid := s.rxValid_d
  rxStartFrm_d := generateRxStartFrm cfg s
  rxStartFrm := s.rxStartFrm_d
  rxEndFrm_d := generateRxEndFrm cfg inp s
  rxEndFrm := s.rxEndFrm_d || dribbleRxEndFrm inp s
  rxAbort := rxAddressInvalid cfg s && s.byteCnt == 7#16 && stateData s
  addressMiss :=
    if s.byteCnt == 7#16 && stateData s then
      !(s.unicastOK || broadcastOK cfg s || s.multicastOK ||
        cfg.passAll && inp.controlFrmAddressOK)
    else s.addressMiss
  multicastOK :=
    if s.rxEndFrm || s.rxAbort then false
    else if s.crcHashGood && s.multicast then hashBit cfg s.crcHash
    else s.multicastOK
  unicastOK := nextUnicastOK cfg s
  latchedCrcError :=
    if s.stateSFD then false
    else if s.stateData0 then crcError s.crc && s.byteCnt != 0#16
    else s.latchedCrcError
  loadRxStatus := takeSample cfg inp s
  shortFrame :=
    if s.loadRxStatus then false
    else if takeSample cfg inp s then (byteCntOut cfg s).ult cfg.minFL
    else s.shortFrame
  dribbleNibble := latch s.stateSFD (!inp.mRxDV && s.stateData1) s.dribbleNibble
  receivedPacketTooBig :=
    if s.loadRxStatus then false
    else if takeSample cfg inp s then !cfg.hugEn && cfg.maxFL.ult (byteCntOut cfg s)
    else s.receivedPacketTooBig

def run (cfg : Config) (s : State) (clocks : List Inputs) : State :=
  clocks.foldl (fun s inp => step cfg inp s) s

/- The state machine. -/

inductive Phase where
  | idle
  | drop
  | preamble
  | sFD
  | data0
  | data1
  deriving DecidableEq

/-- The state registers hold one phase, and no other. -/
structure In (p : Phase) (s : State) : Prop where
  idle : s.stateIdle = decide (p = .idle)
  drop : s.stateDrop = decide (p = .drop)
  preamble : s.statePreamble = decide (p = .preamble)
  sFD : s.stateSFD = decide (p = .sFD)
  data0 : s.stateData0 = decide (p = .data0)
  data1 : s.stateData1 = decide (p = .data1)

/-- The diagram of the machine. -/
def nextPhase : Phase → Phase
  | .drop => if inp.mRxDV then .drop else .idle
  | .idle =>
    if !inp.mRxDV then .idle
    else if inp.transmitting then .drop
    else if mRxDEq5 inp then .sFD
    else .preamble
  | .preamble => if !inp.mRxDV then .idle else if mRxDEq5 inp then .sFD else .preamble
  | .sFD =>
    if !inp.mRxDV then .idle
    else if !mRxDEqD inp then .sFD
    else if iFGCounterEq24 cfg s then .data0
    else .drop
  | .data0 => if !inp.mRxDV then .idle else if byteCntMaxFrame cfg s then .drop else .data1
  | .data1 => if inp.mRxDV then .data0 else .idle

variable {cfg inp s}

theorem in_step {p : Phase} (now : In p s) : In (nextPhase cfg inp s p) (step cfg inp s) := by
  obtain ⟨idle, drop, preamble, sFD, data0, data1⟩ := now
  -- for every phase each register on its own
  cases p <;> constructor <;>
    simp [nextPhase, step, latch, startPreamble, startSFD, startDrop, startIdle, startData0,
      startData1, stateData, mRxDEq5, mRxDEqD, idle, drop, preamble, sFD, data0, data1] <;>
    grind

theorem in_reset : In .drop reset := by
  constructor <;> rfl

/-- The diagram beside the machine. -/
def phaseAfter (cfg : Config) : State → Phase → List Inputs → Phase
  | _, p, [] => p
  | s, p, inp :: clocks => phaseAfter cfg (step cfg inp s) (nextPhase cfg inp s p) clocks

theorem in_run {p : Phase} (now : In p s) (clocks : List Inputs) :
    In (phaseAfter cfg s p clocks) (run cfg s clocks) := by
  induction clocks generalizing s p with
  | nil => exact now
  | cons inp clocks ih => exact ih (in_step now)

/-- In every run, whatever comes in, each of the two machines of the MAC is in one state only, and
    goes from state to state as its diagram says. -/
theorem one_state (tx : EthTransmit.Config) (rx : Config) (txClocks : List EthTransmit.Inputs)
    (rxClocks : List Inputs) :
    EthTransmit.In (EthTransmit.phaseAfter tx EthTransmit.reset .defer txClocks)
        (EthTransmit.run tx EthTransmit.reset txClocks) ∧
      In (phaseAfter rx reset .drop rxClocks) (run rx reset rxClocks) :=
  ⟨EthTransmit.in_run EthTransmit.in_reset txClocks, in_run in_reset rxClocks⟩

/- The length of a frame. -/

/-- The bytes counted of a frame stay within the limit. -/
structure Bounded (cfg : Config) (p : Phase) (s : State) : Prop where
  now : In p s
  low : p = .data0 → cfg.hugEn = false → s.byteCnt.toNat ≤ cfg.maxFL.toNat
  high : p = .data1 → cfg.hugEn = false → s.byteCnt.toNat < cfg.maxFL.toNat
  big : s.receivedPacketTooBig = false

theorem data0_from {p : Phase} (next : nextPhase cfg inp s p = .data0) :
    p = .data1 ∨ p = .sFD ∧ inp.mRxDV = true ∧ mRxDEqD inp = true := by
  cases p <;> simp only [nextPhase] at next <;> grind

theorem data1_from {p : Phase} (next : nextPhase cfg inp s p = .data1) :
    p = .data0 ∧ byteCntMaxFrame cfg s = false := by
  cases p <;> simp only [nextPhase] at next <;> grind

theorem byteCnt_next (inp : Inputs) (now : In .data1 s)
    (less : s.byteCnt.toNat < cfg.maxFL.toNat) :
    (step cfg inp s).byteCnt.toNat ≤ cfg.maxFL.toNat := by
  have limit := cfg.maxFL.isLt
  have no_reset : resetByteCounter cfg inp s = false := by
    simp [resetByteCounter, now.sFD, now.data0]
  cases more : incrementByteCounter cfg inp s with
  | false =>
    have same : (step cfg inp s).byteCnt = s.byteCnt := by simp [step, no_reset, more]
    rw [same]
    omega
  | true =>
    have adds : (step cfg inp s).byteCnt = s.byteCnt + 1#16 := by simp [step, no_reset, more]
    rw [adds, BitVec.toNat_add, BitVec.toNat_ofNat]
    omega

theorem bounded_step {p : Phase} (inp : Inputs) (plain : cfg.dlyCrcEn = false)
    (bounded : Bounded cfg p s) : Bounded cfg (nextPhase cfg inp s p) (step cfg inp s) := by
  obtain ⟨now, low, high, big⟩ := bounded
  refine ⟨in_step now, ?_, ?_, ?_⟩
  · intro next plain_length
    rcases data0_from next with rfl | ⟨rfl, on, delimiter⟩
    · exact byteCnt_next inp now (high rfl plain_length)
    · have zero : (step cfg inp s).byteCnt = 0#16 := by
        simp [step, resetByteCounter, on, delimiter, now.sFD]
      simp [zero]
  · intro next plain_length
    obtain ⟨rfl, not_max⟩ := data1_from next
    have other : s.byteCnt.toNat ≠ cfg.maxFL.toNat := by
      intro same
      have is_max : s.byteCnt = cfg.maxFL := BitVec.eq_of_toNat_eq same
      simp [byteCntMaxFrame, is_max, plain_length] at not_max
    have same : (step cfg inp s).byteCnt = s.byteCnt := by
      simp [step, resetByteCounter, incrementByteCounter, now.sFD, now.preamble, now.idle,
        now.data1, not_max]
    have most := low rfl plain_length
    rw [same]
    omega
  · cases sample : takeSample cfg inp s with
    | false => simp [step, sample, big]
    | true =>
      have in_data : p = .data0 ∨ p = .data1 := by
        simp only [takeSample, stateData, now.data0, now.data1] at sample
        grind
      have limit : cfg.hugEn = false → s.byteCnt.toNat ≤ cfg.maxFL.toNat := by
        intro plain_length
        rcases in_data with rfl | rfl
        · exact low rfl plain_length
        · exact Nat.le_of_lt (high rfl plain_length)
      have not_above : (!cfg.hugEn && cfg.maxFL.ult (byteCntOut cfg s)) = false := by
        cases huge : cfg.hugEn with
        | true => rfl
        | false => simpa [byteCntOut, plain, BitVec.ult] using limit huge
      simp [step, sample, not_above]

theorem bounded_run {p : Phase} (plain : cfg.dlyCrcEn = false) (bounded : Bounded cfg p s)
    (clocks : List Inputs) : Bounded cfg (phaseAfter cfg s p clocks) (run cfg s clocks) := by
  induction clocks generalizing s p with
  | nil => exact bounded
  | cons inp clocks ih => exact ih (bounded_step inp plain bounded)

/-- A frame that is too long is cut off, and the status never says so. -/
theorem too_big_never (plain : cfg.dlyCrcEn = false) (clocks : List Inputs) :
    (run cfg reset clocks).receivedPacketTooBig = false := by
  have bounded : Bounded cfg (phaseAfter cfg reset .drop clocks) (run cfg reset clocks) := by
    apply bounded_run plain
    refine ⟨in_reset, ?_, ?_, rfl⟩
    · intro other
      cases other
    · intro other
      cases other
  exact bounded.big

theorem too_big_never_long :
    (run ⟨true, false, false, 0x40#16, 2#16, 0#48, false, true, 0#32, 0#32, false⟩ reset
      (⟨false, 0#4, false, false⟩ :: List.replicate 4 ⟨true, 5#4, false, false⟩ ++
        ⟨true, 0xD#4, false, false⟩ :: List.replicate 9 ⟨true, 1#4, false, false⟩ ++
        List.replicate 4 ⟨false, 0#4, false, false⟩)).receivedPacketTooBig = false :=
  too_big_never rfl _

end EthReceive
