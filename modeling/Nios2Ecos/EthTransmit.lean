import Mathlib.Data.BitVec
import Nios2Ecos.EthCrc

/- The transmitter of the Ethernet MAC, clock by clock: its state machine, its counters and what
   it puts on the MII. -/
namespace EthTransmit
open EthCrc

/-- What the transmitter reads of the registers. -/
structure Config where
  pad : Bool
  crcEn : Bool
  fullD : Bool
  hugEn : Bool
  dlyCrcEn : Bool
  noBckof : Bool
  exDfrEn : Bool
  minFL : BitVec 16
  maxFL : BitVec 16
  iPGT : BitVec 7
  iPGR1 : BitVec 7
  iPGR2 : BitVec 7
  collValid : BitVec 6
  maxRet : BitVec 4

/-- The inputs in one clock. The MII lines are those behind the synchronizers, and the last two
    come from the back-off's random number. -/
structure Inputs where
  txStartFrm : Bool
  txEndFrm : Bool
  txUnderRun : Bool
  txData : BitVec 8
  carrierSenseTx2 : Bool
  collisionTx2 : Bool
  randomEq0 : Bool
  randomEqByteCnt : Bool

structure State where
  stateIdle : Bool
  stateIPG : Bool
  statePreamble : Bool
  stateData0 : Bool
  stateData1 : Bool
  statePAD : Bool
  stateFCS : Bool
  stateJam : Bool
  stateBackOff : Bool
  stateDefer : Bool
  rule1 : Bool
  nibCnt : BitVec 16
  byteCnt : BitVec 16
  dlyCrcCnt : BitVec 3
  crc : BitVec 32
  stopExcessiveDeferOccured : Bool
  colWindow : Bool
  statusLatch : Bool
  txUsedData : Bool
  txDone : Bool
  txRetry : Bool
  txAbort : Bool
  retryCnt : BitVec 4
  mTxD : BitVec 4
  mTxEn : Bool
  mTxErr : Bool
  packetFinished : Bool
  packetFinishedQ : Bool

def reset : State where
  stateIdle := false
  stateIPG := false
  statePreamble := false
  stateData0 := false
  stateData1 := false
  statePAD := false
  stateFCS := false
  stateJam := false
  stateBackOff := false
  stateDefer := true
  rule1 := false
  nibCnt := 0#16
  byteCnt := 0#16
  dlyCrcCnt := 0#3
  crc := 0xFFFFFFFF#32
  stopExcessiveDeferOccured := false
  colWindow := true
  statusLatch := false
  txUsedData := false
  txDone := false
  txRetry := false
  txAbort := false
  retryCnt := 0#4
  mTxD := 0#4
  mTxEn := false
  mTxErr := false
  packetFinished := false
  packetFinishedQ := false

variable (cfg : Config) (inp : Inputs) (s : State)

/- The top level keeps the lines of the half-duplex medium away in full duplex. -/

def carrierSense : Bool := !cfg.fullD && inp.carrierSenseTx2

def collision : Bool := !cfg.fullD && inp.collisionTx2

/- The flags of the counters. -/

def nibCntEq7 : Bool := s.nibCnt.setWidth 3 == 7#3

def nibCntEq15 : Bool := s.nibCnt.setWidth 4 == 15#4

/-- The difference is taken in 32 bits, the width of its constant. -/
def nibbleMinFl : Bool :=
  ((cfg.minFL.setWidth 32 - 4#32) <<< 1 - 1#32).ule (s.nibCnt.setWidth 32)

def excessiveDefer : Bool := s.nibCnt.setWidth 14 == 0x17B7#14 && !cfg.exDfrEn

def maxFrame : Bool := s.byteCnt == cfg.maxFL && !cfg.hugEn

def byteCntMax : Bool := s.byteCnt == 0xFFFF#16

def retryMax : Bool := s.retryCnt == cfg.maxRet

/- The next state. -/

def underRun : Bool := s.stateData0 && inp.txUnderRun && !collision cfg inp

def tooBig : Bool :=
  !collision cfg inp && maxFrame cfg s && (s.stateData0 && !inp.txUnderRun || s.stateFCS)

def startTxDone : Bool :=
  !collision cfg inp && (s.stateFCS && nibCntEq7 s ||
    s.stateData1 && inp.txEndFrm && (!cfg.pad || cfg.pad && nibbleMinFl cfg s) && !cfg.crcEn)

def startIPG : Bool := s.stateDefer && !excessiveDefer cfg s && !carrierSense cfg inp

def startIdle : Bool :=
  s.stateIPG && (s.rule1 && cfg.iPGT.ule (s.nibCnt.setWidth 7) ||
    !s.rule1 && cfg.iPGR2.ule (s.nibCnt.setWidth 7))

def startPreamble : Bool := s.stateIdle && inp.txStartFrm && !carrierSense cfg inp

def startData0 : Bool :=
  !collision cfg inp && (s.statePreamble && nibCntEq15 s || s.stateData1 && !inp.txEndFrm)

def startData1 : Bool :=
  !collision cfg inp && s.stateData0 && !inp.txUnderRun && !maxFrame cfg s

def startPAD : Bool :=
  !collision cfg inp && s.stateData1 && inp.txEndFrm && cfg.pad && !nibbleMinFl cfg s

def startFCS : Bool :=
  !collision cfg inp && s.stateData1 && inp.txEndFrm &&
      (!cfg.pad || cfg.pad && nibbleMinFl cfg s) && cfg.crcEn ||
    !collision cfg inp && s.statePAD && nibbleMinFl cfg s && cfg.crcEn

def startJam : Bool :=
  (collision cfg inp || underRun cfg inp s) &&
    (s.statePreamble && nibCntEq15 s || (s.stateData0 || s.stateData1) || s.statePAD || s.stateFCS)

def startBackoff : Bool :=
  s.stateJam && !inp.randomEq0 && s.colWindow && !retryMax cfg s && nibCntEq7 s && !cfg.noBckof

def startDefer : Bool :=
  s.stateIPG && !s.rule1 && carrierSense cfg inp && (s.nibCnt.setWidth 7).ule cfg.iPGR1 &&
      s.nibCnt.setWidth 7 != cfg.iPGR2 ||
    s.stateIdle && carrierSense cfg inp ||
    s.stateJam && nibCntEq7 s &&
      (cfg.noBckof || inp.randomEq0 || !s.colWindow || retryMax cfg s) ||
    s.stateBackOff && (inp.txUnderRun || inp.randomEqByteCnt) ||
    startTxDone cfg inp s || tooBig cfg inp s

/- The counters. -/

def resetNibCnt : Bool :=
  s.stateDefer && excessiveDefer cfg s && !inp.txStartFrm || s.statePreamble && nibCntEq15 s ||
    s.stateJam && nibCntEq7 s || s.stateIdle || startDefer cfg inp s || startIPG cfg inp s ||
    startFCS cfg inp s || startJam cfg inp s

def incrementNibCnt : Bool :=
  s.stateIPG || s.statePreamble || (s.stateData0 || s.stateData1) || s.statePAD || s.stateFCS ||
    s.stateJam || s.stateBackOff || s.stateDefer && !excessiveDefer cfg s && inp.txStartFrm

def incrementByteCnt : Bool :=
  s.stateData1 && !byteCntMax s || s.stateBackOff && s.nibCnt.setWidth 7 == 0x7F#7 ||
    (s.statePAD || s.stateFCS) && s.nibCnt.getLsbD 0 && !byteCntMax s

def resetByteCnt : Bool :=
  startBackoff cfg inp s || s.stateIdle && inp.txStartFrm || s.packetFinishedQ

/- How the frame ends. -/

def stateSFD : Bool := s.statePreamble && nibCntEq15 s

def excessiveDeferOccured : Bool :=
  inp.txStartFrm && s.stateDefer && excessiveDefer cfg s && !s.stopExcessiveDeferOccured

def startTxRetry : Bool :=
  startJam cfg inp s && (s.colWindow && !retryMax cfg s) && !underRun cfg inp s

def lateCollision : Bool := startJam cfg inp s && !s.colWindow && !underRun cfg inp s

def maxCollisionOccured : Bool := startJam cfg inp s && s.colWindow && retryMax cfg s

def startTxAbort : Bool :=
  tooBig cfg inp s || underRun cfg inp s || excessiveDeferOccured cfg inp s ||
    lateCollision cfg inp s || maxCollisionOccured cfg inp s

def packetFinishedD : Bool :=
  startTxDone cfg inp s || tooBig cfg inp s || underRun cfg inp s || lateCollision cfg inp s ||
    maxCollisionOccured cfg inp s || excessiveDeferOccured cfg inp s

/- What goes out. -/

def mTxDD : BitVec 4 :=
  if s.stateData0 then inp.txData.setWidth 4
  else if s.stateData1 then (inp.txData >>> 4).setWidth 4
  else if s.stateFCS then fcsNibble s.crc
  else if s.stateJam then 9#4
  else if s.statePreamble then if nibCntEq15 s then 0xD#4 else 5#4
  else 0#4

def dataNibble : BitVec 4 :=
  if s.stateData0 then inp.txData.setWidth 4
  else if s.stateData1 then (inp.txData >>> 4).setWidth 4
  else 0#4

def initializeCrc : Bool := s.stateIdle || s.statePreamble || s.dlyCrcCnt != 0#3

/-- A flag that is set and cleared, where one of the two goes first. -/
def latch (first set_ old : Bool) : Bool := if first then false else if set_ then true else old

/-- An edge of the transmit clock. -/
def step : State where
  stateIdle :=
    latch (startDefer cfg inp s || startPreamble cfg inp s) (startIdle cfg s) s.stateIdle
  stateIPG := latch (startDefer cfg inp s || startIdle cfg s) (startIPG cfg inp s) s.stateIPG
  statePreamble :=
    latch (startData0 cfg inp s || startJam cfg inp s) (startPreamble cfg inp s) s.statePreamble
  stateData0 := startData0 cfg inp s
  stateData1 := startData1 cfg inp s
  statePAD := latch (startFCS cfg inp s || startJam cfg inp s) (startPAD cfg inp s) s.statePAD
  stateFCS := latch (startJam cfg inp s || startDefer cfg inp s) (startFCS cfg inp s) s.stateFCS
  stateJam :=
    latch (startBackoff cfg inp s || startDefer cfg inp s) (startJam cfg inp s) s.stateJam
  stateBackOff := latch (startDefer cfg inp s) (startBackoff cfg inp s) s.stateBackOff
  stateDefer := latch (startIPG cfg inp s) (startDefer cfg inp s) s.stateDefer
  rule1 := latch (s.stateIdle || s.stateBackOff) (s.statePreamble || cfg.fullD) s.rule1
  nibCnt :=
    if resetNibCnt cfg inp s then 0#16
    else if incrementNibCnt cfg inp s then s.nibCnt + 1#16
    else s.nibCnt
  byteCnt :=
    if resetByteCnt cfg inp s then 0#16
    else if incrementByteCnt s then s.byteCnt + 1#16
    else s.byteCnt
  dlyCrcCnt :=
    if s.stateData1 && s.dlyCrcCnt == 4#3 || startJam cfg inp s || s.packetFinishedQ then 0#3
    else if cfg.dlyCrcEn && (stateSFD s || s.stateData1 && s.dlyCrcCnt != 0#3) then
      s.dlyCrcCnt + 1#3
    else s.dlyCrcCnt
  crc := crcStep s.crc (dataCrc (dataNibble inp s)) (!s.stateFCS) (initializeCrc s)
  stopExcessiveDeferOccured :=
    latch (!inp.txStartFrm) (excessiveDeferOccured cfg inp s) s.stopExcessiveDeferOccured
  colWindow :=
    if !collision cfg inp && s.byteCnt.setWidth 6 == cfg.collValid &&
        (s.stateData1 || s.statePAD && s.nibCnt.getLsbD 0 || s.stateFCS && s.nibCnt.getLsbD 0) then
      false
    else if s.stateIdle || s.stateIPG then true
    else s.colWindow
  statusLatch :=
    latch (!inp.txStartFrm) (excessiveDeferOccured cfg inp s || s.stateIdle) s.statusLatch
  txUsedData := startData0 cfg inp s || startData1 cfg inp s
  txDone := latch (inp.txStartFrm && !s.statusLatch) (startTxDone cfg inp s) s.txDone
  txRetry := latch (inp.txStartFrm && !s.statusLatch) (startTxRetry cfg inp s) s.txRetry
  txAbort :=
    latch (inp.txStartFrm && !s.statusLatch && !excessiveDeferOccured cfg inp s)
      (startTxAbort cfg inp s) s.txAbort
  retryCnt :=
    if excessiveDeferOccured cfg inp s || underRun cfg inp s || tooBig cfg inp s ||
        startTxDone cfg inp s || inp.txUnderRun ||
        s.stateJam && nibCntEq7 s && (!s.colWindow || retryMax cfg s) then 0#4
    else if s.stateJam && nibCntEq7 s && s.colWindow && (inp.randomEq0 || cfg.noBckof) ||
        s.stateBackOff && inp.randomEqByteCnt then s.retryCnt + 1#4
    else s.retryCnt
  mTxD := mTxDD inp s
  mTxEn :=
    s.statePreamble || (s.stateData0 || s.stateData1) || s.statePAD || s.stateFCS || s.stateJam
  mTxErr := tooBig cfg inp s || underRun cfg inp s
  packetFinished := packetFinishedD cfg inp s
  packetFinishedQ := s.packetFinished

/- The state machine. -/

inductive Phase where
  | idle
  | iPG
  | preamble
  | data0
  | data1
  | pAD
  | fCS
  | jam
  | backOff
  | defer
  deriving DecidableEq

/-- The state registers hold one phase, and no other. -/
structure In (p : Phase) (s : State) : Prop where
  idle : s.stateIdle = decide (p = .idle)
  iPG : s.stateIPG = decide (p = .iPG)
  preamble : s.statePreamble = decide (p = .preamble)
  data0 : s.stateData0 = decide (p = .data0)
  data1 : s.stateData1 = decide (p = .data1)
  pAD : s.statePAD = decide (p = .pAD)
  fCS : s.stateFCS = decide (p = .fCS)
  jam : s.stateJam = decide (p = .jam)
  backOff : s.stateBackOff = decide (p = .backOff)
  defer : s.stateDefer = decide (p = .defer)

/-- The diagram of the machine. -/
def nextPhase : Phase → Phase
  | .defer => if !excessiveDefer cfg s && !carrierSense cfg inp then .iPG else .defer
  | .iPG =>
    if !s.rule1 && carrierSense cfg inp && (s.nibCnt.setWidth 7).ule cfg.iPGR1 &&
        s.nibCnt.setWidth 7 != cfg.iPGR2 then .defer
    else if (if s.rule1 then cfg.iPGT else cfg.iPGR2).ule (s.nibCnt.setWidth 7) then .idle
    else .iPG
  | .idle =>
    if carrierSense cfg inp then .defer else if inp.txStartFrm then .preamble else .idle
  | .preamble =>
    if !nibCntEq15 s then .preamble else if collision cfg inp then .jam else .data0
  | .data0 =>
    if collision cfg inp || inp.txUnderRun then .jam else if maxFrame cfg s then .defer else .data1
  | .data1 =>
    if collision cfg inp then .jam
    else if !inp.txEndFrm then .data0
    else if cfg.pad && !nibbleMinFl cfg s then .pAD
    else if cfg.crcEn then .fCS
    else .defer
  | .pAD =>
    if collision cfg inp then .jam
    else if nibbleMinFl cfg s && cfg.crcEn then .fCS
    else .pAD
  | .fCS =>
    if collision cfg inp then .jam
    else if nibCntEq7 s || maxFrame cfg s then .defer
    else .fCS
  | .jam =>
    if !nibCntEq7 s then .jam
    else if cfg.noBckof || inp.randomEq0 || !s.colWindow || retryMax cfg s then .defer
    else .backOff
  | .backOff => if inp.txUnderRun || inp.randomEqByteCnt then .defer else .backOff

variable {cfg inp s}

theorem in_step {p : Phase} (now : In p s) : In (nextPhase cfg inp s p) (step cfg inp s) := by
  obtain ⟨idle, iPG, preamble, data0, data1, pAD, fCS, jam, backOff, defer⟩ := now
  -- for every phase each register on its own
  cases p <;> constructor <;>
    simp [nextPhase, step, latch, startDefer, startPreamble, startIdle, startIPG, startData0,
      startData1, startJam, startFCS, startPAD, startBackoff, startTxDone, tooBig, underRun, idle,
      iPG, preamble, data0, data1, pAD, fCS, jam, backOff, defer] <;>
    grind

theorem in_reset : In .defer reset := by
  constructor <;> rfl

def run (cfg : Config) (s : State) (clocks : List Inputs) : State :=
  clocks.foldl (fun s inp => step cfg inp s) s

/-- The diagram beside the machine. -/
def phaseAfter (cfg : Config) : State → Phase → List Inputs → Phase
  | _, p, [] => p
  | s, p, inp :: clocks => phaseAfter cfg (step cfg inp s) (nextPhase cfg inp s p) clocks

theorem in_run {p : Phase} (now : In p s) (clocks : List Inputs) :
    In (phaseAfter cfg s p clocks) (run cfg s clocks) := by
  induction clocks generalizing s p with
  | nil => exact now
  | cons inp clocks ih => exact ih (in_step now)

/- Padding without a check sum. -/

theorem pad_step (inp : Inputs) (fullD : cfg.fullD = true) (no_crc : cfg.crcEn = false) (now : In .pAD s) :
    In .pAD (step cfg inp s) ∧ (step cfg inp s).mTxEn = true ∧
      ((step cfg inp s).txDone = true → s.txDone = true) ∧
      ((step cfg inp s).txAbort = true → s.txAbort = true) ∧
      ((step cfg inp s).txRetry = true → s.txRetry = true) := by
  have no_collision : collision cfg inp = false := by simp [collision, fullD]
  have no_under : underRun cfg inp s = false := by simp [underRun, now.data0]
  have no_jam : startJam cfg inp s = false := by simp [startJam, no_collision, no_under]
  have no_done : startTxDone cfg inp s = false := by simp [startTxDone, now.fCS, now.data1]
  have no_abort : startTxAbort cfg inp s = false := by
    simp [startTxAbort, tooBig, lateCollision, maxCollisionOccured, excessiveDeferOccured, no_jam,
      no_under, now.data0, now.fCS, now.defer]
  have later : In (nextPhase cfg inp s .pAD) (step cfg inp s) := in_step now
  have stays : nextPhase cfg inp s .pAD = .pAD := by simp [nextPhase, no_collision, no_crc]
  rw [stays] at later
  refine ⟨later, ?_, ?_, ?_, ?_⟩
  · simp [step, now.pAD]
  · simp [step, latch, no_done]
  · simp [step, latch, no_abort]
  · simp [step, latch, startTxRetry, no_jam]

/-- Once it pads it never stops, and tells nobody. -/
theorem pad_never_ends (fullD : cfg.fullD = true) (no_crc : cfg.crcEn = false) (now : In .pAD s)
    (clocks : List Inputs) :
    In .pAD (run cfg s clocks) ∧ (clocks ≠ [] → (run cfg s clocks).mTxEn = true) ∧
      ((run cfg s clocks).txDone = true → s.txDone = true) ∧
      ((run cfg s clocks).txAbort = true → s.txAbort = true) ∧
      ((run cfg s clocks).txRetry = true → s.txRetry = true) := by
  induction clocks using List.reverseRecOn with
  | nil => exact ⟨now, fun other => absurd rfl other, id, id, id⟩
  | append_singleton clocks inp ih =>
    obtain ⟨there, _, done, abort, retry⟩ := ih
    obtain ⟨later, on, done', abort', retry'⟩ :=
      pad_step inp fullD no_crc there
    have next : run cfg s (clocks ++ [inp]) = step cfg inp (run cfg s clocks) := List.foldl_append
    rw [next]
    exact ⟨later, fun _ => on, fun set_ => done (done' set_), fun set_ => abort (abort' set_),
      fun set_ => retry (retry' set_)⟩

/-- The registers after a reset, but in full duplex and without the check sum. -/
def padOnly : Config where
  pad := true
  crcEn := false
  fullD := true
  hugEn := false
  dlyCrcEn := false
  noBckof := false
  exDfrEn := false
  minFL := 0x40#16
  maxFL := 0x600#16
  iPGT := 0x12#7
  iPGR1 := 0x0C#7
  iPGR2 := 0x12#7
  collValid := 0x3F#6
  maxRet := 0xF#4

/-- A frame of one byte, offered all the time. -/
def oneByte : Inputs := ⟨true, true, false, 0x55#8, false, false, false, false⟩

def padding : State := run padOnly reset (List.replicate 40 oneByte)

/-- An underrun, the carrier and a collision at once. -/
def disturbed : Inputs := ⟨false, false, true, 0x55#8, true, true, false, false⟩

theorem one_byte_never_ends :
    In .pAD (run padOnly padding (List.replicate 5 disturbed)) ∧
      (List.replicate 5 disturbed ≠ [] →
        (run padOnly padding (List.replicate 5 disturbed)).mTxEn = true) ∧
      ((run padOnly padding (List.replicate 5 disturbed)).txDone = true →
        padding.txDone = true) ∧
      ((run padOnly padding (List.replicate 5 disturbed)).txAbort = true →
        padding.txAbort = true) ∧
      ((run padOnly padding (List.replicate 5 disturbed)).txRetry = true →
        padding.txRetry = true) ∧
      padding.txDone = false ∧ padding.txAbort = false ∧ padding.txRetry = false := by
  have never := @pad_never_ends padOnly padding rfl rfl (by constructor <;> decide +kernel)
    (List.replicate 5 disturbed)
  obtain ⟨there, on, done, abort, retry⟩ := never
  exact ⟨there, on, done, abort, retry, by decide +kernel, by decide +kernel, by decide +kernel⟩

end EthTransmit
