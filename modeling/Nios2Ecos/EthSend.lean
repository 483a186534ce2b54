import Mathlib.Data.List.Basic
import Mathlib.Data.BitVec
import Mathlib.Algebra.Order.Ring.Nat
import Nios2Ecos.EthTransmit
import Nios2Ecos.Runs

/- The transmitter at work in full duplex: the side of the DMA that feeds it the bytes of one
   frame after the other, and the nibbles that leave on the MII. -/
namespace EthSend
open EthCrc EthTransmit

abbrev Byte := BitVec 8

inductive TxState where
  | idle
  | send
  | wait
  deriving DecidableEq

/-- The streaming side of the transmit DMA. `queue` is what is left of the frame, its current
    byte first, `first` says that this is the first byte of all, and `backlog` are the frames in
    memory. `taken` is the history of the frames begun. -/
structure Host where
  txState : TxState
  queue : List Byte
  first : Bool
  flop : Bool
  txStatValidR : Bool
  backlog : List (List Byte)
  taken : List (List Byte)

/-- What neither side decides: when the DMA has words for a frame to begin, when its FIFO is
    empty and when it has taken the status, and the other inputs of the MAC. -/
structure Env where
  txStart : Bool
  dffEmpty : Bool
  txStatAck : Bool
  carrierSenseTx2 : Bool
  collisionTx2 : Bool
  randomEq0 : Bool
  randomEqByteCnt : Bool

structure System where
  mac : State
  host : Host
  stream : List (Bool × BitVec 4)

def txStartFrm (host : Host) : Bool := host.txState = .send && host.first

def txAck (mac : State) (host : Host) : Bool := mac.txUsedData && host.flop

/-- The data is that of the FIFO's word, which is there while the FIFO is not empty. -/
def inputs (env : Env) (mac : State) (host : Host) : Inputs where
  txStartFrm := txStartFrm host
  txEndFrm := host.txState = .send && host.queue.length == 1
  txUnderRun := host.txState = .send && txAck mac host && env.dffEmpty
  txData := host.queue.headD 0#8
  carrierSenseTx2 := env.carrierSenseTx2
  collisionTx2 := env.collisionTx2
  randomEq0 := env.randomEq0
  randomEqByteCnt := env.randomEqByteCnt

def txStatValid (mac : State) (host : Host) : Bool :=
  mac.txRetry || !txStartFrm host && mac.txAbort || !txStartFrm host && mac.txDone

def hostStep (env : Env) (mac : State) (host : Host) : Host :=
  let flop :=
    if txStatValid mac host then false else if mac.txUsedData then !host.flop else host.flop
  match host.txState with
  | .idle =>
    match host.backlog with
    | f :: backlog =>
      if env.txStart then ⟨.send, f, true, flop, false, backlog, host.taken ++ [f]⟩
      else { host with flop := flop, txStatValidR := false }
    | [] => { host with flop := flop, txStatValidR := false }
  | .send =>
    { host with
      txState :=
        if host.queue.length == 1 && txAck mac host || txStatValid mac host then .wait else .send
      queue := if txAck mac host then host.queue.tail else host.queue
      first := host.first && !txAck mac host
      flop := flop
      txStatValidR := txStatValid mac host || host.txStatValidR }
  | .wait =>
    { host with
      -- the other side acknowledges only the status that it was told of
      txState := if env.txStatAck && host.txStatValidR then .idle else .wait
      flop := flop
      txStatValidR := txStatValid mac host || host.txStatValidR }

def clock (cfg : Config) (sys : System) (env : Env) : System :=
  let mac := step cfg (inputs env sys.mac sys.host) sys.mac
  { mac := mac
    host := hostStep env sys.mac sys.host
    stream := sys.stream ++ [(mac.mTxEn, mac.mTxD)] }

def start (backlog : List (List Byte)) : System where
  mac := reset
  host := ⟨.idle, [], false, false, false, backlog, []⟩
  stream := []

def runs (cfg : Config) (backlog : List (List Byte)) (clocks : List Env) : System :=
  clocks.foldl (clock cfg) (start backlog)

/-- While a frame goes out, the FIFO has a word of it: the DMA reads the memory fast enough. -/
def fed (sys : System) (env : Env) : Prop := sys.host.txState = .send → env.dffEmpty = false

def Fed (cfg : Config) (sys : System) (clocks : List Env) : Prop :=
  Runs.Along (fun sys env => some (clock cfg sys env)) fed sys clocks

/- The format of a frame on the wire. -/

def nibbles (bytes : List Byte) : List (BitVec 4) :=
  bytes.flatMap fun (byte : Byte) => [byte.setWidth 4, (byte >>> 4).setWidth 4]

variable (cfg : Config)

def paddedLength (f : List Byte) : Nat :=
  if cfg.pad then max f.length (cfg.minFL.toNat - 4) else f.length

def body (f : List Byte) : List (BitVec 4) :=
  nibbles f ++ List.replicate (2 * (paddedLength cfg f - f.length)) 0#4

def checked (f : List Byte) : List (BitVec 4) :=
  body cfg f ++ if cfg.crcEn then fcs (crcRun 0xFFFFFFFF#32 (body cfg f)) 8 else []

def preamble : List (BitVec 4) := List.replicate 15 5#4 ++ [0xD#4]

def wire (frames : List (Nat × List Byte)) : List (Bool × BitVec 4) :=
  frames.flatMap fun p =>
    List.replicate p.1 (false, 0#4) ++ (preamble ++ checked cfg p.2).map (true, ·)

/-- What the length registers must allow, and the counters. A frame that is padded needs the
    check sum, as only this ends the padding. -/
structure Fits (f : List Byte) : Prop where
  some_data : 0 < f.length
  padding : cfg.pad = true →
    4 < cfg.minFL.toNat ∧ (cfg.crcEn = true ∨ cfg.minFL.toNat - 4 ≤ f.length)
  counters : paddedLength cfg f + 4 ≤ 2 ^ 15
  limit : cfg.hugEn = true ∨ paddedLength cfg f + 4 ≤ cfg.maxFL.toNat

/- Where the transmitter stands, with the frames that it is through with, the clocks since and
   the nibbles of the frame at hand. -/

structure Between (mac : State) (host : Host) (done : List (Nat × List Byte)) : Prop where
  flop : host.flop = false
  used : mac.txUsedData = false
  taken : host.taken =
    done.map Prod.snd ++ if host.txState = .send then [host.queue] else []
  offered : host.txState = .send →
    host.first = true ∧ host.txStatValidR = false ∧ (mac.statusLatch = false ∨ mac.txDone = false)
  status : host.txState = .wait → mac.txDone = true

structure Busy (mac : State) (host : Host) (done : List (Nat × List Byte)) (f : List Byte) :
    Prop where
  taken : host.taken = done.map Prod.snd ++ [f]
  valid : host.txStatValidR = false
  done : mac.txDone = false
  latched : txStartFrm host = true → mac.statusLatch = true
  finished : mac.packetFinished = false
  finishedQ : mac.packetFinishedQ = false

structure Counted (mac : State) (sent : List (BitVec 4)) : Prop where
  nib : mac.nibCnt.toNat = sent.length
  byte : mac.byteCnt.toNat = sent.length / 2
  crc : mac.crc = crcRun 0xFFFFFFFF#32 sent

def low (byte : Byte) : BitVec 4 := byte.setWidth 4

/-- The last index says that the frame at hand has begun. -/
inductive Stage (mac : State) (host : Host) :
    List (Nat × List Byte) → Nat → List (BitVec 4) → Bool → Prop where
  | defer {done : List (Nat × List Byte)} (now : In .defer mac) (between : Between mac host done)
      (nib : mac.nibCnt = 0#16) :
      Stage mac host done 0 [] false
  | iPG {done : List (Nat × List Byte)} (now : In .iPG mac) (between : Between mac host done)
      (rule1 : mac.rule1 = true) (finished : mac.packetFinished = false)
      (nib : mac.nibCnt.toNat ≤ cfg.iPGT.toNat) :
      Stage mac host done (mac.nibCnt.toNat + 1) [] false
  | idle {done : List (Nat × List Byte)} {gap : Nat} (now : In .idle mac)
      (between : Between mac host done) (finished : mac.packetFinished = false)
      (long : cfg.iPGT.toNat + 2 ≤ gap) :
      Stage mac host done gap [] false
  | preamble {done : List (Nat × List Byte)} {gap j : Nat} {f : List Byte}
      (now : In .preamble mac) (busy : Busy mac host done f) (send : host.txState = .send)
      (queue : host.queue = f) (first : host.first = true) (flop : host.flop = false)
      (used : mac.txUsedData = false) (nib : mac.nibCnt.toNat = j) (less : j ≤ 15)
      (byte : mac.byteCnt = 0#16) (crc : mac.crc = 0xFFFFFFFF#32)
      (long : cfg.iPGT.toNat + 3 ≤ gap) :
      Stage mac host done gap (List.replicate j 5#4) true
  | data0 {done : List (Nat × List Byte)} {gap : Nat} {sent queue : List Byte}
      (now : In .data0 mac) (busy : Busy mac host done (sent ++ queue))
      (send : host.txState = .send) (rest : host.queue = queue) (more : queue ≠ [])
      (flop : host.flop = false) (used : mac.txUsedData = true)
      (counted : Counted mac (nibbles sent)) (long : cfg.iPGT.toNat + 3 ≤ gap) :
      Stage mac host done gap (preamble ++ nibbles sent) true
  | data1 {done : List (Nat × List Byte)} {gap : Nat} {sent queue : List Byte} {byte : Byte}
      (now : In .data1 mac) (busy : Busy mac host done (sent ++ byte :: queue))
      (send : host.txState = .send) (rest : host.queue = byte :: queue)
      (flop : host.flop = true) (used : mac.txUsedData = true)
      (counted : Counted mac (nibbles sent ++ [low byte])) (long : cfg.iPGT.toNat + 3 ≤ gap) :
      Stage mac host done gap (preamble ++ nibbles sent ++ [low byte]) true
  | pAD {done : List (Nat × List Byte)} {gap m : Nat} {f : List Byte}
      (now : In .pAD mac) (busy : Busy mac host done f) (wait : host.txState = .wait)
      (flop : host.flop = false) (used : mac.txUsedData = false)
      (less : f.length + m / 2 < paddedLength cfg f)
      (counted : Counted mac (nibbles f ++ List.replicate m 0#4))
      (long : cfg.iPGT.toNat + 3 ≤ gap) :
      Stage mac host done gap (preamble ++ nibbles f ++ List.replicate m 0#4) true
  | fCS {done : List (Nat × List Byte)} {gap j : Nat} {f : List Byte} {sent : List (BitVec 4)}
      (now : In .fCS mac) (busy : Busy mac host done f) (wait : host.txState = .wait)
      (flop : host.flop = false) (used : mac.txUsedData = false) (crcEn : cfg.crcEn = true)
      (nib : mac.nibCnt.toNat = j) (length : sent.length = j) (less : j < 8)
      (byte : mac.byteCnt.toNat = paddedLength cfg f + j / 2)
      (crc : sent ++ fcs mac.crc (8 - j) = fcs (crcRun 0xFFFFFFFF#32 (body cfg f)) 8)
      (long : cfg.iPGT.toNat + 3 ≤ gap) :
      Stage mac host done gap (preamble ++ body cfg f ++ sent) true

def line (done : List (Nat × List Byte)) (gap : Nat) (part : List (BitVec 4)) :
    List (Bool × BitVec 4) :=
  wire cfg done ++ List.replicate gap (false, 0#4) ++ part.map (true, ·)

/-- What a clock adds, by the pair that it puts out. -/
inductive Change (host host' : Host) (out : Bool × BitVec 4) :
    List (Nat × List Byte) → Nat → List (BitVec 4) → Bool →
      List (Nat × List Byte) → Nat → List (BitVec 4) → Bool → Prop where
  | waits {done : List (Nat × List Byte)} {gap : Nat} (nothing : out = (false, 0#4))
      (soon : host.txState = .send → gap + 1 < cfg.iPGT.toNat + 3) :
      Change host host' out done gap [] false done (gap + 1) [] false
  | starts {done : List (Nat × List Byte)} {gap : Nat} (nothing : out = (false, 0#4)) :
      Change host host' out done gap [] false done (gap + 1) [] true
  | sends {done : List (Nat × List Byte)} {gap : Nat} {part : List (BitVec 4)}
      {nibble : BitVec 4} (puts : out = (true, nibble)) :
      Change host host' out done gap part true done gap (part ++ [nibble]) true
  | ends {done : List (Nat × List Byte)} {gap : Nat} {part : List (BitVec 4)} {f : List Byte}
      {nibble : BitVec 4} (puts : out = (true, nibble))
      (taken : host.taken = done.map Prod.snd ++ [f]) (wait : host'.txState = .wait)
      (whole : part ++ [nibble] = preamble ++ checked cfg f) :
      Change host host' out done gap part true (done ++ [(gap, f)]) 0 [] false

/- Full duplex. -/

section
variable {cfg : Config} {inp : Inputs} {s : State}

structure Quiet (cfg : Config) (inp : Inputs) : Prop where
  fullD : cfg.fullD = true
  under : inp.txUnderRun = false

theorem quiet_collision (quiet : Quiet cfg inp) : collision cfg inp = false := by
  simp [collision, quiet.fullD]

theorem quiet_carrier (quiet : Quiet cfg inp) : carrierSense cfg inp = false := by
  simp [carrierSense, quiet.fullD]

theorem quiet_underRun (quiet : Quiet cfg inp) : underRun cfg inp s = false := by
  simp [underRun, quiet.under]

theorem quiet_jam (quiet : Quiet cfg inp) : startJam cfg inp s = false := by
  simp [startJam, quiet_collision quiet, quiet_underRun quiet]

structure Calm (s : State) : Prop where
  dly : s.dlyCrcCnt = 0#3
  retry : s.txRetry = false
  abort : s.txAbort = false

theorem calm_step (quiet : Quiet cfg inp) (plain : cfg.dlyCrcEn = false) (calm : Calm s)
    (big : tooBig cfg inp s = false) (deferred : excessiveDeferOccured cfg inp s = false) :
    Calm (step cfg inp s) := by
  constructor
  · simp [step, plain, calm.dly]
  · simp [step, latch, startTxRetry, quiet_jam quiet, calm.retry]
  · simp [step, latch, startTxAbort, lateCollision, maxCollisionOccured, big, deferred,
      quiet_jam quiet, quiet_underRun quiet, calm.abort]

def gapPhase : Phase → Bool
  | .defer => true
  | .iPG => true
  | .idle => true
  | _ => false

theorem gap_step (cfg : Config) (inp : Inputs) {p : Phase} (now : In p s)
    (gap : gapPhase p = true) :
    tooBig cfg inp s = false ∧ startTxDone cfg inp s = false ∧
      (step cfg inp s).txUsedData = false ∧ (step cfg inp s).mTxEn = false ∧
      (step cfg inp s).mTxD = 0#4 := by
  obtain ⟨idle, iPG, preamble, data0, data1, pAD, fCS, jam, backOff, defer⟩ := now
  cases p <;> simp [gapPhase] at gap <;>
    simp [tooBig, startTxDone, step, startData0, startData1, mTxDD, idle, iPG, preamble, data0,
      data1, pAD, fCS, jam, backOff, defer]

end

variable {cfg : Config} {env : Env} {mac : State} {host : Host} {sys : System}
variable {done : List (Nat × List Byte)} {gap : Nat} {part : List (BitVec 4)}

theorem quiet_inputs (fullD : cfg.fullD = true)
    (words : host.txState = .send → env.dffEmpty = false) : Quiet cfg (inputs env mac host) := by
  refine ⟨fullD, ?_⟩
  by_cases send : host.txState = .send
  · simp [inputs, words send]
  · simp [inputs, send]

theorem fed_cons {clocks : List Env} (fed : Fed cfg sys (env :: clocks)) :
    (sys.host.txState = .send → env.dffEmpty = false) ∧ Fed cfg (clock cfg sys env) clocks :=
  ⟨fed.1, fed.2 _ rfl⟩

theorem fed_append {before after : List Env} (fed : Fed cfg sys (before ++ after)) :
    Fed cfg sys before ∧ Fed cfg (before.foldl (clock cfg) sys) after :=
  Runs.along_append fed (Runs.exec_total (clock cfg) sys before)

theorem fed_always {clocks : List Env} (words : ∀ env ∈ clocks, env.dffEmpty = false) :
    Fed cfg sys clocks := by
  have all : Runs.Along (fun sys env => some (clock cfg sys env))
      (fun _ env => env.dffEmpty = false) sys clocks := Runs.along_actions words sys
  refine Runs.along_mono ?_ all
  intro _ _ word _
  exact word

theorem between_step (cfg : Config) (env : Env) {p : Phase} (now : In p mac)
    (gap : gapPhase p = true) (calm : Calm mac) (between : Between mac host done) :
    Between (step cfg (inputs env mac host) mac) (hostStep env mac host) done := by
  obtain ⟨_, no_done, used, _, _⟩ := gap_step cfg (inputs env mac host) now gap
  obtain ⟨flop, used_now, taken, offered, status⟩ := between
  have flop' : (if txStatValid mac host then false
      else if mac.txUsedData then !host.flop else host.flop) = false := by
    simp [used_now, flop]
  cases state : host.txState with
  | idle =>
    have not_offered : txStartFrm host = false := by simp [txStartFrm, state]
    have latched : (step cfg (inputs env mac host) mac).statusLatch = false := by
      simp [step, latch, inputs, not_offered]
    rw [state] at taken
    cases backlog : host.backlog with
    | nil =>
      constructor
      · simp [hostStep, state, backlog, flop']
      · exact used
      · simpa [hostStep, state, backlog] using taken
      · simp [hostStep, state, backlog]
      · simp [hostStep, state, backlog]
    | cons f rest =>
      cases ready : env.txStart with
      | false =>
        constructor
        · simp [hostStep, state, backlog, ready, flop']
        · exact used
        · simpa [hostStep, state, backlog, ready] using taken
        · simp [hostStep, state, backlog, ready]
        · simp [hostStep, state, backlog, ready]
      | true =>
        constructor
        · simp [hostStep, state, backlog, ready, flop']
        · exact used
        · simpa [hostStep, state, backlog, ready] using taken
        · intro _
          refine ⟨?_, ?_, .inl latched⟩
          · simp [hostStep, state, backlog, ready]
          · simp [hostStep, state, backlog, ready]
        · simp [hostStep, state, backlog, ready]
  | send =>
    obtain ⟨first, valid, latch_or_done⟩ := offered state
    have offers : txStartFrm host = true := by simp [txStartFrm, state, first]
    have no_ack : txAck mac host = false := by simp [txAck, used_now]
    have no_status : txStatValid mac host = false := by simp [txStatValid, offers, calm.retry]
    have stays : hostStep env mac host = { host with flop := false } := by
      simp [hostStep, state, no_ack, no_status, used_now, flop]
    rw [stays]
    constructor
    · rfl
    · exact used
    · exact taken
    · intro _
      refine ⟨first, valid, .inr ?_⟩
      rcases latch_or_done with not_latched | not_done
      · simp [step, latch, inputs, offers, not_latched]
      · simp [step, latch, no_done, not_done]
    · intro other
      rw [state] at other
      cases other
  | wait =>
    rw [state] at taken
    constructor
    · simp [hostStep, state, flop']
    · exact used
    · cases ack : env.txStatAck <;> cases valid : host.txStatValidR <;>
        simpa [hostStep, state, ack, valid] using taken
    · cases ack : env.txStatAck <;> cases valid : host.txStatValidR <;>
        simp [hostStep, state, ack, valid]
    · intro _
      have no_frame : (inputs env mac host).txStartFrm = false := by
        simp [inputs, txStartFrm, state]
      simp [step, latch, no_frame, no_done, status state]
structure Moved (cfg : Config) (env : Env) (mac : State) (host : Host)
    (done : List (Nat × List Byte)) (gap : Nat) (part : List (BitVec 4)) (begun : Bool) :
    Prop where
  calm : Calm (step cfg (inputs env mac host) mac)
  stage : ∃ done' gap' part' begun',
    Stage cfg (step cfg (inputs env mac host) mac) (hostStep env mac host) done' gap' part' begun' ∧
    Change cfg host (hostStep env mac host)
      ((step cfg (inputs env mac host) mac).mTxEn, (step cfg (inputs env mac host) mac).mTxD)
      done gap part begun done' gap' part' begun'

theorem moved_defer (quiet : Quiet cfg (inputs env mac host)) (plain : cfg.dlyCrcEn = false)
    (calm : Calm mac) (now : In .defer mac) (between : Between mac host done)
    (nib : mac.nibCnt = 0#16) :
    Moved cfg env mac host done 0 [] false := by
  obtain ⟨big, no_done, _, off, zero⟩ :=
    gap_step cfg (inputs env mac host) now rfl
  have short : excessiveDefer cfg mac = false := by simp [excessiveDefer, nib]
  have deferred : excessiveDeferOccured cfg (inputs env mac host) mac = false := by
    simp [excessiveDeferOccured, short]
  have later : In (nextPhase cfg (inputs env mac host) mac .defer)
      (step cfg (inputs env mac host) mac) := in_step now
  have to_gap : nextPhase cfg (inputs env mac host) mac .defer = .iPG := by
    simp [nextPhase, short, quiet_carrier quiet]
  rw [to_gap] at later
  have zeroed : (step cfg (inputs env mac host) mac).nibCnt = 0#16 := by
    simp [step, resetNibCnt, startIPG, now.defer, short, quiet_carrier quiet]
  have stage : Stage cfg (step cfg (inputs env mac host) mac) (hostStep env mac host) done
      ((step cfg (inputs env mac host) mac).nibCnt.toNat + 1) [] false := by
    refine .iPG later (between_step cfg env now rfl calm between) ?_ ?_ ?_
    · simp [step, latch, now.idle, now.backOff, quiet.fullD]
    · simp [step, packetFinishedD, no_done, big, quiet_underRun quiet, lateCollision,
        maxCollisionOccured, quiet_jam quiet, deferred]
    · rw [zeroed]
      exact Nat.zero_le _
  rw [zeroed] at stage
  refine ⟨calm_step quiet plain calm big deferred, done, 0 + 1, [], false, stage, ?_⟩
  rw [off, zero]
  exact .waits rfl (by omega)

theorem gap_ule {limit : BitVec 7} {nib : BitVec 16} (small : nib.toNat ≤ limit.toNat) :
    limit.ule (nib.setWidth 7) = decide (nib.toNat = limit.toNat) := by
  have bound := limit.isLt
  have low_bits : (nib.setWidth 7).toNat = nib.toNat := by
    rw [BitVec.toNat_setWidth]
    omega
  rw [BitVec.ule, low_bits, decide_eq_decide]
  omega

theorem moved_iPG (quiet : Quiet cfg (inputs env mac host)) (plain : cfg.dlyCrcEn = false)
    (calm : Calm mac) (now : In .iPG mac) (between : Between mac host done)
    (rule1 : mac.rule1 = true) (nib : mac.nibCnt.toNat ≤ cfg.iPGT.toNat) :
    Moved cfg env mac host done (mac.nibCnt.toNat + 1) [] false := by
  obtain ⟨big, no_done, _, off, zero⟩ :=
    gap_step cfg (inputs env mac host) now rfl
  have deferred : excessiveDeferOccured cfg (inputs env mac host) mac = false := by
    simp [excessiveDeferOccured, now.defer]
  have later : In (nextPhase cfg (inputs env mac host) mac .iPG)
      (step cfg (inputs env mac host) mac) := in_step now
  have between' := between_step cfg env now rfl calm between
  have finished' : (step cfg (inputs env mac host) mac).packetFinished = false := by
    simp [step, packetFinishedD, no_done, big, quiet_underRun quiet, lateCollision,
      maxCollisionOccured, quiet_jam quiet, deferred]
  have change : Change cfg host (hostStep env mac host)
      ((step cfg (inputs env mac host) mac).mTxEn, (step cfg (inputs env mac host) mac).mTxD)
      done (mac.nibCnt.toNat + 1) [] false done (mac.nibCnt.toNat + 1 + 1) [] false := by
    rw [off, zero]
    exact .waits rfl (by omega)
  refine ⟨calm_step quiet plain calm big deferred, done, mac.nibCnt.toNat + 1 + 1, [], false, ?_,
    change⟩
  by_cases last : mac.nibCnt.toNat = cfg.iPGT.toNat
  · have to_idle : nextPhase cfg (inputs env mac host) mac .iPG = .idle := by
      simp [nextPhase, rule1, gap_ule nib, last]
    rw [to_idle] at later
    exact .idle later between' finished' (by omega)
  · have stays : nextPhase cfg (inputs env mac host) mac .iPG = .iPG := by
      simp [nextPhase, rule1, gap_ule nib, last]
    rw [stays] at later
    have counted : (step cfg (inputs env mac host) mac).nibCnt.toNat = mac.nibCnt.toNat + 1 := by
      have adds : (step cfg (inputs env mac host) mac).nibCnt = mac.nibCnt + 1#16 := by
        simp [step, resetNibCnt, incrementNibCnt, startDefer, startIPG, startFCS, now.defer,
          now.preamble, now.jam, now.idle, now.iPG, now.data1, now.pAD, now.backOff, no_done, big,
          quiet_jam quiet, rule1]
      have bound := cfg.iPGT.isLt
      rw [adds, BitVec.toNat_add, BitVec.toNat_ofNat]
      omega
    have stage : Stage cfg (step cfg (inputs env mac host) mac) (hostStep env mac host) done
        ((step cfg (inputs env mac host) mac).nibCnt.toNat + 1) [] false := by
      refine .iPG later between' ?_ finished' (by omega)
      simp [step, latch, now.idle, now.backOff, quiet.fullD]
    rw [counted] at stage
    exact stage

theorem moved_idle (quiet : Quiet cfg (inputs env mac host)) (plain : cfg.dlyCrcEn = false)
    (calm : Calm mac) (now : In .idle mac) (between : Between mac host done)
    (finished : mac.packetFinished = false) (long : cfg.iPGT.toNat + 2 ≤ gap) :
    Moved cfg env mac host done gap [] false := by
  obtain ⟨big, no_done, used, off, zero⟩ :=
    gap_step cfg (inputs env mac host) now rfl
  have deferred : excessiveDeferOccured cfg (inputs env mac host) mac = false := by
    simp [excessiveDeferOccured, now.defer]
  have later : In (nextPhase cfg (inputs env mac host) mac .idle)
      (step cfg (inputs env mac host) mac) := in_step now
  have between' := between_step cfg env now rfl calm between
  have finished' : (step cfg (inputs env mac host) mac).packetFinished = false := by
    simp [step, packetFinishedD, no_done, big, quiet_underRun quiet, lateCollision,
      maxCollisionOccured, quiet_jam quiet, deferred]
  have finishedQ' : (step cfg (inputs env mac host) mac).packetFinishedQ = false := by
    simp [step, finished]
  refine ⟨calm_step quiet plain calm big deferred, done, gap + 1, [], ?_⟩
  by_cases offers : host.txState = .send
  · obtain ⟨first, valid, latch_or_done⟩ := between.offered offers
    have begins : txStartFrm host = true := by simp [txStartFrm, offers, first]
    have asks : (inputs env mac host).txStartFrm = true := begins
    have to_preamble : nextPhase cfg (inputs env mac host) mac .idle = .preamble := by
      simp [nextPhase, quiet_carrier quiet, asks]
    rw [to_preamble] at later
    have no_ack : txAck mac host = false := by simp [txAck, between.used]
    have no_status : txStatValid mac host = false := by simp [txStatValid, begins, calm.retry]
    have host_stays : hostStep env mac host = { host with flop := false } := by
      simp [hostStep, offers, no_ack, no_status, between.used, between.flop]
    rw [host_stays]
    have taken := between.taken
    rw [if_pos offers] at taken
    refine ⟨true, ?_, ?_⟩
    · refine Stage.preamble (j := 0) later ⟨taken, valid, ?_, ?_, finished', finishedQ'⟩ offers
        rfl first rfl used ?_ (Nat.zero_le _) ?_ ?_ (by omega)
      · rcases latch_or_done with not_latched | not_done
        · simp [step, latch, asks, not_latched]
        · simp [step, latch, no_done, not_done]
      · intro _
        simp [step, latch, asks, now.idle]
      · simp [step, resetNibCnt, now.idle]
      · simp [step, resetByteCnt, now.idle, asks]
      · simp [step, crcStep, initializeCrc, now.idle]
    · rw [off, zero]
      exact .starts rfl
  · have no_frame : (inputs env mac host).txStartFrm = false := by
      simp [inputs, txStartFrm, offers]
    have stays : nextPhase cfg (inputs env mac host) mac .idle = .idle := by
      simp [nextPhase, quiet_carrier quiet, no_frame]
    rw [stays] at later
    refine ⟨false, .idle later between' finished' (by omega), ?_⟩
    rw [off, zero]
    exact .waits rfl fun other => absurd other offers

end EthSend
