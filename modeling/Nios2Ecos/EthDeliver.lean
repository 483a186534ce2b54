import Mathlib.Data.List.GetD
import Mathlib.Tactic.IntervalCases
import Nios2Ecos.EthSend
import Nios2Ecos.EthReceive

/- The frames that the receiver hands on, of a stream of frames on the MII with gaps between
   them. -/
namespace EthDeliver
open EthCrc EthReceive
open EthSend (nibbles)
open EthTransmit (latch)

structure Status where
  crcError : Bool
  shortFrame : Bool
  dribbleNibble : Bool
  receivedPacketTooBig : Bool
  deriving DecidableEq

structure Received where
  bytes : List Byte
  aborted : Bool
  status : Status
  deriving DecidableEq

/-- The history of the outputs: the frame that comes in, the status loaded last, and the frames
    that have come to their end. -/
structure Reader where
  bytes : List Byte
  aborted : Bool
  status : Status
  received : List Received

def statusNow (mac : State) : Status where
  crcError := mac.latchedCrcError
  shortFrame := mac.shortFrame
  dribbleNibble := mac.dribbleNibble
  receivedPacketTooBig := mac.receivedPacketTooBig

def readBytes (r : Reader) (mac : State) : List Byte :=
  if mac.rxValid then if mac.rxStartFrm then [mac.rxData] else r.bytes ++ [mac.rxData]
  else r.bytes

def readAborted (r : Reader) (mac : State) : Bool :=
  mac.rxAbort || r.aborted && !(mac.rxValid && mac.rxStartFrm)

def readStatus (r : Reader) (mac : State) : Status :=
  if mac.loadRxStatus then statusNow mac else r.status

def record (r : Reader) (mac : State) : Reader where
  bytes := readBytes r mac
  aborted := readAborted r mac
  status := readStatus r mac
  received :=
    if mac.rxValid && mac.rxEndFrm then
      r.received ++ [⟨readBytes r mac, readAborted r mac, readStatus r mac⟩]
    else r.received

structure System where
  mac : State
  reader : Reader

def clock (cfg : Config) (sys : System) (inp : Inputs) : System where
  mac := step cfg inp sys.mac
  reader := record sys.reader sys.mac

def start : System where
  mac := reset
  reader := ⟨[], false, ⟨false, false, false, false⟩, []⟩

def runs (cfg : Config) (clocks : List Inputs) : System := clocks.foldl (clock cfg) start

/- What is on the MII. -/

/-- The nibble of a clock, if there is one. -/
def onWire (inp : Inputs) : Option (BitVec 4) := if inp.mRxDV then some inp.mRxD else none

/-- The inputs that put it there. -/
def fromWire (out : Option (BitVec 4)) : Inputs := ⟨out.isSome, out.getD 0#4, false, false⟩

theorem onWire_fromWire (outs : List (Option (BitVec 4))) :
    (outs.map fromWire).map onWire = outs := by
  rw [List.map_map]
  have same (out : Option (BitVec 4)) : (onWire ∘ fromWire) out = out := by
    cases out <;> rfl
  rw [List.map_congr_left fun out _ => same out, List.map_id']

theorem fromWire_listens (outs : List (Option (BitVec 4))) :
    ∀ inp ∈ outs.map fromWire, inp.transmitting = false := by
  intro inp member
  obtain ⟨out, _, rfl⟩ := List.mem_map.mp member
  rfl

/-- A frame with its preamble, a nibble too many perhaps, and the gap behind it. -/
structure Sending where
  fives : Nat
  bytes : List Byte
  dribble : Option (BitVec 4)
  gap : Nat

def framed (f : Sending) : List (Option (BitVec 4)) :=
  (List.replicate f.fives 5#4 ++ [0xD#4] ++ nibbles f.bytes ++ f.dribble.toList).map some ++
    List.replicate f.gap none

def stream (gap : Nat) (frames : List Sending) : List (Option (BitVec 4)) :=
  List.replicate gap none ++ frames.flatMap framed

variable (cfg : Config)

/-- The receiver is done with one frame before the next begins, and what goes before the start
    delimiter is long enough. `count` is what the gap has counted. -/
def Spaced : Nat → List Sending → Prop
  | _, [] => True
  | count, f :: frames =>
    (cfg.r_IFG = true ∨ 24 ≤ count + f.fives) ∧ 0 < f.fives ∧ 8 ≤ f.bytes.length ∧
      f.bytes.length + f.dribble.toList.length < 2 ^ 16 ∧
      (cfg.hugEn = true ∨ f.bytes.length + f.dribble.toList.length ≤ cfg.maxFL.toNat) ∧
      3 ≤ f.gap ∧ Spaced (f.gap - 1) frames

/- What should come of a frame. -/

def byteAt (f : List Byte) (i : Nat) : Byte := f.getD i 0#8

/-- So many of the first bytes are those of the station address. -/
def matched (f : List Byte) (n : Nat) : Bool :=
  (List.range n).all fun i => byteAt f i == mACByte cfg i

def allOnes (f : List Byte) (n : Nat) : Bool := (List.range n).all fun i => byteAt f i == 0xFF#8

/-- The bit of the hash table for the destination address. -/
def hashed (f : List Byte) : Bool :=
  (byteAt f 0).getLsbD 0 &&
    hashBit cfg ((crcRun 0xFFFFFFFF#32 (nibbles (f.take 6))).extractLsb' 26 6)

def accepts (f : List Byte) : Bool :=
  matched cfg f 6 || allOnes f 6 && !cfg.r_Bro || hashed cfg f || cfg.r_Pro

def resultOf (bytes : List Byte) (dribble : Bool) : Received where
  bytes := bytes
  aborted := !accepts cfg bytes
  status :=
    { crcError := crcError (crcRun 0xFFFFFFFF#32 (nibbles bytes))
      shortFrame := bytes.length < cfg.minFL.toNat
      dribbleNibble := dribble
      receivedPacketTooBig := false }

def result (f : Sending) : Received := resultOf cfg f.bytes f.dribble.isSome

/- Outside of the data. -/

section
variable {cfg} {inp : Inputs} {mac : State} {r : Reader}

/-- Nothing is on its way to the outputs. -/
structure Clear (mac : State) : Prop where
  dly : mac.dlyCrcCnt = 0#4
  hashGood : mac.crcHashGood = false
  multicast : mac.multicast = false
  multicastOK : mac.multicastOK = false
  valid_d : mac.rxValid_d = false
  valid : mac.rxValid = false
  start_d : mac.rxStartFrm_d = false
  start : mac.rxStartFrm = false
  end_d : mac.rxEndFrm_d = false
  end_ : mac.rxEndFrm = false
  abort : mac.rxAbort = false
  load : mac.loadRxStatus = false
  short : mac.shortFrame = false
  big : mac.receivedPacketTooBig = false

theorem clear_step (plain : cfg.dlyCrcEn = false) (data0 : mac.stateData0 = false)
    (data1 : mac.stateData1 = false) (clear : Clear mac) : Clear (step cfg inp mac) := by
  constructor <;>
    simp [step, generateRxValid, generateRxStartFrm, generateRxEndFrm, dribbleRxEndFrm,
      takeSample, stateData, plain, data0, data1, clear.dly, clear.hashGood, clear.multicast,
      clear.multicastOK, clear.valid_d, clear.start_d, clear.end_d, clear.abort, clear.short,
      clear.big]

theorem clear_record (clear : Clear mac) : (record r mac).received = r.received := by
  simp [record, clear.valid]

/-- The counter of the gap. -/
def Counts (cfg : Config) (mac : State) (count : Nat) : Prop :=
  cfg.r_IFG = false → mac.iFGCounter.toNat = min count 24

theorem counts_step {count : Nat} (counts : Counts cfg mac count)
    (running : (mac.stateDrop || mac.stateIdle || mac.statePreamble || mac.stateSFD) = true)
    (goes_on : resetIFGCounter inp mac = false) : Counts cfg (step cfg inp mac) (count + 1) := by
  intro off
  have value := counts off
  have flag : iFGCounterEq24 cfg mac = decide (24 ≤ count) := by
    have is24 := @BitVec.toNat_inj 5 mac.iFGCounter 0x18#5
    have const : (0x18#5).toNat = 24 := rfl
    rw [value, const] at is24
    rw [iFGCounterEq24, off, Bool.or_false, beq_eq_decide, decide_eq_decide, ← is24]
    omega
  by_cases full : 24 ≤ count
  · have stays : (step cfg inp mac).iFGCounter = mac.iFGCounter := by
      simp [step, goes_on, incrementIFGCounter, flag, full]
    rw [stays, value]
    omega
  · have adds : (step cfg inp mac).iFGCounter = mac.iFGCounter + 1#5 := by
      simp [step, goes_on, incrementIFGCounter, flag, full, running]
    rw [adds, BitVec.toNat_add, value, BitVec.toNat_ofNat]
    omega

end

/- A frame on its way through the receiver. -/

section
variable {cfg} {inp : Inputs} {mac : State} {r : Reader} {earlier : List Received}
variable {bytes : List Byte} {nib : BitVec 4}

/-- The state between two bytes, and in the middle of one. -/
structure Low (mac : State) (bytes : List Byte) : Prop where
  now : In .data0 mac
  dly : mac.dlyCrcCnt = 0#4
  ifg : mac.iFGCounter = 0#5
  byteCnt : mac.byteCnt.toNat = bytes.length
  crc : mac.crc = crcRun 0xFFFFFFFF#32 (nibbles bytes)
  latched : 1 ≤ bytes.length → mac.latchedByte = byteAt bytes (bytes.length - 1)
  load : mac.loadRxStatus = false
  short : mac.shortFrame = false
  big : mac.receivedPacketTooBig = false
  dribble : mac.dribbleNibble = false

structure High (mac : State) (bytes : List Byte) (nib : BitVec 4) : Prop where
  now : In .data1 mac
  dly : mac.dlyCrcCnt = 0#4
  ifg : mac.iFGCounter = 0#5
  byteCnt : mac.byteCnt.toNat = bytes.length
  crc : mac.crc = crcRun 0xFFFFFFFF#32 (nibbles bytes ++ [nib])
  latched : mac.latchedByte.extractLsb' 4 4 = nib
  load : mac.loadRxStatus = false
  short : mac.shortFrame = false
  big : mac.receivedPacketTooBig = false
  dribble : mac.dribbleNibble = false
  error : 1 ≤ bytes.length →
    mac.latchedCrcError = crcError (crcRun 0xFFFFFFFF#32 (nibbles bytes))

/-- The bytes on their way to the outputs. -/
structure PipeLow (mac : State) (r : Reader) (earlier : List Received) (bytes : List Byte) :
    Prop where
  delay : mac.delayData = false
  valid_d : mac.rxValid_d = false
  start_d : mac.rxStartFrm_d = false
  end_d : mac.rxEndFrm_d = false
  valid : mac.rxValid = decide (2 ≤ bytes.length)
  start : mac.rxStartFrm = decide (bytes.length = 2)
  end_ : mac.rxEndFrm = false
  data_d : 2 ≤ bytes.length → mac.rxData_d = byteAt bytes (bytes.length - 2)
  data : 2 ≤ bytes.length → mac.rxData = byteAt bytes (bytes.length - 2)
  out : 2 ≤ bytes.length → readBytes r mac = bytes.take (bytes.length - 1)
  received : r.received = earlier

structure PipeHigh (mac : State) (r : Reader) (earlier : List Received) (bytes : List Byte) :
    Prop where
  delay : mac.delayData = true
  valid_d : mac.rxValid_d = decide (1 ≤ bytes.length)
  start_d : mac.rxStartFrm_d = decide (bytes.length = 1)
  end_d : mac.rxEndFrm_d = false
  valid : mac.rxValid = false
  start : mac.rxStartFrm = false
  end_ : mac.rxEndFrm = false
  data_d : 1 ≤ bytes.length → mac.rxData_d = byteAt bytes (bytes.length - 1)
  data : 2 ≤ bytes.length → mac.rxData = byteAt bytes (bytes.length - 2)
  out : 2 ≤ bytes.length → r.bytes = bytes.take (bytes.length - 1)
  received : r.received = earlier

theorem count_eq {k : Nat} (value : mac.byteCnt.toNat = k) (c : Nat) (small : c < 2 ^ 16) :
    (mac.byteCnt == BitVec.ofNat 16 c) = decide (k = c) := by
  have same := @BitVec.toNat_inj 16 mac.byteCnt (BitVec.ofNat 16 c)
  rw [value, BitVec.toNat_ofNat, Nat.mod_eq_of_lt small] at same
  rw [beq_eq_decide, decide_eq_decide]
  exact same.symm

theorem low_valid (low : Low mac bytes) :
    generateRxValid mac = decide (1 ≤ bytes.length) := by
  have is_zero := count_eq low.byteCnt 0 (by decide)
  rw [generateRxValid, low.now.data0, low.dly, bne, is_zero]
  cases bytes <;> simp

theorem low_start (low : Low mac bytes) (plain : cfg.dlyCrcEn = false) :
    generateRxStartFrm cfg mac = decide (bytes.length = 1) := by
  have is_one := count_eq low.byteCnt 1 (by decide)
  simp [generateRxStartFrm, low.now.data0, plain, is_one]

theorem max_frame (value : mac.byteCnt.toNat = bytes.length)
    (room : cfg.hugEn = true ∨ bytes.length < cfg.maxFL.toNat) :
    byteCntMaxFrame cfg mac = false := by
  rcases room with huge | less
  · simp [byteCntMaxFrame, huge]
  · have other : mac.byteCnt ≠ cfg.maxFL := by
      intro same
      rw [same] at value
      omega
    simp [byteCntMaxFrame, other]

theorem pipe_low (low : Low mac bytes) (plain : cfg.dlyCrcEn = false)
    (room : cfg.hugEn = true ∨ bytes.length < cfg.maxFL.toNat) (on : inp.mRxDV = true)
    (pipe : PipeLow mac r earlier bytes) :
    PipeHigh (step cfg inp mac) (record r mac) earlier bytes := by
  have max := max_frame low.byteCnt room
  constructor
  · simp [step, low.now.data0]
  · simp [step, low_valid low]
  · simp [step, low_start low plain]
  · simp [step, generateRxEndFrm, on, max]
  · simp [step, pipe.valid_d]
  · simp [step, pipe.start_d]
  · simp [step, pipe.end_d, dribbleRxEndFrm, low.now.data1]
  · intro some_byte
    simp [step, low_valid low, some_byte, stateData, low.now.data0, low.latched some_byte]
  · intro two
    simp [step, pipe.data_d two]
  · exact pipe.out
  · simp [record, pipe.end_, pipe.received]

theorem byteAt_snoc {i : Nat} (byte : Byte) (inside : i < bytes.length) :
    byteAt (bytes ++ [byte]) i = byteAt bytes i :=
  List.getD_append _ _ _ _ inside

theorem byteAt_last (bytes : List Byte) (byte : Byte) :
    byteAt (bytes ++ [byte]) bytes.length = byte := by
  rw [byteAt, List.getD_append_right _ _ _ _ (Nat.le_refl _), Nat.sub_self]
  rfl

theorem take_next (bytes : List Byte) {i : Nat} (inside : i < bytes.length) :
    bytes.take i ++ [byteAt bytes i] = bytes.take (i + 1) := by
  rw [byteAt, List.getD_eq_getElem _ _ inside, List.take_append_getElem]

theorem pipe_high (high : High mac bytes nib) (byte : Byte)
    (pipe : PipeHigh mac r earlier bytes) (on : inp.mRxDV = true) :
    PipeLow (step cfg inp mac) (record r mac) earlier (bytes ++ [byte]) := by
  have length : (bytes ++ [byte]).length = bytes.length + 1 := by simp
  have not_data0 := high.now.data0
  have kept (some_byte : 1 ≤ bytes.length) :
      byteAt (bytes ++ [byte]) (bytes.length + 1 - 2) = byteAt bytes (bytes.length - 1) := by
    rw [byteAt_snoc byte (by omega)]
    rfl
  constructor
  · simp [step, not_data0]
  · simp [step, generateRxValid, not_data0]
  · simp [step, generateRxStartFrm, not_data0]
  · simp [step, generateRxEndFrm, not_data0]
  · rw [length]
    simp [step, pipe.valid_d]
  · rw [length]
    simp [step, pipe.start_d]
  · simp [step, pipe.end_d, dribbleRxEndFrm, on]
  · rw [length]
    intro two
    rw [kept (by omega), ← pipe.data_d (by omega)]
    simp [step, generateRxValid, not_data0, pipe.delay]
  · rw [length]
    intro two
    rw [kept (by omega), ← pipe.data_d (by omega)]
    simp [step]
  · rw [length]
    intro two
    have bytes_kept : (record r mac).bytes = r.bytes := by simp [record, readBytes, pipe.valid]
    have next : (step cfg inp mac).rxValid = true := by
      simp [step, pipe.valid_d]
      omega
    have first : (step cfg inp mac).rxStartFrm = decide (bytes.length = 1) := by
      simp [step, pipe.start_d]
    have data : (step cfg inp mac).rxData = byteAt bytes (bytes.length - 1) := by
      rw [← pipe.data_d (by omega)]
      simp [step]
    have whole : (bytes ++ [byte]).take (bytes.length + 1 - 1) = bytes := by simp
    rw [readBytes, next, first, data, bytes_kept, whole, if_pos rfl]
    by_cases one : bytes.length = 1
    · obtain ⟨only, rfl⟩ := List.length_eq_one_iff.mp one
      simp [byteAt]
    · rw [if_neg (by simpa using one), pipe.out (by omega), take_next bytes (by omega),
        Nat.sub_add_cancel (by omega), List.take_length]
  · simp [record, pipe.valid, pipe.received]

/- The station address, beside the bytes. -/

structure AddressLow (cfg : Config) (mac : State) (r : Reader) (bytes : List Byte) : Prop where
  hashGood : mac.crcHashGood = false
  broadcast : 2 ≤ bytes.length → bytes.length ≤ 7 →
    mac.broadcast = allOnes bytes (bytes.length - 1)
  multicast : bytes.length ≤ 7 →
    mac.multicast = (decide (2 ≤ bytes.length) && (byteAt bytes 0).getLsbD 0)
  multicastOK : bytes.length ≤ 7 →
    mac.multicastOK = (decide (bytes.length = 7) && hashed cfg bytes)
  unicastOK : 3 ≤ bytes.length → bytes.length ≤ 8 →
    mac.unicastOK = matched cfg bytes (bytes.length - 2)
  abort : mac.rxAbort = (decide (bytes.length = 8) && !accepts cfg bytes)
  out : 2 ≤ bytes.length →
    readAborted r mac = (decide (8 ≤ bytes.length) && !accepts cfg bytes)

structure AddressHigh (cfg : Config) (mac : State) (r : Reader) (bytes : List Byte) : Prop where
  hashGood : mac.crcHashGood = decide (bytes.length = 6)
  hash : bytes.length = 6 →
    mac.crcHash = (crcRun 0xFFFFFFFF#32 (nibbles bytes)).extractLsb' 26 6
  broadcast : 1 ≤ bytes.length → bytes.length ≤ 7 →
    mac.broadcast = allOnes bytes (min bytes.length 6)
  multicast : bytes.length ≤ 7 →
    mac.multicast = (decide (1 ≤ bytes.length) && (byteAt bytes 0).getLsbD 0)
  multicastOK : bytes.length ≤ 7 →
    mac.multicastOK = (decide (bytes.length = 7) && hashed cfg bytes)
  unicastOK : 2 ≤ bytes.length → bytes.length ≤ 7 →
    mac.unicastOK = matched cfg bytes (bytes.length - 1)
  abort : mac.rxAbort = true → bytes.length = 7 ∧ accepts cfg bytes = false
  early : 2 ≤ bytes.length → bytes.length ≤ 6 → readAborted r mac = false
  soon : bytes.length = 7 → readAborted r mac = true → accepts cfg bytes = false
  late : 8 ≤ bytes.length → readAborted r mac = !accepts cfg bytes

theorem matched_succ (cfg : Config) (f : List Byte) (n : Nat) :
    matched cfg f (n + 1) = (matched cfg f n && byteAt f n == mACByte cfg n) := by
  simp [matched, List.range_succ]

theorem allOnes_succ (f : List Byte) (n : Nat) :
    allOnes f (n + 1) = (allOnes f n && byteAt f n == 0xFF#8) := by
  simp [allOnes, List.range_succ]

theorem matched_snoc {n : Nat} (byte : Byte) (inside : n ≤ bytes.length) :
    matched cfg (bytes ++ [byte]) n = matched cfg bytes n := by
  induction n with
  | zero => rfl
  | succ n ih =>
    rw [matched_succ, matched_succ, ih (by omega), byteAt_snoc byte (by omega)]

theorem allOnes_snoc {n : Nat} (byte : Byte) (inside : n ≤ bytes.length) :
    allOnes (bytes ++ [byte]) n = allOnes bytes n := by
  induction n with
  | zero => rfl
  | succ n ih =>
    rw [allOnes_succ, allOnes_succ, ih (by omega), byteAt_snoc byte (by omega)]

theorem hashed_snoc (byte : Byte) (six : 6 ≤ bytes.length) :
    hashed cfg (bytes ++ [byte]) = hashed cfg bytes := by
  rw [hashed, hashed, List.take_append_of_le_length six, byteAt_snoc byte (by omega)]

theorem accepts_snoc (byte : Byte) (six : 6 ≤ bytes.length) :
    accepts cfg (bytes ++ [byte]) = accepts cfg bytes := by
  rw [accepts, accepts, matched_snoc byte six, allOnes_snoc byte six, hashed_snoc byte six]

/-- What is compared in a clock in which the byte before the last one is at the output. -/
theorem unicast_next (cfg : Config) {k : Nat} (value : mac.byteCnt.toNat = k) (data : stateData mac = true)
    (two : 2 ≤ k) (seven : k ≤ 7) :
    nextUnicastOK cfg mac =
      (mac.rxData == mACByte cfg (k - 2) && (decide (k = 2) || mac.unicastOK)) := by
  have is (c : Nat) (small : c < 2 ^ 16) := count_eq value c small
  have is2 := is 2 (by decide)
  have is3 := is 3 (by decide)
  have is4 := is 4 (by decide)
  have is5 := is 5 (by decide)
  have is6 := is 6 (by decide)
  have is7 := is 7 (by decide)
  interval_cases k <;> simp [nextUnicastOK, data, is2, is3, is4, is5, is6, is7]

theorem address_low (low : Low mac bytes)
    (pipe : PipeLow mac r earlier bytes) (address : AddressLow cfg mac r bytes) :
    AddressHigh cfg (step cfg inp mac) (record r mac) bytes := by
  have is (c : Nat) (small : c < 2 ^ 16) := count_eq low.byteCnt c small
  have no_abort (seven : bytes.length ≤ 7) : mac.rxAbort = false := by
    rw [address.abort]
    simp
    omega
  have data : stateData mac = true := by simp [stateData, low.now.data0]
  have is7 := is 7 (by decide)
  have abort_next : (step cfg inp mac).rxAbort =
      (rxAddressInvalid cfg mac && decide (bytes.length = 7)) := by
    simp [step, data, is7]
  have outside : (step cfg inp mac).rxValid = false := by simp [step, pipe.valid_d]
  have aborted : readAborted (record r mac) (step cfg inp mac) =
      ((step cfg inp mac).rxAbort || readAborted r mac) := by
    simp [readAborted, record, outside]
  have rejects (seven : bytes.length = 7) (invalid : rxAddressInvalid cfg mac = true) :
      accepts cfg bytes = false := by
    rw [rxAddressInvalid, broadcastOK, address.unicastOK (by omega) (by omega),
      address.broadcast (by omega) (by omega), address.multicastOK (by omega), seven] at invalid
    have six := matched_succ cfg bytes 5
    rw [accepts, six]
    cases five : matched cfg bytes 5 with
    | false => cases ones : allOnes bytes 6 <;> simpa [five, ones] using invalid
    | true => simp [five] at invalid
  constructor
  · simp [step, low.now.data0, is 6 (by decide)]
  · intro six
    rw [← low.crc]
    simp [step, low.now.data0, low.now.idle, is 6 (by decide), six]
  · intro one seven
    have small : mac.byteCnt.ult 7#16 = decide (bytes.length < 7) := by
      simp [BitVec.ult, low.byteCnt]
    obtain ⟨n, next⟩ : ∃ n, bytes.length = n + 1 := ⟨bytes.length - 1, by omega⟩
    have last : mac.latchedByte = byteAt bytes n := by
      rw [low.latched one, next, Nat.add_sub_cancel]
    have quiet := no_abort seven
    by_cases six : bytes.length = 7
    · have old := address.broadcast (by omega) seven
      simp [step, low.now.data0, small, is 1 (by decide), six, quiet, pipe.end_, old]
    · have count : min bytes.length 6 = n + 1 := by omega
      rw [count, allOnes_succ, ← last]
      by_cases first : n = 0
      · subst first
        by_cases ones : mac.latchedByte = 0xFF#8 <;>
          simp [step, low.now.data0, small, is 1 (by decide), next, ones, allOnes]
      · have old := address.broadcast (by omega) seven
        rw [next, Nat.add_sub_cancel] at old
        have less : n + 1 < 7 := by omega
        by_cases ones : mac.latchedByte = 0xFF#8
        · simp [step, low.now.data0, small, is 1 (by decide), next, ones, first, quiet, pipe.end_,
            old]
        · simp [step, low.now.data0, small, next, beq_false_of_ne ones, bne, less]
  · intro seven
    have old := address.multicast seven
    have quiet := no_abort seven
    by_cases one : bytes.length = 1
    · have last : mac.latchedByte = byteAt bytes 0 := by
        rw [low.latched (by omega), one]
      simp [step, low.now.data0, is 1 (by decide), one, last, quiet, pipe.end_, old]
    · have same : decide (2 ≤ bytes.length) = decide (1 ≤ bytes.length) := by
        rw [decide_eq_decide]
        omega
      rw [same] at old
      simp [step, is 1 (by decide), one, quiet, pipe.end_, old]
  · intro seven
    simp [step, address.hashGood, pipe.end_, no_abort seven, address.multicastOK seven]
  · intro two seven
    have compared := unicast_next cfg low.byteCnt data two seven
    obtain ⟨n, next⟩ : ∃ n, bytes.length = n + 2 := ⟨bytes.length - 2, by omega⟩
    have unfolded : (step cfg inp mac).unicastOK = nextUnicastOK cfg mac := rfl
    have one_less : bytes.length - 1 = n + 1 := by omega
    rw [unfolded, compared, pipe.data two, one_less, matched_succ, next, Nat.add_sub_cancel,
      Bool.and_comm]
    by_cases first : n = 0
    · subst first
      rfl
    · have old := address.unicastOK (by omega) (by omega)
      rw [next, Nat.add_sub_cancel] at old
      simp [first, old]
  · rw [abort_next]
    intro both
    simp only [Bool.and_eq_true, decide_eq_true_eq] at both
    exact ⟨both.2, rejects both.2 both.1⟩
  · intro two six
    rw [aborted, abort_next, address.out two]
    simp
    omega
  · intro seven
    rw [aborted, abort_next, address.out (by omega)]
    simp [seven]
    exact rejects seven
  · intro eight
    rw [aborted, abort_next, address.out (by omega)]
    simp [eight]
    omega

theorem address_high (high : High mac bytes nib) (byte : Byte)
    (pipe : PipeHigh mac r earlier bytes) (address : AddressHigh cfg mac r bytes) :
    AddressLow cfg (step cfg inp mac) (record r mac) (bytes ++ [byte]) := by
  have length : (bytes ++ [byte]).length = bytes.length + 1 := by simp
  have is (c : Nat) (small : c < 2 ^ 16) := count_eq high.byteCnt c small
  have no_abort (six : bytes.length ≤ 6) : mac.rxAbort = false := by
    cases flag : mac.rxAbort with
    | false => rfl
    | true =>
      obtain ⟨seven, _⟩ := address.abort flag
      omega
  have data : stateData mac = true := by simp [stateData, high.now.data1]
  have not_data0 := high.now.data0
  have abort_next : (step cfg inp mac).rxAbort =
      (decide (bytes.length = 7) && !accepts cfg bytes) := by
    have raw : (step cfg inp mac).rxAbort =
        (rxAddressInvalid cfg mac && decide (bytes.length = 7)) := by
      simp [step, data, is 7 (by decide)]
    rw [raw]
    by_cases seven : bytes.length = 7
    · have six : min bytes.length 6 = 6 := by omega
      have six' : bytes.length - 1 = 6 := by omega
      rw [rxAddressInvalid, broadcastOK, address.unicastOK (by omega) (by omega),
        address.broadcast (by omega) (by omega), address.multicastOK (by omega), six, six',
        accepts]
      simp [seven]
    · simp [seven]
  constructor
  · simp [step, not_data0]
  · rw [length]
    intro two seven
    have quiet := no_abort (by omega)
    have count : min bytes.length 6 = bytes.length := by omega
    rw [Nat.add_sub_cancel, allOnes_snoc byte (Nat.le_refl _)]
    have old := address.broadcast (by omega) (by omega)
    rw [count] at old
    simp [step, not_data0, quiet, pipe.end_, old]
  · rw [length]
    intro seven
    have quiet := no_abort (by omega)
    have old := address.multicast (by omega)
    by_cases one : 1 ≤ bytes.length
    · rw [byteAt_snoc byte (by omega)]
      simp [step, not_data0, quiet, pipe.end_, old]
    · simp [step, not_data0, quiet, pipe.end_, old, one]
  · rw [length]
    intro seven
    have quiet := no_abort (by omega)
    have old := address.multicastOK (by omega)
    by_cases six : bytes.length = 6
    · have set_ := address.multicast (by omega)
      have hash := address.hash six
      rw [hashed_snoc byte (by omega), hashed, List.take_of_length_le (by omega)]
      cases group : (byteAt bytes 0)[0] <;>
        simp [step, quiet, pipe.end_, old, six, set_, hash, address.hashGood, group]
    · simp [step, quiet, pipe.end_, old, six, address.hashGood]
      omega
  · rw [length]
    intro three eight
    have compared := unicast_next cfg high.byteCnt data (by omega) (by omega)
    have unfolded : (step cfg inp mac).unicastOK = nextUnicastOK cfg mac := rfl
    obtain ⟨n, next⟩ : ∃ n, bytes.length = n + 2 := ⟨bytes.length - 2, by omega⟩
    have old := address.unicastOK (by omega) (by omega)
    have one_less : bytes.length - 1 = n + 1 := by omega
    rw [one_less] at old
    have three_less : n + 2 + 1 - 2 = n + 1 := by omega
    rw [unfolded, compared, pipe.data (by omega), matched_snoc byte (by omega), next, old,
      three_less, matched_succ, Nat.add_sub_cancel]
    by_cases first : n = 0
    · subst first
      simp [matched]
    · cases byteAt bytes n == mACByte cfg n <;> simp [first]
  · rw [length, abort_next]
    by_cases seven : bytes.length = 7
    · rw [accepts_snoc byte (by omega)]
      simp [seven]
    · simp [seven]
  · rw [length]
    intro two
    have next : readAborted (record r mac) (step cfg inp mac) =
        ((decide (bytes.length = 7) && !accepts cfg bytes) ||
          readAborted r mac && !decide (bytes.length = 1)) := by
      have first : (step cfg inp mac).rxStartFrm = decide (bytes.length = 1) := by
        simp [step, pipe.start_d]
      have some_byte : (step cfg inp mac).rxValid = true := by
        simp [step, pipe.valid_d]
        omega
      rw [readAborted, abort_next, first, some_byte, Bool.true_and]
      rfl
    rw [next]
    by_cases six : bytes.length ≤ 6
    · by_cases one : bytes.length = 1
      · simp [one]
      · have not_seven : bytes.length ≠ 7 := by omega
        have not_eight : ¬ 8 ≤ bytes.length + 1 := by omega
        rw [address.early (by omega) six]
        simp [not_seven, not_eight]
    · have not_one : bytes.length ≠ 1 := by omega
      have eight : 8 ≤ bytes.length + 1 := by omega
      rw [accepts_snoc byte (by omega)]
      by_cases seven : bytes.length = 7
      · have soon := address.soon seven
        cases flag : readAborted r mac with
        | false => simp [seven]
        | true => simp [seven, soon flag]
      · rw [address.late (by omega)]
        simp [seven, not_one, eight]

theorem nibbles_length (bytes : List Byte) : (nibbles bytes).length = 2 * bytes.length := by
  induction bytes with
  | nil => rfl
  | cons byte bytes ih =>
    rw [nibbles, List.flatMap_cons, List.length_append, ← nibbles, ih]
    simp
    omega

theorem crcRun_snoc (crc : BitVec 32) (sent : List (BitVec 4)) (nibble : BitVec 4) :
    crcRun crc (sent ++ [nibble]) = crcStep (crcRun crc sent) (dataCrc nibble) true false :=
  List.foldl_append

theorem nibbles_joined (bytes : List Byte) (low high : BitVec 4) :
    nibbles (bytes ++ [high ++ low]) = nibbles bytes ++ [low] ++ [high] := by
  have first : (high ++ low).setWidth 4 = low := BitVec.setWidth_append_eq_right
  have second : ((high ++ low) >>> 4).setWidth 4 = high := by
    rw [BitVec.setWidth_ushiftRight_eq_extractLsb]
    exact BitVec.extractLsb'_append_eq_left
  simp [nibbles, first, second]

/-- The first nibble of a byte. -/
theorem low_step (low : Low mac bytes) (plain : cfg.dlyCrcEn = false)
    (room : cfg.hugEn = true ∨ bytes.length < cfg.maxFL.toNat) (on : inp.mRxDV = true) :
    High (step cfg inp mac) bytes inp.mRxD := by
  have max := max_frame low.byteCnt room
  have now := low.now
  have later : In (nextPhase cfg inp mac .data0) (step cfg inp mac) := in_step now
  have to_data1 : nextPhase cfg inp mac .data0 = .data1 := by simp [nextPhase, on, max]
  rw [to_data1] at later
  have same_count : (step cfg inp mac).byteCnt = mac.byteCnt := by
    simp [step, resetByteCounter, incrementByteCounter, on, max, now.sFD, now.preamble, now.idle,
      now.data1]
  refine ⟨later, ?_, ?_, ?_, ?_, ?_, ?_, ?_, ?_, ?_, ?_⟩
  · simp [step, low.dly, plain]
  · simp [step, resetIFGCounter, incrementIFGCounter, now.sFD, now.drop, now.idle, now.preamble,
      low.ifg]
  · rw [same_count, low.byteCnt]
  · rw [crcRun_snoc, ← low.crc]
    simp [step, enable_Crc, initialize_Crc, plain, on, max, stateData, now.data0, now.sFD]
  · exact BitVec.extractLsb'_append_eq_left
  · simp [step, takeSample, on, max]
  · simp [step, takeSample, on, max, low.load, low.short]
  · simp [step, takeSample, on, max, low.load, low.big]
  · simp [step, latch, on, low.dribble]
  · intro one
    rw [← low.crc]
    have some_bytes : mac.byteCnt ≠ 0#16 := by
      intro zero
      have value := low.byteCnt
      rw [zero] at value
      simp at value
      omega
    simp [step, now.sFD, now.data0, some_bytes]

/-- The second one. -/
theorem high_step (high : High mac bytes nib) (plain : cfg.dlyCrcEn = false)
    (room : cfg.hugEn = true ∨ bytes.length < cfg.maxFL.toNat) (small : bytes.length + 1 < 2 ^ 16)
    (on : inp.mRxDV = true) : Low (step cfg inp mac) (bytes ++ [inp.mRxD ++ nib]) := by
  have max := max_frame high.byteCnt room
  have now := high.now
  have later : In (nextPhase cfg inp mac .data1) (step cfg inp mac) := in_step now
  have to_data0 : nextPhase cfg inp mac .data1 = .data0 := by simp [nextPhase, on]
  rw [to_data0] at later
  have length : (bytes ++ [inp.mRxD ++ nib]).length = bytes.length + 1 := by simp
  have latched : (step cfg inp mac).latchedByte = inp.mRxD ++ nib := by
    simp [step, high.latched]
  refine ⟨later, ?_, ?_, ?_, ?_, ?_, ?_, ?_, ?_, ?_⟩
  · simp [step, high.dly, plain]
  · simp [step, resetIFGCounter, incrementIFGCounter, now.sFD, now.drop, now.idle, now.preamble,
      high.ifg]
  · have not_most : mac.byteCnt ≠ 0xFFFF#16 := by
      intro most
      have value := high.byteCnt
      rw [most] at value
      simp at value
      omega
    have adds : (step cfg inp mac).byteCnt = mac.byteCnt + 1#16 := by
      simp [step, resetByteCounter, incrementByteCounter, on, plain, now.sFD, now.data0, now.data1,
        not_most]
    rw [adds, BitVec.toNat_add, high.byteCnt, length, BitVec.toNat_ofNat]
    omega
  · rw [nibbles_joined, crcRun_snoc, ← high.crc]
    simp [step, enable_Crc, initialize_Crc, plain, on, max, stateData, now.data1, now.sFD]
  · intro _
    rw [latched, length, Nat.add_sub_cancel, byteAt_last]
  · simp [step, takeSample, on, now.data0]
  · simp [step, takeSample, on, now.data0, high.load, high.short]
  · simp [step, takeSample, on, now.data0, high.load, high.big]
  · simp [step, latch, on, high.dribble]

/-- All that there is of a frame of which these bytes are in. -/
structure Within (cfg : Config) (sys : System) (earlier : List Received) (bytes : List Byte) :
    Prop where
  low : Low sys.mac bytes
  pipe : PipeLow sys.mac sys.reader earlier bytes
  address : AddressLow cfg sys.mac sys.reader bytes

structure Half (cfg : Config) (sys : System) (earlier : List Received) (bytes : List Byte)
    (nib : BitVec 4) : Prop where
  high : High sys.mac bytes nib
  pipe : PipeHigh sys.mac sys.reader earlier bytes
  address : AddressHigh cfg sys.mac sys.reader bytes

variable {sys : System}

theorem half_clock (plain : cfg.dlyCrcEn = false) (within : Within cfg sys earlier bytes)
    (room : cfg.hugEn = true ∨ bytes.length < cfg.maxFL.toNat)
    (wired : onWire inp = some nib) : Half cfg (clock cfg sys inp) earlier bytes nib := by
  obtain ⟨on, rfl⟩ : inp.mRxDV = true ∧ inp.mRxD = nib := by
    simpa [onWire] using wired
  exact ⟨low_step within.low plain room on, pipe_low within.low plain room on within.pipe,
    address_low within.low within.pipe within.address⟩

theorem byte_clock (plain : cfg.dlyCrcEn = false) (half : Half cfg sys earlier bytes nib)
    (room : cfg.hugEn = true ∨ bytes.length < cfg.maxFL.toNat) (small : bytes.length + 1 < 2 ^ 16)
    {next : BitVec 4} (wired : onWire inp = some next) :
    Within cfg (clock cfg sys inp) earlier (bytes ++ [next ++ nib]) := by
  obtain ⟨on, rfl⟩ : inp.mRxDV = true ∧ inp.mRxD = next := by
    simpa [onWire] using wired
  exact ⟨high_step half.high plain room small on, pipe_high half.high _ half.pipe on,
    address_high half.high _ half.pipe half.address⟩

theorem byte_parts (byte : Byte) : (byte >>> 4).setWidth 4 ++ byte.setWidth 4 = byte := by
  apply BitVec.eq_of_getLsbD_eq
  intro i inside
  rw [BitVec.getLsbD_append]
  split_ifs with less
  · simp [less]
  · rw [BitVec.getLsbD_setWidth, BitVec.getLsbD_ushiftRight, Nat.add_sub_cancel' (by omega)]
    have upper : i - 4 < 4 := by omega
    rw [decide_eq_true upper, Bool.true_and]

theorem bytes_run (more : List Byte) (plain : cfg.dlyCrcEn = false) {clocks : List Inputs}
    (within : Within cfg sys earlier bytes)
    (room : cfg.hugEn = true ∨ (bytes ++ more).length ≤ cfg.maxFL.toNat)
    (small : (bytes ++ more).length < 2 ^ 16)
    (wired : clocks.map onWire = (nibbles more).map some) :
    Within cfg (clocks.foldl (clock cfg) sys) earlier (bytes ++ more) := by
  induction more generalizing sys bytes clocks with
  | nil =>
    have none_left : clocks = [] := List.map_eq_nil_iff.mp wired
    subst none_left
    simpa using within
  | cons byte more ih =>
    have split : (nibbles (byte :: more)).map some = some (byte.setWidth 4) ::
        some ((byte >>> 4).setWidth 4) :: (nibbles more).map some := rfl
    rw [split] at wired
    obtain ⟨first, rest, rfl, wired_first, wired⟩ := List.map_eq_cons_iff.mp wired
    obtain ⟨second, rest, rfl, wired_second, wired⟩ := List.map_eq_cons_iff.mp wired
    rw [List.length_append, List.length_cons] at room small
    have room_here : cfg.hugEn = true ∨ bytes.length < cfg.maxFL.toNat := by
      rcases room with huge | less
      · exact .inl huge
      · exact .inr (by omega)
    have half := half_clock plain within room_here wired_first
    have whole := byte_clock plain half room_here (by omega) wired_second
    rw [byte_parts] at whole
    have lengths : (bytes ++ [byte] ++ more).length = bytes.length + (more.length + 1) := by
      simp
    have later := ih whole (by rw [lengths]; exact room) (by rw [lengths]; exact small) wired
    rw [List.append_assoc] at later
    exact later

end

end EthDeliver
