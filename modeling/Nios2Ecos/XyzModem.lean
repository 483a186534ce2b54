import Mathlib.Data.List.Basic

/- Receiver side of the X/Y-modem stream handler. A line is the finite list of
   outcomes of getCharTimeout: a byte, or a two second timeout; past its end
   the line stays silent. cyg_crc16 is a parameter of the whole development. -/
namespace XyzModem

abbrev Line := List (Option UInt8)

def SOH : UInt8 := 0x01
def STX : UInt8 := 0x02
def EOT : UInt8 := 0x04
def ACK : UInt8 := 0x06
def NAK : UInt8 := 0x15
def CAN : UInt8 := 0x18
def PAD : UInt8 := 0x1A
def crcRequest : UInt8 := 0x43

def maxRetries : Nat := 20
def maxRetriesWithCrc : Nat := 10
def canCount : Nat := 3

inductive Stat where
  | ok | access | noZmodem | timeout | eof | cancel | frame | cksum | sequence
  deriving DecidableEq, Repr

def Stat.code : Stat → Int
  | .ok => 0
  | .access => -1
  | .noZmodem => -2
  | .timeout => -3
  | .eof => -4
  | .cancel => -5
  | .frame => -6
  | .cksum => -7
  | .sequence => -8

inductive Mode where
  | xmodem | ymodem
  deriving DecidableEq, Repr

/-- The static `xyz` record, with the line still to be read and the bytes sent so far
    in place of the channel. `bufp` is the offset of the pointer into `pkt`. -/
structure Xyz where
  line : Line
  sent : List UInt8
  pkt : List UInt8
  bufp : Nat
  blk : UInt8
  cblk : UInt8
  crc1 : UInt8
  crc2 : UInt8
  nextBlk : UInt8
  len : Int
  mode : Mode
  totalRetries : Nat
  totalSOH : Nat
  totalSTX : Nat
  totalCAN : Nat
  crcMode : Bool
  atEof : Bool
  txAck : Bool
  deriving DecidableEq, Repr

def putChar (x : Xyz) (c : UInt8) : Xyz := { x with sent := x.sent ++ [c] }

def getCharTimeout (x : Xyz) : Option UInt8 × Xyz :=
  match x.line with
  | [] => (none, x)
  | e :: rest => (e, { x with line := rest })

def afterIdle : Line → Line
  | [] => []
  | none :: rest => rest
  | some _ :: rest => afterIdle rest

def xyzModemFlush (x : Xyz) : Xyz := { x with line := afterIdle x.line }

inductive Found where
  | header (c : UInt8)
  | stop (stat : Stat)
  deriving DecidableEq, Repr

/-- The `while (!hdr_found)` loop. CANs are counted over the whole search, and EOT
    counts only as the very first character. -/
def findHdr (canTotal hdrChars : Nat) (x : Xyz) : Line → Found × Xyz
  | [] => (.stop .timeout, { x with line := [] })
  | none :: rest => (.stop .timeout, xyzModemFlush { x with line := rest })
  | some c :: rest =>
    if c = SOH then (.header c, { x with line := rest, totalSOH := x.totalSOH + 1 })
    else if c = STX then (.header c, { x with line := rest, totalSTX := x.totalSTX + 1 })
    else if c = CAN then
      if canTotal + 1 = canCount then
        (.stop .cancel, { x with line := rest, totalCAN := x.totalCAN + 1 })
      else findHdr (canTotal + 1) (hdrChars + 1) { x with totalCAN := x.totalCAN + 1 } rest
    else if c = EOT ∧ hdrChars + 1 = 1 then (.stop .eof, putChar { x with line := rest } ACK)
    else findHdr canTotal (hdrChars + 1) x rest

def takeBytes : Nat → Line → List UInt8 × Line
  | 0, line => ([], line)
  | _ + 1, [] => ([], [])
  | _ + 1, none :: rest => ([], rest)
  | n + 1, some b :: rest => (b :: (takeBytes n rest).1, (takeBytes n rest).2)

def checksum (data : List UInt8) : UInt16 :=
  data.foldl (fun sum b => sum + b.toUInt16) 0

def checkMessage (cygCrc16 : List UInt8 → UInt16) (x : Xyz) : Stat × Xyz :=
  let data := x.pkt.take x.len.toNat
  if x.blk ^^^ x.cblk ≠ 0xFF then (.frame, xyzModemFlush x)
  else if x.crcMode then
    if cygCrc16 data ≠ (x.crc1.toUInt16 <<< 8) ||| x.crc2.toUInt16 then (.cksum, x) else (.ok, x)
  else if x.crc1.toUInt16 ≠ checksum data &&& 0xFF then (.cksum, x) else (.ok, x)

def readTrailer (cygCrc16 : List UInt8 → UInt16) (x : Xyz) : Stat × Xyz :=
  match getCharTimeout x with
  | (none, x) => (.timeout, x)
  | (some crc1, x) =>
    let x := { x with crc1 := crc1 }
    if x.crcMode then
      match getCharTimeout x with
      | (none, x) => (.timeout, x)
      | (some crc2, x) => checkMessage cygCrc16 { x with crc2 := crc2 }
    else checkMessage cygCrc16 x

def messageLength (c : UInt8) : Nat := if c = SOH then 128 else 1024

/-- Everything after the header byte `c`. A timeout inside the data leaves the bytes
    received so far in `pkt`. -/
def readMessage (cygCrc16 : List UInt8 → UInt16) (c : UInt8) (x : Xyz) : Stat × Xyz :=
  match getCharTimeout x with
  | (none, x) => (.timeout, x)
  | (some blk, x) =>
    let x := { x with blk := blk }
    match getCharTimeout x with
    | (none, x) => (.timeout, x)
    | (some cblk, x) =>
      let n := messageLength c
      let data := (takeBytes n x.line).1
      let x := { x with
        cblk := cblk, len := n, bufp := 0
        pkt := data ++ x.pkt.drop data.length, line := (takeBytes n x.line).2 }
      if data.length < n then (.timeout, x) else readTrailer cygCrc16 x

def sendPendingAck (x : Xyz) : Xyz :=
  if x.txAck then { putChar x ACK with txAck := false } else x

def xyzModemGetHdr (cygCrc16 : List UInt8 → UInt16) (x : Xyz) : Stat × Xyz :=
  match findHdr 0 0 (sendPendingAck x) (sendPendingAck x).line with
  | (.stop stat, x) => (stat, x)
  | (.header c, x) => readMessage cygCrc16 c x

def prompt (x : Xyz) : Xyz := putChar x (if x.crcMode then crcRequest else NAK)

def askAgain (x : Xyz) : Xyz := { prompt x with totalRetries := x.totalRetries + 1 }

def openChannel (mode : Mode) (x : Xyz) : Xyz :=
  { x with
    len := 0, crcMode := true, atEof := false, txAck := false, mode := mode
    totalRetries := 0, totalSOH := 0, totalSTX := 0, totalCAN := 0 }

def retryOpen (crcRetries : Int) (x : Xyz) : Xyz :=
  askAgain { x with crcMode := if crcRetries ≤ 0 then false else x.crcMode }

def openLoop (cygCrc16 : List UInt8 → UInt16) :
    Nat → Int → Stat → Xyz → Except Stat Xyz
  | 0, _, stat, _ => .error stat
  | retries + 1, crcRetries, _, x =>
    match xyzModemGetHdr cygCrc16 x with
    | (.ok, x) =>
      -- a first packet with another number is dropped without an acknowledge
      .ok { x with txAck := if x.blk = 0 then true else x.txAck, nextBlk := 1, len := 0 }
    | (.timeout, x) =>
      openLoop cygCrc16 retries (crcRetries - 1) .timeout (retryOpen (crcRetries - 1) x)
    | (.cancel, _) => .error .cancel
    | (stat, x) => openLoop cygCrc16 retries crcRetries stat x

/-- `chan` is what open() returned for the serial port. When it failed `*err` keeps
    the caller's 0. -/
def xyzModemStreamOpen (cygCrc16 : List UInt8 → UInt16) (chan : Int) (mode : Mode) (x : Xyz) :
    Except Stat Xyz :=
  if chan < 0 then .error .ok
  else match mode with
    | .xmodem => .ok { prompt (openChannel mode x) with nextBlk := 1 }
    | .ymodem =>
      openLoop cygCrc16 maxRetries maxRetriesWithCrc .ok (prompt (openChannel mode x))

def dropPadding (data : List UInt8) : Nat → Nat
  | 0 => 0
  | n + 1 => if data[n]? = some PAD then dropPadding data n else n + 1

/-- The length kept of an accepted packet: padding is dropped only when the packet
    ends in at least three pad bytes. -/
def keptLength (data : List UInt8) (n : Nat) : Nat :=
  if data[n - 1]? = some PAD ∧ data[n - 2]? = some PAD ∧ data[n - 3]? = some PAD then
    dropPadding data n
  else n

def acceptPacket (x : Xyz) : Xyz :=
  { x with
    txAck := true, nextBlk := x.nextBlk + 1
    len := keptLength (x.pkt.drop x.bufp) x.len.toNat }

def finishTransfer (cygCrc16 : List UInt8 → UInt16) (x : Xyz) : Stat × Xyz :=
  match x.mode with
  | .xmodem => (.eof, { putChar x ACK with atEof := true })
  | .ymodem =>
    let final := xyzModemGetHdr cygCrc16 (askAgain (putChar x ACK))
    (final.1, { putChar final.2 ACK with atEof := true })

/-- The `while (retries-- > 0)` loop of xyzModem_stream_read. When the tries run out
    the status is whatever the last one left. -/
def nextPacket (cygCrc16 : List UInt8 → UInt16) : Nat → Stat → Xyz → Stat × Xyz
  | 0, stat, x => (stat, x)
  | retries + 1, _, x =>
    match xyzModemGetHdr cygCrc16 x with
    | (.ok, x) =>
      if x.blk = x.nextBlk then (.ok, acceptPacket x)
      else if x.blk = x.nextBlk - 1 then nextPacket cygCrc16 retries .ok (putChar x ACK)
      else nextPacket cygCrc16 retries .sequence (askAgain x)
    | (.cancel, x) => (.cancel, x)
    | (.eof, x) => finishTransfer cygCrc16 x
    | (stat, x) => nextPacket cygCrc16 retries stat (askAgain x)

/-- How one call of xyzModem_stream_read ends. `err` is `none` when `*err` was not
    written. In `fault` memcpy was given a negative length; the bytes are those copied before. -/
inductive ReadResult where
  | done (bytes : List UInt8) (err : Option Stat) (x : Xyz)
  | fault (bytes : List UInt8) (x : Xyz)
  | unfinished
  deriving DecidableEq, Repr

def copyLength (x : Xyz) (size : Int) : Int := if size < x.len then size else x.len

def advanceBuffer (x : Xyz) (n : Int) : Xyz :=
  { x with len := x.len - n, bufp := x.bufp + n.toNat }

def copied (x : Xyz) (size : Int) : List UInt8 :=
  (x.pkt.drop x.bufp).take (copyLength x size).toNat

def readLoop (cygCrc16 : List UInt8 → UInt16) :
    Nat → List UInt8 → Int → Xyz → ReadResult
  | 0, _, _, _ => .unfinished
  | fuel + 1, total, size, x =>
    if x.atEof ∨ size ≤ 0 then .done total none x
    else
      let search := if x.len = 0 then nextPacket cygCrc16 maxRetries .cancel x else (.ok, x)
      let x := search.2
      if search.1.code < 0 then .done total (some search.1) { x with len := -1 }
      else if x.atEof then readLoop cygCrc16 fuel total size x
      else if copyLength x size < 0 then .fault total x
      else readLoop cygCrc16 fuel (total ++ copied x size) (size - copyLength x size)
        (advanceBuffer x (copyLength x size))

/-- Rounds of the outer loop that are enough for any line: each one uses up room in
    the buffer or characters of the line. -/
def readFuel (size : Int) (x : Xyz) : Nat := size.toNat + x.line.length + 2

def xyzModemStreamRead (cygCrc16 : List UInt8 → UInt16) (size : Int) (x : Xyz) : ReadResult :=
  readLoop cygCrc16 (readFuel size x) [] size x

end XyzModem
