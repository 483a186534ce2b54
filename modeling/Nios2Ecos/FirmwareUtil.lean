import Nios2Ecos.NorFlash
import Nios2Ecos.InflateStream

/- firmwareutil.c: check the header of an uploaded file, inflate it into a temporary
   file and program that into flash. The file system, zlib and the flash driver are not
   part of the repository; what their calls answer is an environment, and every call
   is logged. The n-th entry of the log is made at time n. -/
namespace FirmwareUtil
open NorFlash InflateStream

def bufferSize : Nat := 8192
def flashBufferSize : Nat := 65536

def tmpFile : String := "/ram/tmp"

structure UpgradeInfo where
  flashBase : Nat
  file : String
  name : String
  startAddress : Nat
  length : Nat
  header : List UInt8

inductive Info where
  | couldNotOpen (file : String)
  | couldNotOpenTemp
  | readingExpecting (header : List UInt8)
  | unexpectedData (header : List UInt8)
  | invalidImage
  | initFailed (err : Int)
  | readFailed
  | deflateFailed (err : Int)
  | writeFailed
  | inProgress (name : String)
  | unlockFailed (stat : Int)
  | erasing
  | eraseFailed (stat : Int)
  | done
  | programming (addr length : Nat)
  | programFailed (stat : Int)
  | dot
  | newline
  | incorrectAmount
  | catastrophic (name : String)
  | updated (name : String)
  deriving DecidableEq, Repr

inductive Event where
  | openUpload (fd : Int)
  | openTmp (fd : Int)
  | reopenTmp (fd : Int)
  | readUpload (actual : Int)
  | inflateInit (err : Int)
  | inflate (err : Int)
  | writeTmp (len : Nat) (actual : Int)
  | readTmp (actual : Int)
  | flashUnlock (addr length : Nat) (stat : Int)
  | flashErase (addr length : Nat) (stat : Int)
  | flashProgram (addr length : Nat) (stat : Int)
  | removeUpload
  | info (i : Info)
  deriving DecidableEq, Repr

/-- The answers of the surroundings. A read at time t gives an error or at most so many
    bytes; a flash call that fails leaves anything in the part it works on. -/
structure Env where
  geometry : Geometry
  blockLocking : Bool
  openUpload : Int
  openTmp : Int
  reopenTmp : Int
  inflateInit : Int
  readUpload : Nat → Option Nat
  writeTmp : Nat → Nat → Int
  readTmp : Nat → Option Nat
  unlock : Nat → Int
  erase : Nat → Int
  program : Nat → Int
  torn : Nat → Content

structure World where
  upload : Option (List UInt8)
  tmp : List UInt8
  flash : Content
  calls : List Call
  log : List Event

def World.emit (w : World) (e : Event) : World := { w with log := w.log ++ [e] }

def World.report (w : World) (i : Info) : World := w.emit (.info i)

def readUpload (env : Env) (n : Nat) (rest : List UInt8) (w : World) :
    Option (List UInt8) × List UInt8 × World :=
  match env.readUpload w.log.length with
  | none => (none, rest, w.emit (.readUpload (-1)))
  | some k =>
    (some (rest.take (min k n)), rest.drop (min k n),
      w.emit (.readUpload (rest.take (min k n)).length))

/-- The loop of `expect` over the characters still to be compared. The seek back after a
    failed read is left out: the file is closed right after it. -/
def expect (env : Env) (strin : List UInt8) :
    List UInt8 → List UInt8 → World → Bool × List UInt8 × World
  | [], rest, w => (true, rest, w)
  | c :: cs, rest, w =>
    match readUpload env 1 rest w with
    | (some [t], rest, w) =>
      if t ≠ c then (false, rest, w.report (.unexpectedData strin)) else expect env strin cs rest w
    | (_, rest, w) => (false, rest, w.report (.readingExpecting strin))

/-- The locals of gunzip_firmware: `next_in` as an offset into inputBuffer, and the part
    of the uploaded file not read yet. -/
structure Gunzip where
  world : World
  rest : List UInt8
  input : List UInt8
  nextIn : Nat
  availIn : Nat
  offset : Nat

def available (s : Gunzip) : List UInt8 := (s.input.drop s.nextIn).take s.availIn

def moved (s : Gunzip) : List UInt8 := available s ++ s.input.drop s.availIn

def refill (env : Env) (s : Gunzip) : Bool × Gunzip :=
  if s.availIn < bufferSize then
    match readUpload env (bufferSize - s.availIn) s.rest s.world with
    | (none, rest, w) => (false, { s with input := moved s, rest := rest, world := w })
    | (some bytes, rest, w) =>
      (true, { s with
        world := w, rest := rest, nextIn := 0, availIn := s.availIn + bytes.length
        input := (moved s).take s.availIn ++ bytes ++
          (moved s).drop (s.availIn + bytes.length) })
  else (true, s)

def reply (z : Inflater bufferSize) (s : Gunzip) : Reply :=
  z.inflate s.world.calls (available s)

def inflated (s : Gunzip) (r : Reply) : Gunzip :=
  { s with
    nextIn := s.nextIn + r.used, availIn := s.availIn - r.used
    world := { s.world with
      calls := s.world.calls ++ [⟨available s, r⟩], log := s.world.log ++ [.inflate r.code] } }

def written (s : Gunzip) (bytes : List UInt8) (actual : Int) : Gunzip :=
  { s with world := { s.world with
      tmp := s.world.tmp ++ bytes.take actual.toNat
      log := s.world.log ++ [.writeTmp bytes.length actual] } }

def Gunzip.report (s : Gunzip) (i : Info) : Gunzip := { s with world := s.world.report i }

def Gunzip.advance (s : Gunzip) (len : Nat) : Gunzip := { s with offset := s.offset + len }

inductive Round where
  | failed (s : Gunzip)
  | ended (s : Gunzip)
  | again (s : Gunzip)

def inflateAndWrite (env : Env) (z : Inflater bufferSize) (s : Gunzip) : Round :=
  let r := reply z s
  let t := inflated s r
  if r.code ≠ zStreamEnd ∧ r.code ≠ zOk then .failed (t.report (.deflateFailed r.code))
  else
    let actual := env.writeTmp t.world.log.length r.out.length
    let t := written t r.out actual
    if actual ≠ r.out.length then .failed (t.report .writeFailed)
    else if r.code = zStreamEnd then .ended (t.advance r.out.length)
    else .again (t.advance r.out.length)

def gunzipRound (env : Env) (z : Inflater bufferSize) (s : Gunzip) : Round :=
  match refill env s with
  | (false, s) => .failed (s.report .readFailed)
  | (true, s) => inflateAndWrite env z s

/-- The loop; `none` when `fuel` rounds do not end it. -/
def gunzipLoop (env : Env) (z : Inflater bufferSize) : Nat → Gunzip → Option (Bool × Gunzip)
  | 0, _ => none
  | fuel + 1, s =>
    match gunzipRound env z s with
    | .failed s => some (false, s)
    | .ended s => some (true, s)
    | .again s => gunzipLoop env z fuel s

def openUpload (env : Env) (w : World) : Int × World :=
  let fd := if w.upload.isSome then env.openUpload else -1
  (fd, w.emit (.openUpload fd))

def openTmp (env : Env) (w : World) : World :=
  { w.emit (.openTmp env.openTmp) with tmp := if env.openTmp ≤ 0 then w.tmp else [] }

def initInflate (env : Env) (w : World) : World :=
  { w.emit (.inflateInit env.inflateInit) with calls := [] }

def startGunzip (rest : List UInt8) (w : World) : Gunzip where
  world := w
  rest := rest
  input := List.replicate bufferSize 0
  nextIn := 0
  availIn := 0
  offset := 0

/-- The inner result is `*actuallength` when true is returned, and `none` for false. -/
def gunzipFirmware (env : Env) (z : Inflater bufferSize) (fuel : Nat) (info : UpgradeInfo)
    (w : World) : Option (Option Nat × World) :=
  match openUpload env w with
  | (fd, w) =>
    if fd ≤ 0 then some (none, w.report (.couldNotOpen info.file))
    else
      let w := openTmp env w
      if env.openTmp ≤ 0 then some (none, w.report .couldNotOpenTemp)
      else
        match expect env info.header info.header (w.upload.getD []) w with
        | (false, _, w) => some (none, w.report .invalidImage)
        | (true, rest, w) =>
          let w := initInflate env w
          -- other errors of inflateInit are not looked at
          if env.inflateInit = zMemError then some (none, w.report (.initFailed env.inflateInit))
          else (gunzipLoop env z fuel (startGunzip rest w)).map
            (fun r => (if r.1 then some r.2.offset else none, r.2.world))

def flashUnlock (env : Env) (addr length : Nat) (w : World) : Int × World :=
  (env.unlock w.log.length, w.emit (.flashUnlock addr length (env.unlock w.log.length)))

def flashErase (env : Env) (addr length : Nat) (w : World) : Int × World :=
  let stat := env.erase w.log.length
  (stat, { w.emit (.flashErase addr length stat) with
    flash := if stat = 0 then NorFlash.erase env.geometry addr length w.flash
      else fun x => if env.geometry.Overlaps addr length x then env.torn w.log.length x
        else w.flash x })

def flashProgram (env : Env) (addr : Nat) (data : List UInt8) (w : World) : Int × World :=
  let stat := env.program w.log.length
  (stat, { w.emit (.flashProgram addr data.length stat) with
    flash := if stat = 0 then NorFlash.program addr data w.flash
      else fun x => if addr ≤ x ∧ x < addr + data.length then env.torn w.log.length x
        else w.flash x })

def readTmp (env : Env) (n : Nat) (rest : List UInt8) (w : World) :
    Option (List UInt8) × List UInt8 × World :=
  match env.readTmp w.log.length with
  | none => (none, rest, w.emit (.readTmp (-1)))
  | some k =>
    (some (rest.take (min k n)), rest.drop (min k n),
      w.emit (.readTmp (rest.take (min k n)).length))

def bytesToWrite (actual : Nat) : Nat := (actual + 3) / 4 * 4

def filled (chunk : List UInt8) : List UInt8 :=
  (chunk ++ List.replicate (flashBufferSize - chunk.length) 0xFF).take (bytesToWrite chunk.length)

def progress (writeTimes : Nat) (w : World) : World :=
  if writeTimes % 32 = 0 then (w.report .dot).report .newline else w.report .dot

inductive LoopExit where
  | programFailed
  | endOfFile (addr : Nat)
  | readFailed (addr : Nat)
  deriving DecidableEq, Repr

def programLoop (env : Env) :
    Nat → Nat → Nat → List UInt8 → World → Option (LoopExit × World)
  | 0, _, _, _, _ => none
  | fuel + 1, addr, writeTimes, rest, w =>
    match readTmp env flashBufferSize rest w with
    | (none, _, w) => some (.readFailed addr, w)
    | (some [], _, w) => some (.endOfFile addr, w)
    | (some (b :: bs), rest, w) =>
      match flashProgram env addr (filled (b :: bs)) w with
      | (stat, w) =>
        if stat ≠ 0 then some (.programFailed, w.report (.programFailed stat))
        else programLoop env fuel (addr + (b :: bs).length) (writeTimes + 1) rest
          (progress writeTimes w)

def removeUpload (w : World) : World := { w.emit .removeUpload with upload := none }

def finish (info : UpgradeInfo) (ends addr : Nat) (readOk : Bool) (w : World) : Bool × World :=
  let w := w.report .done
  let w := if ends ≠ addr then w.report .incorrectAmount else w
  let w := removeUpload w
  if readOk then (true, w.report (.updated info.name))
  else (false, w.report (.catastrophic info.name))

def startAddr (info : UpgradeInfo) : Nat := info.flashBase + info.startAddress

def afterLoop (info : UpgradeInfo) (actuallength : Nat) : LoopExit × World → Bool × World
  | (.programFailed, w) => (false, w)
  | (.endOfFile addr, w) => finish info (startAddr info + actuallength) addr true w
  | (.readFailed addr, w) => finish info (startAddr info + actuallength) addr false w

def eraseAndProgram (env : Env) (fuel : Nat) (info : UpgradeInfo) (actuallength : Nat)
    (w : World) : Option (Bool × World) :=
  match flashErase env (startAddr info) actuallength (w.report .erasing) with
  | (stat, w) =>
    if stat ≠ 0 then some (false, w.report (.eraseFailed stat))
    else
      let w := (w.report .done).report (.programming (startAddr info) actuallength)
      (programLoop env fuel (startAddr info) 1 w.tmp w).map (afterLoop info actuallength)

def flashImage (env : Env) (fuel : Nat) (info : UpgradeInfo) (actuallength : Nat) (w : World) :
    Option (Bool × World) :=
  let w := w.emit (.reopenTmp env.reopenTmp)
  if env.reopenTmp ≤ 0 then some (false, w.report (.couldNotOpen tmpFile))
  else
    let w := w.report (.inProgress info.name)
    if env.blockLocking then
      match flashUnlock env (startAddr info) actuallength w with
      | (stat, w) =>
        if stat ≠ 0 then some (false, w.report (.unlockFailed stat))
        else eraseAndProgram env fuel info actuallength w
    else eraseAndProgram env fuel info actuallength w

def cygFirmwareUpgrade (env : Env) (z : Inflater bufferSize) (fuel : Nat) (info : UpgradeInfo)
    (w : World) : Option (Bool × World) :=
  match gunzipFirmware env z fuel info w with
  | none => none
  | some (none, w) => some (false, w)
  | some (some actuallength, w) => flashImage env fuel info actuallength w

end FirmwareUtil
