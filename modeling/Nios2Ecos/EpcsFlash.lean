import Mathlib.Algebra.Order.Ring.Nat
import Nios2Ecos.NorFlash
import Nios2Ecos.WhileLoop

/- The serial flash: what the device does with its commands, the controller functions
   over it, and the block device on top. Offsets are 32-bit; the erase loop, which can
   leave the device, wraps them. -/
namespace EpcsFlash
open NorFlash

def eio : Int := 5
def enodev : Int := 19

structure FlashRegion where
  offset : Nat
  regionSize : Nat
  numberOfBlocks : Nat
  blockSize : Nat
deriving DecidableEq, Repr

structure FlashDev where
  siliconId : UInt8
  sizeInBytes : Nat
  regionInfo : List FlashRegion
deriving DecidableEq, Repr

def fillIn (siliconId : UInt8) (regionSize numberOfBlocks blockSize : Nat) : FlashDev :=
  ⟨siliconId, regionSize, [⟨0, regionSize, numberOfBlocks, blockSize⟩]⟩

def altEpcsFlashQuery (electronicSignature deviceId : UInt8) : Except Int FlashDev :=
  if electronicSignature = 0x16 then
    .ok (fillIn electronicSignature (64 * 1024 * 1024 / 8) 128 65536)
  else if electronicSignature = 0x14 then
    .ok (fillIn electronicSignature (16 * 1024 * 1024 / 8) 32 65536)
  else if electronicSignature = 0x13 then
    .ok (fillIn electronicSignature (8 * 1024 * 1024 / 8) 16 65536)
  else if electronicSignature = 0x12 then
    .ok (fillIn electronicSignature (4 * 1024 * 1024 / 8) 8 65536)
  else if electronicSignature = 0x10 then
    .ok (fillIn electronicSignature (1 * 1024 * 1024 / 8) 4 32768)
  else if deviceId = 0x18 then
    .ok (fillIn deviceId (128 * 1024 * 1024 / 8) 64 262144)
  else .error (-enodev)

def pageSize : Nat := 256

inductive Command
  | sectorErase (address : Nat)
  | pageProgram (address : Nat) (data : List UInt8)
deriving DecidableEq, Repr

/-- The device steps through the page that holds the address and starts it again at
    its end. -/
def pageProgram : Nat → List UInt8 → Content → Content
  | _, [], f => f
  | a, b :: bs, f =>
    pageProgram (a / pageSize * pageSize + (a + 1) % pageSize) bs
      (fun x => if x = a then f x &&& b else f x)

def Command.effect (sectorSize : Nat) : Command → Content → Content
  | .sectorErase a, f => fun x => if x / sectorSize = a / sectorSize then 0xFF else f x
  | .pageProgram a data, f => EpcsFlash.pageProgram a data f

structure Flash where
  content : Content
  commands : List Command

def sectorSize (dev : FlashDev) : Nat := (dev.regionInfo.headD ⟨0, 0, 0, 0⟩).blockSize

def send (dev : FlashDev) (c : Command) (f : Flash) : Flash :=
  ⟨c.effect (sectorSize dev) f.content, f.commands ++ [c]⟩

/-- Commands carry three address bytes. -/
def threeBytes (offset : Nat) : Nat := offset % 2 ^ 24

def epcsSectorErase (dev : FlashDev) (offset : Nat) (f : Flash) : Flash :=
  send dev (.sectorErase (threeBytes offset)) f

def epcsWriteBuffer (dev : FlashDev) (offset : Nat) (src : List UInt8) (f : Flash) : Flash :=
  send dev (.pageProgram (threeBytes offset) src) f

/-- Reading goes on at the start of the device after its end. -/
def epcsReadBuffer (dev : FlashDev) (f : Flash) (offset length : Nat) : List UInt8 :=
  (List.range length).map fun i => f.content ((threeBytes offset + i) % dev.sizeInBytes)

def altEpcsTestAddress (dev : FlashDev) (offset : Nat) : Int :=
  let last := dev.regionInfo.getLastD ⟨0, 0, 0, 0⟩
  if (2 ^ 32 - 1 + last.offset + last.regionSize) % 2 ^ 32 < offset then -eio else 0

def altEpcsFlashRead (dev : FlashDev) (f : Flash) (offset length : Nat) :
    Except Int (List UInt8) :=
  if 0 ≤ altEpcsTestAddress dev offset then .ok (epcsReadBuffer dev f offset length)
  else .error (altEpcsTestAddress dev offset)

def memcmp : List UInt8 → List UInt8 → Int
  | a :: as, b :: bs => if a = b then memcmp as bs else (a.toNat : Int) - b.toNat
  | _, _ => 0

def chunkSize : Nat := 32

theorem drop_lt (b : UInt8) (bs : List UInt8) {n : Nat} (pos : 0 < n) :
    ((b :: bs).drop n).length < (b :: bs).length := by
  rw [List.length_drop, List.length_cons]
  omega

def altEpcsFlashMemcmp (dev : FlashDev) (f : Flash) (src : List UInt8) (offset : Nat) : Int :=
  match src with
  | [] => 0
  | b :: bs =>
    let thisChunkSize := min chunkSize (b :: bs).length
    match altEpcsFlashRead dev f offset thisChunkSize with
    | .error _ => -1
    | .ok chunk =>
      let thisChunkCmp := memcmp ((b :: bs).take thisChunkSize) chunk
      if thisChunkCmp ≠ 0 then thisChunkCmp
      else altEpcsFlashMemcmp dev f ((b :: bs).drop thisChunkSize) (offset + thisChunkSize)
termination_by src.length
decreasing_by exact drop_lt b bs (Nat.lt_min.mpr ⟨Nat.zero_lt_succ _, Nat.zero_lt_succ _⟩)

def altEpcsFlashEraseBlock (dev : FlashDev) (f : Flash) (blockOffset : Nat) : Int × Flash :=
  let retCode := altEpcsTestAddress dev blockOffset
  if 0 ≤ retCode then (retCode, epcsSectorErase dev blockOffset f) else (retCode, f)

theorem next_page (offset : Nat) :
    0 < (offset + pageSize) / pageSize * pageSize - offset := by
  unfold pageSize
  omega

/-- The loop of `alt_epcs_flash_write_block`. The page size is a power of two, so
    `& ~(page_size - 1)` rounds down to a page. -/
def writePages (dev : FlashDev) (dataOffset : Nat) (data : List UInt8) (f : Flash) : Flash :=
  match data with
  | [] => f
  | b :: bs =>
    let nextPageStart := (dataOffset + pageSize) / pageSize * pageSize
    let lengthOfCurrentWrite := min (b :: bs).length (nextPageStart - dataOffset)
    writePages dev nextPageStart ((b :: bs).drop lengthOfCurrentWrite)
      (epcsWriteBuffer dev dataOffset ((b :: bs).take lengthOfCurrentWrite) f)
termination_by data.length
decreasing_by exact drop_lt b bs (Nat.lt_min.mpr ⟨Nat.zero_lt_succ _, next_page dataOffset⟩)

def altEpcsFlashWriteBlock (dev : FlashDev) (f : Flash) (dataOffset : Nat)
    (data : List UInt8) : Int × Flash :=
  let retCode := altEpcsTestAddress dev dataOffset
  if 0 ≤ retCode then (retCode, writePages dev dataOffset data f) else (retCode, f)

def erasedSample : List UInt8 := [0xFF, 0xFF, 0xFF, 0xFF, 0xFF, 0xFF, 0xFF, 0xFF]

/-- The blank check of a block, from byte `j` on. -/
def erasedFrom (dev : FlashDev) (f : Flash) (blockSize currentOffset j : Nat) : Bool :=
  if j < blockSize then
    if altEpcsFlashMemcmp dev f erasedSample (currentOffset + j) ≠ 0 then false
    else erasedFrom dev f blockSize currentOffset (j + erasedSample.length)
  else true
termination_by blockSize - j
decreasing_by
  simp only [erasedSample, List.length_cons, List.length_nil]
  omega

/-- The variables of `cyg_epcs_erase_blocks`. The code keeps only the last of the codes
    of `erase_block`, and does not look at it. -/
structure EraseWalk where
  len : Nat
  offset : Nat
  currentOffset : Nat
  flash : Flash
  retCodes : List Int

def eraseUnlessBlank (dev : FlashDev) (r : FlashRegion) (w : EraseWalk) : EraseWalk :=
  if erasedFrom dev w.flash r.blockSize w.currentOffset 0 then w
  else
    let done := altEpcsFlashEraseBlock dev w.flash w.currentOffset
    { w with flash := done.2, retCodes := w.retCodes ++ [done.1] }

def eraseTurn (dev : FlashDev) (r : FlashRegion) (w : EraseWalk) : EraseWalk :=
  let next := (w.currentOffset + r.blockSize) % 2 ^ 32
  if w.currentOffset ≤ w.offset ∧ w.offset < next then
    { eraseUnlessBlank dev r w with
      len := (2 ^ 32 + w.len - r.blockSize) % 2 ^ 32, offset := next, currentOffset := next }
  else { w with currentOffset := next }

def moreToErase (w : EraseWalk) : Bool := 0 < w.len

def eraseRegions (dev : FlashDev) (fuel : Nat) : List FlashRegion → EraseWalk → Option EraseWalk
  | [], w => some w
  | r :: rs, w =>
    if r.offset ≤ w.offset ∧ w.offset < r.offset + r.regionSize then
      (WhileLoop.turns moreToErase (eraseTurn dev r) fuel { w with currentOffset := r.offset }).bind
        (eraseRegions dev fuel rs)
    else eraseRegions dev fuel rs w

/-- What a call leaves behind: the returned code, the codes of the `erase_block` calls on
    the way and the flash. -/
structure EraseResult where
  code : Int
  retCodes : List Int
  flash : Flash

def cygEpcsEraseBlocks (dev : FlashDev) (fuel : Nat) (f : Flash) (offset len : Nat) :
    Option EraseResult :=
  (eraseRegions dev fuel dev.regionInfo ⟨len, offset, 0, f, []⟩).map
    fun w => ⟨0, w.retCodes, w.flash⟩

structure EraseAnswer where
  returned : Int
  flasherr : Int
  retCodes : List Int
  flash : Flash

def epcsGetConfigErase (dev : FlashDev) (fuel : Nat) (f : Flash) (offset len : Nat) :
    Option EraseAnswer :=
  (cygEpcsEraseBlocks dev fuel f offset len).map fun e => ⟨e.code, e.code, e.retCodes, e.flash⟩

structure WriteWalk where
  offset : Nat
  src : List UInt8
  flash : Flash
  retCode : Int
  finished : Bool

def writeBlocks (dev : FlashDev) (r : FlashRegion) : Nat → Nat → WriteWalk → WriteWalk
  | 0, _, w => w
  | j + 1, currentOffset, w =>
    if currentOffset ≤ w.offset ∧ w.offset < currentOffset + r.blockSize then
      let dataToWrite := min (currentOffset + r.blockSize - w.offset) w.src.length
      let data := w.src.take dataToWrite
      let w' :=
        if altEpcsFlashMemcmp dev w.flash data w.offset ≠ 0 then
          let done := altEpcsFlashWriteBlock dev w.flash w.offset data
          { w with retCode := done.1, flash := done.2 }
        else w
      if w.src.length = dataToWrite ∨ w'.retCode ≠ 0 then { w' with finished := true }
      else
        writeBlocks dev r j (currentOffset + r.blockSize)
          { w' with offset := currentOffset + r.blockSize, src := w.src.drop dataToWrite }
    else writeBlocks dev r j (currentOffset + r.blockSize) w

def writeRegions (dev : FlashDev) : List FlashRegion → WriteWalk → WriteWalk
  | [], w => w
  | r :: rs, w =>
    if r.offset ≤ w.offset ∧ w.offset < r.offset + r.regionSize then
      let w' := writeBlocks dev r r.numberOfBlocks r.offset w
      if w'.finished then w' else writeRegions dev rs w'
    else writeRegions dev rs w

def epcsFlashWrite (dev : FlashDev) (f : Flash) (offset : Nat) (src : List UInt8) : Int × Flash :=
  let w := writeRegions dev dev.regionInfo ⟨offset, src, f, 0, false⟩
  (w.retCode, w.flash)

def epcsBwrite (dev : FlashDev) (f : Flash) (src : List UInt8) (pos : Nat) : Int × Flash :=
  let done := epcsFlashWrite dev f pos src
  if done.1 = 0 then (altEpcsFlashMemcmp dev done.2 src pos, done.2) else done

def epcsBread (dev : FlashDev) (f : Flash) (len pos : Nat) : Except Int (List UInt8) :=
  altEpcsFlashRead dev f pos len

/-- The devices `alt_epcs_flash_query` can set up: one region of whole blocks from zero on,
    within the 24-bit addresses of the commands. -/
structure QueriedDevice (dev : FlashDev) (size blocks block : Nat) : Prop where
  region : dev.regionInfo = [⟨0, size, blocks, block⟩]
  bytes : dev.sizeInBytes = size
  blocks_fill : blocks * block = size
  addressed : size ≤ 2 ^ 24
  nonempty : 0 < blocks
  positive : 0 < block
  pages : 256 ∣ block
  divides : block ∣ 2 ^ 32

theorem fill_in_queried (id : UInt8) {size blocks block : Nat}
    (good : blocks * block = size ∧ size ≤ 2 ^ 24 ∧ 0 < blocks ∧ 0 < block ∧ 256 ∣ block ∧
      block ∣ 2 ^ 32) : QueriedDevice (fillIn id size blocks block) size blocks block := by
  obtain ⟨fill, low, many, pos, pages, divides⟩ := good
  exact ⟨rfl, rfl, fill, low, many, pos, pages, divides⟩

theorem queried {signature deviceId : UInt8} {dev : FlashDev}
    (h : altEpcsFlashQuery signature deviceId = .ok dev) :
    ∃ size blocks block, QueriedDevice dev size blocks block := by
  unfold altEpcsFlashQuery at h
  repeat' split at h
  all_goals cases h
  all_goals exact ⟨_, _, _, fill_in_queried _ (by decide)⟩

end EpcsFlash
