import Nios2Ecos.IdeDevice

/- The block transfers of the CompactFlash driver. -/
namespace CompactFlash
open IdeDevice

inductive ErrNo
  | enoerr | eio
deriving DecidableEq

def statBsy : UInt8 := 0x80
def statDrq : UInt8 := 0x08

/-- CYGDAT_ALTERA_AVALON_CF_SECTOR_SIZE / sizeof(cyg_uint16) -/
def sectorWords : Nat := 256

def waitForIdle : Nat → Ide → Bool × Ide
  | 0, d => (false, d)
  | tries + 1, d =>
    if d.status d.polls &&& statBsy = 0 then (true, d.poll) else waitForIdle tries d.poll

def waitForDrq : Nat → Ide → Bool × Ide
  | 0, d => (false, d)
  | tries + 1, d =>
    if d.status d.polls &&& statBsy = 0 then
      (if d.status d.polls &&& statDrq = 0 then (false, d.poll) else (true, d.poll))
    else waitForDrq tries d.poll

def taskFile (dev : Fin 2) (start : UInt32) (d : Ide) : Ide :=
  let d := { d with count := 1 }
  let d := { d with lbaLow := (start &&& 0xff).toUInt8 }
  let d := { d with lbaMid := (start >>> 8 &&& 0xff).toUInt8 }
  let d := { d with lbaHi := (start >>> 16 &&& 0xff).toUInt8 }
  { d with device := (start >>> 24 &&& 0xf).toUInt8 ||| UInt8.ofNat dev.val <<< 4 ||| 0x40 }

/-- `b`, as an offset in the buffer, and `c`. -/
structure Cursor where
  b : Nat
  c : Nat

/-- if (c++<len) *b++ = v; -/
def put (len : UInt32) (v : UInt8) (buf : Nat → UInt8) (p : Cursor) : (Nat → UInt8) × Cursor :=
  if p.c < len.toNat then
    (fun i => if i = p.b then v else buf i, { b := p.b + 1, c := p.c + 1 })
  else (buf, { p with c := p.c + 1 })

/-- (c++<len) ? *b++ : 0 -/
def get (len : UInt32) (buf : Nat → UInt8) (p : Cursor) : UInt8 × Cursor :=
  if p.c < len.toNat then (buf p.b, { b := p.b + 1, c := p.c + 1 })
  else (0, { p with c := p.c + 1 })

def readWords (len : UInt32) : Nat → (Nat → UInt8) → Cursor → Ide → (Nat → UInt8) × Ide
  | 0, buf, _, d => (buf, d)
  | left + 1, buf, p, d =>
    let (w, d) := d.readData
    let (buf, p) := put len (w &&& 0xff).toUInt8 buf p
    let (buf, p) := put len (w >>> 8 &&& 0xff).toUInt8 buf p
    readWords len left buf p d

def writeWords (len : UInt32) (buf : Nat → UInt8) : Nat → Cursor → Ide → Ide
  | 0, _, d => d
  | left + 1, p, d =>
    let (low, p) := get len buf p
    let (high, p) := get len buf p
    writeWords len buf left p (d.writeData (low.toUInt16 ||| high.toUInt16 <<< 8))

def ideReadSector (dev : Fin 2) (start : UInt32) (buf : Nat → UInt8) (len : UInt32) (d : Ide) :
    Bool × (Nat → UInt8) × Ide :=
  match waitForIdle 1000000 d with
  | (false, d) => (false, buf, d)
  | (true, d) =>
    match waitForDrq 1000000 ((taskFile dev start d).command 0x20) with
    | (false, d) => (false, buf, d)
    | (true, d) => (true, readWords len sectorWords buf { b := 0, c := 0 } d)

def ideWriteSector (dev : Fin 2) (start : UInt32) (buf : Nat → UInt8) (len : UInt32) (d : Ide) :
    Bool × Ide :=
  match waitForIdle 1000000 d with
  | (false, d) => (false, d)
  | (true, d) =>
    match waitForDrq 1000000 ((taskFile dev start d).command 0x30) with
    | (false, d) => (false, d)
    | (true, d) => (true, writeWords len buf sectorWords { b := 0, c := 0 } d)

/-- chan->info->block_size -/
def blockSize : UInt32 := 512

def altAvalonCfRead (chan : Fin 2) (buf : Nat → UInt8) (len block_num : UInt32) (d : Ide) :
    ErrNo × (Nat → UInt8) × Ide :=
  match ideReadSector chan block_num buf (len * blockSize) d with
  | (true, result) => (.enoerr, result)
  | (false, result) => (.eio, result)

def altAvalonCfWrite (chan : Fin 2) (buf : Nat → UInt8) (len block_num : UInt32) (d : Ide) :
    ErrNo × Ide :=
  match ideWriteSector chan block_num buf (len * blockSize) d with
  | (true, result) => (.enoerr, result)
  | (false, result) => (.eio, result)

def Holds (disk : Nat → Nat → UInt16) (buf : Nat → UInt8) (len block_num : Nat) : Prop :=
  ∀ i < len * 512, byteOf (disk (block_num + i / 512)) (i % 512) = buf i

/-- What a block layer takes a write and a later read of the same blocks for. -/
structure Faithful (chan : Fin 2) (len block_num : UInt32) : Prop where
  stores : ∀ (d : Ide) (buf : Nat → UInt8),
    (altAvalonCfWrite chan buf len block_num d).1 = .enoerr →
      Holds ((altAvalonCfWrite chan buf len block_num d).2.disk chan) buf len.toNat
        block_num.toNat
  keeps : ∀ (d : Ide) (buf : Nat → UInt8) (drive : Fin 2) (lba : Nat),
    (altAvalonCfWrite chan buf len block_num d).1 = .enoerr →
      ¬(drive = chan ∧ block_num.toNat ≤ lba ∧ lba < block_num.toNat + len.toNat) →
      (altAvalonCfWrite chan buf len block_num d).2.disk drive lba = d.disk drive lba
  returns : ∀ (d later : Ide) (buf buf2 : Nat → UInt8),
    (altAvalonCfWrite chan buf len block_num d).1 = .enoerr →
      later.disk = (altAvalonCfWrite chan buf len block_num d).2.disk →
      (altAvalonCfRead chan buf2 len block_num later).1 = .enoerr →
      ∀ i < len.toNat * 512, (altAvalonCfRead chan buf2 len block_num later).2.1 i = buf i

theorem wait_for_idle_disk (tries : Nat) (d : Ide) : (waitForIdle tries d).2.disk = d.disk := by
  induction tries generalizing d with
  | zero => rfl
  | succ tries ih =>
    unfold waitForIdle
    split
    · rfl
    · exact ih d.poll

theorem wait_for_drq_keeps (tries : Nat) (d : Ide) :
    (waitForDrq tries d).2.disk = d.disk ∧ (waitForDrq tries d).2.transfer = d.transfer := by
  induction tries generalizing d with
  | zero => exact ⟨rfl, rfl⟩
  | succ tries ih =>
    unfold waitForDrq
    split
    · split <;> exact ⟨rfl, rfl⟩
    · exact ih d.poll

theorem device_fields : ∀ (dev : Fin 2) (high : Fin 16),
    (UInt8.ofNat high.val ||| UInt8.ofNat dev.val <<< 4 ||| 0x40) &&& 0x40 ≠ 0
      ∧ ((UInt8.ofNat high.val ||| UInt8.ofNat dev.val <<< 4 ||| 0x40) &&& 0xf).toNat = high.val
      ∧ (if (UInt8.ofNat high.val ||| UInt8.ofNat dev.val <<< 4 ||| 0x40) &&& 0x10 = 0
          then (0 : Fin 2) else 1) = dev := by
  decide

theorem byte_of_word (w : UInt32) : (w &&& 0xff).toUInt8.toNat = w.toNat % 256 := by
  rw [UInt32.toNat_toUInt8, UInt32.toNat_and]
  have mask : w.toNat &&& (255 : UInt32).toNat = w.toNat % 2 ^ 8 :=
    Nat.and_two_pow_sub_one_eq_mod w.toNat 8
  rw [mask]
  omega

theorem shifted_byte (w : UInt32) (k : UInt32) (n : Nat) (same : k.toNat % 32 = n) :
    (w >>> k &&& 0xff).toUInt8.toNat = w.toNat / 2 ^ n % 256 := by
  rw [byte_of_word, UInt32.toNat_shiftRight, same, Nat.shiftRight_eq_div_pow]

theorem high_nibble (w : UInt32) :
    (w >>> 24 &&& 0xf).toUInt8 = UInt8.ofNat (w.toNat / 2 ^ 24 % 16) := by
  apply UInt8.toNat_inj.mp
  have mask : (w >>> 24).toNat &&& (15 : UInt32).toNat = (w >>> 24).toNat % 2 ^ 4 :=
    Nat.and_two_pow_sub_one_eq_mod _ 4
  have shift : (w >>> 24).toNat = w.toNat / 2 ^ 24 := by
    rw [UInt32.toNat_shiftRight]
    exact Nat.shiftRight_eq_div_pow w.toNat 24
  rw [UInt32.toNat_toUInt8, UInt32.toNat_and, mask, shift, UInt8.toNat_ofNat']
  rfl

theorem task_file_address (dev : Fin 2) (start : UInt32) (d : Ide)
    (in_range : start.toNat < 2 ^ 28) : (taskFile dev start d).address = start.toNat := by
  have nibble := (device_fields dev ⟨start.toNat / 2 ^ 24 % 16, Nat.mod_lt _ (by decide)⟩).2.1
  simp only [Ide.address, taskFile, high_nibble, nibble, byte_of_word, shifted_byte start 8 8 rfl,
    shifted_byte start 16 16 rfl]
  omega

theorem task_file_drive (dev : Fin 2) (start : UInt32) (d : Ide) :
    (taskFile dev start d).drive = dev := by
  have drive := (device_fields dev ⟨start.toNat / 2 ^ 24 % 16, Nat.mod_lt _ (by decide)⟩).2.2
  simpa only [Ide.drive, taskFile, high_nibble] using drive

theorem task_file_lba_mode (dev : Fin 2) (start : UInt32) (d : Ide) :
    (taskFile dev start d).device &&& 0x40 ≠ 0 := by
  have mode := (device_fields dev ⟨start.toNat / 2 ^ 24 % 16, Nat.mod_lt _ (by decide)⟩).1
  simpa only [taskFile, high_nibble] using mode

theorem task_file_start (dev : Fin 2) (start : UInt32) (write : Bool) (d : Ide)
    (in_range : start.toNat < 2 ^ 28) :
    ((taskFile dev start d).start write).transfer
      = some (oneSector dev start.toNat write 0) := by
  rw [Ide.start, task_file_drive, task_file_address dev start d in_range]
  rfl

theorem command_read (dev : Fin 2) (start : UInt32) (d : Ide) :
    (taskFile dev start d).command 0x20 = (taskFile dev start d).start false := by
  rw [Ide.command, if_neg (task_file_lba_mode dev start d), if_pos rfl]

theorem command_write (dev : Fin 2) (start : UInt32) (d : Ide) :
    (taskFile dev start d).command 0x30 = (taskFile dev start d).start true := by
  rw [Ide.command, if_neg (task_file_lba_mode dev start d), if_neg (by decide), if_pos rfl]

theorem write_words_other (len : UInt32) (buf : Nat → UInt8) {drive : Fin 2} {lba : Nat}
    (left j : Nat) (p : Cursor) (d : Ide) (inside : left + j ≤ 256)
    (underway : d.transfer = some (oneSector drive lba true j)) (drive' : Fin 2) (lba' : Nat)
    (other : ¬(drive' = drive ∧ lba' = lba)) :
    (writeWords len buf left p d).disk drive' lba' = d.disk drive' lba' := by
  induction left generalizing j p d with
  | zero => rfl
  | succ left ih =>
    rcases low : get len buf p with ⟨v, q⟩
    rcases high : get len buf q with ⟨v', q'⟩
    simp only [writeWords, low, high]
    rw [write_data_one_sector underway (by omega), ih (j + 1) _ _ (by omega) rfl]
    funext k
    exact if_neg (fun same => other ⟨same.1, same.2.1⟩)

def packed (buf : Nat → UInt8) (k : Nat) : UInt16 :=
  (buf (2 * k)).toUInt16 ||| (buf (2 * k + 1)).toUInt16 <<< 8

theorem write_words_sector (len : UInt32) (enough : 512 ≤ len.toNat) (buf : Nat → UInt8)
    {drive : Fin 2} {lba : Nat} (left j : Nat) (d : Ide) (inside : left + j = 256)
    (underway : d.transfer = some (oneSector drive lba true j)) (k : Nat) :
    (writeWords len buf left { b := 2 * j, c := 2 * j } d).disk drive lba k
      = if j ≤ k ∧ k < 256 then packed buf k else d.disk drive lba k := by
  induction left generalizing j d with
  | zero => rw [writeWords, if_neg (by omega)]
  | succ left ih =>
    have first : get len buf { b := 2 * j, c := 2 * j }
        = (buf (2 * j), { b := 2 * j + 1, c := 2 * j + 1 }) := if_pos (by simp; omega)
    have second : get len buf { b := 2 * j + 1, c := 2 * j + 1 }
        = (buf (2 * j + 1), { b := 2 * (j + 1), c := 2 * (j + 1) }) := if_pos (by simp; omega)
    simp only [writeWords, first, second]
    rw [write_data_one_sector underway (by omega), ih (j + 1) _ (by omega) rfl]
    simp only [Ide.store, true_and]
    by_cases here : k = j
    · subst here
      rw [if_neg (by omega), if_pos rfl, if_pos (by omega), packed]
    · rw [if_neg here]
      exact if_congr (by omega) rfl rfl

theorem packed_to_nat (buf : Nat → UInt8) (k : Nat) :
    (packed buf k).toNat = (buf (2 * k + 1)).toNat * 256 + (buf (2 * k)).toNat := by
  have low := (buf (2 * k)).toNat_lt
  have high := (buf (2 * k + 1)).toNat_lt
  have shift : ((buf (2 * k + 1)).toUInt16 <<< 8).toNat = 2 ^ 8 * (buf (2 * k + 1)).toNat := by
    rw [UInt16.toNat_shiftLeft, UInt8.toNat_toUInt16]
    have amount : (8 : UInt16).toNat % 16 = 8 := rfl
    rw [amount, Nat.shiftLeft_eq, Nat.mod_eq_of_lt (by omega), Nat.mul_comm]
  rw [packed, UInt16.toNat_or, shift, UInt8.toNat_toUInt16, Nat.or_comm,
    ← Nat.two_pow_add_eq_or_of_lt (by omega)]
  omega

theorem low_byte (w : UInt16) : w.toUInt8.toNat = w.toNat % 256 :=
  UInt16.toNat_toUInt8 w

theorem high_byte (w : UInt16) : (w >>> 8).toUInt8.toNat = w.toNat / 256 := by
  have small := w.toNat_lt
  have shift : (w >>> 8).toNat = w.toNat / 2 ^ 8 := by
    rw [UInt16.toNat_shiftRight]
    exact Nat.shiftRight_eq_div_pow w.toNat 8
  rw [low_byte, shift]
  omega

theorem byte_of_packed (buf : Nat → UInt8) (i : Nat) : byteOf (packed buf) i = buf i := by
  have low := (buf (2 * (i / 2))).toNat_lt
  apply UInt8.toNat_inj.mp
  unfold byteOf
  split
  · rename_i even
    have at_i : 2 * (i / 2) = i := by omega
    rw [low_byte, packed_to_nat, at_i]
    rw [at_i] at low
    omega
  · rename_i odd
    have at_i : 2 * (i / 2) + 1 = i := by omega
    rw [high_byte, packed_to_nat, at_i]
    omega

theorem stored_bytes (sector : Nat → UInt16) (j : Nat) :
    (sector j &&& 0xff).toUInt8 = byteOf sector (2 * j)
      ∧ (sector j >>> 8 &&& 0xff).toUInt8 = byteOf sector (2 * j + 1) := by
  have masked (w : UInt16) : (w &&& 0xff).toUInt8 = w.toUInt8 := by
    apply UInt8.toNat_inj.mp
    have mask : w.toNat &&& (255 : UInt16).toNat = w.toNat % 2 ^ 8 :=
      Nat.and_two_pow_sub_one_eq_mod w.toNat 8
    rw [low_byte, low_byte, UInt16.toNat_and, mask]
    omega
  constructor
  · rw [masked, byteOf, if_pos (by omega), Nat.mul_div_cancel_left j (by decide)]
  · rw [masked, byteOf, if_neg (by omega)]
    have half : (2 * j + 1) / 2 = j := by omega
    rw [half]

theorem read_words_sector (len : UInt32) (enough : 512 ≤ len.toNat) {drive : Fin 2} {lba : Nat}
    (left j : Nat) (buf : Nat → UInt8) (d : Ide) (inside : left + j = 256)
    (underway : d.transfer = some (oneSector drive lba false j)) (i : Nat) :
    (readWords len left buf { b := 2 * j, c := 2 * j } d).1 i
      = if 2 * j ≤ i ∧ i < 512 then byteOf (d.disk drive lba) i else buf i := by
  induction left generalizing j buf d with
  | zero => rw [readWords, if_neg (by omega)]
  | succ left ih =>
    obtain ⟨low, high⟩ := stored_bytes (d.disk drive lba) j
    have first (v : UInt8) : put len v buf { b := 2 * j, c := 2 * j }
        = (fun i => if i = 2 * j then v else buf i, { b := 2 * j + 1, c := 2 * j + 1 }) :=
      if_pos (by simp; omega)
    have second (v : UInt8) (buf : Nat → UInt8) : put len v buf { b := 2 * j + 1, c := 2 * j + 1 }
        = (fun i => if i = 2 * j + 1 then v else buf i,
            { b := 2 * (j + 1), c := 2 * (j + 1) }) :=
      if_pos (by simp; omega)
    simp only [readWords]
    rw [read_data_one_sector underway (by omega)]
    simp only [first, second]
    rw [ih (j + 1) _ _ (by omega) rfl, low, high]
    by_cases at_low : i = 2 * j
    · subst at_low
      rw [if_neg (by omega), if_neg (by omega), if_pos rfl, if_pos (by omega)]
    by_cases at_high : i = 2 * j + 1
    · subst at_high
      rw [if_neg (by omega), if_pos rfl, if_pos (by omega)]
    · rw [if_neg at_high, if_neg at_low]
      exact if_congr (by omega) rfl rfl

theorem waits_passed {chan : Fin 2} {block_num : UInt32} {write : Bool} {d idle ready : Ide}
    (in_range : block_num.toNat < 2 ^ 28) (waited : waitForIdle 1000000 d = (true, idle))
    (requested : waitForDrq 1000000 ((taskFile chan block_num idle).start write)
      = (true, ready)) :
    ready.disk = d.disk
      ∧ ready.transfer = some (oneSector chan block_num.toNat write 0) := by
  have idle_disk := wait_for_idle_disk 1000000 d
  have kept := wait_for_drq_keeps 1000000 ((taskFile chan block_num idle).start write)
  rw [waited] at idle_disk
  rw [requested, task_file_start chan block_num write idle in_range] at kept
  exact ⟨kept.1.trans idle_disk, kept.2⟩

theorem write_success {chan : Fin 2} {buf : Nat → UInt8} {len block_num : UInt32} {d : Ide}
    (in_range : block_num.toNat < 2 ^ 28)
    (success : (altAvalonCfWrite chan buf len block_num d).1 = .enoerr) :
    ∃ ready : Ide, ready.disk = d.disk
      ∧ ready.transfer = some (oneSector chan block_num.toNat true 0)
      ∧ (altAvalonCfWrite chan buf len block_num d).2
          = writeWords (len * blockSize) buf sectorWords { b := 0, c := 0 } ready := by
  rcases waited : waitForIdle 1000000 d with ⟨_ | _, idle⟩
  · simp [altAvalonCfWrite, ideWriteSector, waited] at success
  rcases requested : waitForDrq 1000000 ((taskFile chan block_num idle).start true)
    with ⟨_ | _, ready⟩
  · simp [altAvalonCfWrite, ideWriteSector, waited, command_write, requested] at success
  obtain ⟨same, underway⟩ := waits_passed in_range waited requested
  refine ⟨ready, same, underway, ?_⟩
  simp [altAvalonCfWrite, ideWriteSector, waited, command_write, requested]

theorem read_success {chan : Fin 2} {buf : Nat → UInt8} {len block_num : UInt32} {d : Ide}
    (in_range : block_num.toNat < 2 ^ 28)
    (success : (altAvalonCfRead chan buf len block_num d).1 = .enoerr) :
    ∃ ready : Ide, ready.disk = d.disk
      ∧ ready.transfer = some (oneSector chan block_num.toNat false 0)
      ∧ (altAvalonCfRead chan buf len block_num d).2
          = readWords (len * blockSize) sectorWords buf { b := 0, c := 0 } ready := by
  rcases waited : waitForIdle 1000000 d with ⟨_ | _, idle⟩
  · simp [altAvalonCfRead, ideReadSector, waited] at success
  rcases requested : waitForDrq 1000000 ((taskFile chan block_num idle).start false)
    with ⟨_ | _, ready⟩
  · simp [altAvalonCfRead, ideReadSector, waited, command_read, requested] at success
  obtain ⟨same, underway⟩ := waits_passed in_range waited requested
  refine ⟨ready, same, underway, ?_⟩
  simp [altAvalonCfRead, ideReadSector, waited, command_read, requested]

theorem write_other {chan : Fin 2} {buf : Nat → UInt8} {len block_num : UInt32} {d : Ide}
    (in_range : block_num.toNat < 2 ^ 28)
    (success : (altAvalonCfWrite chan buf len block_num d).1 = .enoerr) (drive : Fin 2) (lba : Nat)
    (other : ¬(drive = chan ∧ lba = block_num.toNat)) :
    (altAvalonCfWrite chan buf len block_num d).2.disk drive lba = d.disk drive lba := by
  obtain ⟨ready, same, underway, result⟩ := write_success in_range success
  rw [result, write_words_other _ buf sectorWords 0 _ ready (by decide) underway drive lba other,
    same]

theorem write_one_block {chan : Fin 2} {buf : Nat → UInt8} {block_num : UInt32} {d : Ide}
    (in_range : block_num.toNat < 2 ^ 28)
    (success : (altAvalonCfWrite chan buf 1 block_num d).1 = .enoerr) (i : Nat) (inside : i < 512) :
    byteOf ((altAvalonCfWrite chan buf 1 block_num d).2.disk chan block_num.toNat) i = buf i := by
  obtain ⟨ready, same, underway, result⟩ := write_success in_range success
  have word (k : Nat) (below : k < 256) :
      (altAvalonCfWrite chan buf 1 block_num d).2.disk chan block_num.toNat k = packed buf k := by
    have sector := write_words_sector (1 * blockSize) (by decide) buf sectorWords 0 ready rfl
      underway k
    rw [if_pos ⟨Nat.zero_le k, below⟩, Nat.mul_zero] at sector
    rw [result, sector]
  rw [← byte_of_packed buf i, byteOf, byteOf, word (i / 2) (by omega)]

theorem read_one_block {chan : Fin 2} {buf : Nat → UInt8} {block_num : UInt32} {d : Ide}
    (in_range : block_num.toNat < 2 ^ 28)
    (success : (altAvalonCfRead chan buf 1 block_num d).1 = .enoerr) (i : Nat) (inside : i < 512) :
    (altAvalonCfRead chan buf 1 block_num d).2.1 i
      = byteOf (d.disk chan block_num.toNat) i := by
  obtain ⟨ready, same, underway, result⟩ := read_success in_range success
  have bytes := read_words_sector (1 * blockSize) (by decide) sectorWords 0 buf ready rfl
    underway i
  rw [Nat.mul_zero, if_pos ⟨Nat.zero_le i, inside⟩] at bytes
  rw [result, ← same, bytes]

def blank : Ide :=
  { count := 0, lbaLow := 0, lbaMid := 0, lbaHi := 0, device := 0, transfer := none
    disk := fun _ _ _ => 0, status := fun _ => statDrq, polls := 0 }

theorem wait_for_idle_ready (tries : Nat) (some_try : 0 < tries) {d : Ide}
    (idle : d.status d.polls &&& statBsy = 0) : waitForIdle tries d = (true, d.poll) := by
  cases tries with
  | zero => exact absurd some_try (Nat.lt_irrefl 0)
  | succ tries => rw [waitForIdle, if_pos idle]

theorem wait_for_drq_ready (tries : Nat) (some_try : 0 < tries) {d : Ide}
    (idle : d.status d.polls &&& statBsy = 0) (drq : d.status d.polls &&& statDrq ≠ 0) :
    waitForDrq tries d = (true, d.poll) := by
  cases tries with
  | zero => exact absurd some_try (Nat.lt_irrefl 0)
  | succ tries => rw [waitForDrq, if_pos idle, if_neg drq]

theorem blank_write (chan : Fin 2) (buf : Nat → UInt8) (len block_num : UInt32) :
    (altAvalonCfWrite chan buf len block_num blank).1 = .enoerr := by
  have calm : statDrq &&& statBsy = 0 := by decide
  have asking : statDrq &&& statDrq ≠ 0 := by decide
  have idle := wait_for_idle_ready 1000000 (by decide) (d := blank) calm
  have requested := wait_for_drq_ready 1000000 (by decide)
    (d := (taskFile chan block_num blank.poll).start true) calm asking
  simp [altAvalonCfWrite, ideWriteSector, idle, command_write, requested]

/-- The driver moves one sector a call and calls that a success for any number of blocks. -/
theorem block_transfer_iff (chan : Fin 2) (len block_num : UInt32) (some_block : 1 ≤ len.toNat)
    (in_range : block_num.toNat + len.toNat ≤ 2 ^ 28) :
    Faithful chan len block_num ↔ len = 1 := by
  have small : block_num.toNat < 2 ^ 28 := by omega
  constructor
  · intro faithful
    apply UInt32.toNat_inj.mp
    by_contra several
    have next : 512 < len.toNat * 512 := by
      have apart : len.toNat ≠ 1 := several
      omega
    have stored := faithful.stores blank (fun _ => 1) (blank_write chan _ len block_num) 512 next
    rw [write_other small (blank_write chan _ len block_num) chan (block_num.toNat + 512 / 512)
      (by omega)] at stored
    have unlike : (0 : UInt8) ≠ 1 := by decide
    exact unlike stored
  · rintro rfl
    constructor
    · intro d buf success i inside
      have below : i < 512 := inside
      rw [Nat.div_eq_of_lt below, Nat.mod_eq_of_lt below, Nat.add_zero]
      exact write_one_block small success i below
    · intro d buf drive lba success outside
      apply write_other small success
      have one : (1 : UInt32).toNat = 1 := rfl
      intro same
      apply outside
      omega
    · intro d later buf buf2 written same success i inside
      rw [read_one_block small success i inside, same]
      exact write_one_block small written i inside

theorem block_transfer_first_block :
    1 ≤ (1 : UInt32).toNat ∧ (0 : UInt32).toNat + (1 : UInt32).toNat ≤ 2 ^ 28
      ∧ (Faithful 0 1 0 ↔ (1 : UInt32) = 1) :=
  ⟨by decide, by decide, block_transfer_iff 0 1 0 (by decide) (by decide)⟩

theorem second_block_lost :
    ¬∀ (chan : Fin 2) (len block_num : UInt32), 1 ≤ len.toNat →
        block_num.toNat + len.toNat ≤ 2 ^ 28 → Faithful chan len block_num := by
  intro claimed
  have stored := (claimed 0 2 0 (by decide) (by decide)).stores blank (fun _ => 1)
    (blank_write 0 _ 2 0) 512 (by decide)
  rw [write_other (by decide) (blank_write 0 _ 2 0) 0 _ (by decide)] at stored
  have unlike : (0 : UInt8) ≠ 1 := by decide
  exact unlike stored

end CompactFlash
