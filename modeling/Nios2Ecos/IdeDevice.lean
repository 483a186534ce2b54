import Mathlib.Algebra.Order.Ring.Nat

/- An IDE channel with two drives, as its task file registers show it: a PIO command names a
   drive, a 28-bit block address and a number of sectors, and then moves 256 words a sector
   through the data register. -/
namespace IdeDevice

structure Transfer where
  drive : Fin 2
  lba : Nat
  write : Bool
  moved : Nat
  total : Nat

/-- `status` is what the successive reads of the status register will return. -/
structure Ide where
  count : UInt8
  lbaLow : UInt8
  lbaMid : UInt8
  lbaHi : UInt8
  device : UInt8
  transfer : Option Transfer
  disk : Fin 2 → Nat → Nat → UInt16
  status : Nat → UInt8
  polls : Nat

def Ide.poll (d : Ide) : Ide := { d with polls := d.polls + 1 }

def Ide.address (d : Ide) : Nat :=
  (d.device &&& 0xf).toNat * 2 ^ 24 + d.lbaHi.toNat * 2 ^ 16 + d.lbaMid.toNat * 2 ^ 8
    + d.lbaLow.toNat

def Ide.drive (d : Ide) : Fin 2 := if d.device &&& 0x10 = 0 then 0 else 1

/-- A count of zero stands for 256 sectors. -/
def Ide.sectors (d : Ide) : Nat := if d.count = 0 then 256 else d.count.toNat

def Ide.start (d : Ide) (write : Bool) : Ide :=
  { d with transfer := some { drive := d.drive, lba := d.address, write := write, moved := 0,
                              total := 256 * d.sectors } }

/-- READ SECTORS and WRITE SECTORS by block address; any other command is aborted. -/
def Ide.command (d : Ide) (code : UInt8) : Ide :=
  if d.device &&& 0x40 = 0 then { d with transfer := none }
  else if code = 0x20 then d.start false
  else if code = 0x30 then d.start true
  else { d with transfer := none }

def Transfer.next (t : Transfer) : Transfer := { t with moved := t.moved + 1 }

def Ide.store (d : Ide) (drive : Fin 2) (lba k : Nat) (w : UInt16) : Ide :=
  { d with disk := fun drive' lba' k' =>
      if drive' = drive ∧ lba' = lba ∧ k' = k then w else d.disk drive' lba' k' }

def Ide.writeData (d : Ide) (w : UInt16) : Ide :=
  match d.transfer with
  | some t =>
    if t.write ∧ t.moved < t.total then
      { d.store t.drive (t.lba + t.moved / 256) (t.moved % 256) w with transfer := some t.next }
    else d
  | none => d

def Ide.readData (d : Ide) : UInt16 × Ide :=
  match d.transfer with
  | some t =>
    if ¬t.write ∧ t.moved < t.total then
      (d.disk t.drive (t.lba + t.moved / 256) (t.moved % 256), { d with transfer := some t.next })
    else (0, d)
  | none => (0, d)

/-- Byte `i` of a sector of little-endian words. -/
def byteOf (sector : Nat → UInt16) (i : Nat) : UInt8 :=
  if i % 2 = 0 then (sector (i / 2)).toUInt8 else (sector (i / 2) >>> 8).toUInt8

/-- A transfer of one sector of which `j` words are through. -/
def oneSector (drive : Fin 2) (lba : Nat) (write : Bool) (j : Nat) : Transfer :=
  { drive := drive, lba := lba, write := write, moved := j, total := 256 }

theorem write_data_one_sector {d : Ide} {drive : Fin 2} {lba j : Nat}
    (underway : d.transfer = some (oneSector drive lba true j)) (more : j < 256) (w : UInt16) :
    d.writeData w
      = { d.store drive lba j w with transfer := some (oneSector drive lba true (j + 1)) } := by
  rw [Ide.writeData, underway]
  simp [oneSector, more, Nat.div_eq_of_lt more, Nat.mod_eq_of_lt more, Transfer.next]

theorem read_data_one_sector {d : Ide} {drive : Fin 2} {lba j : Nat}
    (underway : d.transfer = some (oneSector drive lba false j)) (more : j < 256) :
    d.readData
      = (d.disk drive lba j,
          { d with transfer := some (oneSector drive lba false (j + 1)) }) := by
  rw [Ide.readData, underway]
  simp [oneSector, more, Nat.div_eq_of_lt more, Nat.mod_eq_of_lt more, Transfer.next]

end IdeDevice
