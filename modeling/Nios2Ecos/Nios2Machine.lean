import Mathlib.Algebra.Order.Ring.Nat
import Mathlib.Data.List.Nodup
import Mathlib.Logic.Function.Basic

/- The part of the Nios II instruction set that system code is written in. Memory is
   addressed by aligned words. -/
namespace Nios2Machine

abbrev Word := BitVec 32
abbrev Reg := Fin 32

abbrev r0 : Reg := 0
abbrev r1 : Reg := 1
abbrev r2 : Reg := 2
abbrev r3 : Reg := 3
abbrev r4 : Reg := 4
abbrev r5 : Reg := 5
abbrev r6 : Reg := 6
abbrev r7 : Reg := 7
abbrev r8 : Reg := 8
abbrev r9 : Reg := 9
abbrev r10 : Reg := 10
abbrev r11 : Reg := 11
abbrev r12 : Reg := 12
abbrev r13 : Reg := 13
abbrev r14 : Reg := 14
abbrev r15 : Reg := 15
abbrev r16 : Reg := 16
abbrev r17 : Reg := 17
abbrev r18 : Reg := 18
abbrev r19 : Reg := 19
abbrev r20 : Reg := 20
abbrev r21 : Reg := 21
abbrev r22 : Reg := 22
abbrev r23 : Reg := 23
abbrev et : Reg := 24
abbrev gp : Reg := 26
abbrev sp : Reg := 27
abbrev fp : Reg := 28
abbrev ea : Reg := 29
abbrev ra : Reg := 31

/-- The registers a function returns as it found them: r16 to r23, fp and sp. -/
def calleeSaved (r : Reg) : Prop := 16 ≤ r ∧ r ≤ 23 ∨ r = sp ∨ r = fp

/-- The registers of a program: r1 to r23, gp, sp, fp and ra. -/
def visible (r : Reg) : Prop := r ≤ 23 ∨ r = gp ∨ r = sp ∨ r = fp ∨ r = ra

instance : DecidablePred calleeSaved := fun r =>
  inferInstanceAs (Decidable (16 ≤ r ∧ r ≤ 23 ∨ r = sp ∨ r = fp))

instance : DecidablePred visible := fun r =>
  inferInstanceAs (Decidable (r ≤ 23 ∨ r = gp ∨ r = sp ∨ r = fp ∨ r = ra))

inductive Ctl
  | status
  | estatus
  | ienable
  | ipending
deriving DecidableEq, Repr

@[ext]
structure Machine where
  reg : Reg → Word
  ctl : Ctl → Word
  mem : Word → Word
  pc : Word

namespace Machine

/-- Register 0 reads as zero and is never written. -/
def get (m : Machine) (r : Reg) : Word := if r = 0 then 0 else m.reg r

def set (m : Machine) (r : Reg) (v : Word) : Machine :=
  if r = 0 then m else { m with reg := Function.update m.reg r v }

def setCtl (m : Machine) (c : Ctl) (v : Word) : Machine :=
  { m with ctl := Function.update m.ctl c v }

def store (m : Machine) (a v : Word) : Machine := { m with mem := Function.update m.mem a v }

/-- Interrupts are enabled by bit 0 of the status register. -/
def pie (m : Machine) : Bool := (m.ctl .status).getLsbD 0

/-- Taking an exception at `pc`; `v` is what the vector code leaves in `et`. -/
def enter (m : Machine) (pc v : Word) : Machine :=
  (((m.set ea pc).set et v).setCtl .estatus (m.ctl .status)).setCtl .status
    (m.ctl .status &&& ~~~1)

def eret (m : Machine) : Machine :=
  { m.setCtl .status (m.ctl .estatus) with pc := m.get ea }

def jump (m : Machine) (a : Word) : Machine := { m with pc := a }

/-- Jumping to a function that is to return to `back`. -/
def link (m : Machine) (target back : Word) : Machine := { m.set ra back with pc := target }

variable (m : Machine) {r q : Reg} (v : Word)

@[simp] theorem get_zero : m.get 0 = 0 := rfl

theorem get_set_self (nonzero : r ≠ 0) : (m.set r v).get r = v := by
  simp [get, set, nonzero]

theorem get_set_ne (other : q ≠ r) : (m.set r v).get q = m.get q := by
  unfold get set
  split
  · rfl
  · split
    · rfl
    · exact Function.update_of_ne other v m.reg

@[simp] theorem set_mem : (m.set r v).mem = m.mem := by unfold set; split <;> rfl

@[simp] theorem set_ctl : (m.set r v).ctl = m.ctl := by unfold set; split <;> rfl

@[simp] theorem set_pc : (m.set r v).pc = m.pc := by unfold set; split <;> rfl

@[simp] theorem setCtl_get (c : Ctl) : (m.setCtl c v).get r = m.get r := rfl

@[simp] theorem setCtl_mem (c : Ctl) : (m.setCtl c v).mem = m.mem := rfl

@[simp] theorem setCtl_same (c : Ctl) : (m.setCtl c v).ctl c = v := by
  simp [setCtl]

@[simp] theorem store_get (a : Word) : (m.store a v).get r = m.get r := rfl

@[simp] theorem store_ctl (a : Word) : (m.store a v).ctl = m.ctl := rfl

@[simp] theorem store_same (a : Word) : (m.store a v).mem a = v := by
  simp [store]

@[simp] theorem eret_get : m.eret.get r = m.get r := rfl

@[simp] theorem eret_mem : m.eret.mem = m.mem := rfl

@[simp] theorem eret_pc : m.eret.pc = m.get ea := rfl

@[simp] theorem eret_status : m.eret.ctl .status = m.ctl .estatus := by
  simp [eret, setCtl]

@[simp] theorem jump_get (a : Word) : (m.jump a).get r = m.get r := rfl

@[simp] theorem jump_ctl (a : Word) : (m.jump a).ctl = m.ctl := rfl

@[simp] theorem jump_mem (a : Word) : (m.jump a).mem = m.mem := rfl

@[simp] theorem jump_pc (a : Word) : (m.jump a).pc = a := rfl

theorem enter_get (pc : Word) (seen : visible r) : (m.enter pc v).get r = m.get r := by
  have spared : ∀ r, visible r → r ≠ ea ∧ r ≠ et := by decide
  obtain ⟨resume, temporary⟩ := spared r seen
  rw [enter, setCtl_get, setCtl_get, get_set_ne _ _ temporary, get_set_ne _ _ resume]

theorem enter_ea (pc : Word) : (m.enter pc v).get ea = pc := by
  rw [enter, setCtl_get, setCtl_get, get_set_ne _ _ (by decide), get_set_self _ _ (by decide)]

@[simp] theorem enter_mem (pc : Word) : (m.enter pc v).mem = m.mem := by
  rw [enter, setCtl_mem, setCtl_mem, set_mem, set_mem]

@[simp] theorem enter_estatus (pc : Word) : (m.enter pc v).ctl .estatus = m.ctl .status := by
  simp [enter, setCtl]

@[simp] theorem enter_pie (pc : Word) : (m.enter pc v).pie = false := by
  simp [enter, pie]

theorem link_get (target back : Word) (other : r ≠ ra) : (m.link target back).get r = m.get r :=
  m.get_set_ne back other

theorem link_ra (target back : Word) : (m.link target back).get ra = back :=
  m.get_set_self back (by decide)

@[simp] theorem link_mem (target back : Word) : (m.link target back).mem = m.mem :=
  m.set_mem back

@[simp] theorem link_ctl (target back : Word) : (m.link target back).ctl = m.ctl :=
  m.set_ctl back

theorem store_ne {a b : Word} (other : b ≠ a) : (m.store a v).mem b = m.mem b := by
  simp [store, other]

end Machine

/-- `L` names the labels that branches go to. -/
inductive Instr (L : Type)
  | addi (rB rA : Reg) (imm : Word)
  | andi (rB rA : Reg) (imm : Word)
  | movhi (rB : Reg) (imm : BitVec 16)
  | add (rC rA rB : Reg)
  | slli (rC rA : Reg) (imm : Nat)
  | srli (rC rA : Reg) (imm : Nat)
  | ldw (rB : Reg) (offset : Word) (rA : Reg)
  | stw (rB : Reg) (offset : Word) (rA : Reg)
  | rdctl (rC : Reg) (c : Ctl)
  | wrctl (c : Ctl) (rA : Reg)
  | bne (rA rB : Reg) (dest : L)
  | bgtu (rA rB : Reg) (dest : L)
  | br (dest : L)
  | callr (rA : Reg)
  | call (target : Word)
  | eret

variable {L : Type}

namespace Instr

def mov (rC rA : Reg) : Instr L := .add rC rA r0

def movi (rB : Reg) (imm : Word) : Instr L := .addi rB r0 imm

/-- The effect of an instruction on everything but the flow of control. -/
def exec : Instr L → Machine → Machine
  | .addi rB rA imm, m => m.set rB (m.get rA + imm)
  | .andi rB rA imm, m => m.set rB (m.get rA &&& imm)
  | .movhi rB imm, m => m.set rB (imm.setWidth 32 <<< 16)
  | .add rC rA rB, m => m.set rC (m.get rA + m.get rB)
  | .slli rC rA imm, m => m.set rC (m.get rA <<< imm)
  | .srli rC rA imm, m => m.set rC (m.get rA >>> imm)
  | .ldw rB offset rA, m => m.set rB (m.mem (m.get rA + offset))
  | .stw rB offset rA, m => m.store (m.get rA + offset) (m.get rB)
  | .rdctl rC c, m => m.set rC (m.ctl c)
  | .wrctl c rA, m => m.setCtl c (m.get rA)
  | _, m => m

theorem mov_exec (rC rA : Reg) (m : Machine) :
    (mov (L := L) rC rA).exec m = m.set rC (m.get rA) := by
  rw [mov, exec, Machine.get_zero, BitVec.ofNat_eq_ofNat, BitVec.add_zero]

/-- Neither a branch nor a call nor a return. -/
def straight : Instr L → Bool
  | .bne .. | .bgtu .. | .br .. | .callr .. | .call .. | .eret => false
  | _ => true

end Instr

def execAll (is : List (Instr L)) (m : Machine) : Machine := is.foldl (fun m i => i.exec m) m

@[simp] theorem execAll_nil (m : Machine) : execAll ([] : List (Instr L)) m = m := rfl

@[simp] theorem execAll_cons (i : Instr L) (is : List (Instr L)) (m : Machine) :
    execAll (i :: is) m = execAll is (i.exec m) := rfl

theorem execAll_append (is js : List (Instr L)) (m : Machine) :
    execAll (is ++ js) m = execAll js (execAll is m) := List.foldl_append

def stores (base : Reg) (slots : List (Reg × Word)) : List (Instr L) :=
  slots.map fun p => .stw p.1 p.2 base

def loads (base : Reg) (slots : List (Reg × Word)) : List (Instr L) :=
  slots.map fun p => .ldw p.1 p.2 base

theorem push_exec {r : Reg} (other : r ≠ sp) (m : Machine) :
    execAll (L := L) [.addi sp sp (-4), .stw r 0 sp] m =
      (m.set sp (m.get sp + -4)).store (m.get sp + -4) (m.get r) := by
  simp only [execAll_cons, execAll_nil, Instr.exec, m.get_set_self _ (show sp ≠ 0 by decide),
    m.get_set_ne _ other, BitVec.ofNat_eq_ofNat, BitVec.add_zero]

/-- The halves of an address, as the assembler splits it for `movhi` and `addi`. -/
def hiadj (a : Word) : BitVec 16 := ((a + 0x8000) >>> 16).setWidth 16

def lo (a : Word) : Word := (a.setWidth 16).signExtend 32

theorem lo_toNat (a : Word) : (lo a).toNat =
    if a.toNat % 65536 < 32768 then a.toNat % 65536 else a.toNat % 65536 + 4294901760 := by
  have sign : (a.setWidth 16).msb = decide (32768 ≤ a.toNat % 65536) := by
    rw [BitVec.msb_eq_decide]
    simp
  rw [lo, BitVec.toNat_signExtend]
  simp only [sign, BitVec.toNat_setWidth]
  by_cases negative : 32768 ≤ a.toNat % 65536
  · rw [if_neg (show ¬ a.toNat % 65536 < 32768 by omega)]
    simp [negative]
    omega
  · rw [if_pos (show a.toNat % 65536 < 32768 by omega)]
    simp [negative]
    omega

theorem hiadj_toNat (a : Word) : ((hiadj a).setWidth 32 <<< 16).toNat =
    (a.toNat + 32768) / 65536 % 65536 * 65536 := by
  have small := a.isLt
  simp only [hiadj, BitVec.toNat_add, BitVec.toNat_shiftLeft, BitVec.toNat_setWidth,
    BitVec.toNat_ushiftRight, Nat.shiftLeft_eq, Nat.shiftRight_eq_div_pow]
  simp
  omega

/-- The low half counts as negative when its top bit is set, and the high half makes up for
    it. -/
theorem hiadj_lo (a : Word) : (hiadj a).setWidth 32 <<< 16 + lo a = a := by
  apply BitVec.eq_of_toNat_eq
  have small := a.isLt
  rw [BitVec.toNat_add, hiadj_toNat, lo_toNat]
  split <;> omega

def loadAddress (r : Reg) (a : Word) : List (Instr L) := [.movhi r (hiadj a), .addi r r (lo a)]

theorem load_address {r : Reg} (nonzero : r ≠ 0) (a : Word) (m : Machine) :
    execAll (loadAddress (L := L) r a) m = m.set r a := by
  have twice : ∀ v w, (m.set r v).set r w = m.set r w := by
    intro v w
    simp [Machine.set, nonzero]
  simp only [loadAddress, execAll_cons, execAll_nil, Instr.exec, m.get_set_self _ nonzero,
    hiadj_lo, twice]

end Nios2Machine
