import Mathlib.Algebra.Order.Ring.Nat
import Mathlib.Tactic.SplitIfs

/- Where __single_step puts its breakpoint, against the instruction set. -/
namespace SingleStep

abbrev Word := BitVec 32

structure Registers where
  reg : BitVec 5 → Word
  pc : Word
  zero : reg 0 = 0

/-- InstFmt -/
def op (word : Word) : BitVec 6 := word.extractLsb' 0 6
def opx (word : Word) : BitVec 6 := word.extractLsb' 11 6
def fieldA (word : Word) : BitVec 5 := word.extractLsb' 27 5
def fieldB (word : Word) : BitVec 5 := word.extractLsb' 22 5
def imm16 (word : Word) : BitVec 16 := word.extractLsb' 6 16
def imm26 (word : Word) : BitVec 26 := word.extractLsb' 6 26

def regEa : BitVec 5 := 29
def regRa : BitVec 5 := 31

def opBeq : BitVec 6 := 0x26
def opBge : BitVec 6 := 0x0e
def opBgeu : BitVec 6 := 0x2e
def opBlt : BitVec 6 := 0x16
def opBltu : BitVec 6 := 0x36
def opBne : BitVec 6 := 0x1e
def opBr : BitVec 6 := 0x06
def opCall : BitVec 6 := 0x00
def opRtype : BitVec 6 := 0x3a
def opxEret : BitVec 6 := 0x01
def opxRet : BitVec 6 := 0x05
def opxJmp : BitVec 6 := 0x0d
def opxCallr : BitVec 6 := 0x1d

/-- The address of a branch, from a cyg_int16 offset. -/
def branchAddr (r : Registers) (word : Word) : Word := r.pc + (imm16 word).signExtend 32 + 4

/-- The member of the family `OP_BEQ` .. `OP_BNE` for one comparison. -/
def branchIf (r : Registers) (word : Word) (taken : Word → Word → Bool) : Word :=
  if taken (r.reg (fieldA word)) (r.reg (fieldB word)) then branchAddr r word else r.pc + 4

/-- instrBuffer.targetAddr after __single_step, with `word` at the PC. -/
def targetAddr (r : Registers) (word : Word) : Word :=
  if op word = opBeq then branchIf r word (fun a b => a == b)
  else if op word = opBge then branchIf r word (fun a b => b.toInt ≤ a.toInt)
  else if op word = opBgeu then branchIf r word (fun a b => b.toNat ≤ a.toNat)
  else if op word = opBlt then branchIf r word (fun a b => a.toInt < b.toInt)
  else if op word = opBltu then branchIf r word (fun a b => a.toNat < b.toNat)
  else if op word = opBne then branchIf r word (fun a b => a != b)
  else if op word = opBr then branchAddr r word
  else if op word = opCall then r.pc &&& 0xf0000000#32 ||| (imm26 word).setWidth 32 * 4#32
  else if op word = opRtype then
    if opx word = opxEret then r.reg regEa
    else if opx word = opxRet then r.reg regRa
    else if opx word = opxJmp ∨ opx word = opxCallr then r.reg (fieldA word)
    else r.pc + 4
  else r.pc + 4

inductive Condition
  | eq | ge | geu | lt | ltu | ne
deriving DecidableEq

def Condition.holds : Condition → Word → Word → Bool
  | .eq, a, b => a == b
  | .ge, a, b => b.sle a
  | .geu, a, b => b.ule a
  | .lt, a, b => a.slt b
  | .ltu, a, b => a.ult b
  | .ne, a, b => a != b

inductive Flow
  | branch (c : Condition)
  | br
  | call
  | jmpi
  | eret
  | ret
  | jmp
  | callr
  | trap
  | breakpoint
  | bret
  | next
deriving DecidableEq

def flowX (word : Word) : Flow :=
  match (opx word).toNat with
  | 0x01 => .eret
  | 0x05 => .ret
  | 0x09 => .bret
  | 0x0d => .jmp
  | 0x1d => .callr
  | 0x2d => .trap
  | 0x34 => .breakpoint
  | _ => .next

/-- The instructions that change the flow, by their codes in the instruction set. -/
def flow (word : Word) : Flow :=
  match (op word).toNat with
  | 0x00 => .call
  | 0x01 => .jmpi
  | 0x06 => .br
  | 0x0e => .branch .ge
  | 0x16 => .branch .lt
  | 0x1e => .branch .ne
  | 0x26 => .branch .eq
  | 0x2e => .branch .geu
  | 0x36 => .branch .ltu
  | 0x3a => flowX word
  | _ => .next

def jumpAddr (r : Registers) (word : Word) : Word :=
  BitVec.ofNat 32 (r.pc.toNat / 2 ^ 28 * 2 ^ 28 + (imm26 word).toNat * 4)

def nextPc (r : Registers) (word : Word) : Option Word :=
  match flow word with
  | .branch c =>
    some (if c.holds (r.reg (fieldA word)) (r.reg (fieldB word))
      then r.pc + 4 + (imm16 word).signExtend 32 else r.pc + 4)
  | .br => some (r.pc + 4 + (imm16 word).signExtend 32)
  | .call | .jmpi => some (jumpAddr r word)
  | .eret => some (r.reg 29)
  | .ret => some (r.reg 31)
  | .jmp | .callr => some (r.reg (fieldA word))
  | .trap | .breakpoint | .bret => none
  | .next => some (r.pc + 4)

theorem branch_addr_eq (r : Registers) (word : Word) :
    branchAddr r word = r.pc + 4 + (imm16 word).signExtend 32 := by
  unfold branchAddr
  rw [BitVec.add_assoc, BitVec.add_comm _ 4, ← BitVec.add_assoc]

theorem segment_mask : ∀ i : Fin 32, (0xf0000000#32).getLsbD i = decide (28 ≤ i.val) := by
  decide

theorem segment_eq (pc : Word) :
    (pc &&& 0xf0000000#32).toNat = pc.toNat / 2 ^ 28 * 2 ^ 28 := by
  have small := pc.isLt
  have shifted : pc &&& 0xf0000000#32 = (pc >>> 28) <<< 28 := by
    apply BitVec.eq_of_getLsbD_eq
    intro i inside
    have mask := segment_mask ⟨i, inside⟩
    rw [BitVec.getLsbD_and, mask]
    by_cases low : i < 28
    · simp [low]
    · have high : 28 ≤ i := by omega
      simp [low, inside, high, Nat.add_sub_cancel' high]
  rw [shifted, BitVec.toNat_shiftLeft, BitVec.toNat_ushiftRight, Nat.shiftRight_eq_div_pow,
    Nat.shiftLeft_eq, Nat.mod_eq_of_lt (by omega)]

/-- The segment of the PC and the scaled immediate have no bit in common. -/
theorem call_addr_eq (r : Registers) (word : Word) :
    r.pc &&& 0xf0000000#32 ||| (imm26 word).setWidth 32 * 4#32 = jumpAddr r word := by
  have small := r.pc.isLt
  have short := (imm26 word).isLt
  have offset : ((imm26 word).setWidth 32 * 4#32).toNat = (imm26 word).toNat * 4 := by
    rw [BitVec.toNat_mul, BitVec.toNat_setWidth, BitVec.toNat_ofNat]
    omega
  apply BitVec.eq_of_toNat_eq
  rw [BitVec.toNat_or, segment_eq, offset, Nat.mul_comm _ (2 ^ 28),
    ← Nat.two_pow_add_eq_or_of_lt (by omega), jumpAddr, BitVec.toNat_ofNat,
    Nat.mod_eq_of_lt (by omega), Nat.mul_comm (2 ^ 28)]

theorem branch_if_eq (r : Registers) (word : Word) (c : Condition) (taken : Word → Word → Bool)
    (agrees : ∀ a b, taken a b = c.holds a b) :
    branchIf r word taken
      = if c.holds (r.reg (fieldA word)) (r.reg (fieldB word))
        then r.pc + 4 + (imm16 word).signExtend 32 else r.pc + 4 := by
  rw [branchIf, agrees, branch_addr_eq]

def chosen (r : Registers) (word : Word) : Flow → Word
  | .branch c =>
    if c.holds (r.reg (fieldA word)) (r.reg (fieldB word))
      then r.pc + 4 + (imm16 word).signExtend 32 else r.pc + 4
  | .br => r.pc + 4 + (imm16 word).signExtend 32
  | .call => jumpAddr r word
  | .eret => r.reg 29
  | .ret => r.reg 31
  | .jmp | .callr => r.reg (fieldA word)
  | .jmpi | .trap | .breakpoint | .bret | .next => r.pc + 4

theorem code_ne {code field : BitVec 6} {k : Nat} (excluded : field ≠ code)
    (same : code.toNat = k) : field.toNat ≠ k := by
  intro equal
  exact excluded (BitVec.eq_of_toNat_eq (equal.trans same.symm))

theorem chosen_other_op (r : Registers) {word : Word} (beq : op word ≠ opBeq)
    (bge : op word ≠ opBge) (bgeu : op word ≠ opBgeu) (blt : op word ≠ opBlt)
    (bltu : op word ≠ opBltu) (bne : op word ≠ opBne) (br : op word ≠ opBr)
    (call : op word ≠ opCall) (rtype : op word ≠ opRtype) :
    chosen r word (flow word) = r.pc + 4 := by
  unfold flow
  split
  case h_1 code => exact absurd code (code_ne call rfl)
  case h_2 => rfl
  case h_3 code => exact absurd code (code_ne br rfl)
  case h_4 code => exact absurd code (code_ne bge rfl)
  case h_5 code => exact absurd code (code_ne blt rfl)
  case h_6 code => exact absurd code (code_ne bne rfl)
  case h_7 code => exact absurd code (code_ne beq rfl)
  case h_8 code => exact absurd code (code_ne bgeu rfl)
  case h_9 code => exact absurd code (code_ne bltu rfl)
  case h_10 code => exact absurd code (code_ne rtype rfl)
  case h_11 => rfl

theorem chosen_other_opx (r : Registers) {word : Word} (rtype : op word = opRtype)
    (eret : opx word ≠ opxEret) (ret : opx word ≠ opxRet) (jmp : opx word ≠ opxJmp)
    (callr : opx word ≠ opxCallr) : chosen r word (flow word) = r.pc + 4 := by
  have decoded : flow word = flowX word := by simp [flow, rtype, opRtype]
  rw [decoded]
  unfold flowX
  split
  case h_1 code => exact absurd code (code_ne eret rfl)
  case h_2 code => exact absurd code (code_ne ret rfl)
  case h_3 => rfl
  case h_4 code => exact absurd code (code_ne jmp rfl)
  case h_5 code => exact absurd code (code_ne callr rfl)
  case h_6 => rfl
  case h_7 => rfl
  case h_8 => rfl

theorem target_addr_eq (r : Registers) (word : Word) :
    targetAddr r word = chosen r word (flow word) := by
  unfold targetAddr
  by_cases beq : op word = opBeq
  · have decoded : flow word = .branch .eq := by simp [flow, beq, opBeq]
    rw [if_pos beq, decoded]
    exact branch_if_eq r word .eq _ (fun _ _ => rfl)
  rw [if_neg beq]
  by_cases bge : op word = opBge
  · have decoded : flow word = .branch .ge := by simp [flow, bge, opBge]
    rw [if_pos bge, decoded]
    exact branch_if_eq r word .ge _ (fun _ _ => rfl)
  rw [if_neg bge]
  by_cases bgeu : op word = opBgeu
  · have decoded : flow word = .branch .geu := by simp [flow, bgeu, opBgeu]
    rw [if_pos bgeu, decoded]
    exact branch_if_eq r word .geu _ (fun _ _ => rfl)
  rw [if_neg bgeu]
  by_cases blt : op word = opBlt
  · have decoded : flow word = .branch .lt := by simp [flow, blt, opBlt]
    rw [if_pos blt, decoded]
    exact branch_if_eq r word .lt _ (fun _ _ => rfl)
  rw [if_neg blt]
  by_cases bltu : op word = opBltu
  · have decoded : flow word = .branch .ltu := by simp [flow, bltu, opBltu]
    rw [if_pos bltu, decoded]
    exact branch_if_eq r word .ltu _ (fun _ _ => rfl)
  rw [if_neg bltu]
  by_cases bne : op word = opBne
  · have decoded : flow word = .branch .ne := by simp [flow, bne, opBne]
    rw [if_pos bne, decoded]
    exact branch_if_eq r word .ne _ (fun _ _ => rfl)
  rw [if_neg bne]
  by_cases br : op word = opBr
  · have decoded : flow word = .br := by simp [flow, br, opBr]
    rw [if_pos br, decoded]
    exact branch_addr_eq r word
  rw [if_neg br]
  by_cases call : op word = opCall
  · have decoded : flow word = .call := by simp [flow, call, opCall]
    rw [if_pos call, decoded]
    exact call_addr_eq r word
  rw [if_neg call]
  by_cases rtype : op word = opRtype
  · rw [if_pos rtype]
    by_cases eret : opx word = opxEret
    · have decoded : flow word = .eret := by simp [flow, flowX, rtype, opRtype, eret, opxEret]
      rw [if_pos eret, decoded]
      rfl
    rw [if_neg eret]
    by_cases ret : opx word = opxRet
    · have decoded : flow word = .ret := by simp [flow, flowX, rtype, opRtype, ret, opxRet]
      rw [if_pos ret, decoded]
      rfl
    rw [if_neg ret]
    by_cases jmp : opx word = opxJmp
    · have decoded : flow word = .jmp := by simp [flow, flowX, rtype, opRtype, jmp, opxJmp]
      rw [if_pos (Or.inl jmp), decoded]
      rfl
    by_cases callr : opx word = opxCallr
    · have decoded : flow word = .callr := by simp [flow, flowX, rtype, opRtype, callr, opxCallr]
      rw [if_pos (Or.inr callr), decoded]
      rfl
    rw [if_neg (not_or.mpr ⟨jmp, callr⟩)]
    exact (chosen_other_opx r rtype eret ret jmp callr).symm
  · rw [if_neg rtype]
    exact (chosen_other_op r beq bge bgeu blt bltu bne br call rtype).symm

/-- Only a jmpi is stepped to the wrong place, and then only when it jumps. -/
theorem single_step_exact_iff (r : Registers) (word next : Word)
    (continues : nextPc r word = some next) :
    targetAddr r word = next ↔ (flow word = .jmpi → jumpAddr r word = r.pc + 4) := by
  rw [target_addr_eq]
  cases kind : flow word with
  | jmpi =>
    have jumped : jumpAddr r word = next := by simpa [nextPc, kind] using continues
    rw [← jumped]
    constructor
    · intro stepped _
      exact stepped.symm
    · intro falls
      exact (falls rfl).symm
  | trap | breakpoint | bret => simp [nextPc, kind] at continues
  | _ => simpa [nextPc, kind, chosen] using continues

def idle (pc : Word) : Registers := { reg := fun _ => 0, pc := pc, zero := rfl }

theorem single_step_exact_beq :
    nextPc (idle 0x1000) 0x00000426 = some 0x1014
      ∧ (targetAddr (idle 0x1000) 0x00000426 = 0x1014 ↔
          (flow 0x00000426 = .jmpi → jumpAddr (idle 0x1000) 0x00000426 = (idle 0x1000).pc + 4)) :=
  ⟨by decide, single_step_exact_iff (idle 0x1000) 0x00000426 0x1014 (by decide)⟩

theorem jmpi_steps_past :
    ¬∀ (r : Registers) (word next : Word),
        nextPc r word = some next → targetAddr r word = next := by
  intro claimed
  exact absurd (claimed (idle 0) 0x00001001 0x100 (by decide)) (by decide)

end SingleStep
