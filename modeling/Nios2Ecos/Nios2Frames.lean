import Mathlib.Data.Bool.AllAny
import Nios2Ecos.Nios2Machine

/- Straight code that saves registers to a frame at the stack pointer, or restores them from
   it. What ends up where can be read off the code. -/
namespace Nios2Machine
variable {L : Type}

namespace Instr

def dest : Instr L → Option Reg
  | .addi rB _ _ | .andi rB _ _ | .movhi rB _ | .ldw rB _ _ => some rB
  | .add rC _ _ | .slli rC _ _ | .srli rC _ _ | .rdctl rC _ => some rC
  | _ => none

/-- Stores within `n` bytes of the stack pointer only, which stays where it is. -/
def framed (n : Nat) : Instr L → Bool
  | .stw _ offset rA => rA = sp && offset.toNat < n
  | i => i.dest ≠ some sp

def plain : Instr L → Bool
  | .wrctl .. => false
  | _ => true

def reading : Instr L → Bool
  | .stw .. => false
  | i => i.dest ≠ some sp

end Instr

section
variable {i : Instr L} {is : List (Instr L)} {m : Machine} {r : Reg} {offset v : Word} {n : Nat}

theorem exec_get (other : i.dest ≠ some r) : (i.exec m).get r = m.get r := by
  cases i with
  | stw | wrctl | bne | bgtu | br | callr | call | eret => rfl
  | _ => exact m.get_set_ne _ (fun same => other (congrArg some same.symm))

theorem execAll_get (others : ∀ i ∈ is, i.dest ≠ some r) : (execAll is m).get r = m.get r := by
  induction is generalizing m with
  | nil => rfl
  | cons i is ih =>
    rw [execAll_cons, ih (fun j mem => others j (List.mem_cons_of_mem i mem)),
      exec_get (others i List.mem_cons_self)]

theorem stores_get (base : Reg) (slots : List (Reg × Word)) :
    (execAll (stores (L := L) base slots) m).get r = m.get r := by
  apply execAll_get
  intro i mem
  obtain ⟨p, -, rfl⟩ := List.mem_map.mp mem
  exact nofun

theorem execAll_ctl (plain : ∀ i ∈ is, i.plain = true) : (execAll is m).ctl = m.ctl := by
  induction is generalizing m with
  | nil => rfl
  | cons i is ih =>
    have step : (i.exec m).ctl = m.ctl := by
      have here := plain i List.mem_cons_self
      cases i with
      | wrctl => cases here
      | stw | bne | bgtu | br | callr | call | eret => rfl
      | _ => exact m.set_ctl _
    rw [execAll_cons, ih (fun j mem => plain j (List.mem_cons_of_mem i mem)), step]

theorem reading_exec (reading : i.reading = true) :
    (i.exec m).get sp = m.get sp ∧ (i.exec m).mem = m.mem := by
  cases i with
  | stw => cases reading
  | wrctl | bne | bgtu | br | callr | call | eret => exact ⟨rfl, rfl⟩
  | _ => exact ⟨exec_get (of_decide_eq_true reading), m.set_mem _⟩

theorem framed_cases (framed : i.framed n = true) :
    i.reading = true ∨ ∃ rB offset, i = .stw rB offset sp ∧ offset.toNat < n := by
  cases i with
  | stw rB offset rA =>
    simp only [Instr.framed, Bool.and_eq_true, decide_eq_true_eq] at framed
    obtain ⟨rfl, inside⟩ := framed
    exact .inr ⟨rB, offset, rfl, inside⟩
  | _ => exact .inl framed

theorem framed_sp (framed : i.framed n = true) : (i.exec m).get sp = m.get sp := by
  rcases framed_cases framed with reading | ⟨rB, offset, rfl, -⟩
  · exact (reading_exec reading).1
  · rfl

theorem execAll_framed_sp (framed : ∀ i ∈ is, i.framed n = true) :
    (execAll is m).get sp = m.get sp := by
  induction is generalizing m with
  | nil => rfl
  | cons i is ih =>
    rw [execAll_cons, ih (fun j mem => framed j (List.mem_cons_of_mem i mem)),
      framed_sp (framed i List.mem_cons_self)]

theorem execAll_framed_mem (framed : ∀ i ∈ is, i.framed n = true) {a : Word}
    (outside : ∀ offset : Word, offset.toNat < n → a ≠ m.get sp + offset) :
    (execAll is m).mem a = m.mem a := by
  induction is generalizing m with
  | nil => rfl
  | cons i is ih =>
    have here := framed i List.mem_cons_self
    have step : (i.exec m).mem a = m.mem a := by
      rcases framed_cases here with reading | ⟨rB, offset, rfl, inside⟩
      · rw [(reading_exec reading).2]
      · exact m.store_ne _ (outside offset inside)
    rw [execAll_cons, ih (fun j mem => framed j (List.mem_cons_of_mem i mem)), step]
    rwa [framed_sp here]

/-- Whether the code leaves the register's value in the slot: `fresh` while the register has
    it, `held` while the slot has it. -/
def saves (r : Reg) (offset : Word) : List (Instr L) → Bool → Bool → Bool
  | [], _, held => held
  | .stw rB offset' _ :: is, fresh, held =>
    saves r offset is fresh (if offset' = offset then rB = r && fresh else held)
  | i :: is, fresh, held => saves r offset is (fresh && i.dest ≠ some r) held

theorem saves_reading {fresh held : Bool} (reading : i.reading = true) :
    saves r offset (i :: is) fresh held = saves r offset is (fresh && i.dest ≠ some r) held := by
  cases i with
  | stw => cases reading
  | _ => rfl

theorem saves_held (framed : ∀ i ∈ is, i.framed n = true) {fresh held : Bool}
    (register : fresh = true → m.get r = v) (slot : held = true → m.mem (m.get sp + offset) = v)
    (saved : saves r offset is fresh held = true) :
    (execAll is m).mem (m.get sp + offset) = v := by
  induction is generalizing m fresh held with
  | nil => exact slot saved
  | cons i is ih =>
    have here := framed i List.mem_cons_self
    have later := fun j mem => framed j (List.mem_cons_of_mem i mem)
    have pointer := framed_sp (m := m) here
    rw [execAll_cons, ← pointer]
    rcases framed_cases here with reading | ⟨rB, offset', rfl, -⟩
    · rw [saves_reading reading] at saved
      refine ih later ?_ ?_ saved
      · intro still
        simp only [Bool.and_eq_true, decide_eq_true_eq] at still
        rw [exec_get still.2, register still.1]
      · rw [pointer, (reading_exec reading).2]
        exact slot
    · refine ih later register ?_ saved
      intro now
      change (m.store (m.get sp + offset') (m.get rB)).mem (m.get sp + offset) = v
      by_cases same : offset' = offset
      · simp only [if_pos same, Bool.and_eq_true, decide_eq_true_eq] at now
        rw [same, m.store_same, now.1, register now.2]
      · rw [if_neg same] at now
        rw [m.store_ne _ (fun equal => same ((BitVec.add_right_inj _).mp equal).symm), slot now]

theorem saves_slot (framed : ∀ i ∈ is, i.framed n = true)
    (saved : saves r offset is true false = true) :
    (execAll is m).mem (m.get sp + offset) = m.get r := by
  have empty : false = true → m.mem (m.get sp + offset) = m.get r := nofun
  exact saves_held framed (fun _ => rfl) empty saved

theorem saves_computed {before : List (Instr L)} (framed : ∀ j ∈ before ++ i :: is, j.framed n = true)
    (saved : saves r offset is true false = true) :
    (execAll (before ++ i :: is) m).mem (m.get sp + offset) =
      (i.exec (execAll before m)).get r := by
  have first := fun j mem => framed j (List.mem_append_left _ mem)
  have here := framed i (List.mem_append_right _ List.mem_cons_self)
  have later := fun j mem => framed j (List.mem_append_right _ (List.mem_cons_of_mem i mem))
  have slot := saves_slot (m := i.exec (execAll before m)) later saved
  rw [framed_sp here, execAll_framed_sp first] at slot
  rw [execAll_append, execAll_cons, slot]

/-- Whether the code leaves the slot's value in the register. -/
def restores (r : Reg) (offset : Word) : List (Instr L) → Bool → Bool
  | [], held => held
  | .ldw rB offset' rA :: is, held =>
    restores r offset is (if rB = r then offset' = offset && rA = sp else held)
  | i :: is, held => restores r offset is (held && i.dest ≠ some r)

theorem restores_held (nonzero : r ≠ 0) (reading : ∀ i ∈ is, i.reading = true) {held : Bool}
    (register : held = true → m.get r = m.mem (m.get sp + offset))
    (restored : restores r offset is held = true) :
    (execAll is m).get r = m.mem (m.get sp + offset) := by
  induction is generalizing m held with
  | nil => exact register restored
  | cons i is ih =>
    have here := reading i List.mem_cons_self
    obtain ⟨pointer, memory⟩ := reading_exec (m := m) here
    have later := fun j mem => reading j (List.mem_cons_of_mem i mem)
    have rest : ∀ next : Bool,
        (next = true → (i.exec m).get r = (i.exec m).mem ((i.exec m).get sp + offset)) →
        restores r offset is next = true →
        (execAll is (i.exec m)).get r = (i.exec m).mem ((i.exec m).get sp + offset) :=
      fun _ register => ih later register
    rw [pointer, memory] at rest
    rw [execAll_cons]
    cases i with
    | ldw rB offset' rA =>
      refine rest _ ?_ restored
      intro now
      by_cases same : rB = r
      · subst same
        simp only [if_true, Bool.and_eq_true, decide_eq_true_eq] at now
        obtain ⟨rfl, rfl⟩ := now
        exact m.get_set_self _ nonzero
      · rw [if_neg same] at now
        exact (m.get_set_ne _ (Ne.symm same)).trans (register now)
    | _ =>
      refine rest _ ?_ restored
      intro now
      simp only [Bool.and_eq_true, decide_eq_true_eq] at now
      rw [exec_get now.2, register now.1]

theorem restores_slot (nonzero : r ≠ 0) (reading : ∀ i ∈ is, i.reading = true)
    (restored : restores r offset is false = true) :
    (execAll is m).get r = m.mem (m.get sp + offset) := by
  have empty : false = true → m.get r = m.mem (m.get sp + offset) := nofun
  exact restores_held nonzero reading empty restored

theorem execAll_reading (reading : ∀ i ∈ is, i.reading = true) :
    (execAll is m).get sp = m.get sp ∧ (execAll is m).mem = m.mem := by
  induction is generalizing m with
  | nil => exact ⟨rfl, rfl⟩
  | cons i is ih =>
    obtain ⟨pointer, memory⟩ := reading_exec (m := m) (reading i List.mem_cons_self)
    obtain ⟨later, rest⟩ := ih (m := i.exec m) (fun j mem => reading j (List.mem_cons_of_mem i mem))
    exact ⟨later.trans pointer, rest.trans memory⟩

end
end Nios2Machine
