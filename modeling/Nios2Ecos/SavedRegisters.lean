import Nios2Ecos.Nios2Machine

/- HAL_SavedRegisters: the frame that context switches and software exceptions leave on a
   stack, as C sees it. -/
namespace SavedRegisters
open Nios2Machine

inductive Field
  | pc
  | fp
  | dHigh (i : Fin 8)
  | status
  | regArg0
  | estatus
  | ea
  | et
  | gp
  | dLow (i : Fin 15)
  | ra
  | sp
  | ipending
  | ienable
deriving DecidableEq

def Field.index : Field → Nat
  | .pc => 0
  | .fp => 1
  | .dHigh i => 2 + i
  | .status => 10
  | .regArg0 => 11
  | .estatus => 12
  | .ea => 13
  | .et => 14
  | .gp => 15
  | .dLow i => 16 + i
  | .ra => 31
  | .sp => 32
  | .ipending => 33
  | .ienable => 34

def Field.offset (f : Field) : Word := BitVec.ofNat 32 (4 * f.index)

/-- sizeof(HAL_SavedRegisters) -/
def size : Word := 140

theorem index_injective : Function.Injective Field.index := by
  intro f g same
  cases f <;> cases g <;> simp only [Field.index] at same
  case dHigh.dHigh i j => exact congrArg Field.dHigh (Fin.ext (by omega))
  case dLow.dLow i j => exact congrArg Field.dLow (Fin.ext (by omega))
  all_goals first | rfl | omega

theorem index_bound (f : Field) : f.index < 35 := by
  cases f <;> simp only [Field.index] <;> omega

theorem offset_toNat (f : Field) : f.offset.toNat = 4 * f.index := by
  have bound := index_bound f
  rw [Field.offset, BitVec.toNat_ofNat]
  omega

theorem offset_injective : Function.Injective Field.offset := by
  intro f g same
  apply index_injective
  have distance := congrArg BitVec.toNat same
  rw [offset_toNat, offset_toNat] at distance
  omega

/-- Writing fields of the structure at `regs`, in this order. -/
def write (regs : Word) (fields : List (Field × Word)) (m : Machine) : Machine :=
  fields.foldl (fun m p => m.store (regs + p.1.offset) p.2) m

def read (regs : Word) (f : Field) (m : Machine) : Word := m.mem (regs + f.offset)

section
variable {regs : Word} {fields : List (Field × Word)} {m : Machine}

theorem write_frame : (∀ r, (write regs fields m).get r = m.get r) ∧
    (write regs fields m).ctl = m.ctl ∧ (write regs fields m).pc = m.pc := by
  induction fields generalizing m with
  | nil => exact ⟨fun _ => rfl, rfl, rfl⟩
  | cons p fields ih =>
    obtain ⟨registers, control, pc⟩ := ih (m := m.store (regs + p.1.offset) p.2)
    exact ⟨registers, control, pc⟩

theorem write_elsewhere {a : Word} (outside : ∀ p ∈ fields, a ≠ regs + p.1.offset) :
    (write regs fields m).mem a = m.mem a := by
  induction fields generalizing m with
  | nil => rfl
  | cons p fields ih =>
    have rest := ih (m := m.store (regs + p.1.offset) p.2)
      (fun q mem => outside q (List.mem_cons_of_mem p mem))
    exact rest.trans (m.store_ne _ (outside p List.mem_cons_self))

theorem field_address_ne {f g : Field} (other : f ≠ g) : regs + f.offset ≠ regs + g.offset := by
  intro same
  exact other (offset_injective ((BitVec.add_right_inj _).mp same))

theorem read_write_other {f : Field} (other : f ∉ fields.map Prod.fst) :
    read regs f (write regs fields m) = read regs f m := by
  apply write_elsewhere
  intro p mem
  apply field_address_ne
  rintro rfl
  exact other (List.mem_map_of_mem mem)

theorem read_write (distinct : (fields.map Prod.fst).Nodup) {p : Field × Word} (mem : p ∈ fields) :
    read regs p.1 (write regs fields m) = p.2 := by
  induction fields generalizing m with
  | nil => cases mem
  | cons q fields ih =>
    obtain ⟨fresh, distinct⟩ := List.nodup_cons.mp distinct
    rcases List.mem_cons.mp mem with rfl | later
    · calc read regs p.1 (write regs fields (m.store (regs + p.1.offset) p.2))
          = read regs p.1 (m.store (regs + p.1.offset) p.2) := read_write_other fresh
        _ = p.2 := m.store_same _ _
    · exact ih distinct later

end
end SavedRegisters
