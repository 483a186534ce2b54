import Mathlib.Data.List.Basic
import Mathlib.Logic.Function.Basic

/- A table in which the keys of some items are set to one value, item after item. -/
namespace MarkedTable
variable {K V A : Type} [DecidableEq K]

def markAll (p : A → Prop) [DecidablePred p] (key : A → K) (v : V) (items : List A) (t : K → V) :
    K → V :=
  items.foldl (fun t a => if p a then Function.update t (key a) v else t) t

def Marks (p : A → Prop) (key : A → K) (items : List A) (k : K) : Prop :=
  ∃ a ∈ items, p a ∧ key a = k

variable {p : A → Prop} [DecidablePred p] {key : A → K} {v : V} {items : List A} {t : K → V} {k : K}

omit [DecidableEq K] [DecidablePred p] in
theorem marks_cons {a : A} :
    Marks p key (a :: items) k ↔ p a ∧ key a = k ∨ Marks p key items k := by
  simp only [Marks, List.mem_cons, or_and_right, exists_or, exists_eq_left]

theorem mark_all_other (other : ¬ Marks p key items k) : markAll p key v items t k = t k := by
  induction items generalizing t with
  | nil => rfl
  | cons a items ih =>
    rw [marks_cons, not_or] at other
    have rest := ih (t := if p a then Function.update t (key a) v else t) other.2
    refine rest.trans ?_
    split
    · rename_i good
      exact Function.update_of_ne (fun same => other.1 ⟨good, same.symm⟩) v t
    · rfl

theorem mark_all_marked (marked : Marks p key items k) : markAll p key v items t k = v := by
  induction items generalizing t with
  | nil =>
    obtain ⟨a, mem, -⟩ := marked
    cases mem
  | cons a items ih =>
    by_cases later : Marks p key items k
    · exact ih later
    · obtain ⟨good, same⟩ := (marks_cons.mp marked).resolve_right later
      have rest : markAll p key v (a :: items) t k =
          (if p a then Function.update t (key a) v else t) k := mark_all_other later
      rw [rest, if_pos good, ← same, Function.update_self]

/-- Only which keys are marked matters, not by which items and how often. -/
theorem mark_all_congr {items' : List A} (same : ∀ k, Marks p key items' k ↔ Marks p key items k) :
    markAll p key v items' t = markAll p key v items t := by
  funext k
  by_cases marked : Marks p key items k
  · rw [mark_all_marked marked, mark_all_marked ((same k).mpr marked)]
  · rw [mark_all_other marked, mark_all_other (fun m => marked ((same k).mp m))]

end MarkedTable
