import Mathlib.Data.List.Basic
import Mathlib.Data.List.Perm.Basic
import Mathlib.Logic.Function.Basic

/- A table of numbered slots, each holding a key or nothing (zero). The keys held by
   a table are counted as a list up to order. -/
namespace SlotTable

/-- The keys in the first `n` slots. -/
def held : Nat → (Nat → Nat) → List Nat
  | 0, _ => []
  | n + 1, table => if table n = 0 then held n table else table n :: held n table

theorem held_congr {n : Nat} {f g : Nat → Nat} (same : ∀ i, i < n → f i = g i) :
    held n f = held n g := by
  induction n with
  | zero => rfl
  | succ n ih =>
    have rest := ih (fun i less => same i (by omega))
    simp only [held, same n (Nat.lt_succ_self n), rest]

theorem mem_held {n : Nat} {table : Nat → Nat} {k : Nat} :
    k ∈ held n table ↔ k ≠ 0 ∧ ∃ i, i < n ∧ table i = k := by
  induction n with
  | zero => simp [held]
  | succ n ih =>
    simp only [held]
    constructor
    · intro mem
      split at mem
      · obtain ⟨some, i, less, eq⟩ := ih.mp mem
        exact ⟨some, i, by omega, eq⟩
      · rename_i used
        rcases List.mem_cons.mp mem with rfl | later
        · exact ⟨used, n, by omega, rfl⟩
        · obtain ⟨some, i, less, eq⟩ := ih.mp later
          exact ⟨some, i, by omega, eq⟩
    · rintro ⟨some, i, less, eq⟩
      by_cases last : i = n
      · subst last
        rw [if_neg (by rw [eq]; exact some), eq]
        exact List.mem_cons_self
      · have inner := ih.mpr ⟨some, i, by omega, eq⟩
        split
        · exact inner
        · exact List.mem_cons_of_mem _ inner

theorem held_empty {n : Nat} {table : Nat → Nat} (empty : ∀ i, i < n → table i = 0) :
    held n table = [] := by
  induction n with
  | zero => rfl
  | succ n ih =>
    simp only [held, empty n (Nat.lt_succ_self n), ↓reduceIte]
    exact ih (fun i less => empty i (by omega))

theorem held_fill {n i k : Nat} {table : Nat → Nat} (inside : i < n) (empty : table i = 0)
    (some : k ≠ 0) : (held n (Function.update table i k)).Perm (k :: held n table) := by
  induction n with
  | zero => omega
  | succ n ih =>
    simp only [held]
    by_cases last : i = n
    · subst last
      have rest : held i (Function.update table i k) = held i table :=
        held_congr (fun j less => Function.update_of_ne (by omega) _ _)
      rw [Function.update_self, if_neg some, if_pos empty, rest]
    · have inner := ih (by omega)
      rw [Function.update_of_ne (by omega)]
      split
      · exact inner
      · exact (inner.cons _).trans (List.Perm.swap _ _ _)

theorem held_clear {n i : Nat} {table : Nat → Nat} (inside : i < n) (used : table i ≠ 0) :
    (held n table).Perm (table i :: held n (Function.update table i 0)) := by
  have again : Function.update (Function.update table i 0) i (table i) = table := by
    rw [Function.update_idem, Function.update_eq_self]
  have filled : (held n (Function.update (Function.update table i 0) i (table i))).Perm
      (table i :: held n (Function.update table i 0)) :=
    held_fill inside (Function.update_self i 0 table) used
  rwa [again] at filled

end SlotTable
