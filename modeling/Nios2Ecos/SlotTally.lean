import Mathlib.Data.List.Basic
import Mathlib.Data.List.Range
import Mathlib.Logic.Function.Basic

/- How many slots of a table hold an entry of some kind. -/
namespace SlotTally
variable {A : Type}

def tally (n : Nat) (p : A → Bool) (table : Nat → Option A) : Nat :=
  (List.range n).countP fun i => (table i).any p

variable {n i : Nat} {p q r : A → Bool} {table : Nat → Option A}

theorem tally_succ : tally (n + 1) p table = tally n p table + ((table n).any p).toNat := by
  rw [tally, tally, List.range_succ, List.countP_append, List.countP_singleton]
  cases (table n).any p <;> rfl

theorem tally_congr {table' : Nat → Option A} (same : ∀ i < n, table' i = table i) :
    tally n p table' = tally n p table := by
  induction n with
  | zero => rfl
  | succ n ih =>
    rw [tally_succ, tally_succ, ih (fun i less => same i (by omega)), same n (Nat.lt_succ_self n)]

/-- One slot changes. -/
theorem tally_update (p : A → Bool) (table : Nat → Option A) (inside : i < n) (x : Option A) :
    tally n p (Function.update table i x) + ((table i).any p).toNat =
      tally n p table + (x.any p).toNat := by
  induction n with
  | zero => omega
  | succ n ih =>
    rw [tally_succ, tally_succ]
    by_cases last : i = n
    · subst last
      have rest : tally i p (Function.update table i x) = tally i p table :=
        tally_congr fun j less => Function.update_of_ne (Nat.ne_of_lt less) x table
      rw [rest, Function.update_self]
      omega
    · have earlier := ih (by omega)
      rw [Function.update_of_ne (fun same => last same.symm)]
      omega

theorem tally_zero_iff : tally n p table = 0 ↔ ∀ i < n, ∀ a, table i = some a → p a = false := by
  rw [tally, List.countP_eq_zero]
  constructor
  · intro none_counted i inside a there
    have not_any := none_counted i (List.mem_range.mpr inside)
    rw [there] at not_any
    simpa using not_any
  · intro all i inside
    cases there : table i with
    | none => simp
    | some a =>
      rw [Option.any_some, all i (List.mem_range.mp inside) a there]
      decide

/-- Two kinds that make up a third. -/
theorem tally_add (parts : ∀ a, (p a).toNat = (q a).toNat + (r a).toNat) :
    tally n p table = tally n q table + tally n r table := by
  induction n with
  | zero => rfl
  | succ n ih =>
    rw [tally_succ, tally_succ, tally_succ, ih]
    cases table n with
    | none => rfl
    | some a =>
      simp only [Option.any_some, parts a]
      omega

theorem tally_filter (keep : A → Bool) :
    tally n p (fun i => (table i).filter keep) = tally n (fun a => p a && keep a) table := by
  induction n with
  | zero => rfl
  | succ n ih =>
    rw [tally_succ, tally_succ, ih]
    cases table n with
    | none => rfl
    | some a =>
      cases kept : keep a with
      | true => simp [Option.filter_some, kept]
      | false => simp [Option.filter_some, kept]

theorem tally_mono {m : Nat} (shorter : n ≤ m) : tally n p table ≤ tally m p table := by
  induction shorter with
  | refl => exact Nat.le_refl _
  | step _ ih =>
    rw [tally_succ]
    omega

end SlotTally
