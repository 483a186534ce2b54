import Mathlib.Data.List.Basic

/- A `while` loop as a bounded number of turns. It returns when some bound is enough,
   and an invariant that keeps the test true shows that none is. -/
namespace WhileLoop
variable {State : Type} (test : State → Bool) (body : State → State)

def turns : Nat → State → Option State
  | 0, s => if test s then none else some s
  | n + 1, s => if test s then turns n (body s) else some s

def Returns (s r : State) : Prop := ∃ n, turns test body n s = some r

variable {test body} {s r : State}

theorem turns_more {n : Nat} (h : turns test body n s = some r) (k : Nat) :
    turns test body (n + k) s = some r := by
  induction n generalizing s with
  | zero =>
    unfold turns at h
    split at h
    · cases h
    · rename_i off
      cases k <;> simp [turns, off, h]
  | succ n ih =>
    rw [Nat.succ_add]
    unfold turns at h ⊢
    split
    · rename_i on
      rw [if_pos on] at h
      exact ih h
    · rename_i off
      rwa [if_neg off] at h

theorem returns_done (off : test s = false) : Returns test body s s :=
  ⟨0, by simp [turns, off]⟩

theorem returns_turn (on : test s = true) (rest : Returns test body (body s) r) :
    Returns test body s r := by
  obtain ⟨n, h⟩ := rest
  exact ⟨n + 1, by simpa [turns, on] using h⟩

theorem returns_next (on : test s = true) (returns : Returns test body s r) :
    Returns test body (body s) r := by
  obtain ⟨n, h⟩ := returns
  cases n with
  | zero => simp [turns, on] at h
  | succ n => exact ⟨n, by simpa [turns, on] using h⟩

/-- An invariant under which the test stays true is left by no number of turns. -/
theorem never_returns (inv : State → Prop) (stays : ∀ s, inv s → test s = true)
    (preserved : ∀ s, inv s → inv (body s)) (start : inv s) (n : Nat) :
    turns test body n s = none := by
  induction n generalizing s with
  | zero => simp [turns, stays s start]
  | succ n ih =>
    simp only [turns, stays s start, if_true]
    exact ih (preserved s start)

theorem returns_invariant (inv : State → Prop)
    (preserved : ∀ s, inv s → test s = true → inv (body s)) (start : inv s)
    (returns : Returns test body s r) : inv r ∧ test r = false := by
  obtain ⟨n, h⟩ := returns
  induction n generalizing s with
  | zero =>
    unfold turns at h
    split at h
    · cases h
    · rename_i off
      cases h
      exact ⟨start, by simpa using off⟩
  | succ n ih =>
    unfold turns at h
    split at h
    · rename_i on
      exact ih (preserved s start on) h
    · rename_i off
      cases h
      exact ⟨start, by simpa using off⟩

/-- A variant that every turn lowers makes the loop return. -/
theorem returns_variant (variant : State → Nat) (inv : State → Prop)
    (preserved : ∀ s, inv s → test s = true → inv (body s))
    (lower : ∀ s, inv s → test s = true → variant (body s) < variant s) (start : inv s) :
    ∃ r, Returns test body s r := by
  induction bound : variant s using Nat.strongRecOn generalizing s with
  | ind n ih =>
    cases on : test s with
    | false => exact ⟨s, returns_done on⟩
    | true =>
      have less := lower s start on
      rw [bound] at less
      obtain ⟨r, rest⟩ := ih _ less (preserved s start on) rfl
      exact ⟨r, returns_turn on rest⟩

end WhileLoop
