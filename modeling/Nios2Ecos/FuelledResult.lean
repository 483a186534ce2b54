import Mathlib.Data.List.Basic
import Nios2Ecos.WhileLoop

/- A computation that is given a bound on its loops, and the result it has from some bound
   on. -/
namespace FuelledResult
variable {α β : Type} {f : Nat → Option α} {a : α}

def Yields (f : Nat → Option α) (a : α) : Prop := ∃ n, ∀ m, n ≤ m → f m = some a

theorem yields_pure (a : α) : Yields (fun _ => some a) a :=
  ⟨0, by intro m _; rfl⟩

theorem yields_congr {g : Nat → Option α} (yields : Yields f a) (same : ∀ m, g m = f m) :
    Yields g a := by
  obtain ⟨n, enough⟩ := yields
  exact ⟨n, by intro m large; rw [same, enough m large]⟩

theorem yields_bind {g : α → Nat → Option β} {b : β} (first : Yields f a)
    (second : Yields (g a) b) : Yields (fun m => (f m).bind (fun a => g a m)) b := by
  obtain ⟨n, enough⟩ := first
  obtain ⟨k, more⟩ := second
  refine ⟨max n k, ?_⟩
  intro m large
  have left := enough m (Nat.le_trans (Nat.le_max_left n k) large)
  have right := more m (Nat.le_trans (Nat.le_max_right n k) large)
  simp [left, right]

theorem yields_map {g : α → β} (first : Yields f a) :
    Yields (fun m => (f m).map g) (g a) := by
  obtain ⟨n, enough⟩ := first
  exact ⟨n, by intro m large; simp [enough m large]⟩

/-- A loop that returns yields what it returns. -/
theorem yields_loop {test : α → Bool} {body : α → α} {r : α}
    (returned : WhileLoop.Returns test body a r) :
    Yields (fun m => WhileLoop.turns test body m a) r := by
  obtain ⟨n, enough⟩ := returned
  refine ⟨n, ?_⟩
  intro m large
  have more := WhileLoop.turns_more enough (m - n)
  rwa [Nat.add_sub_cancel' large] at more

end FuelledResult
