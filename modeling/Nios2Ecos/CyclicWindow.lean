import Mathlib.Data.Nat.Basic

/- Indices of a ring of `n` slots. A slot is placed by its offset from the start of a
   window, and a window by its width. -/
namespace CyclicWindow

/-- The index after `i`. -/
def next (n i : Nat) : Nat := (i + 1) % n

/-- Steps from `start` to `i` round the ring. -/
def offset (n start i : Nat) : Nat := (i + n - start) % n

variable {n start i j : Nat}

theorem next_eq (inside : i < n) : next n i = if i + 1 = n then 0 else i + 1 := by
  unfold next
  split
  · rename_i last
    rw [last, Nat.mod_self]
  · exact Nat.mod_eq_of_lt (by omega)

/-- The index after `i` when it is counted up and set back at the end. -/
theorem wrapped_eq_next (inside : i < n) : (if i + 1 ≥ n then 0 else i + 1) = next n i := by
  rw [next_eq inside]
  split_ifs <;> omega

theorem next_lt (inside : i < n) : next n i < n :=
  Nat.mod_lt _ (by omega)

theorem offset_eq (hs : start < n) (hi : i < n) :
    offset n start i = if start ≤ i then i - start else i + n - start := by
  unfold offset
  split
  · have more : i + n - start = i - start + n := by omega
    rw [more, Nat.add_mod_right, Nat.mod_eq_of_lt (by omega)]
  · exact Nat.mod_eq_of_lt (by omega)

theorem offset_lt (hs : start < n) : offset n start i < n :=
  Nat.mod_lt _ (by omega)

theorem offset_self (hs : start < n) : offset n start start = 0 := by
  rw [offset_eq hs hs, if_pos (Nat.le_refl _), Nat.sub_self]

theorem offset_eq_zero (hs : start < n) (hi : i < n) : offset n start i = 0 ↔ i = start := by
  rw [offset_eq hs hi]
  split
  · omega
  · omega

theorem offset_next (hs : start < n) (hi : i < n) :
    offset n start (next n i) =
      if offset n start i + 1 = n then 0 else offset n start i + 1 := by
  rw [offset_eq hs (next_lt hi), offset_eq hs hi, next_eq hi]
  by_cases last : i + 1 = n
  · rw [if_pos last]
    split_ifs <;> omega
  · rw [if_neg last]
    split_ifs <;> omega

theorem offset_of_next (hs : start < n) (hi : i < n) (other : i ≠ start) :
    offset n (next n start) i + 1 = offset n start i := by
  rw [offset_eq (next_lt hs) hi, offset_eq hs hi, next_eq hs]
  by_cases last : start + 1 = n
  · rw [if_pos last]
    split_ifs <;> omega
  · rw [if_neg last]
    split_ifs <;> omega

theorem offset_of_next_self (hs : start < n) : offset n (next n start) start + 1 = n := by
  rw [offset_eq (next_lt hs) hs, next_eq hs]
  by_cases last : start + 1 = n
  · rw [if_pos last]
    split_ifs <;> omega
  · rw [if_neg last]
    split_ifs <;> omega

/-- Counting from the start and reading the offset are inverse to each other. -/
theorem add_offset (hs : start < n) (hi : i < n) : (start + offset n start i) % n = i := by
  rw [offset_eq hs hi]
  split
  · have back : start + (i - start) = i := by omega
    rw [back, Nat.mod_eq_of_lt hi]
  · have back : start + (i + n - start) = i + n := by omega
    rw [back, Nat.add_mod_right, Nat.mod_eq_of_lt hi]

theorem offset_add (hs : start < n) {d : Nat} (hd : d < n) :
    offset n start ((start + d) % n) = d := by
  have inside : (start + d) % n < n := Nat.mod_lt _ (by omega)
  rw [offset_eq hs inside]
  by_cases past : start + d < n
  · rw [Nat.mod_eq_of_lt past]
    split_ifs <;> omega
  · have wrapped : (start + d) % n = start + d - n := by
      rw [Nat.mod_eq_sub_mod (by omega), Nat.mod_eq_of_lt (by omega)]
    rw [wrapped]
    split_ifs <;> omega

end CyclicWindow
