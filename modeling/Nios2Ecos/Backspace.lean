import Mathlib.Data.List.Infix

/- Lines edited with a key that takes back the last one left. `erases` tells that key from
   the others; the keys before a point matter only through how many backspaces after it find
   nothing of their own to delete. -/
namespace Backspace
variable {Key : Type} (erases : Key → Bool)

def edit : List Key → List Key → List Key
  | line, [] => line
  | line, k :: ks => if erases k then edit line.dropLast ks else edit (line ++ [k]) ks

def reach : List Key → Nat
  | [] => 0
  | k :: ks => if erases k then reach ks + 1 else reach ks - 1

/-- The keys that no backspace behind them deletes. -/
def kept : List Key → List Key
  | [] => []
  | k :: ks => if erases k = false ∧ reach erases ks = 0 then k :: kept ks else kept ks

variable {erases}

theorem edit_eq (line ks : List Key) :
    edit erases line ks = line.take (line.length - reach erases ks) ++ kept erases ks := by
  induction ks generalizing line with
  | nil => simp [edit, reach, kept]
  | cons k ks ih =>
    rw [edit]
    split
    · rename_i back
      rw [ih, reach, if_pos back, kept, if_neg (by simp [back]), List.length_dropLast,
        List.dropLast_eq_take, List.take_take]
      congr 2
      omega
    · rename_i other
      rw [ih, reach, if_neg other, kept]
      by_cases reached : reach erases ks = 0
      · rw [if_pos ⟨by simpa using other, reached⟩, reached, Nat.zero_sub, Nat.sub_zero,
          Nat.sub_zero, List.take_length, List.take_length, List.append_assoc]
        rfl
      · rw [if_neg (fun both => reached both.2), List.length_append, List.length_singleton,
          List.take_append_of_le_length (by omega)]
        congr 2
        omega

theorem edit_nil (ks : List Key) : edit erases [] ks = kept erases ks := by
  rw [edit_eq, List.take_nil, List.nil_append]

/-- Some stretch of the keys that follow has more backspaces than other keys. -/
def Deleted (erases : Key → Bool) (after : List Key) : Prop :=
  ∃ front, front <+: after ∧
    front.countP (fun k => !erases k) < front.countP erases

/- No empty stretch has more backspaces than other keys. -/
theorem stretch_cons {k : Key} {ks : List Key} {m : Nat} :
    (∃ front, front <+: k :: ks ∧
        front.countP (fun k => !erases k) + (m + 1) ≤ front.countP erases) ↔
      ∃ front, front <+: ks ∧
        (k :: front).countP (fun k => !erases k) + (m + 1) ≤ (k :: front).countP erases := by
  constructor
  · rintro ⟨front, begins, more⟩
    cases front with
    | nil => simp at more
    | cons k' front =>
      obtain ⟨rfl, begins'⟩ := List.cons_prefix_cons.mp begins
      exact ⟨front, begins', more⟩
  · rintro ⟨front, begins, more⟩
    exact ⟨k :: front, List.cons_prefix_cons.mpr ⟨rfl, begins⟩, more⟩

theorem reach_ge_iff (ks : List Key) (m : Nat) :
    m ≤ reach erases ks ↔ ∃ front, front <+: ks ∧
      front.countP (fun k => !erases k) + m ≤ front.countP erases := by
  induction ks generalizing m with
  | nil =>
    simp only [reach, List.prefix_nil, exists_eq_left, List.countP_nil]
    omega
  | cons k ks ih =>
    cases m with
    | zero =>
      simp only [Nat.zero_le, true_iff]
      exact ⟨[], List.nil_prefix, Nat.zero_le _⟩
    | succ m =>
      rw [stretch_cons]
      by_cases back : erases k = true
      · rw [reach, if_pos back, Nat.succ_le_succ_iff, ih m]
        apply exists_congr
        intro front
        apply and_congr_right
        intro _
        rw [List.countP_cons_of_neg (by simp [back]), List.countP_cons_of_pos back]
        omega
      · have shifted : m + 1 ≤ reach erases ks - 1 ↔ m + 2 ≤ reach erases ks := by omega
        rw [reach, if_neg back, shifted, ih (m + 2)]
        apply exists_congr
        intro front
        apply and_congr_right
        intro _
        rw [List.countP_cons_of_pos (by simp [back]), List.countP_cons_of_neg back]
        omega

theorem deleted_iff (after : List Key) : Deleted erases after ↔ 0 < reach erases after :=
  (reach_ge_iff after 1).symm

theorem mem_kept_iff {k : Key} (ks : List Key) :
    k ∈ kept erases ks ↔ ∃ before after, ks = before ++ k :: after ∧ erases k = false ∧
      ¬ Deleted erases after := by
  induction ks with
  | nil => simp [kept]
  | cons first ks ih =>
    have here : (∃ before after, first :: ks = before ++ k :: after ∧ erases k = false ∧
          ¬ Deleted erases after) ↔
        (first = k ∧ erases first = false ∧ reach erases ks = 0) ∨ k ∈ kept erases ks := by
      rw [ih]
      constructor
      · rintro ⟨before, after, split, plain, stays⟩
        cases before with
        | nil =>
          cases split
          rw [deleted_iff] at stays
          exact Or.inl ⟨rfl, plain, by omega⟩
        | cons b before =>
          obtain ⟨rfl, rfl⟩ := List.cons.inj split
          exact Or.inr ⟨before, after, rfl, plain, stays⟩
      · rintro (⟨rfl, plain, unreached⟩ | ⟨before, after, rfl, plain, stays⟩)
        · refine ⟨[], ks, rfl, plain, ?_⟩
          rw [deleted_iff]
          omega
        · exact ⟨first :: before, after, rfl, plain, stays⟩
    rw [here, kept]
    split
    · rename_i both
      rw [List.mem_cons]
      constructor
      · rintro (rfl | later)
        · exact Or.inl ⟨rfl, both⟩
        · exact Or.inr later
      · rintro (⟨rfl, -⟩ | later)
        · exact Or.inl rfl
        · exact Or.inr later
    · rename_i gone
      constructor
      · intro later
        exact Or.inr later
      · rintro (⟨-, both⟩ | later)
        · exact absurd both gone
        · exact later

/- Leaving some of the other keys out. -/

section
variable {counts : Key → Bool} (backCounts : ∀ k, erases k = true → counts k = true)
include backCounts

theorem reach_filter_le (ks : List Key) :
    reach erases ks ≤ reach erases (ks.filter counts) := by
  induction ks with
  | nil => exact Nat.le_refl _
  | cons k ks ih =>
    by_cases counted : counts k = true
    · rw [List.filter_cons_of_pos counted, reach, reach]
      split
      · omega
      · omega
    · have plain : ¬ erases k = true := fun back => counted (backCounts k back)
      rw [List.filter_cons_of_neg counted, reach, if_neg plain]
      omega

/-- The keys left out are paid for by keys that stay longer or backspaces that reach
    further. -/
theorem kept_filter_balance (ks : List Key) :
    (kept erases ks).length + reach erases (ks.filter counts) =
      (kept erases (ks.filter counts)).length + reach erases ks +
        ks.countP (fun k => !counts k) := by
  induction ks with
  | nil => rfl
  | cons k ks ih =>
    have le := reach_filter_le backCounts ks
    by_cases back : erases k = true
    · have counted := backCounts k back
      rw [List.filter_cons_of_pos counted, List.countP_cons_of_neg (by simp [counted])]
      simp only [kept, reach, back, if_true, Bool.true_eq_false, false_and, if_false]
      omega
    · have plain : erases k = false := by simpa using back
      by_cases counted : counts k = true
      · rw [List.filter_cons_of_pos counted, List.countP_cons_of_neg (by simp [counted])]
        simp only [kept, reach, plain, Bool.false_eq_true, if_false, true_and]
        by_cases unreached : reach erases ks = 0
        · rw [if_pos unreached]
          by_cases unreached' : reach erases (ks.filter counts) = 0
          · rw [if_pos unreached', List.length_cons, List.length_cons]
            omega
          · rw [if_neg unreached', List.length_cons]
            omega
        · rw [if_neg unreached, if_neg (by omega)]
          omega
      · rw [List.filter_cons_of_neg counted, List.countP_cons_of_pos (by simpa using counted)]
        simp only [kept, reach, plain, Bool.false_eq_true, if_false, true_and]
        by_cases unreached : reach erases ks = 0
        · rw [if_pos unreached, List.length_cons]
          omega
        · rw [if_neg unreached]
          omega

theorem kept_filter_le (ks : List Key) :
    (kept erases (ks.filter counts)).length ≤ (kept erases ks).length := by
  induction ks with
  | nil => exact Nat.le_refl _
  | cons k ks ih =>
    have le := reach_filter_le backCounts ks
    by_cases counted : counts k = true
    · rw [List.filter_cons_of_pos counted, kept, kept]
      split
      · rename_i both
        rw [if_pos ⟨both.1, by omega⟩, List.length_cons, List.length_cons]
        omega
      · split
        · rw [List.length_cons]
          omega
        · exact ih
    · rw [List.filter_cons_of_neg counted, kept]
      split
      · rw [List.length_cons]
        omega
      · exact ih

def Wiped (erases counts : Key → Bool) (ks : List Key) : Prop :=
  ∀ before k after, ks = before ++ k :: after → erases k = false →
    (∃ left, left ∈ k :: after ∧ counts left = false) → Deleted erases after

omit backCounts in
theorem wiped_tail {k : Key} {ks : List Key} (wiped : Wiped erases counts (k :: ks)) :
    Wiped erases counts ks := by
  intro before k' after split
  exact wiped (k :: before) k' after (by rw [split, List.cons_append])

theorem kept_filter_of_wiped {ks : List Key} (wiped : Wiped erases counts ks) :
    kept erases (ks.filter counts) = kept erases ks := by
  induction ks with
  | nil => rfl
  | cons k ks ih =>
    have rest := ih (wiped_tail wiped)
    by_cases all : ∀ left, left ∈ k :: ks → counts left = true
    · rw [List.filter_eq_self.mpr all]
    · have some_left : ∃ left, left ∈ k :: ks ∧ counts left = false := by
        by_contra none_left
        apply all
        intro left there
        by_contra uncounted
        exact none_left ⟨left, there, by simpa using uncounted⟩
      have gone : ¬ (erases k = false ∧ reach erases ks = 0) := by
        rintro ⟨plain, unreached⟩
        have reached := (deleted_iff ks).mp (wiped [] k ks rfl plain some_left)
        omega
      have le := reach_filter_le backCounts ks
      rw [kept, if_neg gone]
      by_cases counted : counts k = true
      · have gone' : ¬ (erases k = false ∧ reach erases (ks.filter counts) = 0) := by
          rintro ⟨plain, unreached⟩
          exact gone ⟨plain, by omega⟩
        rw [List.filter_cons_of_pos counted, kept, if_neg gone', rest]
      · rw [List.filter_cons_of_neg counted, rest]

theorem wiped_of_kept_length {ks : List Key}
    (same : (kept erases (ks.filter counts)).length = (kept erases ks).length) :
    Wiped erases counts ks := by
  induction ks with
  | nil =>
    intro before k after split
    exact absurd split.symm (by simp)
  | cons k ks ih =>
    have shorter := kept_filter_le backCounts ks
    have balance := kept_filter_balance backCounts ks
    by_cases stays : erases k = false ∧ reach erases ks = 0
    · -- the key stays: it must count, and stay with the others left out as well
      rw [kept, if_pos stays, List.length_cons] at same
      by_cases counted : counts k = true
      · rw [List.filter_cons_of_pos counted, kept] at same
        by_cases stays' : erases k = false ∧ reach erases (ks.filter counts) = 0
        · rw [if_pos stays', List.length_cons] at same
          have all : ks.countP (fun k => !counts k) = 0 := by omega
          intro before k' after split _ left_out
          obtain ⟨left, there, uncounted⟩ := left_out
          have member : left ∈ k :: ks := by
            rw [split]
            exact List.mem_append_right before there
          rcases List.mem_cons.mp member with rfl | later
          · rw [counted] at uncounted
            cases uncounted
          · exact absurd (by simpa using uncounted) (List.countP_eq_zero.mp all left later)
        · rw [if_neg stays'] at same
          omega
      · rw [List.filter_cons_of_neg counted] at same
        omega
    · rw [kept, if_neg stays] at same
      have tail : (kept erases (ks.filter counts)).length = (kept erases ks).length := by
        by_cases counted : counts k = true
        · rw [List.filter_cons_of_pos counted, kept] at same
          have reaches := reach_filter_le backCounts ks
          rw [if_neg (fun both => stays ⟨both.1, by omega⟩)] at same
          exact same
        · rw [List.filter_cons_of_neg counted] at same
          exact same
      intro before k' after split plain left_out
      cases before with
      | nil =>
        cases split
        rw [deleted_iff]
        by_contra unreached
        exact stays ⟨plain, by omega⟩
      | cons b before =>
        obtain ⟨rfl, rfl⟩ := List.cons.inj split
        exact ih tail before k' after rfl plain left_out

end

/- Keys that are images of others. -/

theorem reach_map {Other : Type} (f : Other → Key) (ks : List Other) :
    reach erases (ks.map f) = reach (erases ∘ f) ks := by
  induction ks with
  | nil => rfl
  | cons k ks ih => simp only [List.map_cons, reach, ih, Function.comp_apply]

theorem kept_map {Other : Type} (f : Other → Key) (ks : List Other) :
    kept erases (ks.map f) = (kept (erases ∘ f) ks).map f := by
  induction ks with
  | nil => rfl
  | cons k ks ih =>
    rw [List.map_cons, kept, kept, reach_map, Function.comp_apply]
    split
    · rw [ih, List.map_cons]
    · exact ih

end Backspace
