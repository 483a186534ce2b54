import Mathlib.Data.List.Basic

/- Byte streams that are delivered in pieces, some of them with padding cut off
   their end and some of them never asked for. When such a delivery equals what was
   due, up to padding missing at the very end, is decided by a running debt. -/
namespace PaddingDebt
variable {α : Type} (pad : α)

/-- One piece of a delivery: `body` with `cut` pads missing after it, or elements
    that were not due at all. -/
inductive Entry (α : Type) where
  | trimmed (body : List α) (cut : Nat)
  | extra (body : List α)

def Entry.delivered : Entry α → List α
  | .trimmed body _ => body
  | .extra body => body

def Entry.due : Entry α → List α
  | .trimmed body cut => body ++ List.replicate cut pad
  | .extra _ => []

def deliveredAll (es : List (Entry α)) : List α := es.flatMap Entry.delivered

def dueAll (es : List (Entry α)) : List α := es.flatMap (Entry.due pad)

def OnlyPads (l : List α) : Prop := ∀ a ∈ l, a = pad

/-- The debt is the number of pads still owed. It must be nil when anything else
    than padding is delivered in its turn, and at most `room` in the end. -/
def Settled (room : Nat) : Int → List (Entry α) → Prop
  | debt, [] => 0 ≤ debt ∧ debt ≤ room
  | debt, .trimmed body cut :: es =>
    (OnlyPads pad body ∧ Settled room (debt + cut) es) ∨
      (¬ OnlyPads pad body ∧ debt = 0 ∧ Settled room cut es)
  | debt, .extra body :: es => OnlyPads pad body ∧ Settled room (debt - body.length) es

theorem only_pads_replicate {l : List α} (h : OnlyPads pad l) :
    l = List.replicate l.length pad :=
  List.eq_replicate_of_mem h

/-- `k` more pads complete the delivery of `es`, when `i` pads have been delivered
    already and `j` are due before it. -/
def Completes (i j k : Nat) (es : List (Entry α)) : Prop :=
  List.replicate i pad ++ (deliveredAll es ++ List.replicate k pad) =
    List.replicate j pad ++ dueAll pad es

theorem completes_nil (i j k : Nat) : Completes pad i j k [] ↔ i + k = j := by
  simp only [Completes, deliveredAll, dueAll, List.flatMap_nil, List.nil_append,
    List.append_nil, List.replicate_append_replicate]
  constructor
  · intro same
    have lengths := congrArg List.length same
    simpa using lengths
  · intro same
    rw [same]

theorem completes_pads {body : List α} (h : OnlyPads pad body) (i j k cut : Nat)
    (es : List (Entry α)) :
    Completes pad i j k (.trimmed body cut :: es) ↔
      Completes pad (i + body.length) (j + body.length + cut) k es := by
  have pads := only_pads_replicate pad h
  simp only [Completes, deliveredAll, dueAll, List.flatMap_cons, Entry.delivered, Entry.due]
  rw [pads]
  simp only [List.length_replicate, ← List.append_assoc, List.replicate_append_replicate,
    Nat.add_assoc]

theorem completes_extra_pads {body : List α} (h : OnlyPads pad body) (i j k : Nat)
    (es : List (Entry α)) :
    Completes pad i j k (.extra body :: es) ↔ Completes pad (i + body.length) j k es := by
  have pads := only_pads_replicate pad h
  simp only [Completes, deliveredAll, dueAll, List.flatMap_cons, Entry.delivered, Entry.due,
    List.nil_append]
  rw [pads]
  simp only [List.length_replicate, ← List.append_assoc, List.replicate_append_replicate]

variable [DecidableEq α]

def lead (l : List α) : Nat := (l.takeWhile (· = pad)).length

theorem lead_replicate_append (n : Nat) (l : List α) :
    lead pad (List.replicate n pad ++ l) = n + lead pad l := by
  induction n with
  | zero => simp
  | succ n ih =>
    have step : lead pad (pad :: (List.replicate n pad ++ l)) =
        lead pad (List.replicate n pad ++ l) + 1 := by simp [lead]
    rw [List.replicate_succ, List.cons_append, step, ih]
    omega

theorem lead_append_of_other {l : List α} (other : ¬ OnlyPads pad l) (r : List α) :
    lead pad (l ++ r) = lead pad l := by
  induction l with
  | nil => exact absurd (by intro a h; cases h) other
  | cons a l ih =>
    by_cases first : a = pad
    · have rest : ¬ OnlyPads pad l := by
        intro all
        apply other
        intro b hb
        rcases List.mem_cons.mp hb with rfl | later
        · exact first
        · exact all b later
      have same := ih rest
      simp only [lead] at same
      simp [lead, first, same]
    · simp [lead, first]

def others (l : List α) : Nat := l.countP (· ≠ pad)

theorem others_append (l r : List α) : others pad (l ++ r) = others pad l + others pad r :=
  List.countP_append

theorem others_replicate (n : Nat) : others pad (List.replicate n pad) = 0 := by
  simp [others, List.countP_replicate]

theorem others_pos {l : List α} (other : ¬ OnlyPads pad l) : 0 < others pad l := by
  apply List.countP_pos_iff.mpr
  by_contra none
  apply other
  intro a ha
  by_contra ne
  exact none ⟨a, ha, by simpa using ne⟩

/- Cutting padding off loses nothing else. -/
theorem others_due_le (es : List (Entry α)) :
    others pad (dueAll pad es) ≤ others pad (deliveredAll es) := by
  induction es with
  | nil => exact Nat.le_refl _
  | cons e es ih =>
    simp only [dueAll, deliveredAll, List.flatMap_cons, others_append] at *
    cases e with
    | trimmed body cut =>
      simp only [Entry.due, Entry.delivered, others_append, others_replicate]
      omega
    | extra body =>
      simp only [Entry.due, Entry.delivered, others, List.countP_nil] at *
      omega

theorem completes_other {body : List α} (h : ¬ OnlyPads pad body) (i j k cut : Nat)
    (es : List (Entry α)) :
    Completes pad i j k (.trimmed body cut :: es) ↔ i = j ∧ Completes pad 0 cut k es := by
  simp only [Completes, deliveredAll, dueAll, List.flatMap_cons, Entry.delivered, Entry.due,
    List.append_assoc]
  constructor
  · intro same
    have leads := congrArg (lead pad) same
    simp only [lead_replicate_append, lead_append_of_other pad h] at leads
    have equal : i = j := by omega
    subst equal
    exact ⟨rfl, List.append_cancel_left (List.append_cancel_left same)⟩
  · rintro ⟨rfl, same⟩
    simp only [List.replicate_zero, List.nil_append] at same
    rw [same]

theorem completes_extra_other {body : List α} (h : ¬ OnlyPads pad body) (i j k : Nat)
    (es : List (Entry α)) : ¬ Completes pad i j k (.extra body :: es) := by
  intro same
  have counts := congrArg (others pad) same
  have more := others_pos pad h
  have least := others_due_le pad es
  simp only [deliveredAll, dueAll, List.flatMap_cons, Entry.delivered, Entry.due,
    others_append, others_replicate, List.nil_append] at counts least
  omega

/-- The delivery lacks at most `room` pads, all at its end, exactly when the running
    debt is settled. -/
theorem completes_iff_settled (room i j : Nat) (es : List (Entry α)) :
    (∃ k, k ≤ room ∧ Completes pad i j k es) ↔ Settled pad room (j - i) es := by
  induction es generalizing i j with
  | nil =>
    simp only [completes_nil, Settled]
    constructor
    · rintro ⟨k, small, sum⟩
      omega
    · intro bounds
      exact ⟨j - i, by omega, by omega⟩
  | cons e es ih =>
    cases e with
    | trimmed body cut =>
      by_cases pads : OnlyPads pad body
      · have debt : ((j + body.length + cut : Nat) : Int) - (i + body.length : Nat) =
            (j : Int) - i + cut := by omega
        simp only [completes_pads pad pads, Settled, ih, debt, pads, true_and, not_true_eq_false,
          false_and, or_false]
      · simp only [completes_other pad pads, Settled, pads, false_and, not_false_eq_true, true_and,
          false_or]
        have rest := ih 0 cut
        rw [Int.natCast_zero, Int.sub_zero] at rest
        constructor
        · rintro ⟨k, small, equal, more⟩
          exact ⟨by omega, rest.mp ⟨k, small, more⟩⟩
        · rintro ⟨zero, more⟩
          obtain ⟨k, small, done⟩ := rest.mpr more
          exact ⟨k, small, by omega, done⟩
    | extra body =>
      by_cases pads : OnlyPads pad body
      · have debt : (j : Int) - (i + body.length : Nat) = j - i - body.length := by omega
        simp only [completes_extra_pads pad pads, Settled, ih, debt, pads, true_and]
      · constructor
        · rintro ⟨k, small, same⟩
          exact absurd same (completes_extra_other pad pads i j k es)
        · intro settled
          exact absurd settled.1 pads

end PaddingDebt
