import Mathlib.Data.List.Basic

/- Runs of a machine given by a partial step function, and the invariant rule for
   runs whose steps all meet a condition. -/
namespace Runs
variable {State Action : Type} (step : State → Action → Option State)

def exec : State → List Action → Option State
  | s, [] => some s
  | s, a :: as => (step s a).bind (fun s' => exec s' as)

/-- `ok` holds at every step of the run. -/
def Along (ok : State → Action → Prop) : State → List Action → Prop
  | _, [] => True
  | s, a :: as => ok s a ∧ ∀ s', step s a = some s' → Along ok s' as

theorem along_none {ok : State → Action → Prop} {s : State} {a : Action} {as : List Action}
    (stuck : step s a = none) : ok s a ↔ Along step ok s (a :: as) := by
  constructor
  · intro good
    refine ⟨good, ?_⟩
    intro s' there
    rw [stuck] at there
    cases there
  · intro both
    exact both.1

theorem along_some {ok : State → Action → Prop} {s m : State} {a : Action} {as : List Action}
    (stepped : step s a = some m) :
    ok s a ∧ Along step ok m as ↔ Along step ok s (a :: as) := by
  constructor
  · intro both
    refine ⟨both.1, ?_⟩
    intro s' there
    rw [stepped] at there
    cases there
    exact both.2
  · intro both
    exact ⟨both.1, both.2 m stepped⟩

instance decidableAlong {ok : State → Action → Prop} [∀ s a, Decidable (ok s a)] :
    ∀ s as, Decidable (Along step ok s as)
  | _, [] => isTrue trivial
  | s, a :: as =>
    match h : step s a with
    | none => decidable_of_iff (ok s a) (along_none step h)
    | some m =>
      have : Decidable (Along step ok m as) := decidableAlong m as
      decidable_of_iff (ok s a ∧ Along step ok m as) (along_some step h)

variable {step}

theorem exec_cons {s s' : State} {a : Action} {as : List Action}
    (h : exec step s (a :: as) = some s') :
    ∃ m, step s a = some m ∧ exec step m as = some s' :=
  Option.bind_eq_some_iff.mp h

/-- A step that is always possible. -/
theorem exec_total (next : State → Action → State) (s : State) (as : List Action) :
    exec (fun s a => some (next s a)) s as = some (as.foldl next s) := by
  induction as generalizing s with
  | nil => rfl
  | cons a as ih => exact ih (next s a)

theorem exec_append {s m : State} {as : List Action} (ran : exec step s as = some m)
    (bs : List Action) : exec step s (as ++ bs) = exec step m bs := by
  induction as generalizing s with
  | nil =>
    cases ran
    rfl
  | cons a as ih =>
    obtain ⟨next, stepped, rest⟩ := exec_cons ran
    rw [List.cons_append, exec, stepped]
    exact ih rest

theorem along_append {ok : State → Action → Prop} {s s' : State} {as bs : List Action}
    (good : Along step ok s (as ++ bs)) (ran : exec step s as = some s') :
    Along step ok s as ∧ Along step ok s' bs := by
  induction as generalizing s with
  | nil =>
    cases ran
    exact ⟨trivial, good⟩
  | cons a as ih =>
    obtain ⟨m, stepped, rest⟩ := exec_cons ran
    obtain ⟨first, later⟩ := ih (good.2 m stepped) rest
    refine ⟨⟨good.1, ?_⟩, later⟩
    intro m' stepped'
    cases stepped.symm.trans stepped'
    exact first

theorem along_mono {ok weaker : State → Action → Prop}
    (implies : ∀ s a, ok s a → weaker s a) {s : State} {as : List Action}
    (good : Along step ok s as) : Along step weaker s as := by
  induction as generalizing s with
  | nil => trivial
  | cons a as ih => exact ⟨implies s a good.1, fun s' stepped => ih (good.2 s' stepped)⟩

/-- A condition on the actions alone holds along every run. -/
theorem along_actions {good : Action → Prop} {as : List Action} (all : ∀ a ∈ as, good a)
    (s : State) : Along step (fun _ a => good a) s as := by
  induction as generalizing s with
  | nil => trivial
  | cons a as ih =>
    refine ⟨all a List.mem_cons_self, ?_⟩
    intro s' _
    exact ih (fun b there => all b (List.mem_cons_of_mem a there)) s'

theorem invariant_along {ok : State → Action → Prop} {inv : State → Prop}
    (preserved : ∀ s a s', inv s → ok s a → step s a = some s' → inv s') {s s' : State}
    {as : List Action} (start : inv s) (good : Along step ok s as)
    (ran : exec step s as = some s') : inv s' := by
  induction as generalizing s with
  | nil =>
    cases ran
    exact start
  | cons a as ih =>
    obtain ⟨m, stepped, rest⟩ := exec_cons ran
    exact ih (preserved s a m start good.1 stepped) (good.2 m stepped) rest

theorem invariant_run {inv : State → Prop}
    (preserved : ∀ s a s', inv s → step s a = some s' → inv s') {s s' : State}
    {as : List Action} (start : inv s) (ran : exec step s as = some s') : inv s' := by
  induction as generalizing s with
  | nil =>
    cases ran
    exact start
  | cons a as ih =>
    obtain ⟨m, stepped, rest⟩ := exec_cons ran
    exact ih (preserved s a m start stepped) rest

end Runs
