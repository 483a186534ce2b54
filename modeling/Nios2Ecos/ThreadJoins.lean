import Mathlib.Data.List.Nodup
import Nios2Ecos.PosixThreads

/- What becomes of a thread of the POSIX layer, step by step: its join and its detachment, and
   those that wait for it. -/
namespace ThreadJoins
open PosixThreads

variable {max : Nat}

/- The life of a thread: what one step can do to its record. -/

inductive Fate (s s' : State) (i : Nat) (th : Thread) : Action → Prop where
  | stays {a : Action} : s'.threadTable i = some th → Fate s s' i th a
  | ends {retval : Nat} : th.alive = true → s'.threadTable i = some (ended th retval) →
      Fate s s' i th (.exit i retval)
  | reaped {a : Action} : th.state = .exited → Fate s s' i th a
  | joined {j : Nat} {id : BitVec 32} : th.state = .join → pthreadInfoId s id = some th →
      Fate s s' i th (.join j id)
  | awaited {w : Wait} : th.state = .join → w.slot = i → w.joinee = th.gen →
      Fate s s' i th (.wake w)
  | detaches {id : BitVec 32} : pthreadInfoId s id = some th → th.state ≠ .detached →
      s'.threadTable i = some { th with state := .detached } → Fate s s' i th (.detach id)

theorem joinWith_slot {s : State} {w : Wait} {i : Nat} {th joinee : Thread} (inv : Inv max s)
    (there : s.threadTable i = some th) (visible : th.state ≠ .exited)
    (at_slot : s.threadTable w.slot = some joinee) :
    (joinWith max w joinee s).2.threadTable i = some th ∨ (th.state = .join ∧ w.slot = i) := by
  unfold joinWith
  cases kind : joinee.state with
  | running => exact .inl there
  | join =>
    by_cases same : w.slot = i
    · right
      rw [same, there] at at_slot
      cases at_slot
      exact ⟨kind, same⟩
    · left
      dsimp only
      rw [finishJoin_eq inv at_slot kind]
      apply some_swept _ visible
      dsimp only [claimedState]
      rw [Function.update_of_ne (fun other => same other.symm)]
      exact there
  | detached => exact .inl there
  | exited => exact .inl there

theorem found_swept {s : State} {id : BitVec 32} :
    pthreadInfoId (swept s) id = pthreadInfoId s id := by
  unfold pthreadInfoId
  cases there : s.threadTable (indexOf id) with
  | none =>
    have gone : (swept s).threadTable (indexOf id) = none := by simp [swept, there]
    rw [gone]
  | some th =>
    by_cases visible : th.state = .exited
    · have gone : (swept s).threadTable (indexOf id) = none := by
        simp [swept, there, kept, reapable, visible, Option.filter_some]
      rw [gone]
      simp [visible]
    · rw [some_swept there visible]

theorem fate_create {s : State} {i : Nat} {th : Thread} (inv : Inv max s)
    (there : s.threadTable i = some th) (visible : th.state ≠ .exited) (asked : Bool) :
    (pthreadCreate max asked s).2.threadTable i = some th := by
  have clean := some_swept there visible
  rcases create_cases inv asked with ⟨j, inside, free, same⟩ | ⟨_, same⟩
  · rw [same]
    have other : i ≠ j := by
      intro same_slot
      rw [same_slot, free] at clean
      cases clean
    dsimp only [withThread]
    rw [Function.update_of_ne other]
    exact clean
  · rw [same]
    exact clean

theorem fate_join {s : State} {i : Nat} {th : Thread} (inv : Inv max s)
    (there : s.threadTable i = some th) (visible : th.state ≠ .exited) (self : Nat)
    (id : BitVec 32) :
    (pthreadJoin max self id s).2.threadTable i = some th ∨
      (th.state = .join ∧ pthreadInfoId s id = some th) := by
  have clean := some_swept there visible
  unfold pthreadJoin
  rw [reap_eq inv]
  dsimp only
  rw [found_swept]
  cases joinee : pthreadInfoId s id with
  | none => exact .inl clean
  | some other =>
    obtain ⟨at_index, joinee_visible, _⟩ := found joinee
    have at_slot := some_swept at_index joinee_visible
    dsimp only
    split_ifs with own
    · exact .inl clean
    · rcases joinWith_slot (w := ⟨self, indexOf id, other.gen⟩) (inv_swept inv) clean visible
        at_slot with stays | ⟨join, same⟩
      · exact .inl stays
      · right
        dsimp only at same
        rw [same, there] at at_index
        exact ⟨join, at_index.symm⟩

theorem fate_detach {s : State} {i : Nat} {th : Thread} (inv : Inv max s)
    (there : s.threadTable i = some th) (visible : th.state ≠ .exited) (id : BitVec 32) :
    (pthreadDetach max id s).2.threadTable i = some th ∨
      (pthreadInfoId s id = some th ∧ th.state ≠ .detached ∧
        (pthreadDetach max id s).2.threadTable i = some { th with state := .detached }) := by
  have clean := some_swept there visible
  unfold pthreadDetach
  cases detachee : pthreadInfoId s id with
  | none =>
    dsimp only
    rw [reap_eq inv]
    exact .inl clean
  | some other =>
    obtain ⟨at_index, other_visible, _⟩ := found detachee
    dsimp only
    split_ifs with already
    · rw [reap_eq inv]
      exact .inl clean
    · have reaped := reap_eq (inv_detached inv at_index other_visible)
      unfold detachedState at reaped
      rw [reaped]
      by_cases same : i = indexOf id
      · right
        rw [← same, there] at at_index
        cases at_index
        refine ⟨rfl, already, ?_⟩
        apply some_swept
        · dsimp only
          rw [same, Function.update_self]
        · simp
      · left
        apply some_swept _ visible
        dsimp only
        rw [Function.update_of_ne same]
        exact there

theorem fate {s : State} {i : Nat} {th : Thread} {a : Action} {result : Result} {s' : State}
    (inv : Inv max s) (there : s.threadTable i = some th)
    (stepped : step max s a = some (result, s')) : Fate s s' i th a := by
  by_cases visible : th.state = .exited
  · exact .reaped visible
  cases a with
  | create asked =>
    have stays := fate_create inv there visible asked
    rw [Option.some.inj stepped] at stays
    exact .stays stays
  | noStack =>
    cases stepped
    exact .stays there
  | exit j retval =>
    obtain ⟨self, call, last⟩ := Option.map_eq_some_iff.mp stepped
    obtain ⟨at_j, living, _⟩ := caller_some call
    have after : s'.threadTable = Function.update s.threadTable j (some (ended self retval)) :=
      congrArg State.threadTable (Prod.mk.inj last).2.symm
    by_cases own : i = j
    · subst own
      rw [there] at at_j
      cases at_j
      apply Fate.ends living
      rw [after, Function.update_self]
    · apply Fate.stays
      rw [after, Function.update_of_ne own]
      exact there
  | join j id =>
    dsimp only [step] at stepped
    split_ifs at stepped with inside
    obtain ⟨self, call, last⟩ := Option.map_eq_some_iff.mp stepped
    rcases fate_join inv there visible self.gen id with stays | ⟨join, joinee⟩
    · rw [last] at stays
      exact .stays stays
    · exact .joined join joinee
  | wake w =>
    dsimp only [step] at stepped
    split_ifs at stepped with waiting
    unfold wake at stepped
    cases at_slot : s.threadTable w.slot with
    | none =>
      rw [at_slot] at stepped
      cases stepped
      exact .stays there
    | some joinee =>
      rw [at_slot] at stepped
      dsimp only at stepped
      split_ifs at stepped with same
      · rcases joinWith_slot (w := w) (inv_waits inv (s.waits.erase w)) there visible at_slot with
          stays | ⟨join, slot⟩
        · rw [Option.some.inj stepped] at stays
          exact .stays stays
        · rw [slot, there] at at_slot
          cases at_slot
          exact .awaited join slot same.symm
      · cases stepped
        exact .stays there
  | cancelled w =>
    dsimp only [step] at stepped
    split_ifs at stepped with waiting
    unfold cancelled at stepped
    cases at_slot : s.threadTable w.slot with
    | none =>
      rw [at_slot] at stepped
      cases stepped
      exact .stays there
    | some joinee =>
      rw [at_slot] at stepped
      dsimp only at stepped
      split_ifs at stepped with same
      · cases stepped
        exact .stays there
      · cases stepped
        exact .stays there
  | detach id =>
    dsimp only [step] at stepped
    split_ifs at stepped with inside
    rcases fate_detach inv there visible id with stays | ⟨detachee, other, detached⟩
    · rw [Option.some.inj stepped] at stays
      exact .stays stays
    · rw [Option.some.inj stepped] at detached
      exact .detaches detachee other detached

/- A thread that is detached after its exit. -/

theorem slot_kept {s s' : State} {i : Nat} {th : Thread} {a : Action}
    (detached : th.state = .detached) (gone : th.alive = false) (fate : Fate s s' i th a) :
    s'.threadTable i = some th := by
  cases fate with
  | stays there => exact there
  | ends living _ =>
    rw [gone] at living
    cases living
  | reaped exited =>
    rw [detached] at exited
    cases exited
  | joined join _ =>
    rw [detached] at join
    cases join
  | awaited join _ _ =>
    rw [detached] at join
    cases join
  | detaches _ other _ => exact absurd detached other

theorem run_keeps_slot {s s' : State} {i : Nat} {th : Thread} {actions : List Action}
    (inv : Inv max s) (there : s.threadTable i = some th) (detached : th.state = .detached)
    (gone : th.alive = false) (ran : Runs.exec (next max) s actions = some s') :
    Inv max s' ∧ s'.threadTable i = some th := by
  refine @Runs.invariant_run _ _ _ (fun s => Inv max s ∧ s.threadTable i = some th) ?_ _ _ _
    ⟨inv, there⟩ ran
  intro m a m' both stepped
  obtain ⟨inv_m, there_m⟩ := both
  obtain ⟨result, _, stepped⟩ := next_some stepped
  exact ⟨inv_step inv_m stepped, slot_kept detached gone (fate inv_m there_m stepped)⟩

/-- The thread has exited, and then it is detached: its slot is never free again. -/
theorem late_detach_leaks {s s' : State} {id : BitVec 32} {th : Thread}
    {before after : List Action} (room : 0 < max)
    (ran : Runs.exec (next max) initial before = some s)
    (exited : pthreadInfoId s id = some th) (join : th.state = .join)
    (detached : Runs.exec (next max) initial (before ++ .detach id :: after) = some s') :
    s'.threadTable (indexOf id) = some { th with state := .detached } ∧
      (∀ i result s'', step max s' (.join i id) = some (result, s'') → result = .einval) ∧
      (pthreadDetach max id s').1 = .einval := by
  have inv := inv_run room ran
  obtain ⟨at_index, visible, same_id⟩ := found exited
  have gone : th.alive = false := by
    have fits := inv.sound.states _ th at_index
    simpa [stateFits, join] using fits
  rw [Runs.exec_append ran] at detached
  obtain ⟨m, stepped, rest⟩ := Runs.exec_cons detached
  have inside := slot_inside inv.sound at_index
  have not_yet : th.state ≠ .detached := by simp [join]
  have detaching := inv_detached inv at_index visible
  have reaped := reap_eq detaching
  unfold detachedState at detaching reaped
  have after_detach : m = swept (detachedState (indexOf id) th s) := by
    obtain ⟨result, _, stepped⟩ := next_some stepped
    dsimp only [step] at stepped
    rw [if_pos inside] at stepped
    unfold pthreadDetach at stepped
    rw [exited] at stepped
    dsimp only at stepped
    rw [if_neg not_yet, reaped] at stepped
    exact (Prod.mk.inj (Option.some.inj stepped)).2.symm
  have there : m.threadTable (indexOf id) = some { th with state := .detached } := by
    rw [after_detach]
    apply some_swept
    · dsimp only [detachedState]
      rw [Function.update_self]
    · simp
  have inv_m : Inv max m := by
    rw [after_detach]
    exact inv_swept detaching
  obtain ⟨inv', kept_there⟩ := run_keeps_slot inv_m there rfl gone rest
  have still : pthreadInfoId s' id = some { th with state := .detached } := by
    unfold pthreadInfoId
    rw [kept_there]
    dsimp only
    rw [if_neg (by simp), if_neg (not_not.mpr same_id)]
  refine ⟨kept_there, ?_, ?_⟩
  · intro i result s'' joins
    dsimp only [step] at joins
    rw [if_pos inside] at joins
    obtain ⟨self, call, last⟩ := Option.map_eq_some_iff.mp joins
    obtain ⟨at_i, living, _⟩ := caller_some call
    have other : ¬th.gen = self.gen := by
      intro same
      have own := apart inv'.sound kept_there at_i same
      rw [← own, kept_there] at at_i
      cases at_i
      rw [gone] at living
      cases living
    unfold pthreadJoin at last
    rw [reap_eq inv'] at last
    dsimp only at last
    rw [found_swept, still] at last
    dsimp only at last
    rw [if_neg other] at last
    exact (Prod.mk.inj last).1.symm
  · unfold pthreadDetach
    rw [still]
    rfl

theorem late_detach_leaks_one : ∃ s,
    Runs.exec (next 2) initial
      ([.create false, .create false, .exit 1 7] ++ .detach 0xC01#32 :: [.create true]) =
        some s ∧
      (pthreadDetach 2 0xC01#32 s).1 = .einval := by
  refine ⟨_, rfl, ?_⟩
  exact (@late_detach_leaks 2 _ _ 0xC01#32 _ [.create false, .create false, .exit 1 7]
    [.create true] (by decide) rfl rfl rfl rfl).2.2

/- What joins return. -/

/-- The thread that a call joins. -/
def joineeOf (s : State) : Action → Option Nat
  | .join _ id => (pthreadInfoId s id).map Thread.gen
  | .wake w => some w.joinee
  | _ => none

structure Answers (max : Nat) (s : State) : Prop where
  exits : (s.exits.map Prod.fst).Nodup
  once : (s.joined.map Prod.fst).Nodup
  returned : ∀ p ∈ s.joined, p ∈ s.exits
  answers : ∀ a v s', step max s a = some (.joins v, s') →
    ∃ gen, joineeOf s a = some gen ∧ (gen, v) ∈ s.exits ∧ s'.joined = s.joined ++ [(gen, v)]
  safe : ∀ a result s', step max s a = some (result, s') → result ≠ .fault

theorem joinWith_answers {s s' : State} {w : Wait} {joinee : Thread} {v : Nat} (inv : Inv max s)
    (there : s.threadTable w.slot = some joinee)
    (ends : joinWith max w joinee s = (.joins v, s')) :
    (joinee.gen, v) ∈ s.exits ∧ s'.joined = s.joined ++ [(joinee.gen, v)] := by
  unfold joinWith at ends
  cases kind : joinee.state with
  | running =>
    rw [kind] at ends
    cases ends
  | join =>
    rw [kind] at ends
    dsimp only at ends
    rw [finishJoin_eq inv there kind] at ends
    obtain ⟨answer, after⟩ := Prod.mk.inj ends
    have gone : joinee.alive = false := by
      have fits := inv.sound.states _ joinee there
      simpa [stateFits, kind] using fits
    rw [← Result.joins.inj answer, ← after]
    exact ⟨inv.honest.left _ joinee there gone, rfl⟩
  | detached =>
    rw [kind] at ends
    cases ends
  | exited =>
    rw [kind] at ends
    cases ends

theorem step_answers {s s' : State} {a : Action} {v : Nat} (inv : Inv max s)
    (stepped : step max s a = some (.joins v, s')) :
    ∃ gen, joineeOf s a = some gen ∧ (gen, v) ∈ s.exits ∧
      s'.joined = s.joined ++ [(gen, v)] := by
  cases a with
  | create asked =>
    have answer := congrArg Prod.fst (Option.some.inj stepped)
    rcases create_cases inv asked with ⟨j, inside, free, same⟩ | ⟨_, same⟩
    · rw [same] at answer
      cases answer
    · rw [same] at answer
      cases answer
  | noStack => cases stepped
  | exit i retval =>
    obtain ⟨self, _, ends⟩ := Option.map_eq_some_iff.mp stepped
    cases (Prod.mk.inj ends).1
  | join i id =>
    dsimp only [step] at stepped
    split_ifs at stepped with inside
    obtain ⟨self, call, ends⟩ := Option.map_eq_some_iff.mp stepped
    unfold pthreadJoin at ends
    rw [reap_eq inv] at ends
    dsimp only at ends
    rw [found_swept] at ends
    cases joinee : pthreadInfoId s id with
    | none =>
      rw [joinee] at ends
      cases ends
    | some th =>
      obtain ⟨at_index, visible, _⟩ := found joinee
      rw [joinee] at ends
      dsimp only at ends
      split_ifs at ends with own
      · cases ends
      · refine ⟨th.gen, by simp [joineeOf, joinee], ?_⟩
        exact joinWith_answers (s := swept s) (w := ⟨self.gen, indexOf id, th.gen⟩)
          (inv_swept inv) (some_swept at_index visible) ends
  | wake w =>
    dsimp only [step] at stepped
    split_ifs at stepped with waiting
    unfold wake at stepped
    cases at_slot : s.threadTable w.slot with
    | none =>
      rw [at_slot] at stepped
      cases stepped
    | some joinee =>
      rw [at_slot] at stepped
      dsimp only at stepped
      split_ifs at stepped with same
      · refine ⟨w.joinee, rfl, ?_⟩
        rw [← same]
        exact joinWith_answers (s := { s with waits := s.waits.erase w })
          (inv_waits inv (s.waits.erase w)) at_slot (Option.some.inj stepped)
      · cases stepped
  | cancelled w =>
    dsimp only [step] at stepped
    split_ifs at stepped with waiting
    unfold cancelled at stepped
    cases at_slot : s.threadTable w.slot with
    | none =>
      rw [at_slot] at stepped
      cases stepped
    | some joinee =>
      rw [at_slot] at stepped
      dsimp only at stepped
      split_ifs at stepped with same
      · cases stepped
      · cases stepped
  | detach id =>
    dsimp only [step] at stepped
    split_ifs at stepped with inside
    unfold pthreadDetach at stepped
    cases detachee : pthreadInfoId s id with
    | none =>
      rw [detachee] at stepped
      cases stepped
    | some th =>
      rw [detachee] at stepped
      dsimp only at stepped
      split_ifs at stepped with already
      · cases stepped
      · cases stepped

/- Waiters. -/

/-- Some thread waits for the one that the id names. -/
def waitedFor (s : State) (id : BitVec 32) : Bool :=
  s.waits.any fun w => (pthreadInfoId s id).any fun th => th.gen = w.joinee

/-- Nobody joins or detaches a thread that another waits for. -/
def careful (s : State) : Action → Prop
  | .join _ id => waitedFor s id = false
  | .detach id => waitedFor s id = false
  | _ => True

instance decidableCareful (s : State) : (a : Action) → Decidable (careful s a)
  | .join _ id => inferInstanceAs (Decidable (waitedFor s id = false))
  | .detach id => inferInstanceAs (Decidable (waitedFor s id = false))
  | .create _ => isTrue trivial
  | .noStack => isTrue trivial
  | .exit _ _ => isTrue trivial
  | .wake _ => isTrue trivial
  | .cancelled _ => isTrue trivial

structure WaitsFit (s : State) : Prop where
  joinees : ∀ w ∈ s.waits, ∃ th, s.threadTable w.slot = some th ∧ th.gen = w.joinee ∧
    (th.state = .running ∨ th.state = .join)
  single : (s.waits.map Wait.joinee).Nodup

theorem not_waitedFor {s : State} {id : BitVec 32} {th : Thread}
    (nobody : waitedFor s id = false) (there : pthreadInfoId s id = some th) :
    ∀ w ∈ s.waits, w.joinee ≠ th.gen := by
  intro w w_in same
  unfold waitedFor at nobody
  rw [there] at nobody
  have not_this := List.any_eq_false.mp nobody w w_in
  simp [same] at not_this

theorem erased {waits : List Wait} {w : Wait} (single : (waits.map Wait.joinee).Nodup)
    (waiting : w ∈ waits) :
    ((waits.erase w).map Wait.joinee).Nodup ∧ ∀ u ∈ waits.erase w, u.joinee ≠ w.joinee := by
  have split := (List.perm_cons_erase waiting).map Wait.joinee
  have both := split.nodup_iff.mp single
  rw [List.map_cons, List.nodup_cons] at both
  refine ⟨both.2, ?_⟩
  intro u u_in same
  apply both.1
  rw [← same]
  exact List.mem_map_of_mem u_in

/-- A record that a thread waits for is still there after the step. -/
theorem joinee_kept {s s' : State} {w : Wait} {a : Action} {th : Thread}
    (gen : th.gen = w.joinee) (state : th.state = .running ∨ th.state = .join) (good : careful s a)
    (waiting : w ∈ s.waits)
    (other : ∀ u, a = .wake u → u.joinee ≠ w.joinee) (fate : Fate s s' w.slot th a) :
    ∃ th', s'.threadTable w.slot = some th' ∧ th'.gen = w.joinee ∧
      (th'.state = .running ∨ th'.state = .join) := by
  cases fate with
  | stays after => exact ⟨th, after, gen, state⟩
  | ends living after =>
    refine ⟨_, after, gen, .inr ?_⟩
    have not_detached : th.state ≠ .detached := by
      rcases state with running | join
      · simp [running]
      · simp [join]
    exact if_neg not_detached
  | reaped exited =>
    rcases state with running | join
    · rw [running] at exited
      cases exited
    · rw [join] at exited
      cases exited
  | joined _ joinee => exact absurd gen.symm (not_waitedFor good joinee w waiting)
  | awaited _ _ same => exact absurd (same.trans gen) (other _ rfl)
  | detaches detachee _ _ => exact absurd gen.symm (not_waitedFor good detachee w waiting)

theorem joinWith_waits {s : State} {w : Wait} {th : Thread} (inv : Inv max s)
    (there : s.threadTable w.slot = some th) :
    (joinWith max w th s).2.waits = if th.state = .running then w :: s.waits else s.waits := by
  unfold joinWith
  cases kind : th.state with
  | join =>
    dsimp only
    rw [finishJoin_eq inv there kind]
    rfl
  | _ => rfl

/-- What a step does to the waits. -/
inductive Queue (s s' : State) : Action → Prop where
  | same {a : Action} : (∀ u, a ≠ .wake u) → s'.waits = s.waits → Queue s s' a
  | leaves {w : Wait} : w ∈ s.waits → s'.waits = s.waits.erase w → Queue s s' (.wake w)
  | gives_up {w : Wait} : w ∈ s.waits → s'.waits = s.waits.erase w → Queue s s' (.cancelled w)
  | again {w : Wait} {th : Thread} : w ∈ s.waits → s'.threadTable w.slot = some th →
      th.gen = w.joinee → th.state = .running → s'.waits = w :: s.waits.erase w →
      Queue s s' (.wake w)
  | enters {i : Nat} {id : BitVec 32} {w : Wait} {th : Thread} :
      pthreadInfoId s id = some th → s'.threadTable w.slot = some th → th.gen = w.joinee →
      th.state = .running → s'.waits = w :: s.waits → Queue s s' (.join i id)

theorem queue {s s' : State} {a : Action} {result : Result} (inv : Inv max s)
    (fit : WaitsFit s) (stepped : step max s a = some (result, s')) : Queue s s' a := by
  cases a with
  | create asked =>
    apply Queue.same (by simp)
    have after := congrArg (fun p => p.2.waits) (Option.some.inj stepped)
    rcases create_cases inv asked with ⟨j, inside, free, same⟩ | ⟨_, same⟩
    · rw [same] at after
      exact after.symm
    · rw [same] at after
      exact after.symm
  | noStack =>
    cases stepped
    exact .same (by simp) rfl
  | exit i retval =>
    apply Queue.same (by simp)
    obtain ⟨self, _, ends⟩ := Option.map_eq_some_iff.mp stepped
    exact congrArg (fun p => p.2.waits) ends.symm
  | join i id =>
    dsimp only [step] at stepped
    split_ifs at stepped with inside
    obtain ⟨self, call, ends⟩ := Option.map_eq_some_iff.mp stepped
    unfold pthreadJoin at ends
    rw [reap_eq inv] at ends
    dsimp only at ends
    rw [found_swept] at ends
    cases joinee : pthreadInfoId s id with
    | none =>
      rw [joinee] at ends
      cases ends
      exact .same (by simp) rfl
    | some th =>
      obtain ⟨at_index, visible, _⟩ := found joinee
      rw [joinee] at ends
      dsimp only at ends
      split_ifs at ends with own
      · cases ends
        exact .same (by simp) rfl
      · have waits := joinWith_waits (w := ⟨self.gen, indexOf id, th.gen⟩) (inv_swept inv)
          (some_swept at_index visible)
        have after : s' = (joinWith max ⟨self.gen, indexOf id, th.gen⟩ th (swept s)).2 :=
          congrArg Prod.snd ends.symm
        by_cases running : th.state = .running
        · rw [if_pos running, ← after] at waits
          apply Queue.enters joinee _ _ running waits
          · rw [after, joinWith, running]
            exact some_swept at_index visible
          · rfl
        · rw [if_neg running, ← after] at waits
          exact .same (by simp) waits
  | wake w =>
    dsimp only [step] at stepped
    split_ifs at stepped with waiting
    obtain ⟨th, at_slot, gen, _⟩ := fit.joinees w waiting
    unfold wake at stepped
    rw [at_slot] at stepped
    dsimp only at stepped
    rw [if_pos gen] at stepped
    have waits := joinWith_waits (inv_waits inv (s.waits.erase w)) at_slot
    have after : s' = (joinWith max w th { s with waits := s.waits.erase w }).2 :=
      congrArg Prod.snd (Option.some.inj stepped).symm
    by_cases running : th.state = .running
    · rw [if_pos running, ← after] at waits
      apply Queue.again waiting _ gen running waits
      rw [after, joinWith, running]
      exact at_slot
    · rw [if_neg running, ← after] at waits
      exact .leaves waiting waits
  | cancelled w =>
    dsimp only [step] at stepped
    split_ifs at stepped with waiting
    obtain ⟨th, at_slot, gen, _⟩ := fit.joinees w waiting
    unfold cancelled at stepped
    rw [at_slot] at stepped
    dsimp only at stepped
    rw [if_pos gen] at stepped
    cases stepped
    exact .gives_up waiting rfl
  | detach id =>
    apply Queue.same (by simp)
    dsimp only [step] at stepped
    split_ifs at stepped with inside
    unfold pthreadDetach at stepped
    cases detachee : pthreadInfoId s id with
    | none =>
      rw [detachee] at stepped
      dsimp only at stepped
      rw [reap_eq inv] at stepped
      cases stepped
      rfl
    | some th =>
      obtain ⟨at_index, visible, _⟩ := found detachee
      have reaped := reap_eq (inv_detached inv at_index visible)
      unfold detachedState at reaped
      rw [detachee] at stepped
      dsimp only at stepped
      rw [reap_eq inv, reaped] at stepped
      split_ifs at stepped with already
      · cases stepped
        rfl
      · cases stepped
        rfl

theorem waitsFit_step {s s' : State} {a : Action} {result : Result} (inv : Inv max s)
    (fit : WaitsFit s) (good : careful s a) (stepped : step max s a = some (result, s')) :
    WaitsFit s' := by
  have remain : ∀ w ∈ s.waits, (∀ u, a = .wake u → u.joinee ≠ w.joinee) →
      ∃ th, s'.threadTable w.slot = some th ∧ th.gen = w.joinee ∧
        (th.state = .running ∨ th.state = .join) := by
    intro w waiting other
    obtain ⟨th, there, gen, state⟩ := fit.joinees w waiting
    exact joinee_kept gen state good waiting other (fate inv there stepped)
  have moved := queue inv fit stepped
  cases moved with
  | same no_wake waits =>
    constructor
    · intro w waiting
      rw [waits] at waiting
      exact remain w waiting fun u wakes => absurd wakes (no_wake u)
    · rw [waits]
      exact fit.single
  | leaves waiting waits =>
    obtain ⟨single, apart⟩ := erased fit.single waiting
    constructor
    · intro u u_in
      rw [waits] at u_in
      apply remain u (List.mem_of_mem_erase u_in)
      intro v wakes
      cases wakes
      exact (apart u u_in).symm
    · rw [waits]
      exact single
  | gives_up waiting waits =>
    obtain ⟨single, apart⟩ := erased fit.single waiting
    constructor
    · intro u u_in
      rw [waits] at u_in
      apply remain u (List.mem_of_mem_erase u_in)
      intro v wakes
      cases wakes
    · rw [waits]
      exact single
  | again waiting there gen running waits =>
    obtain ⟨single, apart⟩ := erased fit.single waiting
    constructor
    · intro u u_in
      rw [waits] at u_in
      rcases List.mem_cons.mp u_in with own | rest
      · rw [own]
        exact ⟨_, there, gen, .inl running⟩
      · apply remain u (List.mem_of_mem_erase rest)
        intro v wakes
        cases wakes
        exact (apart u rest).symm
    · rw [waits, List.map_cons, List.nodup_cons]
      refine ⟨?_, single⟩
      intro member
      obtain ⟨u, u_in, same⟩ := List.mem_map.mp member
      exact apart u u_in same
  | enters joinee there gen running waits =>
    constructor
    · intro u u_in
      rw [waits] at u_in
      rcases List.mem_cons.mp u_in with own | rest
      · rw [own]
        exact ⟨_, there, gen, .inl running⟩
      · apply remain u rest
        intro v wakes
        cases wakes
    · rw [waits, List.map_cons, List.nodup_cons]
      refine ⟨?_, fit.single⟩
      intro member
      obtain ⟨u, u_in, same⟩ := List.mem_map.mp member
      exact not_waitedFor good joinee u u_in (same.trans gen.symm)

structure Served (max : Nat) (s : State) : Prop where
  wakes : ∀ w ∈ s.waits,
    (∃ th, s.threadTable w.slot = some th ∧ th.gen = w.joinee ∧ th.alive = true ∧
      (wake max w s).1 = .blocks) ∨
    (∃ v, (w.joinee, v) ∈ s.exits ∧ (wake max w s).1 = .joins v)
  safe : ∀ a result s', step max s a = some (result, s') → result ≠ .fault

theorem waiter_served {s : State} {w : Wait} (inv : Inv max s) (fit : WaitsFit s)
    (waiting : w ∈ s.waits) :
    (∃ th, s.threadTable w.slot = some th ∧ th.gen = w.joinee ∧ th.alive = true ∧
      (wake max w s).1 = .blocks) ∨
    (∃ v, (w.joinee, v) ∈ s.exits ∧ (wake max w s).1 = .joins v) := by
  obtain ⟨th, there, gen, state⟩ := fit.joinees w waiting
  have fits := inv.sound.states _ th there
  have woken : wake max w s = joinWith max w th { s with waits := s.waits.erase w } := by
    unfold wake
    rw [there]
    exact if_pos gen
  rw [woken]
  unfold joinWith
  rcases state with running | join
  · left
    rw [running]
    exact ⟨th, there, gen, by simpa [stateFits, running] using fits, rfl⟩
  · right
    have gone : th.alive = false := by simpa [stateFits, join] using fits
    rw [join, ← gen]
    exact ⟨th.retval, inv.honest.left _ th there gone, rfl⟩

theorem joinWith_safe {s : State} {w : Wait} {th : Thread} :
    (joinWith max w th s).1 ≠ .fault := by
  unfold joinWith
  cases th.state with
  | running => exact Result.noConfusion
  | join => exact Result.noConfusion
  | detached => exact Result.noConfusion
  | exited => exact Result.noConfusion

theorem step_safe {s s' : State} {a : Action} {result : Result} (inv : Inv max s)
    (fit : WaitsFit s) (stepped : step max s a = some (result, s')) : result ≠ .fault := by
  cases a with
  | create asked =>
    have answer : (pthreadCreate max asked s).1 = result :=
      congrArg Prod.fst (Option.some.inj stepped)
    rcases create_cases inv asked with ⟨j, inside, free, same⟩ | ⟨_, same⟩
    · rw [same] at answer
      rw [← answer]
      exact Result.noConfusion
    · rw [same] at answer
      rw [← answer]
      exact Result.noConfusion
  | noStack =>
    cases stepped
    exact Result.noConfusion
  | exit i retval =>
    obtain ⟨self, _, ends⟩ := Option.map_eq_some_iff.mp stepped
    rw [← (Prod.mk.inj ends).1]
    exact Result.noConfusion
  | join i id =>
    dsimp only [step] at stepped
    split_ifs at stepped with inside
    obtain ⟨self, call, ends⟩ := Option.map_eq_some_iff.mp stepped
    have answer : (pthreadJoin max self.gen id s).1 = result := congrArg Prod.fst ends
    rw [← answer]
    unfold pthreadJoin
    dsimp only
    cases pthreadInfoId (pthreadReap max s) id with
    | none => exact Result.noConfusion
    | some th =>
      dsimp only
      split_ifs with own
      · exact Result.noConfusion
      · exact joinWith_safe
  | wake w =>
    dsimp only [step] at stepped
    split_ifs at stepped with waiting
    have answer : (wake max w s).1 = result := congrArg Prod.fst (Option.some.inj stepped)
    rw [← answer]
    rcases waiter_served inv fit waiting with ⟨_, _, _, _, blocks⟩ | ⟨v, _, joins⟩
    · rw [blocks]
      exact Result.noConfusion
    · rw [joins]
      exact Result.noConfusion
  | cancelled w =>
    dsimp only [step] at stepped
    split_ifs at stepped with waiting
    obtain ⟨th, there, gen, _⟩ := fit.joinees w waiting
    have answer : (cancelled w s).1 = result := congrArg Prod.fst (Option.some.inj stepped)
    rw [← answer]
    unfold cancelled
    rw [there]
    dsimp only
    rw [if_pos gen]
    exact Result.noConfusion
  | detach id =>
    dsimp only [step] at stepped
    split_ifs at stepped with inside
    have answer : (pthreadDetach max id s).1 = result :=
      congrArg Prod.fst (Option.some.inj stepped)
    rw [← answer]
    unfold pthreadDetach
    cases pthreadInfoId s id with
    | none => exact Result.noConfusion
    | some th =>
      dsimp only
      split_ifs with already
      · exact Result.noConfusion
      · exact Result.noConfusion

theorem waitsFit_run {s : State} {actions : List Action} (room : 0 < max)
    (good : Runs.Along (next max) careful initial actions)
    (ran : Runs.exec (next max) initial actions = some s) : WaitsFit s := by
  have both := @Runs.invariant_along _ _ _ _ (fun s => Inv max s ∧ WaitsFit s) (by
    intro m a m' here good stepped
    obtain ⟨inv, fit⟩ := here
    obtain ⟨result, _, stepped⟩ := next_some stepped
    exact ⟨inv_step inv stepped, waitsFit_step inv fit good stepped⟩)
    _ _ _ ⟨inv_initial room, ⟨by simp [initial], by simp [initial]⟩⟩ good ran
  exact both.2

theorem joins_return_exits {s : State} {actions : List Action} (room : 0 < max)
    (good : Runs.Along (next max) careful initial actions)
    (ran : Runs.exec (next max) initial actions = some s) : Answers max s := by
  have inv := inv_run room ran
  have fit := waitsFit_run room good ran
  constructor
  · exact inv.honest.exitsOnce
  · exact inv.honest.joinsOnce
  · exact inv.honest.returned
  · intro a v s' stepped
    exact step_answers inv stepped
  · intro a result s' stepped
    exact step_safe inv fit stepped

theorem one_join_returns_exit : ∃ s,
    Runs.exec (next 2) initial [.create false, .create false, .join 0 0xC01#32, .exit 1 7,
      .wake ⟨0, 1, 1⟩] = some s ∧ s.joined = [(1, 7)] ∧ Answers 2 s :=
  ⟨_, rfl, rfl, @joins_return_exits 2 _ [.create false, .create false, .join 0 0xC01#32,
    .exit 1 7, .wake ⟨0, 1, 1⟩] (by decide) (by decide) rfl⟩

/-- Of two threads that wait for one, the second to wake reads a record that has been freed. -/
theorem second_waiter {s : State} {w u : Wait} {th : Thread} (inv : Inv max s)
    (waiting : w ∈ s.waits) (also : u ∈ s.waits) (other : u ≠ w) (slot : u.slot = w.slot)
    (there : s.threadTable w.slot = some th) (gen : th.gen = w.joinee)
    (join : th.state = .join) :
    ∃ s', step max s (.wake w) = some (.joins th.retval, s') ∧
      step max s' (.wake u) = some (.fault, s') := by
  have waits := inv_waits inv (s.waits.erase w)
  have woken : wake max w s =
      (.joins th.retval, swept (claimedState w.slot th { s with waits := s.waits.erase w })) := by
    unfold wake
    rw [there]
    dsimp only
    rw [if_pos gen, joinWith, join]
    exact finishJoin_eq waits there join
  refine ⟨swept (claimedState w.slot th { s with waits := s.waits.erase w }), ?_, ?_⟩
  · dsimp only [step]
    rw [if_pos waiting, woken]
  · have still : u ∈ s.waits.erase w := (List.mem_erase_of_ne other).mpr also
    have freed : (swept (claimedState w.slot th
        { s with waits := s.waits.erase w })).threadTable u.slot = none := by
      simp [swept, claimedState, slot, kept, reapable, Option.filter_some]
    have again : step max (swept (claimedState w.slot th
        { s with waits := s.waits.erase w })) (.wake u) =
          some (wake max u (swept (claimedState w.slot th
            { s with waits := s.waits.erase w }))) := if_pos still
    rw [again, wake, freed]

theorem waiters_served {s : State} {actions : List Action} (room : 0 < max)
    (ran : Runs.exec (next max) initial actions = some s) :
    (Runs.Along (next max) careful initial actions → Served max s) ∧
      ∀ w ∈ s.waits, ∀ u ∈ s.waits, ∀ th, u ≠ w → u.slot = w.slot →
        s.threadTable w.slot = some th → th.gen = w.joinee → th.state = .join →
        ∃ s', step max s (.wake w) = some (.joins th.retval, s') ∧
          step max s' (.wake u) = some (.fault, s') := by
  have inv := inv_run room ran
  constructor
  · intro good
    have fit := waitsFit_run room good ran
    constructor
    · intro w waiting
      exact waiter_served inv fit waiting
    · intro a result s' stepped
      exact step_safe inv fit stepped
  · intro w waiting u also th other slot there gen join
    exact second_waiter inv waiting also other slot there gen join

theorem one_waiter_served : ∃ s,
    Runs.exec (next 2) initial [.create false, .create false, .join 0 0xC01#32, .exit 1 7] =
      some s ∧ Served 2 s :=
  ⟨_, rfl, (@waiters_served 2 _ [.create false, .create false, .join 0 0xC01#32, .exit 1 7]
    (by decide) rfl).1 (by decide)⟩

end ThreadJoins
