import Nios2Ecos.KeyLedger
import Nios2Ecos.OethRing

/- The keys of openeth_send and the tx_done reports. oeth_tx frees the whole window before
   oeth_txdone scans the slots, so a send of the callback may take a slot whose key is
   still to be reported. -/
namespace OethKeys
open OethTransmit OethRing SlotTable KeyLedger

def passed : Pc → Nat → Prop
  | .idle, _ => True
  | .reclaim _, _ => False
  | .scan j, i => i < j
  | .callback j, i => i ≤ j

/-- A send takes a slot whose last key has been reported. -/
def FreeSlot (s : State) : Action → Prop
  | .send _ _ _ => s.tx.txKeys s.tx.txNext = 0
  | _ => True

instance (s : State) (a : Action) : Decidable (FreeSlot s a) :=
  match a with
  | .send _ _ _ => inferInstanceAs (Decidable (_ = _))
  | .complete _ _ => isTrue trivial
  | .deliver => isTrue trivial
  | .proceed => isTrue trivial
  | .callbackReturns => isTrue trivial

structure Inv (n : Nat) (s : State) : Prop where
  ring : Ring n s.tx
  balanced : Balanced s.sent s.reported (held n s.tx.txKeys)
  inFlight : ∀ i, i < n → Ready (s.tx.lenStatus i) →
    s.tx.txKeys i = s.frame i ∧ s.frame i ≠ 0
  settled : ∀ i, i < n → s.due i ≠ 0 → passed s.pc i → s.due i ∈ s.reported
  waiting : ∀ i, i < n → s.due i ≠ 0 → ¬ passed s.pc i →
    s.tx.txKeys i = s.due i ∧ ¬ Ready (s.tx.lenStatus i)

section sends
variable {n : Nat} {tx : Tx} (ring : Ring n tx) (room : tx.txFull = false)
variable (totalLen : Int) (sgList : List (List UInt8)) (key : Nat)
include ring room

theorem send_keys : (openethSend n tx totalLen sgList key).txKeys =
    Function.update tx.txKeys tx.txNext key := by
  by_cases accepts : Accepts tx totalLen
  · rw [send_accepted n sgList key accepts]
    rfl
  · rw [send_refused n sgList key (next_not_ready ring room) room accepts]
    rfl

theorem send_other_status {i : Nat} (other : i ≠ tx.txNext) :
    (openethSend n tx totalLen sgList key).lenStatus i = tx.lenStatus i := by
  by_cases accepts : Accepts tx totalLen
  · rw [send_accepted n sgList key accepts]
    exact Function.update_of_ne other _ _
  · rw [send_refused n sgList key (next_not_ready ring room) room accepts]
    exact Function.update_of_ne other _ _

theorem send_ready_iff :
    Ready ((openethSend n tx totalLen sgList key).lenStatus tx.txNext) ↔
      Accepts tx totalLen := by
  have free := next_not_ready ring room
  constructor
  · intro ready
    by_contra accepts
    rw [send_refused n sgList key free room accepts] at ready
    simp only [refuse, Tx.say, Tx.setKey, Function.update_self, cleared_status_ready] at ready
    exact free ready
  · intro accepts
    rw [send_accepted n sgList key accepts]
    simp only [enqueue, Tx.setKey, Function.update_self]
    exact ready_status_ready totalLen _

end sends

theorem inv_send {n : Nat} {s : State} (inv : Inv n s) (totalLen : Int)
    (sgList : List (List UInt8)) (key : Nat) (room : s.tx.txFull = false)
    (nonzero : key ≠ 0) (fresh : key ∉ s.sent) (free : s.tx.txKeys s.tx.txNext = 0) :
    Inv n (sendStep n s totalLen sgList key) := by
  have ring := inv.ring
  have keys := send_keys ring room totalLen sgList key
  have others := fun i => send_other_status ring room totalLen sgList key (i := i)
  have filled := held_fill ring.nextInside free nonzero
  refine ⟨ring_send ring room totalLen sgList key, ?_, ?_, ?_, ?_⟩
  · apply balanced_send inv.balanced fresh
    simpa only [sendStep, keys] using filled
  · intro i inside isReady
    simp only [sendStep, keys] at isReady ⊢
    by_cases taken : i = s.tx.txNext
    · subst taken
      have accepts := (send_ready_iff ring room totalLen sgList key).mp isReady
      rw [if_pos accepts, Function.update_self, Function.update_self]
      exact ⟨rfl, nonzero⟩
    · rw [others i taken] at isReady
      have same : (if Accepts s.tx totalLen then Function.update s.frame s.tx.txNext key
          else s.frame) i = s.frame i := by
        split
        · exact Function.update_of_ne taken _ _
        · rfl
      rw [same, Function.update_of_ne taken]
      exact inv.inFlight i inside isReady
  · intro i inside due past
    exact inv.settled i inside due past
  · intro i inside due ahead
    obtain ⟨kept, idle⟩ := inv.waiting i inside due ahead
    have other : i ≠ s.tx.txNext := by
      intro same
      rw [← same, kept] at free
      exact due free
    simp only [sendStep, keys]
    rw [others i other, Function.update_of_ne other]
    exact ⟨kept, idle⟩

theorem inv_complete {n : Nat} {s : State} (inv : Inv n s) (i : Nat) (outcome : BitVec 32) :
    Inv n (completeStep s i outcome) := by
  have fewer : ∀ j, Ready ((completeStep s i outcome).tx.lenStatus j) →
      Ready (s.tx.lenStatus j) := by
    intro j isReady
    by_cases same : j = i
    · subst same
      simp only [completeStep, Function.update_self] at isReady
      exact absurd isReady (completed_status_bit outcome (s.tx.lenStatus j)).1
    · simpa only [completeStep, Function.update_of_ne same] using isReady
  refine ⟨(ring_complete inv.ring i outcome).1, inv.balanced, ?_, inv.settled, ?_⟩
  · intro j inside isReady
    exact inv.inFlight j inside (fewer j isReady)
  · intro j inside due ahead
    obtain ⟨kept, idle⟩ := inv.waiting j inside due ahead
    exact ⟨kept, fun isReady => idle (fewer j isReady)⟩

theorem inv_deliver {n : Nat} {s : State} (inv : Inv n s) : Inv n (deliverStep s) := by
  refine ⟨inv.ring, inv.balanced, inv.inFlight, ?_, ?_⟩
  · intro i inside due past
    exact False.elim past
  · intro i inside due ahead
    simp only [deliverStep] at due ⊢
    by_cases isReady : Ready (s.tx.lenStatus i)
    · rw [if_pos isReady] at due
      exact absurd rfl due
    · rw [if_neg isReady]
      exact ⟨rfl, isReady⟩

theorem inv_report {n i : Nat} {s : State} (inv : Inv n s) (here : s.pc = .scan i)
    (inside : i < n) (used : s.tx.txKeys i ≠ 0) (done : ¬ Ready (s.tx.lenStatus i)) :
    Inv n (reportStep s i) := by
  refine ⟨ring_set_key inv.ring i 0, balanced_report inv.balanced (held_clear inside used),
    ?_, ?_, ?_⟩
  · intro j less isReady
    have other : j ≠ i := by
      rintro rfl
      exact done isReady
    simp only [reportStep, Tx.setKey, Function.update_of_ne other]
    exact inv.inFlight j less isReady
  · intro j less due past
    have upTo : j ≤ i := past
    apply List.mem_append.mpr
    by_cases same : j = i
    · subst same
      have ahead : ¬ passed s.pc j := by
        rw [here]
        exact Nat.lt_irrefl j
      right
      rw [(inv.waiting j less due ahead).1]
      exact List.mem_singleton_self _
    · left
      apply inv.settled j less due
      rw [here]
      exact Nat.lt_of_le_of_ne upTo same
  · intro j less due ahead
    have beyond : i < j := Nat.lt_of_not_le ahead
    have ahead' : ¬ passed s.pc j := by
      rw [here]
      exact Nat.not_lt_of_lt beyond
    have other : j ≠ i := Nat.ne_of_gt beyond
    simp only [reportStep, Tx.setKey, Function.update_of_ne other]
    exact inv.waiting j less due ahead'

theorem inv_moves {n : Nat} {s : State} (inv : Inv n s) (pc : Pc)
    (grows : ∀ i, passed s.pc i → passed pc i)
    (nothing : ∀ i, i < n → s.due i ≠ 0 → passed pc i → passed s.pc i) :
    Inv n { s with pc := pc } := by
  refine ⟨inv.ring, inv.balanced, inv.inFlight, ?_, ?_⟩
  · intro i inside due past
    exact inv.settled i inside due (nothing i inside due past)
  · intro i inside due ahead
    exact inv.waiting i inside due (fun past => ahead (grows i past))

theorem inv_step {n : Nat} {s s' : State} {a : Action} (inv : Inv n s) (free : FreeSlot s a)
    (stepped : Stepped n s a s') : Inv n s' := by
  cases stepped with
  | send totalLen sgList key may room nonzero fresh =>
    exact inv_send inv totalLen sgList key room nonzero fresh free
  | complete i outcome inside ready => exact inv_complete inv i outcome
  | deliver idle => exact inv_deliver inv
  | reclaimEnds a here stops =>
    apply inv_moves inv
    · intro i past
      rw [here] at past
      exact False.elim past
    · intro i inside due past
      exact absurd past (Nat.not_lt_zero i)
  | reclaims a here goesOn =>
    refine ⟨ring_reclaim inv.ring goesOn, inv.balanced, inv.inFlight, ?_, ?_⟩
    · intro i inside due past
      exact False.elim past
    · intro i inside due ahead
      apply inv.waiting i inside due
      rw [here]
      exact ahead
  | reports i here inside used done => exact inv_report inv here inside used done
  | skips i here inside nothing =>
    apply inv_moves inv
    · intro j past
      rw [here] at past
      exact Nat.lt_succ_of_lt past
    · intro j less due past
      rw [here]
      by_contra ahead
      have same : j = i := Nat.le_antisymm (Nat.le_of_lt_succ past) (Nat.le_of_not_lt ahead)
      subst same
      have ahead' : ¬ passed s.pc j := by
        rw [here]
        exact ahead
      obtain ⟨kept, idle⟩ := inv.waiting j less due ahead'
      rcases nothing with zero | isReady
      · exact due (kept.symm.trans zero)
      · exact idle isReady
  | scanEnds i here outside =>
    apply inv_moves inv
    · intro j past
      trivial
    · intro j less due past
      rw [here]
      exact Nat.lt_of_lt_of_le less outside
  | callbackReturns i here =>
    apply inv_moves inv
    · intro j past
      rw [here] at past
      exact Nat.lt_succ_of_le past
    · intro j less due past
      rw [here]
      exact Nat.le_of_lt_succ past

theorem inv_started {n : Nat} {tx : Tx} (positive : 1 ≤ n) (idle : IdleRing n tx) :
    Inv n (started n tx) := by
  have quiet := start_idle n tx idle
  have empty : held n (started n tx).tx.txKeys = [] := held_empty quiet.noKeys
  refine ⟨ring_started positive idle, ?_, ?_, ?_, ?_⟩
  · rw [empty]
    exact balanced_nil
  · intro i inside isReady
    exact absurd isReady (quiet.notReady i inside)
  · intro i inside due past
    exact absurd rfl due
  · intro i inside due ahead
    exact absurd rfl due

def Internal (a : Action) : Prop := a = .proceed ∨ a = .callbackReturns

/-- What openeth_deliver still has to do: oeth_tx its window, then the scan its slots. -/
def rank (n : Nat) (s : State) : Nat :=
  match s.pc with
  | .idle => 0
  | .reclaim _ => 2 * n + 2 + width n s.tx
  | .scan i => 2 * (n - i) + 1
  | .callback i => 2 * (n - (i + 1)) + 2

theorem internal_step {n : Nat} {s : State} (ring : Ring n s.tx) (busy : s.pc ≠ .idle) :
    ∃ a s', Internal a ∧ step n s a = some s' ∧ rank n s' < rank n s := by
  cases here : s.pc with
  | idle => exact absurd here busy
  | reclaim a =>
    by_cases stops : reclaimStops s.tx
    · refine ⟨.proceed, { s with pc := .scan 0 }, Or.inl rfl, ?_, ?_⟩
      · simp only [step, proceedStep, here, stops, ↓reduceIte]
      · simp only [rank, here]
        omega
    · have narrower := reclaim_width ring stops
      refine ⟨.proceed, { s with tx := reclaimOne n s.tx, pc := .reclaim (a + 1) },
        Or.inl rfl, ?_, ?_⟩
      · simp only [step, proceedStep, here, stops, ↓reduceIte]
      · simp only [rank, here]
        omega
  | scan i =>
    by_cases inside : i < n
    · refine ⟨.proceed, scanStep s i, Or.inl rfl, ?_, ?_⟩
      · simp only [step, proceedStep, here, inside, ↓reduceIte]
      · unfold scanStep
        split
        · simp only [rank, here, reportStep]
          omega
        · simp only [rank, here]
          omega
    · refine ⟨.proceed, { s with pc := .idle }, Or.inl rfl, ?_, ?_⟩
      · simp only [step, proceedStep, here, inside, ↓reduceIte]
      · simp only [rank, here]
        omega
  | callback i =>
    refine ⟨.callbackReturns, { s with pc := .scan (i + 1) }, Or.inr rfl, ?_, ?_⟩
    · simp only [step, here]
    · simp only [rank, here]
      omega

theorem deliver_returns {n : Nat} (keeps : State → Prop)
    (ringed : ∀ s, keeps s → Ring n s.tx)
    (kept : ∀ s a s', keeps s → Internal a → step n s a = some s' → keeps s') (s : State)
    (start : keeps s) :
    ∃ rest s', (∀ a ∈ rest, Internal a) ∧ Runs.exec (step n) s rest = some s' ∧
      s'.pc = .idle ∧ keeps s' := by
  induction size : rank n s using Nat.strongRecOn generalizing s with
  | ind m ih =>
    by_cases busy : s.pc = .idle
    · exact ⟨[], s, fun a mem => absurd mem List.not_mem_nil, rfl, busy, start⟩
    · obtain ⟨a, s₁, own, stepped, less⟩ := internal_step (ringed s start) busy
      rw [size] at less
      obtain ⟨rest, s', allOwn, ran, idle, holds⟩ :=
        ih (rank n s₁) less s₁ (kept s a s₁ start own stepped) rfl
      refine ⟨a :: rest, s', ?_, ?_, idle, holds⟩
      · intro b mem
        rcases List.mem_cons.mp mem with rfl | later
        · exact own
        · exact allOwn b later
      · simp only [Runs.exec, stepped, Option.bind_some, ran]

theorem internal_keeps {n : Nat} {s s' : State} {a : Action} (own : Internal a)
    (stepped : Stepped n s a s') : s'.due = s.due ∧ s.reported ⊆ s'.reported := by
  cases stepped with
  | send totalLen sgList key may room nonzero fresh =>
    rcases own with other | other <;> cases other
  | complete i outcome inside ready => rcases own with other | other <;> cases other
  | deliver idle => rcases own with other | other <;> cases other
  | reports i here inside used done => exact ⟨rfl, List.subset_append_left _ _⟩
  | _ => exact ⟨rfl, List.Subset.refl _⟩

theorem internal_free {s : State} {a : Action} (own : Internal a) : FreeSlot s a := by
  rcases own with rfl | rfl
  · trivial
  · trivial

theorem deliver_reports_all {n : Nat} {s : State} (inv : Inv n s) (idle : s.pc = .idle)
    (finished : ∀ i, i < n → ¬ Ready (s.tx.lenStatus i)) :
    ∃ rest s', (∀ a ∈ rest, Internal a) ∧
      Runs.exec (step n) s (.deliver :: rest) = some s' ∧ s'.pc = .idle ∧
      ∀ k ∈ s.sent, k ∈ s'.reported := by
  have begun : step n s .deliver = some (deliverStep s) := by
    simp only [step, idle, ↓reduceIte]
  obtain ⟨rest, s', own, ran, ended, inv', sameDue, grown⟩ :=
    deliver_returns
      (fun t => Inv n t ∧ t.due = (deliverStep s).due ∧ s.reported ⊆ t.reported)
      (fun t holds => holds.1.ring)
      (fun t a t' holds own h => by
        have same := internal_keeps own (step_stepped h)
        exact ⟨inv_step holds.1 (internal_free own) (step_stepped h),
          same.1.trans holds.2.1, List.Subset.trans holds.2.2 same.2⟩)
      (deliverStep s) ⟨inv_deliver inv, rfl, List.Subset.refl _⟩
  refine ⟨rest, s', own, ?_, ended, ?_⟩
  · simp only [Runs.exec, begun, Option.bind_some, ran]
  · intro k mem
    rcases sent_cases inv.balanced mem with early | waits
    · exact grown early
    · obtain ⟨nonzero, i, inside, rfl⟩ := mem_held.mp waits
      have due : s'.due i = s.tx.txKeys i := by
        rw [sameDue]
        exact if_neg (finished i inside)
      rw [← due] at nonzero ⊢
      apply inv'.settled i inside nonzero
      rw [ended]
      trivial

structure ExactlyOnce (n : Nat) (s : State) : Prop where
  distinct : s.sent.Nodup
  -- every key sent is reported or still kept in its slot, and only one of them
  accounted : s.sent.Perm (s.reported ++ held n s.tx.txKeys)
  reportedOnce : s.reported.Nodup
  -- never while the controller has the frame
  neverBefore : ∀ i, i < n → Ready (s.tx.lenStatus i) →
    s.frame i ∈ s.sent ∧ s.frame i ∉ s.reported
  -- openeth_deliver has reported what was due when it began
  dueReported : s.pc = .idle → ∀ i, i < n → s.due i ≠ 0 → s.due i ∈ s.reported
  allReported : s.pc = .idle → (∀ i, i < n → ¬ Ready (s.tx.lenStatus i)) →
    ∃ rest s', (∀ a ∈ rest, Internal a) ∧
      Runs.exec (step n) s (.deliver :: rest) = some s' ∧ s'.pc = .idle ∧
      ∀ k ∈ s.sent, k ∈ s'.reported

theorem inv_exactly_once {n : Nat} {s : State} (inv : Inv n s) : ExactlyOnce n s := by
  have balanced := inv.balanced
  refine ⟨balanced.distinct, balanced.accounted, reported_nodup balanced, ?_, ?_, ?_⟩
  · intro i inside isReady
    obtain ⟨kept, nonzero⟩ := inv.inFlight i inside isReady
    have waits : s.frame i ∈ held n s.tx.txKeys := mem_held.mpr ⟨nonzero, i, inside, kept⟩
    refine ⟨?_, outstanding_not_reported balanced waits⟩
    exact balanced.accounted.mem_iff.mpr (List.mem_append_right _ waits)
  · intro idle i inside due
    apply inv.settled i inside due
    rw [idle]
    trivial
  · intro idle finished
    exact deliver_reports_all inv idle finished

/-- Every run from openeth_start on an idle ring whose sends all take slots with no key
    left to report. -/
theorem free_slots_exactly_once (n : Nat) (tx : Tx) (actions : List Action) (s : State)
    (positive : 1 ≤ n) (idle : IdleRing n tx)
    (free : Runs.Along (step n) FreeSlot (started n tx) actions)
    (ran : Runs.exec (step n) (started n tx) actions = some s) : ExactlyOnce n s := by
  apply inv_exactly_once
  exact Runs.invariant_along (fun _ _ _ inv free h => inv_step inv free (step_stepped h))
    (inv_started positive idle) free ran

def refillRun : List Action :=
  [.send 3 [[1, 2], [3]] 7, .send 2 [[4], [5]] 8, .complete 0 0, .deliver, .proceed, .proceed,
    .proceed, .send 1 [[6]] 9, .callbackReturns, .proceed, .proceed]

set_option maxRecDepth 10000 in
theorem refill_exactly_once :
    ∃ s, Runs.exec (step 2) (started 2 (openethDeviceInit 2 zeroBuff)) refillRun = some s ∧
      s.reported = [7] ∧ s.sent = [7, 8, 9] ∧ s.pc = .idle ∧ ExactlyOnce 2 s := by
  have checked : (Runs.exec (step 2) (started 2 (openethDeviceInit 2 zeroBuff))
      refillRun).any (fun s => decide (s.reported = [7] ∧ s.sent = [7, 8, 9] ∧ s.pc = .idle)) =
      true := by
    decide +kernel
  obtain ⟨s, ran, facts⟩ := (Option.any_eq_true _ _).mp checked
  have free : Runs.Along (step 2) FreeSlot (started 2 (openethDeviceInit 2 zeroBuff))
      refillRun := by
    decide +kernel
  obtain ⟨reported, sent, idle⟩ := of_decide_eq_true facts
  exact ⟨s, ran, reported, sent, idle,
    free_slots_exactly_once 2 _ refillRun s (by decide) (init_idle 2 _) free ran⟩

/-- A ring of two whose frames are both finished: oeth_tx frees both slots, the scan reports
    key 1, and its callback sends twice, the second time over key 2. -/
def overwriteRun : List Action :=
  [.send 1 [[1]] 1, .send 1 [[2]] 2, .complete 0 0, .complete 1 0, .deliver, .proceed, .proceed,
    .proceed, .proceed, .send 1 [[3]] 3, .send 1 [[4]] 4, .callbackReturns, .proceed, .proceed]

set_option maxRecDepth 10000 in
theorem callback_overwrites_unreported :
    ¬ ∀ n tx actions s, 1 ≤ n → IdleRing n tx →
      Runs.exec (step n) (started n tx) actions = some s → ExactlyOnce n s := by
  intro all
  have checked : (Runs.exec (step 2) (started 2 (openethDeviceInit 2 zeroBuff))
      overwriteRun).any (fun s => decide (2 ∈ s.sent ∧ 2 ∉ s.reported ++ held 2 s.tx.txKeys)) =
      true := by
    decide +kernel
  obtain ⟨s, ran, facts⟩ := (Option.any_eq_true _ _).mp checked
  obtain ⟨sent, lost⟩ := of_decide_eq_true facts
  have once := all 2 _ overwriteRun s (by decide) (init_idle 2 _) ran
  exact lost (once.accounted.mem_iff.mp sent)

end OethKeys
