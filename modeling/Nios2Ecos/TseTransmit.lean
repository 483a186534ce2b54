import Mathlib.Data.BitVec
import Nios2Ecos.KeyLedger
import Nios2Ecos.Runs

/- The transmit side of if_tse.c: one descriptor and one field txkey, shared by tse_send,
   the completion check at its end, tse_deliver and the tx_done callback, which may send
   again before tse_TxDone clears the field. The calls in progress are kept as a stack. -/
namespace TseTransmit
open KeyLedger

def controlGenerateEop : BitVec 8 := 0x01
def controlWriteFixedAddress : BitVec 8 := 0x04
def controlOwnedByHw : BitVec 8 := 0x80

structure Descriptor where
  bytesToTransfer : BitVec 16
  status : BitVec 8
  control : BitVec 8

/-- alt_avalon_sgdma_check_descriptor_status & BUSY, read as the OWNED_BY_HW bit. -/
def Owned (d : Descriptor) : Prop := d.control &&& controlOwnedByHw ≠ 0

instance (d : Descriptor) : Decidable (Owned d) := inferInstanceAs (Decidable (_ ≠ _))

structure Tse where
  txkey : Nat
  txbusy : Bool
  withinSend : Bool
  desc : Descriptor
  buffer : List UInt8

def tseInit (buffer : List UInt8) : Tse where
  txkey := 0
  txbusy := false
  withinSend := false
  desc := ⟨0, 0, 0⟩
  buffer := buffer

def tseCanSend (tse : Tse) : Bool := !decide (Owned tse.desc)

def gathered (sgList : List (Option (List UInt8))) : List UInt8 := (sgList.filterMap id).flatten

def constructMemToStreamDesc (length : Nat) : Descriptor where
  bytesToTransfer := BitVec.ofNat 16 length
  status := 0
  control := controlOwnedByHw ||| controlGenerateEop ||| controlWriteFixedAddress

def tseSend (tse : Tse) (sgList : List (Option (List UInt8))) (key : Nat) : Tse :=
  let data := gathered sgList
  { tse with
    txbusy := true
    buffer := data ++ tse.buffer.drop data.length
    desc := constructMemToStreamDesc (data.length + 2)
    txkey := key
    withinSend := false }

inductive Call where
  | txDone
  | callback (key : Nat)
  deriving DecidableEq, Repr

/-- The driver with the calls in progress, innermost first, and its history: the keys sent
    and reported, and the key of the frame last put into the descriptor. -/
structure State where
  tse : Tse
  calls : List Call
  sent : List Nat
  reported : List Nat
  frame : Nat

inductive Action where
  | send (sgList : List (Option (List UInt8))) (key : Nat)
  | complete
  | deliver
  | proceed
  | callbackReturns

def maySend : List Call → Bool
  | [] => true
  | .callback _ :: _ => true
  | .txDone :: _ => false

def sendStep (s : State) (sgList : List (Option (List UInt8))) (key : Nat) : State where
  tse := tseSend s.tse sgList key
  calls := .txDone :: s.calls
  sent := s.sent ++ [key]
  reported := s.reported
  frame := key

def completeStep (s : State) : State :=
  { s with tse := { s.tse with
      desc := { s.tse.desc with control := s.tse.desc.control &&& ~~~controlOwnedByHw } } }

def txDoneStep (s : State) (outer : List Call) : State :=
  if ¬ Owned s.tse.desc ∧ s.tse.txkey ≠ 0 then
    { s with
      reported := s.reported ++ [s.tse.txkey]
      calls := .callback s.tse.txkey :: outer }
  else { s with calls := outer }

def returnStep (s : State) (outer : List Call) : State :=
  { s with tse := { s.tse with txkey := 0 }, calls := outer }

/-- The caller asks tse_can_send first and never uses a key twice. -/
def step (s : State) : Action → Option State
  | .send sgList key =>
    if maySend s.calls ∧ tseCanSend s.tse ∧ key ≠ 0 ∧ key ∉ s.sent then
      some (sendStep s sgList key)
    else none
  | .complete => if Owned s.tse.desc then some (completeStep s) else none
  | .deliver => if s.calls = [] then some { s with calls := [.txDone] } else none
  | .proceed =>
    match s.calls with
    | .txDone :: outer => some (txDoneStep s outer)
    | _ => none
  | .callbackReturns =>
    match s.calls with
    | .callback _ :: outer => some (returnStep s outer)
    | _ => none

def initial (buffer : List UInt8) : State where
  tse := tseInit buffer
  calls := []
  sent := []
  reported := []
  frame := 0

theorem completed_not_owned (s : State) : ¬ Owned (completeStep s).tse.desc := by
  have masked : ~~~controlOwnedByHw &&& controlOwnedByHw = 0 := by decide
  intro owned
  apply owned
  simp only [completeStep, BitVec.and_assoc, masked]
  exact BitVec.and_zero

inductive Stepped (s : State) : Action → State → Prop where
  | send (sgList : List (Option (List UInt8))) (key : Nat) (may : maySend s.calls = true)
      (free : ¬ Owned s.tse.desc) (nonzero : key ≠ 0) (fresh : key ∉ s.sent) :
      Stepped s (.send sgList key) (sendStep s sgList key)
  | complete (owned : Owned s.tse.desc) : Stepped s .complete (completeStep s)
  | deliver (idle : s.calls = []) : Stepped s .deliver { s with calls := [.txDone] }
  | reports (outer : List Call) (here : s.calls = .txDone :: outer)
      (free : ¬ Owned s.tse.desc) (used : s.tse.txkey ≠ 0) :
      Stepped s .proceed { s with
        reported := s.reported ++ [s.tse.txkey]
        calls := .callback s.tse.txkey :: outer }
  | skips (outer : List Call) (here : s.calls = .txDone :: outer)
      (nothing : Owned s.tse.desc ∨ s.tse.txkey = 0) :
      Stepped s .proceed { s with calls := outer }
  | callbackReturns (k : Nat) (outer : List Call) (here : s.calls = .callback k :: outer) :
      Stepped s .callbackReturns (returnStep s outer)

theorem step_stepped {s s' : State} {a : Action} (h : step s a = some s') : Stepped s a s' := by
  cases a with
  | send sgList key =>
    simp only [step, Option.ite_none_right_eq_some, Option.some.injEq] at h
    obtain ⟨⟨may, can, nonzero, fresh⟩, rfl⟩ := h
    have free : ¬ Owned s.tse.desc := by simpa [tseCanSend] using can
    exact Stepped.send sgList key may free nonzero fresh
  | complete =>
    simp only [step, Option.ite_none_right_eq_some, Option.some.injEq] at h
    obtain ⟨owned, rfl⟩ := h
    exact Stepped.complete owned
  | deliver =>
    simp only [step, Option.ite_none_right_eq_some, Option.some.injEq] at h
    obtain ⟨idle, rfl⟩ := h
    exact Stepped.deliver idle
  | proceed =>
    simp only [step] at h
    split at h
    · rename_i outer here
      cases h
      unfold txDoneStep
      split
      · rename_i found
        exact Stepped.reports outer here found.1 found.2
      · rename_i absent
        apply Stepped.skips outer here
        by_cases owned : Owned s.tse.desc
        · exact Or.inl owned
        · exact Or.inr (by_contra fun used => absent ⟨owned, used⟩)
    · cases h
  | callbackReturns =>
    simp only [step] at h
    split at h
    · rename_i k outer here
      cases h
      exact Stepped.callbackReturns k outer here
    · cases h

def outstanding (s : State) : List Nat :=
  if s.tse.txkey ≠ 0 ∧ s.tse.txkey ∉ s.reported then [s.tse.txkey] else []

/-- The field is free for a new key, or still holds the one whose callback is running. -/
def Spent (s : State) : Prop :=
  s.tse.txkey = 0 ∨ s.calls.head? = some (.callback s.tse.txkey)

instance (s : State) : Decidable (Spent s) := inferInstanceAs (Decidable (_ ∨ _))

/-- A send finds no unreported key in the field, and tse_TxDone clears none when its
    callback returns. -/
def SpentKey (s : State) : Action → Prop
  | .send _ _ => Spent s
  | .callbackReturns => Spent s
  | _ => True

instance (s : State) (a : Action) : Decidable (SpentKey s a) :=
  match a with
  | .send _ _ => inferInstanceAs (Decidable (Spent s))
  | .callbackReturns => inferInstanceAs (Decidable (Spent s))
  | .complete => isTrue trivial
  | .deliver => isTrue trivial
  | .proceed => isTrue trivial

structure Inv (s : State) : Prop where
  balanced : Balanced s.sent s.reported (outstanding s)
  running : ∀ k, .callback k ∈ s.calls → k ∈ s.reported
  -- a reported key stays in the field only during its own callback
  stale : s.tse.txkey ∈ s.reported → s.tse.txkey ≠ 0 →
    s.calls.head? = some (.callback s.tse.txkey)
  inFlight : Owned s.tse.desc →
    s.tse.txkey = s.frame ∧ s.tse.txkey ≠ 0 ∧ s.tse.txkey ∉ s.reported

theorem outstanding_none {s : State} (done : s.tse.txkey = 0 ∨ s.tse.txkey ∈ s.reported) :
    outstanding s = [] := by
  apply if_neg
  rintro ⟨used, unreported⟩
  rcases done with zero | reported
  · exact used zero
  · exact unreported reported

theorem spent_done {s : State} (inv : Inv s) (spent : Spent s) :
    s.tse.txkey = 0 ∨ s.tse.txkey ∈ s.reported := by
  rcases spent with zero | running
  · exact Or.inl zero
  · exact Or.inr (inv.running _ (List.mem_of_head? running))

theorem looking_unreported {s : State} {outer : List Call} (inv : Inv s)
    (here : s.calls = .txDone :: outer) (used : s.tse.txkey ≠ 0) :
    s.tse.txkey ∉ s.reported := by
  intro reported
  have head := inv.stale reported used
  rw [here] at head
  cases head

theorem inv_send {s : State} (inv : Inv s) (spent : Spent s)
    (sgList : List (Option (List UInt8))) (key : Nat) (nonzero : key ≠ 0)
    (fresh : key ∉ s.sent) : Inv (sendStep s sgList key) := by
  have balanced := inv.balanced
  have unreported : key ∉ s.reported := by
    intro early
    exact fresh (balanced.accounted.mem_iff.mpr (List.mem_append_left _ early))
  have now : outstanding (sendStep s sgList key) = [key] := if_pos ⟨nonzero, unreported⟩
  refine ⟨?_, ?_, ?_, ?_⟩
  · rw [outstanding_none (spent_done inv spent)] at balanced
    rw [now]
    exact balanced_send balanced fresh (List.Perm.refl _)
  · intro k mem
    rcases List.mem_cons.mp mem with other | before
    · cases other
    · exact inv.running k before
  · intro reported
    exact absurd reported unreported
  · intro owned
    exact ⟨rfl, nonzero, unreported⟩

theorem inv_report {s : State} {outer : List Call} (inv : Inv s)
    (here : s.calls = .txDone :: outer) (free : ¬ Owned s.tse.desc)
    (used : s.tse.txkey ≠ 0) :
    Inv { s with
      reported := s.reported ++ [s.tse.txkey]
      calls := .callback s.tse.txkey :: outer } := by
  have unreported := looking_unreported inv here used
  have before : outstanding s = [s.tse.txkey] := if_pos ⟨used, unreported⟩
  refine ⟨?_, ?_, ?_, ?_⟩
  · have balanced := inv.balanced
    rw [before] at balanced
    rw [outstanding_none (Or.inr (List.mem_append_right _ (List.mem_singleton_self _)))]
    exact balanced_report balanced (List.Perm.refl _)
  · intro k mem
    rcases List.mem_cons.mp mem with same | earlier
    · cases same
      exact List.mem_append_right _ (List.mem_singleton_self _)
    · have there : .callback k ∈ s.calls := by
        rw [here]
        exact List.mem_cons_of_mem _ earlier
      exact List.mem_append_left _ (inv.running k there)
  · intro reported nonzero
    rfl
  · intro owned
    exact absurd owned free

theorem inv_return {s : State} {k : Nat} {outer : List Call} (inv : Inv s) (spent : Spent s)
    (here : s.calls = .callback k :: outer) : Inv (returnStep s outer) := by
  have done := spent_done inv spent
  refine ⟨?_, ?_, ?_, ?_⟩
  · have balanced := inv.balanced
    rw [outstanding_none done] at balanced
    rw [outstanding_none (Or.inl rfl)]
    exact balanced
  · intro j mem
    apply inv.running j
    rw [here]
    exact List.mem_cons_of_mem _ mem
  · intro reported nonzero
    exact absurd rfl nonzero
  · intro owned
    obtain ⟨same, nonzero, unreported⟩ := inv.inFlight owned
    rcases done with zero | reported
    · exact absurd zero nonzero
    · exact absurd reported unreported

theorem inv_step {s s' : State} {a : Action} (inv : Inv s) (spent : SpentKey s a)
    (stepped : Stepped s a s') : Inv s' := by
  cases stepped with
  | send sgList key may free nonzero fresh => exact inv_send inv spent sgList key nonzero fresh
  | complete owned =>
    refine ⟨inv.balanced, inv.running, inv.stale, ?_⟩
    intro again
    exact absurd again (completed_not_owned s)
  | deliver idle =>
    refine ⟨inv.balanced, ?_, ?_, inv.inFlight⟩
    · intro k mem
      cases List.mem_singleton.mp mem
    · intro reported nonzero
      have head := inv.stale reported nonzero
      rw [idle] at head
      cases head
  | reports outer here free used => exact inv_report inv here free used
  | skips outer here nothing =>
    refine ⟨inv.balanced, ?_, ?_, inv.inFlight⟩
    · intro k mem
      apply inv.running k
      rw [here]
      exact List.mem_cons_of_mem _ mem
    · intro reported nonzero
      have unreported : s.tse.txkey ∉ s.reported := looking_unreported inv here nonzero
      exact absurd reported unreported
  | callbackReturns k outer here => exact inv_return inv spent here

theorem inv_initial (buffer : List UInt8) : Inv (initial buffer) := by
  refine ⟨balanced_nil, ?_, ?_, ?_⟩
  · intro k mem
    exact absurd mem List.not_mem_nil
  · intro reported
    exact absurd reported List.not_mem_nil
  · intro owned
    have free : ¬ Owned ⟨0, 0, 0⟩ := by decide
    exact absurd owned free

theorem deliver_reports_rest {s : State} (inv : Inv s) (idle : s.calls = [])
    (free : ¬ Owned s.tse.desc) :
    ∃ rest s', (∀ a ∈ rest, a = .proceed ∨ a = .callbackReturns) ∧
      Runs.exec step s (.deliver :: rest) = some s' ∧ s'.calls = [] ∧ s'.tse.txkey = 0 ∧
      ∀ k ∈ s.sent, k ∈ s'.reported := by
  by_cases used : s.tse.txkey = 0
  · refine ⟨[.proceed], { s with calls := [] }, ?_, ?_, rfl, used, ?_⟩
    · intro a mem
      exact Or.inl (List.mem_singleton.mp mem)
    · simp only [Runs.exec, step, idle, Option.bind_some, txDoneStep, used, ne_eq,
        not_true_eq_false, and_false, ↓reduceIte]
    · intro k mem
      rcases sent_cases inv.balanced mem with early | waits
      · exact early
      · rw [outstanding_none (Or.inl used)] at waits
        exact absurd waits List.not_mem_nil
  · refine ⟨[.proceed, .callbackReturns], returnStep { s with
        reported := s.reported ++ [s.tse.txkey], calls := [.callback s.tse.txkey] } [],
      ?_, ?_, rfl, rfl, ?_⟩
    · intro a mem
      simpa using mem
    · simp only [Runs.exec, step, idle, Option.bind_some, txDoneStep, free, used, ne_eq,
        not_false_eq_true, and_self, ↓reduceIte]
    · intro k mem
      rcases sent_cases inv.balanced mem with early | waits
      · exact List.mem_append_left _ early
      · apply List.mem_append_right
        unfold outstanding at waits
        split at waits
        · exact waits
        · exact absurd waits List.not_mem_nil

structure ExactlyOnce (s : State) : Prop where
  distinct : s.sent.Nodup
  -- every key sent is reported or waits in the field, and only one of them
  accounted : s.sent.Perm (s.reported ++ outstanding s)
  reportedOnce : s.reported.Nodup
  neverOwned : Owned s.tse.desc → s.frame ∈ s.sent ∧ s.frame ∉ s.reported
  -- a key is dealt with when its tx_done call is over
  cleared : (∀ k ∈ s.sent, k ∈ s.reported ∧ .callback k ∉ s.calls) → s.tse.txkey = 0
  allReported : s.calls = [] → ¬ Owned s.tse.desc →
    ∃ rest s', (∀ a ∈ rest, a = .proceed ∨ a = .callbackReturns) ∧
      Runs.exec step s (.deliver :: rest) = some s' ∧ s'.calls = [] ∧ s'.tse.txkey = 0 ∧
      ∀ k ∈ s.sent, k ∈ s'.reported

theorem inv_exactly_once {s : State} (inv : Inv s) : ExactlyOnce s := by
  have balanced := inv.balanced
  refine ⟨balanced.distinct, balanced.accounted, reported_nodup balanced, ?_, ?_, ?_⟩
  · intro owned
    obtain ⟨same, nonzero, unreported⟩ := inv.inFlight owned
    have waits : s.tse.txkey ∈ outstanding s := by
      rw [outstanding, if_pos ⟨nonzero, unreported⟩]
      exact List.mem_singleton_self _
    rw [← same]
    exact ⟨balanced.accounted.mem_iff.mpr (List.mem_append_right _ waits), unreported⟩
  · intro allDone
    by_contra used
    by_cases reported : s.tse.txkey ∈ s.reported
    · have sent : s.tse.txkey ∈ s.sent :=
        balanced.accounted.mem_iff.mpr (List.mem_append_left _ reported)
      have head := inv.stale reported used
      exact (allDone _ sent).2 (List.mem_of_head? head)
    · have waits : s.tse.txkey ∈ outstanding s := by
        rw [outstanding, if_pos ⟨used, reported⟩]
        exact List.mem_singleton_self _
      have sent : s.tse.txkey ∈ s.sent :=
        balanced.accounted.mem_iff.mpr (List.mem_append_right _ waits)
      exact reported (allDone _ sent).1
  · intro idle free
    exact deliver_reports_rest inv idle free

/-- Every run from tse_init whose sends and callback returns find no unreported key in
    txkey. -/
theorem spent_keys_exactly_once (buffer : List UInt8) (actions : List Action) (s : State)
    (spent : Runs.Along step SpentKey (initial buffer) actions)
    (ran : Runs.exec step (initial buffer) actions = some s) : ExactlyOnce s := by
  apply inv_exactly_once
  exact Runs.invariant_along (fun _ _ _ inv spent h => inv_step inv spent (step_stepped h))
    (inv_initial buffer) spent ran

def nestedRun : List Action :=
  [.send [some [1, 2], none, some [3]] 7, .proceed, .complete, .deliver, .proceed,
    .send [some [4]] 8, .complete, .proceed, .callbackReturns, .callbackReturns,
    .send [some [5]] 9, .proceed]

set_option maxRecDepth 10000 in
theorem nested_exactly_once :
    ∃ s, Runs.exec step (initial []) nestedRun = some s ∧ s.reported = [7, 8] ∧
      s.sent = [7, 8, 9] ∧ s.tse.txkey = 9 ∧ ExactlyOnce s := by
  have checked : (Runs.exec step (initial []) nestedRun).any (fun s =>
      decide (s.reported = [7, 8] ∧ s.sent = [7, 8, 9] ∧ s.tse.txkey = 9)) = true := by
    decide +kernel
  have spent : Runs.Along step SpentKey (initial []) nestedRun := by
    decide +kernel
  obtain ⟨s, ran, facts⟩ := (Option.any_eq_true _ _).mp checked
  obtain ⟨reported, sent, left⟩ := of_decide_eq_true facts
  exact ⟨s, ran, reported, sent, left, spent_keys_exactly_once [] nestedRun s spent ran⟩

/-- The callback for key 1 sends key 2, whose frame is still with the hardware when the
    callback returns: tse_TxDone clears key 2, and nothing is left to report later. -/
def clearedRun : List Action :=
  [.send [some [1]] 1, .proceed, .complete, .deliver, .proceed, .send [some [2]] 2, .proceed,
    .callbackReturns, .complete, .deliver, .proceed]

set_option maxRecDepth 10000 in
theorem return_clears_unreported :
    ¬ ∀ buffer actions s, Runs.exec step (initial buffer) actions = some s →
      ExactlyOnce s := by
  intro all
  have checked : (Runs.exec step (initial []) clearedRun).any (fun s =>
      decide (2 ∈ s.sent ∧ 2 ∉ s.reported ++ outstanding s)) = true := by
    decide +kernel
  obtain ⟨s, ran, facts⟩ := (Option.any_eq_true _ _).mp checked
  obtain ⟨sent, lost⟩ := of_decide_eq_true facts
  exact lost ((all [] clearedRun s ran).accounted.mem_iff.mp sent)

end TseTransmit
