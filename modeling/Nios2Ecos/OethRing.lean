import Mathlib.Data.List.Nodup
import Nios2Ecos.OethTransmit

/- The transmit ring over whole runs: READY descriptors stay inside the window from
   tx_last to tx_next, whose width tells a full ring from an empty one. -/
namespace OethRing
open CyclicWindow OethTransmit

/-- Slots from tx_last up to tx_next, all of them when the ring is full. -/
def width (n : Nat) (tx : Tx) : Nat :=
  if tx.txFull = true then n else offset n tx.txLast tx.txNext

def window (n : Nat) (tx : Tx) : List Nat :=
  (List.range (width n tx)).map (fun d => (tx.txLast + d) % n)

structure Ring (n : Nat) (tx : Tx) : Prop where
  nextInside : tx.txNext < n
  lastInside : tx.txLast < n
  fullMeets : tx.txFull = true → tx.txNext = tx.txLast
  readyInside : ∀ i, i < n → Ready (tx.lenStatus i) → offset n tx.txLast i < width n tx
  wraps : ∀ i, i < n → (Wrap (tx.lenStatus i) ↔ i + 1 = n)

/- Steps that keep the pointers only have to look at the descriptors. -/
theorem ring_status {n : Nat} {tx tx' : Tx} (ring : Ring n tx)
    (sameNext : tx'.txNext = tx.txNext) (sameLast : tx'.txLast = tx.txLast)
    (sameFull : tx'.txFull = tx.txFull)
    (ready : ∀ i, i < n → Ready (tx'.lenStatus i) → Ready (tx.lenStatus i))
    (wrap : ∀ i, i < n → (Wrap (tx'.lenStatus i) ↔ Wrap (tx.lenStatus i))) :
    Ring n tx' ∧ width n tx' = width n tx := by
  have sameWidth : width n tx' = width n tx := by
    simp only [width, sameNext, sameLast, sameFull]
  refine ⟨⟨?_, ?_, ?_, ?_, ?_⟩, sameWidth⟩
  · rw [sameNext]
    exact ring.nextInside
  · rw [sameLast]
    exact ring.lastInside
  · rw [sameNext, sameLast, sameFull]
    exact ring.fullMeets
  · intro i inside isReady
    rw [sameLast, sameWidth]
    exact ring.readyInside i inside (ready i inside isReady)
  · intro i inside
    exact (wrap i inside).trans (ring.wraps i inside)

/- One descriptor is rewritten, with its WRAP bit kept. -/
theorem ring_update {n i : Nat} {tx tx' : Tx} {status : BitVec 32} (ring : Ring n tx)
    (sameNext : tx'.txNext = tx.txNext) (sameLast : tx'.txLast = tx.txLast)
    (sameFull : tx'.txFull = tx.txFull)
    (written : tx'.lenStatus = Function.update tx.lenStatus i status)
    (ready : Ready status → Ready (tx.lenStatus i))
    (wrap : Wrap status ↔ Wrap (tx.lenStatus i)) :
    Ring n tx' ∧ width n tx' = width n tx := by
  apply ring_status ring sameNext sameLast sameFull
  · intro j inside isReady
    rw [written] at isReady
    by_cases same : j = i
    · subst same
      rw [Function.update_self] at isReady
      exact ready isReady
    · rwa [Function.update_of_ne same] at isReady
  · intro j inside
    rw [written]
    by_cases same : j = i
    · subst same
      rw [Function.update_self]
      exact wrap
    · rw [Function.update_of_ne same]

theorem width_le {n : Nat} {tx : Tx} (ring : Ring n tx) : width n tx ≤ n := by
  unfold width
  split
  · exact Nat.le_refl n
  · exact Nat.le_of_lt (offset_lt ring.lastInside)

theorem width_of_room {n : Nat} {tx : Tx} (room : tx.txFull = false) :
    width n tx = offset n tx.txLast tx.txNext := by
  simp only [width, room, Bool.false_eq_true, ↓reduceIte]

theorem full_iff_width {n : Nat} {tx : Tx} (ring : Ring n tx) :
    width n tx = n ↔ tx.txFull = true := by
  constructor
  · intro all
    by_contra notFull
    have less := offset_lt (i := tx.txNext) ring.lastInside
    rw [width_of_room (Bool.eq_false_iff.mpr notFull)] at all
    omega
  · intro full
    simp only [width, full, ↓reduceIte]

theorem next_not_ready {n : Nat} {tx : Tx} (ring : Ring n tx) (room : tx.txFull = false) :
    ¬ Ready (tx.lenStatus tx.txNext) := by
  intro isReady
  have inside := ring.readyInside tx.txNext ring.nextInside isReady
  rw [width_of_room room] at inside
  exact Nat.lt_irrefl _ inside

theorem enqueue_next {n : Nat} {tx : Tx} (ring : Ring n tx) (totalLen : Int)
    (sgList : List (List UInt8)) :
    (enqueue n tx totalLen sgList).txNext = next n tx.txNext :=
  wrapped_eq_next ring.nextInside

theorem enqueue_width {n : Nat} {tx : Tx} (ring : Ring n tx) (room : tx.txFull = false)
    (totalLen : Int) (sgList : List (List UInt8)) :
    width n (enqueue n tx totalLen sgList) = width n tx + 1 := by
  have step := offset_next ring.lastInside ring.nextInside
  have meets := offset_eq_zero ring.lastInside (next_lt ring.nextInside)
  have full : (enqueue n tx totalLen sgList).txFull =
      if next n tx.txNext = tx.txLast then true else tx.txFull := by
    simp only [enqueue, wrapped_eq_next ring.nextInside]
  rw [width_of_room room]
  by_cases closed : next n tx.txNext = tx.txLast
  · rw [if_pos closed] at full
    have zero := meets.mpr closed
    have last : offset n tx.txLast tx.txNext + 1 = n := by
      by_contra other
      rw [step, if_neg other] at zero
      omega
    simp only [width, full, ↓reduceIte, last]
  · rw [if_neg closed, room] at full
    have positive : offset n tx.txLast (next n tx.txNext) ≠ 0 := fun zero =>
      closed (meets.mp zero)
    have inner : offset n tx.txLast tx.txNext + 1 ≠ n := by
      intro other
      rw [step, if_pos other] at positive
      exact positive rfl
    rw [width_of_room full, enqueue_next ring]
    exact step.trans (if_neg inner)

theorem ring_enqueue {n : Nat} {tx : Tx} (ring : Ring n tx) (room : tx.txFull = false)
    (totalLen : Int) (sgList : List (List UInt8)) :
    Ring n (enqueue n tx totalLen sgList) := by
  have wider := enqueue_width ring room totalLen sgList
  constructor
  · rw [enqueue_next ring]
    exact next_lt ring.nextInside
  · exact ring.lastInside
  · intro full
    rw [enqueue_next ring]
    by_contra apart
    have apart' : ¬ next n tx.txNext = tx.txLast := apart
    simp only [enqueue, wrapped_eq_next ring.nextInside, apart', ↓reduceIte, room,
      Bool.false_eq_true] at full
  · intro i inside isReady
    rw [wider]
    by_cases taken : i = tx.txNext
    · have same : offset n tx.txLast i = width n tx := by
        rw [taken, width_of_room room]
      exact Nat.lt_succ_of_le (Nat.le_of_eq same)
    · have before : Ready (tx.lenStatus i) := by
        simpa only [enqueue, Function.update_of_ne taken] using isReady
      exact Nat.lt_succ_of_lt (ring.readyInside i inside before)
  · intro i inside
    by_cases taken : i = tx.txNext
    · subst taken
      simp only [enqueue, Function.update_self, ready_status_wrap]
      exact ring.wraps _ inside
    · simp only [enqueue, Function.update_of_ne taken]
      exact ring.wraps i inside

theorem ring_refuse {n : Nat} {tx : Tx} (ring : Ring n tx) (totalLen : Int) :
    Ring n (refuse tx totalLen) ∧ width n (refuse tx totalLen) = width n tx :=
  ring_update ring rfl rfl rfl rfl (cleared_status_ready totalLen _).mp
    (cleared_status_wrap totalLen _)

theorem ring_set_key {n : Nat} {tx : Tx} (ring : Ring n tx) (i key : Nat) :
    Ring n (tx.setKey i key) :=
  ⟨ring.nextInside, ring.lastInside, ring.fullMeets, ring.readyInside, ring.wraps⟩

theorem reclaim_width {n : Nat} {tx : Tx} (ring : Ring n tx) (goesOn : ¬ reclaimStops tx) :
    width n (reclaimOne n tx) + 1 = width n tx := by
  have here := ring.lastInside
  have room : (reclaimOne n tx).txFull = false := rfl
  rw [width_of_room room]
  change offset n (next n tx.txLast) tx.txNext + 1 = width n tx
  by_cases full : tx.txFull = true
  · rw [ring.fullMeets full, offset_of_next_self here]
    exact ((full_iff_width ring).mpr full).symm
  · have notFull := Bool.eq_false_iff.mpr full
    have apart : tx.txNext ≠ tx.txLast := fun same =>
      goesOn (Or.inr ⟨same.symm, notFull⟩)
    rw [offset_of_next here ring.nextInside apart, width_of_room notFull]

theorem ring_reclaim {n : Nat} {tx : Tx} (ring : Ring n tx) (goesOn : ¬ reclaimStops tx) :
    Ring n (reclaimOne n tx) := by
  have here := ring.lastInside
  have narrower := reclaim_width ring goesOn
  constructor
  · exact ring.nextInside
  · exact next_lt here
  · intro full
    cases full
  · intro i inside isReady
    have isReady' : Ready (tx.lenStatus i) := isReady
    have other : i ≠ tx.txLast := by
      intro same
      rw [same] at isReady'
      exact goesOn (Or.inl isReady')
    have before := ring.readyInside i inside isReady'
    have moved := offset_of_next here inside other
    change offset n (next n tx.txLast) i < width n (reclaimOne n tx)
    omega
  · exact ring.wraps

theorem ring_send {n : Nat} {tx : Tx} (ring : Ring n tx) (room : tx.txFull = false)
    (totalLen : Int) (sgList : List (List UInt8)) (key : Nat) :
    Ring n (openethSend n tx totalLen sgList key) := by
  have keyed := ring_set_key ring tx.txNext key
  by_cases accepts : Accepts tx totalLen
  · rw [send_accepted n sgList key accepts]
    exact ring_enqueue keyed room totalLen sgList
  · rw [send_refused n sgList key (next_not_ready ring room) room accepts]
    exact (ring_refuse keyed totalLen).1

theorem ring_complete {n : Nat} {s : State} (ring : Ring n s.tx) (i : Nat)
    (outcome : BitVec 32) :
    Ring n (completeStep s i outcome).tx ∧
    width n (completeStep s i outcome).tx = width n s.tx := by
  have bits := completed_status_bit outcome (s.tx.lenStatus i)
  exact ring_update ring rfl rfl rfl rfl (fun isReady => absurd isReady bits.1) bits.2

theorem ring_started {n : Nat} {tx : Tx} (positive : 1 ≤ n) (idle : IdleRing n tx) :
    Ring n (started n tx).tx := by
  have quiet := start_idle n tx idle
  constructor
  · exact positive
  · exact positive
  · intro full
    cases full
  · intro i inside isReady
    exact absurd isReady (quiet.notReady i inside)
  · exact quiet.wraps

def mismatchText : String := "openeth: tx counter mismatch!.\n"
def queueFullText : String := "openeth: tx queue full!.\n"

def Quiet (before said : List String) : Prop :=
  ∃ later, said = before ++ later ∧ mismatchText ∉ later ∧ queueFullText ∉ later

theorem quiet_say {before said : List String} {text : String} (quiet : Quiet before said)
    (noMismatch : text ≠ mismatchText) (noFull : text ≠ queueFullText) :
    Quiet before (said ++ [text]) := by
  obtain ⟨later, rfl, first, second⟩ := quiet
  refine ⟨later ++ [text], List.append_assoc _ _ _, ?_, ?_⟩
  · intro mem
    rcases List.mem_append.mp mem with early | last
    · exact first early
    · exact noMismatch (List.mem_singleton.mp last).symm
  · intro mem
    rcases List.mem_append.mp mem with early | last
    · exact second early
    · exact noFull (List.mem_singleton.mp last).symm

theorem quiet_send {n : Nat} {tx : Tx} {before : List String} (ring : Ring n tx)
    (room : tx.txFull = false) (quiet : Quiet before tx.said) (totalLen : Int)
    (sgList : List (List UInt8)) (key : Nat) :
    Quiet before (openethSend n tx totalLen sgList key).said := by
  by_cases accepts : Accepts tx totalLen
  · rw [send_accepted n sgList key accepts]
    unfold enqueue
    dsimp only
    split
    · exact quiet_say quiet (by decide) (by decide)
    · exact quiet
  · rw [send_refused n sgList key (next_not_ready ring room) room accepts]
    exact quiet_say quiet (by decide) (by decide)

/-- The scatter list of a send has the length that is given with it. -/
def AddsUp : Action → Prop
  | .send totalLen sgList _ => (sgList.flatten.length : Int) = totalLen
  | _ => True

theorem fits_row (b : TxBuff) {totalLen : Int} {sgList : List (List UInt8)}
    (adds : (sgList.flatten.length : Int) = totalLen) (fits : totalLen ≤ txBuffSize) :
    sgList.flatten.length ≤ b.rowSize := by
  have wide := row_size_ge b
  omega

/-- A send keeps the status of every descriptor the controller owns, and what is in its
    buffer, as long as its scatter list is not longer than it says. -/
theorem send_spares_ready {n : Nat} {tx : Tx} (ring : Ring n tx) (room : tx.txFull = false)
    (totalLen : Int) (sgList : List (List UInt8)) (key : Nat) {i : Nat}
    (isReady : Ready (tx.lenStatus i)) :
    (openethSend n tx totalLen sgList key).lenStatus i = tx.lenStatus i ∧
    (AddsUp (.send totalLen sgList key) →
      (openethSend n tx totalLen sgList key).txbuff.row i = tx.txbuff.row i) := by
  have free := next_not_ready ring room
  have other : i ≠ tx.txNext := by
    intro same
    rw [same] at isReady
    exact free isReady
  by_cases accepts : Accepts tx totalLen
  · rw [send_accepted n sgList key accepts]
    refine ⟨Function.update_of_ne other _ _, ?_⟩
    intro adds
    exact copy_other_row (fits_row tx.txbuff adds accepts.2.2) other
  · rw [send_refused n sgList key free room accepts]
    exact ⟨Function.update_of_ne other _ _, fun _ => rfl⟩

/-- A descriptor with the controller has its frame at the front of its buffer. -/
def Loaded (n : Nat) (s : State) : Prop :=
  ∀ i, i < n → Ready (s.tx.lenStatus i) → s.payload i <+: s.tx.txbuff.row i

theorem loaded_send {n : Nat} {s : State} (ring : Ring n s.tx) (room : s.tx.txFull = false)
    (loaded : Loaded n s) {totalLen : Int} {sgList : List (List UInt8)} (key : Nat)
    (adds : AddsUp (.send totalLen sgList key)) : Loaded n (sendStep n s totalLen sgList key) := by
  have free := next_not_ready ring room
  intro i inside isReady
  by_cases accepts : Accepts s.tx totalLen
  · simp only [sendStep, send_accepted n sgList key accepts, if_pos accepts] at isReady ⊢
    have fits := fits_row s.tx.txbuff adds accepts.2.2
    by_cases taken : i = s.tx.txNext
    · subst taken
      rw [Function.update_self]
      exact copy_own_row fits
    · have before : Ready (s.tx.lenStatus i) := by
        simpa only [enqueue, Tx.setKey, Function.update_of_ne taken] using isReady
      have kept := copy_other_row fits taken
      rw [Function.update_of_ne taken]
      exact (loaded i inside before).trans (kept ▸ List.prefix_refl _)
  · simp only [sendStep, send_refused n sgList key free room accepts, if_neg accepts] at isReady ⊢
    apply loaded i inside
    by_cases taken : i = s.tx.txNext
    · subst taken
      simpa only [refuse, Tx.say, Tx.setKey, Function.update_self, cleared_status_ready]
        using isReady
    · simpa only [refuse, Tx.say, Tx.setKey, Function.update_of_ne taken] using isReady

theorem loaded_complete {n : Nat} {s : State} (loaded : Loaded n s) (i : Nat)
    (outcome : BitVec 32) : Loaded n (completeStep s i outcome) := by
  intro j inside isReady
  apply loaded j inside
  by_cases same : j = i
  · subst same
    simp only [completeStep, Function.update_self] at isReady
    exact absurd isReady (completed_status_bit outcome _).1
  · simpa only [completeStep, Function.update_of_ne same] using isReady

/-- What a run keeps: the ring, the rounds oeth_tx has left, and what was printed. -/
structure Inv (n : Nat) (before : List String) (s : State) : Prop where
  ring : Ring n s.tx
  rounds : ∀ a, s.pc = .reclaim a → a + width n s.tx ≤ n
  quiet : Quiet before s.tx.said

theorem may_send_not_reclaim {pc : Pc} (may : pc.maySend = true) (a : Nat) :
    pc ≠ .reclaim a := by
  rintro rfl
  cases may

theorem inv_step {n : Nat} {before : List String} {s s' : State} {a : Action}
    (inv : Inv n before s) (stepped : Stepped n s a s') : Inv n before s' := by
  have ring := inv.ring
  cases stepped with
  | send totalLen sgList key may room nonzero fresh =>
    exact ⟨ring_send ring room totalLen sgList key,
      fun a here => absurd here (may_send_not_reclaim may a),
      quiet_send ring room inv.quiet totalLen sgList key⟩
  | complete i outcome inside ready =>
    obtain ⟨kept, sameWidth⟩ := ring_complete ring i outcome
    refine ⟨kept, ?_, inv.quiet⟩
    intro a here
    rw [sameWidth]
    exact inv.rounds a here
  | deliver idle =>
    refine ⟨ring, ?_, inv.quiet⟩
    intro a here
    cases here
    exact (Nat.zero_add (width n s.tx)).symm ▸ width_le ring
  | reclaimEnds a here stops => exact ⟨ring, nofun, inv.quiet⟩
  | reclaims a here goesOn =>
    refine ⟨ring_reclaim ring goesOn, ?_, inv.quiet⟩
    intro b there
    cases there
    have narrower := reclaim_width ring goesOn
    have bound := inv.rounds a here
    change a + 1 + width n (reclaimOne n s.tx) ≤ n
    omega
  | reports i here inside used done =>
    exact ⟨ring_set_key ring i 0, nofun, inv.quiet⟩
  | skips i here inside nothing => exact ⟨ring, nofun, inv.quiet⟩
  | scanEnds i here outside => exact ⟨ring, nofun, inv.quiet⟩
  | callbackReturns i here => exact ⟨ring, nofun, inv.quiet⟩

theorem loaded_step {n : Nat} {s s' : State} {a : Action} (ring : Ring n s.tx)
    (loaded : Loaded n s) (adds : AddsUp a) (stepped : Stepped n s a s') : Loaded n s' := by
  cases stepped with
  | send totalLen sgList key may room nonzero fresh => exact loaded_send ring room loaded key adds
  | complete i outcome inside ready => exact loaded_complete loaded i outcome
  | deliver idle => exact loaded
  | reclaimEnds a here stops => exact loaded
  | reclaims a here goesOn => exact loaded
  | reports i here inside used done => exact loaded
  | skips i here inside nothing => exact loaded
  | scanEnds i here outside => exact loaded
  | callbackReturns i here => exact loaded

theorem inv_started {n : Nat} {tx : Tx} (positive : 1 ≤ n) (idle : IdleRing n tx) :
    Inv n tx.said (started n tx) := by
  refine ⟨ring_started positive idle, nofun, [], ?_, ?_, ?_⟩
  · simp only [started, openethStart, List.append_nil]
    split <;> rfl
  · exact List.not_mem_nil
  · exact List.not_mem_nil

theorem inv_run {n : Nat} {tx : Tx} {actions : List Action} {s : State} (positive : 1 ≤ n)
    (idle : IdleRing n tx) (ran : Runs.exec (step n) (started n tx) actions = some s) :
    Inv n tx.said s :=
  Runs.invariant_run (fun _ _ _ inv h => inv_step inv (step_stepped h))
    (inv_started positive idle) ran

theorem loaded_run {n : Nat} {tx : Tx} {actions : List Action} {s : State} (positive : 1 ≤ n)
    (idle : IdleRing n tx) (adds : ∀ a ∈ actions, AddsUp a)
    (ran : Runs.exec (step n) (started n tx) actions = some s) : Loaded n s := by
  have preserved : ∀ s a s', Inv n tx.said s ∧ Loaded n s → AddsUp a → step n s a = some s' →
      Inv n tx.said s' ∧ Loaded n s' := by
    rintro s a s' ⟨inv, loaded⟩ adds stepped
    have taken := step_stepped stepped
    exact ⟨inv_step inv taken, loaded_step inv.ring loaded adds taken⟩
  have start : Inv n tx.said (started n tx) ∧ Loaded n (started n tx) :=
    ⟨inv_started positive idle, fun _ _ _ => List.nil_prefix⟩
  exact (Runs.invariant_along preserved start (Runs.along_actions adds _) ran).2

theorem mem_window {n : Nat} {tx : Tx} (ring : Ring n tx) {i : Nat} (inside : i < n)
    (isReady : Ready (tx.lenStatus i)) : i ∈ window n tx := by
  apply List.mem_map.mpr
  refine ⟨offset n tx.txLast i, ?_, add_offset ring.lastInside inside⟩
  exact List.mem_range.mpr (ring.readyInside i inside isReady)

theorem window_nodup {n : Nat} {tx : Tx} (ring : Ring n tx) : (window n tx).Nodup := by
  apply List.Nodup.map_on ?_ List.nodup_range
  intro d inD e inE same
  have dInside := Nat.lt_of_lt_of_le (List.mem_range.mp inD) (width_le ring)
  have eInside := Nat.lt_of_lt_of_le (List.mem_range.mp inE) (width_le ring)
  have back := offset_add ring.lastInside dInside
  rw [same, offset_add ring.lastInside eInside] at back
  exact back.symm

theorem window_ends {n : Nat} {tx : Tx} (ring : Ring n tx) :
    (tx.txLast + width n tx) % n = tx.txNext := by
  by_cases full : tx.txFull = true
  · rw [(full_iff_width ring).mpr full, Nat.add_mod_right, Nat.mod_eq_of_lt ring.lastInside,
      ring.fullMeets full]
  · rw [width_of_room (Bool.eq_false_iff.mpr full)]
    exact add_offset ring.lastInside ring.nextInside

theorem window_length (n : Nat) (tx : Tx) : (window n tx).length = width n tx := by
  rw [window, List.length_map, List.length_range]

theorem empty_window_stops {n : Nat} {tx : Tx} (ring : Ring n tx) (positive : 1 ≤ n)
    (empty : width n tx = 0) : reclaimStops tx := by
  have room : tx.txFull = false := by
    apply Bool.eq_false_iff.mpr
    intro full
    have all := (full_iff_width ring).mpr full
    omega
  rw [width_of_room room] at empty
  exact Or.inr ⟨((offset_eq_zero ring.lastInside ring.nextInside).mp empty).symm, room⟩

/-- The ring in a state a run has reached; `before` is what had been printed at the start. -/
structure RingSafe (n : Nat) (before : List String) (s : State) : Prop where
  nextInside : s.tx.txNext < n
  lastInside : s.tx.txLast < n
  windowDistinct : (window n s.tx).Nodup
  windowEnds : (s.tx.txLast + (window n s.tx).length) % n = s.tx.txNext
  readyInWindow : ∀ i, i < n → Ready (s.tx.lenStatus i) → i ∈ window n s.tx
  fullIff : (window n s.tx).length = n ↔ s.tx.txFull = true
  emptyWhen : s.tx.txLast = s.tx.txNext → s.tx.txFull = false → window n s.tx = []
  -- neither the mismatch branch nor the full branch of openeth_send
  sendsFree : ∀ totalLen sgList key s', step n s (.send totalLen sgList key) = some s' →
    ¬ Ready (s.tx.lenStatus s.tx.txNext) ∧ s.tx.txFull = false
  neverSaid : Quiet before s.tx.said
  sparesReady : ∀ totalLen sgList key s', step n s (.send totalLen sgList key) = some s' →
    ∀ i, Ready (s.tx.lenStatus i) → s'.tx.lenStatus i = s.tx.lenStatus i ∧
      (AddsUp (.send totalLen sgList key) → s'.tx.txbuff.row i = s.tx.txbuff.row i)
  wraps : ∀ i, i < n → (Wrap (s.tx.lenStatus i) ↔ i + 1 = n)
  roundsBounded : ∀ a, s.pc = .reclaim a → a ≤ n ∧ (a = n → reclaimStops s.tx)

/-- Every run from openeth_start on an idle ring, with completions in any order and sends
    of any length, from outside or from the callback. Where each scatter list has the length
    that is given with it, the frames in the ring stay as they were sent. -/
theorem transmit_ring_safe (n : Nat) (tx : Tx) (actions : List Action) (s : State)
    (positive : 1 ≤ n) (idle : IdleRing n tx)
    (ran : Runs.exec (step n) (started n tx) actions = some s) :
    RingSafe n tx.said s ∧ ((∀ a ∈ actions, AddsUp a) → Loaded n s) := by
  have inv := inv_run positive idle ran
  have ring := inv.ring
  refine ⟨?_, fun adds => loaded_run positive idle adds ran⟩
  constructor
  · exact ring.nextInside
  · exact ring.lastInside
  · exact window_nodup ring
  · rw [window_length]
    exact window_ends ring
  · intro i inside isReady
    exact mem_window ring inside isReady
  · rw [window_length]
    exact full_iff_width ring
  · intro meets room
    have none : width n s.tx = 0 := by
      rw [width_of_room room, ← meets]
      exact offset_self ring.lastInside
    rw [window, none, List.range_zero, List.map_nil]
  · intro totalLen sgList key s' sends
    cases step_stepped sends with
    | send _ _ _ may room nonzero fresh => exact ⟨next_not_ready ring room, room⟩
  · exact inv.quiet
  · intro totalLen sgList key s' sends i isReady
    cases step_stepped sends with
    | send _ _ _ may room nonzero fresh =>
      exact send_spares_ready ring room totalLen sgList key isReady
  · exact ring.wraps
  · intro a here
    have bound := inv.rounds a here
    refine ⟨by omega, ?_⟩
    intro all
    exact empty_window_stops ring positive (by omega)

def outOfOrderRun : List Action :=
  [.send 3 [[1, 2], [3]] 7, .send 2 [[4], [5]] 8, .complete 1 0, .complete 0 txBdCarrier,
    .deliver, .proceed, .proceed, .proceed, .proceed, .send 1 [[6]] 9, .callbackReturns]

def zeroBuff : TxBuff := ⟨32, by decide, fun _ => 0⟩

set_option maxRecDepth 10000 in
theorem out_of_order_ring_safe :
    ∃ s, Runs.exec (step 2) (started 2 (openethDeviceInit 2 zeroBuff)) outOfOrderRun = some s ∧
      s.tx.txFull = false ∧ Ready (s.tx.lenStatus 0) ∧ s.payload 0 = [6] ∧ RingSafe 2 [] s ∧
      Loaded 2 s := by
  have checked : (Runs.exec (step 2) (started 2 (openethDeviceInit 2 zeroBuff))
      outOfOrderRun).any (fun s => decide (s.tx.txFull = false ∧ Ready (s.tx.lenStatus 0) ∧
        s.payload 0 = [6])) = true := by
    decide +kernel
  have adds : ∀ a ∈ outOfOrderRun, AddsUp a := by
    simp [outOfOrderRun, AddsUp]
  obtain ⟨s, ran, facts⟩ := (Option.any_eq_true _ _).mp checked
  obtain ⟨room, isReady, payload⟩ := of_decide_eq_true facts
  obtain ⟨safe, loaded⟩ := transmit_ring_safe 2 _ outOfOrderRun s (by decide) (init_idle 2 _) ran
  exact ⟨s, ran, room, isReady, payload, safe, loaded adds⟩

end OethRing
