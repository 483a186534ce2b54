import Mathlib.Data.List.Basic
import Mathlib.Logic.Function.Basic
import Mathlib.Algebra.Order.Ring.Nat
import Nios2Ecos.CyclicWindow
import Nios2Ecos.Runs

/- The asynchronous transmitter of the OpenCores MAC driver: packets wait in one queue, go
   through a ring of `n` descriptors in another, and are freed. The MAC works through the ring
   at its own pace, also while the driver is in its loops. -/
namespace OcmTransmit
open CyclicWindow

structure Packet where
  id : Nat
  nbPlen : Nat
  deriving DecidableEq

/-- The bits of a control word that the driver writes or looks at, and the packet whose
    buffer the pointer is into. -/
structure Desc where
  ready : Bool
  wrap : Bool
  error : Bool
  len : Nat
  packet : Packet
  deriving DecidableEq

inductive Fate where
  | sent
  | failed
  | refused
  deriving DecidableEq

structure Mib where
  ifOutOctets : Nat
  ifOutUcastPkts : Nat
  ifOutDiscards : Nat
  deriving DecidableEq

inductive Phase where
  | idle
  | finished
  | queued
  deriving DecidableEq

/-- The driver's variables, the ring, the MAC's place in it and its interrupt; and the history:
    the packets handed over, those freed, and in `wire` the frames that the MAC is through with,
    also those that ended with an error. -/
structure State where
  curTxDesc : Nat
  nextTxDesc : Nat
  nextTxDescRdy : Bool
  tosend : List Packet
  sending : List Packet
  mib : Mib
  phase : Phase
  txdescs : Nat → Desc
  hw : Nat
  irq : Bool
  handed : List Packet
  freed : List (Packet × Fate)
  wire : List Packet

def minMtu : Nat := 4
def maxMtu : Nat := 1518

def frameLength (bias : Nat) (pkt : Packet) : Nat := (pkt.nbPlen + (2 ^ 32 - bias)) % 2 ^ 32

def fits (bias : Nat) (pkt : Packet) : Bool :=
  minMtu ≤ frameLength bias pkt && frameLength bias pkt ≤ maxMtu

variable (n bias : Nat)

/-- The descriptor that `eth_ocm_low_send` writes, unless it refuses the packet. Its semaphore
    is free at every call: the calls are never nested. -/
def lowSend (s : State) (pkt : Packet) : Option (Nat → Desc) :=
  if !fits bias pkt || (s.txdescs s.nextTxDesc).ready then none
  else
    some (Function.update s.txdescs s.nextTxDesc
      ⟨true, s.nextTxDesc == n - 1, false, frameLength bias pkt, pkt⟩)

def pkFree (fate : Fate) (pkt : Packet) (s : State) : State :=
  { s with
    mib := match fate with
      | .sent =>
        { s.mib with
          ifOutOctets := s.mib.ifOutOctets + pkt.nbPlen
          ifOutUcastPkts := s.mib.ifOutUcastPkts + 1 }
      | _ => { s.mib with ifOutDiscards := s.mib.ifOutDiscards + 1 }
    freed := s.freed ++ [(pkt, fate)] }

def finishTurn (s : State) : State :=
  match s.sending with
  | pkt :: rest =>
    if (s.curTxDesc != s.nextTxDesc || !s.nextTxDescRdy) && !(s.txdescs s.curTxDesc).ready then
      let fate := if (s.txdescs s.curTxDesc).error then Fate.failed else .sent
      let s := pkFree fate pkt { s with sending := rest }
      { s with
        curTxDesc := if s.curTxDesc + 1 = n then 0 else s.curTxDesc + 1
        nextTxDescRdy := true }
    else { s with phase := .queued }
  | [] => { s with phase := .queued }

def queueTurn (s : State) : State :=
  match s.tosend with
  | pkt :: rest =>
    if s.nextTxDescRdy && !(s.txdescs s.nextTxDesc).ready then
      let s := { s with tosend := rest }
      match lowSend n bias s pkt with
      | none => pkFree .refused pkt s
      | some txdescs =>
        let next := if s.nextTxDesc + 1 = n then 0 else s.nextTxDesc + 1
        { s with
          txdescs := txdescs
          nextTxDesc := next
          nextTxDescRdy := if next = s.curTxDesc then false else s.nextTxDescRdy
          sending := s.sending ++ [pkt] }
    else { s with phase := .idle }
  | [] => { s with phase := .idle }

inductive Action where
  /-- `eth_ocm_pkt_send`, up to its call of `eth_ocm_tx_isr` -/
  | pktSend (pkt : Packet)
  | isr
  | turn
  | transmitted (error : Bool)

def step (s : State) : Action → Option State
  | .pktSend pkt =>
    if s.phase = .idle then
      some { s with
        tosend := s.tosend ++ [pkt]
        handed := s.handed ++ [pkt]
        phase := .finished }
    else none
  | .isr =>
    if s.phase = .idle ∧ s.irq = true then some { s with irq := false, phase := .finished }
    else none
  | .turn =>
    match s.phase with
    | .idle => none
    | .finished => some (finishTurn n s)
    | .queued => some (queueTurn n bias s)
  | .transmitted error =>
    let desc := s.txdescs s.hw
    if desc.ready then
      some { s with
        txdescs := Function.update s.txdescs s.hw { desc with ready := false, error := error }
        hw := if desc.wrap then 0 else s.hw + 1
        irq := true
        wire := s.wire ++ [desc.packet] }
    else none

def initial (txdescs : Nat → Desc) : State :=
  { curTxDesc := 0
    nextTxDesc := 0
    nextTxDescRdy := true
    tosend := []
    sending := []
    mib := ⟨0, 0, 0⟩
    phase := .idle
    txdescs := fun i => { txdescs i with ready := false }
    hw := 0
    irq := false
    handed := []
    freed := []
    wire := [] }

def framed (freed : List (Packet × Fate)) : List Packet :=
  (freed.filter fun f => f.2 != .refused).map Prod.fst

/-- `k` of the packets in the ring have left and wait to be freed. -/
structure Ring (s : State) (k : Nat) : Prop where
  curInside : s.curTxDesc < n
  room : s.sending.length ≤ n
  next : s.nextTxDesc = (s.curTxDesc + s.sending.length) % n
  rdy : s.nextTxDescRdy = true ↔ s.sending.length < n
  left : k ≤ s.sending.length
  hw : s.hw = (s.curTxDesc + k) % n
  ready : ∀ i < n, (s.txdescs i).ready = true ↔
    k ≤ offset n s.curTxDesc i ∧ offset n s.curTxDesc i < s.sending.length
  wraps : ∀ i < n, (s.txdescs i).ready = true → ((s.txdescs i).wrap = true ↔ i + 1 = n)
  holds : ∀ i < n, (s.txdescs i).ready = true →
    s.sending[offset n s.curTxDesc i]? = some (s.txdescs i).packet
  wire : s.wire = framed s.freed ++ s.sending.take k

structure Ledger (s : State) : Prop where
  accounted : s.handed.Perm (s.freed.map Prod.fst ++ (s.sending ++ s.tosend))
  order : s.handed.filter (fits bias) =
    framed s.freed ++ (s.sending ++ s.tosend.filter (fits bias))
  refused : ∀ f ∈ s.freed, f.2 = .refused ↔ fits bias f.1 = false
  counted : s.mib.ifOutUcastPkts = s.freed.countP (fun f => f.2 == .sent) ∧
    s.mib.ifOutDiscards = s.freed.countP (fun f => f.2 != .sent) ∧
    s.mib.ifOutOctets = ((s.freed.filter fun f => f.2 == .sent).map fun f => f.1.nbPlen).sum

structure Settled (s : State) (k : Nat) : Prop where
  seen : s.phase ≠ .finished → s.irq = false → k = 0
  busy : s.phase = .idle → s.tosend ≠ [] → s.sending.length = n

structure Inv (s : State) (k : Nat) : Prop where
  ring : Ring n s k
  ledger : Ledger bias s
  settled : Settled n s k

theorem framed_append (xs ys : List (Packet × Fate)) :
    framed (xs ++ ys) = framed xs ++ framed ys := by
  simp [framed]

section
variable {n bias} {s s' : State} {k : Nat}

theorem window_open {pkt : Packet} {rest : List Packet} (ring : Ring n s k)
    (sending : s.sending = pkt :: rest) :
    (s.curTxDesc != s.nextTxDesc || !s.nextTxDescRdy) = true := by
  have inside := ring.curInside
  have next := ring.next
  have rdy := ring.rdy
  rw [sending, List.length_cons] at next rdy
  by_cases room : rest.length + 1 < n
  · have other : s.curTxDesc ≠ s.nextTxDesc := by
      intro same
      have far := offset_add inside room
      rw [← next, ← same, offset_self inside] at far
      omega
    simp [other]
  · have full : s.nextTxDescRdy = false := by
      rw [Bool.eq_false_iff]
      intro on
      exact room (rdy.mp on)
    simp [full]

theorem cur_ready (ring : Ring n s k) :
    (s.txdescs s.curTxDesc).ready = true ↔ k = 0 ∧ 0 < s.sending.length := by
  rw [ring.ready _ ring.curInside, offset_self ring.curInside]
  omega

theorem next_offset (ring : Ring n s k) (room : s.sending.length < n) :
    s.nextTxDesc < n ∧ offset n s.curTxDesc s.nextTxDesc = s.sending.length := by
  have inside := ring.curInside
  rw [ring.next]
  exact ⟨Nat.mod_lt _ (by omega), offset_add inside room⟩

theorem next_free (ring : Ring n s k) (room : s.sending.length < n) :
    (s.txdescs s.nextTxDesc).ready = false := by
  obtain ⟨inside, place⟩ := next_offset ring room
  rw [Bool.eq_false_iff, Ne, ring.ready _ inside, place]
  omega

theorem ring_same (ring : Ring n s k) (phase : Phase) (irq : Bool) :
    Ring n { s with phase := phase, irq := irq } k :=
  ⟨ring.curInside, ring.room, ring.next, ring.rdy, ring.left, ring.hw, ring.ready, ring.wraps,
    ring.holds, ring.wire⟩

theorem ring_freed {pkt : Packet} {rest : List Packet} {fate : Fate}
    (ring : Ring n s (k + 1)) (sending : s.sending = pkt :: rest) (framed_fate : fate ≠ .refused)
    (mib : Mib) :
    Ring n { s with
      curTxDesc := next n s.curTxDesc
      nextTxDescRdy := true
      sending := rest
      mib := mib
      freed := s.freed ++ [(pkt, fate)] } k := by
  have inside := ring.curInside
  have room := ring.room
  have left := ring.left
  have start := ring.next
  have place := ring.hw
  rw [sending, List.length_cons] at room left start
  have step := next_eq inside
  have turned : ∀ d, (next n s.curTxDesc + d) % n = (s.curTxDesc + (d + 1)) % n := by
    intro d
    rw [next, Nat.mod_add_mod]
    congr 1
    omega
  have ready : ∀ i < n, (s.txdescs i).ready = true ↔
      k ≤ offset n (next n s.curTxDesc) i ∧
        offset n (next n s.curTxDesc) i < rest.length := by
    intro i there
    rw [ring.ready i there, sending, List.length_cons]
    by_cases first : i = s.curTxDesc
    · rw [first, offset_self inside]
      have behind := offset_of_next_self inside
      omega
    · have nearer := offset_of_next inside there first
      omega
  constructor
  · exact next_lt inside
  · dsimp only
    omega
  · dsimp only
    rw [start, turned]
  · dsimp only
    simp only [true_iff]
    omega
  · dsimp only
    omega
  · dsimp only
    rw [place, turned]
  · exact ready
  · exact ring.wraps
  · intro i there on
    have here := (ready i there).mp on
    have other : i ≠ s.curTxDesc := by
      intro same
      rw [same, cur_ready ring] at on
      omega
    have nearer := offset_of_next inside there other
    have held := ring.holds i there on
    rw [← nearer, sending, List.getElem?_cons_succ] at held
    exact held
  · dsimp only
    have sent : framed [(pkt, fate)] = [pkt] := by simp [framed, framed_fate]
    rw [ring.wire, sending, framed_append, sent, List.take_succ_cons, List.append_assoc]
    rfl

theorem ring_taken {pkt : Packet} {rest : List Packet} (ring : Ring n s k)
    (room : s.sending.length < n) (len : Nat) :
    Ring n { s with
      tosend := rest
      txdescs := Function.update s.txdescs s.nextTxDesc
        ⟨true, s.nextTxDesc == n - 1, false, len, pkt⟩
      nextTxDesc := next n s.nextTxDesc
      nextTxDescRdy := if next n s.nextTxDesc = s.curTxDesc then false else s.nextTxDescRdy
      sending := s.sending ++ [pkt] } k := by
  have inside := ring.curInside
  have left := ring.left
  obtain ⟨there, place⟩ := next_offset ring room
  have on := ring.rdy.mpr room
  have far := offset_next inside there
  have meets := offset_eq_zero inside (next_lt there)
  rw [place] at far
  have closes : next n s.nextTxDesc = s.curTxDesc ↔ s.sending.length + 1 = n := by
    rw [← meets, far]
    split
    · simp [*]
    · simp [*]
  have ready : ∀ i < n, (Function.update s.txdescs s.nextTxDesc
      (⟨true, s.nextTxDesc == n - 1, false, len, pkt⟩ : Desc) i).ready = true ↔
      k ≤ offset n s.curTxDesc i ∧ offset n s.curTxDesc i < s.sending.length + 1 := by
    intro i within
    by_cases same : i = s.nextTxDesc
    · rw [same, Function.update_self, place]
      simp only [true_iff]
      omega
    · rw [Function.update_of_ne same, ring.ready i within]
      have apart : offset n s.curTxDesc i ≠ s.sending.length := by
        intro equal
        apply same
        rw [← add_offset inside within, equal, ring.next]
      omega
  constructor
  · exact inside
  · dsimp only
    rw [List.length_append, List.length_singleton]
    exact room
  · dsimp only
    rw [next, ring.next, List.length_append, List.length_singleton, Nat.mod_add_mod,
      Nat.add_assoc]
  · dsimp only
    rw [List.length_append, List.length_singleton, on]
    by_cases last : s.sending.length + 1 = n
    · rw [if_pos (closes.mpr last)]
      simp [last]
    · rw [if_neg (fun same => last (closes.mp same))]
      simp only [true_iff]
      omega
  · dsimp only
    rw [List.length_append]
    omega
  · exact ring.hw
  · dsimp only
    rw [List.length_append, List.length_singleton]
    exact ready
  · intro i within on
    dsimp only at on ⊢
    by_cases same : i = s.nextTxDesc
    · rw [same, Function.update_self]
      simp only [beq_iff_eq]
      omega
    · rw [Function.update_of_ne same] at on ⊢
      exact ring.wraps i within on
  · intro i within on
    dsimp only at on ⊢
    by_cases same : i = s.nextTxDesc
    · rw [same, Function.update_self, place]
      simp
    · rw [Function.update_of_ne same] at on ⊢
      have before := ((ring.ready i within).mp on).2
      rw [List.getElem?_append_left before]
      exact ring.holds i within on
  · dsimp only
    rw [ring.wire, List.take_append_of_le_length left]

theorem ring_transmitted {error : Bool} (ring : Ring n s k)
    (on : (s.txdescs s.hw).ready = true) :
    Ring n { s with
      txdescs := Function.update s.txdescs s.hw
        { s.txdescs s.hw with ready := false, error := error }
      hw := if (s.txdescs s.hw).wrap then 0 else s.hw + 1
      irq := true
      wire := s.wire ++ [(s.txdescs s.hw).packet] } (k + 1) := by
  have inside := ring.curInside
  have here : s.hw < n := by
    rw [ring.hw]
    exact Nat.mod_lt _ (by omega)
  have room := ring.room
  have left := ring.left
  have more : k < s.sending.length := by
    have window := (ring.ready _ here).mp on
    omega
  have place : offset n s.curTxDesc s.hw = k := by
    rw [ring.hw]
    exact offset_add inside (by omega)
  have moved : (if (s.txdescs s.hw).wrap then 0 else s.hw + 1) = next n s.hw := by
    rw [next_eq here]
    have wrap := ring.wraps _ here on
    by_cases last : s.hw + 1 = n
    · rw [if_pos (wrap.mpr last), if_pos last]
    · rw [if_neg (fun set => last (wrap.mp set)), if_neg last]
  constructor
  · exact inside
  · exact room
  · exact ring.next
  · exact ring.rdy
  · exact more
  · dsimp only
    rw [moved, next, ring.hw, Nat.mod_add_mod, Nat.add_assoc]
  · intro i within
    dsimp only
    by_cases same : i = s.hw
    · rw [same, Function.update_self, place]
      simp only [Bool.false_eq_true, false_iff]
      omega
    · rw [Function.update_of_ne same, ring.ready i within]
      have apart : offset n s.curTxDesc i ≠ k := by
        intro equal
        apply same
        rw [← add_offset inside within, equal, ring.hw]
      omega
  · intro i within still
    dsimp only at still ⊢
    by_cases same : i = s.hw
    · rw [same, Function.update_self] at still
      cases still
    · rw [Function.update_of_ne same] at still ⊢
      exact ring.wraps i within still
  · intro i within still
    dsimp only at still ⊢
    by_cases same : i = s.hw
    · rw [same, Function.update_self] at still
      cases still
    · rw [Function.update_of_ne same] at still ⊢
      exact ring.holds i within still
  · dsimp only
    have held := ring.holds _ here on
    rw [place] at held
    rw [ring.wire, List.take_add_one, held, List.append_assoc]
    rfl

theorem ledger_same (ledger : Ledger bias s) (handed : s'.handed = s.handed)
    (freed : s'.freed = s.freed) (queues : s'.sending ++ s'.tosend.filter (fits bias) =
      s.sending ++ s.tosend.filter (fits bias))
    (held : (s'.sending ++ s'.tosend).Perm (s.sending ++ s.tosend)) (mib : s'.mib = s.mib) :
    Ledger bias s' := by
  constructor
  · rw [handed, freed]
    exact ledger.accounted.trans (held.symm.append_left _)
  · rw [handed, freed, queues]
    exact ledger.order
  · rw [freed]
    exact ledger.refused
  · rw [freed, mib]
    exact ledger.counted

theorem ledger_handed (ledger : Ledger bias s) (pkt : Packet) (phase : Phase) :
    Ledger bias { s with
      tosend := s.tosend ++ [pkt]
      handed := s.handed ++ [pkt]
      phase := phase } := by
  constructor
  · dsimp only
    rw [← List.append_assoc s.sending, ← List.append_assoc (s.freed.map Prod.fst)]
    exact ledger.accounted.append_right _
  · dsimp only
    rw [List.filter_append, List.filter_append, ledger.order]
    simp
  · exact ledger.refused
  · exact ledger.counted

theorem freed_counted {mib : Mib} {freed : List (Packet × Fate)} (pkt : Packet) (fate : Fate)
    (counted : mib.ifOutUcastPkts = freed.countP (fun f => f.2 == .sent) ∧
      mib.ifOutDiscards = freed.countP (fun f => f.2 != .sent) ∧
      mib.ifOutOctets = ((freed.filter fun f => f.2 == .sent).map fun f => f.1.nbPlen).sum) :
    let mib' : Mib := match fate with
      | .sent =>
        { mib with
          ifOutOctets := mib.ifOutOctets + pkt.nbPlen
          ifOutUcastPkts := mib.ifOutUcastPkts + 1 }
      | _ => { mib with ifOutDiscards := mib.ifOutDiscards + 1 }
    let freed' := freed ++ [(pkt, fate)]
    mib'.ifOutUcastPkts = freed'.countP (fun f => f.2 == .sent) ∧
      mib'.ifOutDiscards = freed'.countP (fun f => f.2 != .sent) ∧
      mib'.ifOutOctets = ((freed'.filter fun f => f.2 == .sent).map fun f => f.1.nbPlen).sum := by
  obtain ⟨sent, other, octets⟩ := counted
  cases fate <;> simp [sent, other, octets, List.countP_append]

theorem ledger_freed {pkt : Packet} {rest : List Packet} {fate : Fate} (ledger : Ledger bias s)
    (sending : s.sending = pkt :: rest) (framed_fate : fate ≠ .refused) :
    Ledger bias (pkFree fate pkt { s with sending := rest }) := by
  have order := ledger.order
  have accounted := ledger.accounted
  rw [sending] at order accounted
  have good : fits bias pkt = true := by
    have kept : pkt ∈ s.handed.filter (fits bias) := by
      rw [order]
      simp
    exact (List.mem_filter.mp kept).2
  constructor
  · simp only [pkFree, List.map_append, List.map_cons, List.map_nil, List.append_assoc,
      List.singleton_append]
    simpa using accounted
  · have sent : framed [(pkt, fate)] = [pkt] := by simp [framed, framed_fate]
    simp only [pkFree, framed_append, sent, List.append_assoc, List.singleton_append]
    simpa using order
  · intro f there
    rcases List.mem_append.mp there with old | new
    · exact ledger.refused f old
    · rw [List.mem_singleton.mp new]
      simp [framed_fate, good]
  · exact freed_counted pkt fate ledger.counted

theorem ledger_refused {pkt : Packet} {rest : List Packet} (ledger : Ledger bias s)
    (tosend : s.tosend = pkt :: rest) (bad : fits bias pkt = false) :
    Ledger bias (pkFree .refused pkt { s with tosend := rest }) := by
  have order := ledger.order
  have accounted := ledger.accounted
  rw [tosend] at order accounted
  constructor
  · simp only [pkFree, List.map_append, List.map_cons, List.map_nil, List.append_assoc,
      List.singleton_append]
    refine accounted.trans (List.Perm.append_left _ ?_)
    exact List.perm_middle
  · have nothing : framed [(pkt, Fate.refused)] = [] := by simp [framed]
    rw [List.filter_cons_of_neg (by simp [bad])] at order
    simp only [pkFree, framed_append, nothing, List.append_nil]
    exact order
  · intro f there
    rcases List.mem_append.mp there with old | new
    · exact ledger.refused f old
    · rw [List.mem_singleton.mp new]
      simp [bad]
  · exact freed_counted pkt .refused ledger.counted

theorem finish_turn (inv : Inv n bias s k) (phase : s.phase = .finished) :
    ∃ k', Inv n bias (finishTurn n s) k' := by
  have ring := inv.ring
  have still : Ring n { s with phase := .queued } k := ring_same ring _ _
  have booked : Ledger bias { s with phase := .queued } :=
    ledger_same inv.ledger rfl rfl rfl (List.Perm.refl _) rfl
  cases sending : s.sending with
  | nil =>
    have left := ring.left
    rw [sending, List.length_nil] at left
    have through : finishTurn n s = { s with phase := .queued } := by
      simp [finishTurn, sending]
    rw [through]
    exact ⟨k, still, booked, ⟨by intro _ _; omega, by intro idle; cases idle⟩⟩
  | cons pkt rest =>
    have opened := window_open ring sending
    cases ready : (s.txdescs s.curTxDesc).ready with
    | true =>
      have none_left := (cur_ready ring).mp ready
      have through : finishTurn n s = { s with phase := .queued } := by
        simp [finishTurn, sending, ready]
      rw [through]
      exact ⟨k, still, booked, ⟨fun _ _ => none_left.1, by intro idle; cases idle⟩⟩
    | false =>
      have some_left : k ≠ 0 := by
        intro zero
        have on := (cur_ready ring).mpr ⟨zero, by rw [sending]; simp⟩
        rw [ready] at on
        cases on
      obtain ⟨j, rfl⟩ : ∃ j, k = j + 1 := ⟨k - 1, by omega⟩
      have fate_framed : (if (s.txdescs s.curTxDesc).error then Fate.failed else .sent) ≠
          .refused := by
        split <;> simp
      have moved := ring_freed ring sending fate_framed
        (pkFree (if (s.txdescs s.curTxDesc).error then Fate.failed else .sent) pkt s).mib
      have booked := ledger_freed inv.ledger sending fate_framed
      have turned := next_eq ring.curInside
      have reaped : finishTurn n s =
          { pkFree (if (s.txdescs s.curTxDesc).error then Fate.failed else .sent) pkt
              { s with sending := rest } with
            curTxDesc := next n s.curTxDesc
            nextTxDescRdy := true } := by
        simp only [finishTurn, sending, opened, ready, Bool.not_false, Bool.and_self, if_true,
          turned]
        rfl
      rw [reaped]
      exact ⟨j, moved, ledger_same booked rfl rfl rfl (List.Perm.refl _) rfl,
        ⟨by intro other; exact absurd phase other,
          by intro idle; exact absurd (phase.symm.trans idle) (by decide)⟩⟩

theorem queue_turn (inv : Inv n bias s k) (phase : s.phase = .queued) :
    Inv n bias (queueTurn n bias s) k := by
  have ring := inv.ring
  have seen := inv.settled.seen (by rw [phase]; decide)
  have still : Ring n { s with phase := .idle } k := ring_same ring _ _
  have booked : Ledger bias { s with phase := .idle } :=
    ledger_same inv.ledger rfl rfl rfl (List.Perm.refl _) rfl
  cases tosend : s.tosend with
  | nil =>
    have through : queueTurn n bias s = { s with phase := .idle } := by
      simp [queueTurn, tosend]
    rw [through]
    exact ⟨still, booked, ⟨fun _ => seen, fun _ waits => absurd tosend waits⟩⟩
  | cons pkt rest =>
    cases rdy : s.nextTxDescRdy with
    | false =>
      have through : queueTurn n bias s = { s with phase := .idle } := by
        simp [queueTurn, tosend, rdy]
      have full : s.sending.length = n := by
        have no_room : ¬ s.sending.length < n := by
          rw [← ring.rdy, rdy]
          decide
        have room := ring.room
        omega
      rw [through]
      exact ⟨still, booked, ⟨fun _ => seen, fun _ _ => full⟩⟩
    | true =>
      have room := ring.rdy.mp rdy
      have free := next_free ring room
      have busy : Phase.idle ≠ s.phase := by
        rw [phase]
        decide
      cases good : fits bias pkt with
      | false =>
        have refused : queueTurn n bias s = pkFree .refused pkt { s with tosend := rest } := by
          simp [queueTurn, tosend, rdy, free, lowSend, good]
        have dropped : framed (s.freed ++ [(pkt, Fate.refused)]) = framed s.freed := by
          simp [framed]
        rw [refused]
        constructor
        · constructor
          · exact ring.curInside
          · exact ring.room
          · exact ring.next
          · exact ring.rdy
          · exact ring.left
          · exact ring.hw
          · exact ring.ready
          · exact ring.wraps
          · exact ring.holds
          · simp only [pkFree, dropped]
            exact ring.wire
        · exact ledger_refused inv.ledger tosend good
        · exact ⟨fun _ => seen, fun idle => absurd idle.symm busy⟩
      | true =>
        have turned := next_eq (next_offset ring room).1
        have taken : queueTurn n bias s = { s with
            tosend := rest
            txdescs := Function.update s.txdescs s.nextTxDesc
              ⟨true, s.nextTxDesc == n - 1, false, frameLength bias pkt, pkt⟩
            nextTxDesc := next n s.nextTxDesc
            nextTxDescRdy := if next n s.nextTxDesc = s.curTxDesc then false else s.nextTxDescRdy
            sending := s.sending ++ [pkt] } := by
          simp [queueTurn, tosend, rdy, free, lowSend, good, turned]
        rw [taken]
        constructor
        · exact ring_taken ring room (frameLength bias pkt)
        · refine ledger_same inv.ledger rfl rfl ?_ ?_ rfl
          · dsimp only
            rw [tosend, List.filter_cons_of_pos good, List.append_assoc]
            rfl
          · dsimp only
            rw [tosend, List.append_assoc]
            exact List.Perm.refl _
        · exact ⟨fun _ => seen, fun idle => absurd idle.symm busy⟩

theorem inv_step (inv : Inv n bias s k) {a : Action} (stepped : step n bias s a = some s') :
    ∃ k', Inv n bias s' k' := by
  have ring := inv.ring
  cases a with
  | pktSend pkt =>
    simp only [step] at stepped
    split at stepped
    · cases stepped
      refine ⟨k, ⟨ring.curInside, ring.room, ring.next, ring.rdy, ring.left, ring.hw, ring.ready,
        ring.wraps, ring.holds, ring.wire⟩, ledger_handed inv.ledger pkt _,
        ⟨fun other => absurd rfl other, by intro idle; cases idle⟩⟩
    · cases stepped
  | isr =>
    simp only [step] at stepped
    split at stepped
    · cases stepped
      exact ⟨k, ring_same ring _ _,
        ledger_same inv.ledger rfl rfl rfl (List.Perm.refl _) rfl,
        ⟨fun other => absurd rfl other, by intro idle; cases idle⟩⟩
    · cases stepped
  | turn =>
    simp only [step] at stepped
    split at stepped
    · cases stepped
    · cases stepped
      exact finish_turn inv (by assumption)
    · cases stepped
      exact ⟨k, queue_turn inv (by assumption)⟩
  | transmitted error =>
    simp only [step] at stepped
    split at stepped
    · rename_i on
      cases stepped
      exact ⟨k + 1, ring_transmitted ring on,
        ledger_same inv.ledger rfl rfl rfl (List.Perm.refl _) rfl,
        ⟨fun _ quiet => absurd quiet.symm Bool.false_ne_true, inv.settled.busy⟩⟩
    · cases stepped

theorem inv_initial (positive : 0 < n) (txdescs : Nat → Desc) :
    Inv n bias (initial txdescs) 0 := by
  constructor
  · constructor
    · exact positive
    · exact Nat.zero_le _
    · exact (Nat.mod_eq_of_lt positive).symm
    · simpa [initial] using positive
    · exact Nat.zero_le _
    · exact (Nat.mod_eq_of_lt positive).symm
    · intro i _
      simp [initial]
    · intro i _ on
      simp [initial] at on
    · intro i _ on
      simp [initial] at on
    · rfl
  · constructor
    · exact List.Perm.refl _
    · rfl
    · intro f there
      simp [initial] at there
    · exact ⟨rfl, rfl, rfl⟩
  · constructor
    · intro _ _
      rfl
    · intro _ waits
      exact absurd rfl waits

end

/-- In every run of the driver and the MAC: each packet handed over is in one of the two queues
    or freed, once; the frames that have left are those of the packets that fit, in order and
    none twice, and a packet is freed only after its frame has left; and when the driver is
    through, no interrupt is due and the MAC has no descriptor to work on, everything handed
    over has left and is freed. -/
theorem transmit_fifo (n bias : Nat) (positive : 0 < n) (txdescs : Nat → Desc)
    {as : List Action} {s : State}
    (ran : Runs.exec (step n bias) (initial txdescs) as = some s) :
    s.handed.Perm (s.freed.map Prod.fst ++ (s.sending ++ s.tosend)) ∧
    framed s.freed <+: s.wire ∧
    s.wire <+: s.handed.filter (fits bias) ∧
    (∀ f ∈ s.freed, f.2 = .refused ↔ fits bias f.1 = false) ∧
    (s.phase = .idle → s.irq = false → (∀ i < n, (s.txdescs i).ready = false) →
      s.sending = [] ∧ s.tosend = [] ∧ s.wire = s.handed.filter (fits bias)) := by
  have preserved : ∀ s a s', (∃ k, Inv n bias s k) → step n bias s a = some s' →
      ∃ k, Inv n bias s' k := by
    intro s a s' before stepped
    obtain ⟨k, inv⟩ := before
    exact inv_step inv stepped
  obtain ⟨k, inv⟩ := Runs.invariant_run preserved ⟨0, inv_initial positive txdescs⟩ ran
  have ring := inv.ring
  have order := inv.ledger.order
  refine ⟨inv.ledger.accounted, ?_, ?_, inv.ledger.refused, ?_⟩
  · rw [ring.wire]
    exact List.prefix_append _ _
  · rw [ring.wire, order]
    refine (List.prefix_append_right_inj _).mpr ?_
    exact (List.take_prefix _ _).trans (List.prefix_append _ _)
  · intro idle quiet free
    have none_left := inv.settled.seen (by rw [idle]; decide) quiet
    have no_sending : s.sending = [] := by
      by_contra some_sending
      have on := (cur_ready ring).mpr ⟨none_left, List.length_pos_iff.mpr some_sending⟩
      rw [free _ ring.curInside] at on
      cases on
    have no_tosend : s.tosend = [] := by
      by_contra waits
      have full := inv.settled.busy idle waits
      rw [no_sending, List.length_nil] at full
      omega
    refine ⟨no_sending, no_tosend, ?_⟩
    rw [ring.wire, order, no_sending, no_tosend]
    simp

theorem two_packets_transmitted :
    ∃ s, Runs.exec (step 1 2) (initial fun _ => ⟨true, true, false, 0, ⟨0, 0⟩⟩)
        [.pktSend ⟨7, 60⟩, .turn, .turn, .turn, .pktSend ⟨8, 3⟩, .turn, .transmitted false,
          .turn, .isr, .turn, .turn, .turn, .turn] = some s ∧
      (s.handed.Perm (s.freed.map Prod.fst ++ (s.sending ++ s.tosend)) ∧
        framed s.freed <+: s.wire ∧
        s.wire <+: s.handed.filter (fits 2) ∧
        (∀ f ∈ s.freed, f.2 = .refused ↔ fits 2 f.1 = false) ∧
        (s.phase = .idle → s.irq = false → (∀ i < 1, (s.txdescs i).ready = false) →
          s.sending = [] ∧ s.tosend = [] ∧ s.wire = s.handed.filter (fits 2))) ∧
      s.wire = [⟨7, 60⟩] ∧ s.freed = [(⟨7, 60⟩, .sent), (⟨8, 3⟩, .refused)] ∧ s.phase = .idle := by
  refine ⟨_, rfl, ?_, rfl, rfl, rfl⟩
  exact @transmit_fifo 1 2 (by decide) (fun _ => ⟨true, true, false, 0, ⟨0, 0⟩⟩)
    [.pktSend ⟨7, 60⟩, .turn, .turn, .turn, .pktSend ⟨8, 3⟩, .turn, .transmitted false,
      .turn, .isr, .turn, .turn, .turn, .turn] _ rfl

end OcmTransmit
