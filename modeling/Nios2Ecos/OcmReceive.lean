import Mathlib.Data.List.Basic
import Mathlib.Data.List.Nodup
import Mathlib.Data.List.Perm.Basic
import Mathlib.Logic.Function.Basic
import Mathlib.Algebra.Order.Ring.Nat
import Nios2Ecos.CyclicWindow
import Nios2Ecos.Runs

/- The receiver of the OpenCores MAC driver: a ring of `n` descriptors, at most 127, each with a
   packet buffer of the stack's pool. A received packet goes to the stack and its descriptor gets
   a new buffer; where the pool is empty the frame is dropped and the buffer stays. The MAC is
   already on while the ring is set up. -/
namespace OcmReceive
open CyclicWindow

abbrev Frame := List UInt8

structure RxDesc where
  empty : Bool
  wrap : Bool
  error : Bool
  len : Nat
  ptr : Nat
  deriving DecidableEq

structure Packet where
  buffer : Nat
  nbPlen : Nat
  type : UInt8 × UInt8
  deriving DecidableEq

/-- `pk_alloc` of the stack: it fails or takes a free buffer out of the pool. -/
structure Pool where
  alloc : List Nat → Option (Nat × List Nat)
  takes : ∀ free b rest, alloc free = some (b, rest) → free.Perm (b :: rest)

inductive Fate where
  | delivered
  | starved
  | damaged
  deriving DecidableEq

inductive Setup where
  | running (i : Nat)
  | failed (i : Nat)
  | done
  deriving DecidableEq

structure Mib where
  ifInOctets : Nat
  ifInDiscards : Nat
  deriving DecidableEq

/-- The driver's variables, with the index and the BUSY flag of `eth_ocm_isr` while it is in
    `eth_ocm_rx_isr`; the stack's queue, what it holds and its free buffers; the ring, the MAC's
    place in it and its two interrupt sources; the buffers' memory; and the history. -/
structure State where
  setup : Setup
  loop : Option (Nat × Bool)
  curRxDesc : Nat
  pkts : Nat → Nat
  mib : Mib
  rcvdq : List Packet
  held : List Nat
  free : List Nat
  rxdescs : Nat → RxDesc
  hw : Nat
  rxIrq : Bool
  busyIrq : Bool
  content : Nat → List UInt8
  arrived : List (Frame × Bool)
  missed : Nat
  pending : List (Frame × Bool)
  processed : List ((Frame × Bool) × Fate)
  seen : List ((UInt8 × UInt8) × List UInt8)

def readOut (content : Nat → List UInt8) (p : Packet) : (UInt8 × UInt8) × List UInt8 :=
  (p.type, ((content p.buffer).drop 14).take p.nbPlen)

def payload (f : Frame) : (UInt8 × UInt8) × List UInt8 :=
  ((f.getD 12 0, f.getD 13 0), (f.drop 14).take (f.length - 18))

variable (n : Nat) (pool : Pool)

def armed (i ptr : Nat) : RxDesc := ⟨true, i == n - 1, false, 0, ptr⟩

def setupTurn (s : State) (i : Nat) : State :=
  if i < n then
    match pool.alloc s.free with
    | none => { s with pkts := Function.update s.pkts i 0, setup := .failed i }
    | some (b, free) =>
      if (s.rxdescs i).empty then
        { s with pkts := Function.update s.pkts i b, free := free, setup := .failed i }
      else
        { s with
          pkts := Function.update s.pkts i b
          free := free
          rxdescs := Function.update s.rxdescs i (armed n i b)
          setup := .running (i + 1) }
  else { s with setup := .done }

def packetAt (s : State) (cur : Nat) : Packet :=
  { buffer := s.pkts cur
    nbPlen := ((s.rxdescs cur).len + (2 ^ 32 - (14 + 4))) % 2 ^ 32
    type := ((s.content (s.pkts cur)).getD 12 0, (s.content (s.pkts cur)).getD 13 0) }

def settle (fate : Fate) (s : State) : State :=
  { s with
    pending := s.pending.tail
    processed := s.processed ++ (s.pending.take 1).map fun f => (f, fate) }

def discard (fate : Fate) (s : State) : State :=
  settle fate { s with mib := { s.mib with ifInDiscards := s.mib.ifInDiscards + 1 } }

def deliver (s : State) (cur : Nat) : State :=
  if (s.rxdescs cur).error then discard .damaged s
  else
    match pool.alloc s.free with
    | none => discard .starved s
    | some (b, free) =>
      settle .delivered { s with
        rcvdq := s.rcvdq ++ [packetAt s cur]
        pkts := Function.update s.pkts cur b
        free := free }

def rxTurn (s : State) (cur : Nat) (busy : Bool) : State :=
  if (s.rxdescs cur).empty then
    { s with
      curRxDesc := cur
      loop := none
      mib := { s.mib with
        ifInDiscards := if busy then s.mib.ifInDiscards + 1 else s.mib.ifInDiscards } }
  else
    let s := { s with
      mib := { s.mib with ifInOctets := s.mib.ifInOctets + (s.rxdescs cur).len } }
    let s := deliver pool s cur
    { s with
      rxdescs := Function.update s.rxdescs cur (armed n cur (s.pkts cur))
      loop := some (if cur + 1 = n then 0 else cur + 1, busy) }

inductive Action where
  | setup
  | isr
  | turn
  /-- the MAC has taken a frame of a legal size from the wire -/
  | received (frame : Frame) (error : Bool)
  | demux
  | edit (b : Nat) (bytes : List UInt8)
  | pkFree (b : Nat)
  | pkAlloc
  deriving DecidableEq

def step (s : State) : Action → Option State
  | .setup =>
    match s.loop, s.setup with
    | none, .running i => some (setupTurn n pool s i)
    | _, _ => none
  | .isr =>
    if s.loop = none ∧ (s.rxIrq || s.busyIrq) = true then
      if s.rxIrq then
        some { s with
          rxIrq := false
          busyIrq := false
          loop := some (s.curRxDesc, s.busyIrq) }
      else
        some { s with
          busyIrq := false
          mib := { s.mib with ifInDiscards := s.mib.ifInDiscards + 1 } }
    else none
  | .turn =>
    match s.loop with
    | none => none
    | some (cur, busy) => some (rxTurn n pool s cur busy)
  | .received frame error =>
    if 64 ≤ frame.length ∧ frame.length ≤ 1536 then
      let desc := s.rxdescs s.hw
      if desc.empty then
        some { s with
          content := Function.update s.content desc.ptr
            (frame ++ (s.content desc.ptr).drop frame.length)
          rxdescs := Function.update s.rxdescs s.hw
            { desc with empty := false, error := error, len := frame.length }
          hw := if desc.wrap then 0 else s.hw + 1
          rxIrq := true
          arrived := s.arrived ++ [(frame, error)]
          pending := s.pending ++ [(frame, error)] }
      else some { s with busyIrq := true, missed := s.missed + 1 }
    else none
  | .demux =>
    match s.rcvdq with
    | [] => none
    | p :: rest =>
      some { s with
        rcvdq := rest
        held := p.buffer :: s.held
        seen := s.seen ++ [readOut s.content p] }
  | .edit b bytes =>
    if b ∈ s.held then some { s with content := Function.update s.content b bytes } else none
  | .pkFree b =>
    if b ∈ s.held then some { s with held := s.held.erase b, free := b :: s.free } else none
  | .pkAlloc =>
    match pool.alloc s.free with
    | none => none
    | some (b, free) => some { s with held := b :: s.held, free := free }

def initial (pkts : Nat → Nat) (content : Nat → List UInt8) (free : List Nat) : State :=
  { setup := .running 0
    loop := none
    curRxDesc := 0
    pkts := pkts
    mib := ⟨0, 0⟩
    rcvdq := []
    held := []
    free := free
    rxdescs := fun _ => ⟨false, false, false, 0, 0⟩
    hw := 0
    rxIrq := false
    busyIrq := false
    content := content
    arrived := []
    missed := 0
    pending := []
    processed := []
    seen := [] }

def ready (s : State) : Nat :=
  match s.setup with
  | .running i => i
  | .failed i => i
  | .done => n

def cursor (s : State) : Nat :=
  match s.loop with
  | some (cur, _) => cur
  | none => s.curRxDesc

def inUse (s : State) : List Nat :=
  (List.range (ready n s)).map s.pkts ++ (s.rcvdq.map Packet.buffer ++ s.held)

def delivered (processed : List ((Frame × Bool) × Fate)) : List Frame :=
  (processed.filter fun p => p.2 == .delivered).map fun p => p.1.1

/-- Whatever is done next, a frame is starved only at a turn that finds no buffer in the pool. -/
def StarvesForWant (s : State) : Prop :=
  ∀ a s', step n pool s a = some s' → ∃ more, s'.processed = s.processed ++ more ∧
    ∀ p ∈ more, p.2 = .starved → pool.alloc s.free = none

def timely (s : State) (a : Action) : Prop := a = .isr → s.setup = .done

instance (s : State) (a : Action) : Decidable (timely s a) :=
  inferInstanceAs (Decidable (a = .isr → s.setup = .done))

/-- The first `m` descriptors have a buffer; from `cur` on the frames wait that are pending, and
    the rest is the MAC's. -/
structure Ring (m cur hw : Nat) (pending : List (Frame × Bool)) (rxdescs : Nat → RxDesc)
    (pkts : Nat → Nat) (content : Nat → List UInt8) : Prop where
  inside : cur < n
  within : m ≤ n
  room : pending.length ≤ m
  start : m < n → cur = 0
  hw : hw = (cur + pending.length) % n
  empty : ∀ i < n, (rxdescs i).empty = true ↔ i < m ∧ pending.length ≤ offset n cur i
  wraps : ∀ i < n, (rxdescs i).empty = true → ((rxdescs i).wrap = true ↔ i + 1 = n)
  ptrs : ∀ i < m, (rxdescs i).ptr = pkts i
  waits : ∀ i < n, ∀ f, pending[offset n cur i]? = some f →
    (rxdescs i).error = f.2 ∧ (rxdescs i).len = f.1.length ∧
      ∃ stale, content (pkts i) = f.1 ++ stale
  sized : ∀ f ∈ pending, 64 ≤ f.1.length ∧ f.1.length ≤ 1536

structure Told (s : State) : Prop where
  arrived : s.arrived = s.processed.map Prod.fst ++ s.pending
  read : s.seen ++ s.rcvdq.map (readOut s.content) = (delivered s.processed).map payload
  fates : ∀ p ∈ s.processed, p.2 = .damaged ↔ p.1.2 = true
  octets : s.mib.ifInOctets = (s.processed.map fun p => p.1.1.length).sum
  counted : s.processed.countP (fun p => p.2 != .delivered) ≤ s.mib.ifInDiscards
  excess : s.mib.ifInDiscards + s.busyIrq.toNat + (s.loop.elim false Prod.snd).toNat ≤
    s.processed.countP (fun p => p.2 != .delivered) + s.missed

structure Inv (total : List Nat) (s : State) : Prop where
  ring : Ring n (ready n s) (cursor s) s.hw s.pending s.rxdescs s.pkts s.content
  custody : total.Perm (inUse n s ++ s.free)
  told : Told s
  looping : s.loop ≠ none → s.setup = .done
  settled : s.loop = none → s.rxIrq = false → s.pending = []

section
variable {n} {m cur hw : Nat} {pending : List (Frame × Bool)} {rxdescs : Nat → RxDesc}
  {pkts : Nat → Nat} {content : Nat → List UInt8}

theorem waiting_ready (ring : Ring n m cur hw pending rxdescs pkts content) {i : Nat}
    (inside : i < n) (waits : offset n cur i < pending.length) : i < m := by
  have room := ring.room
  have within := ring.within
  by_cases full : m < n
  · have first := ring.start full
    have place : offset n 0 i = i := by
      rw [offset_eq (by omega) inside]
      simp
    rw [first, place] at waits
    omega
  · omega

theorem ring_apart (ring : Ring n m cur hw pending rxdescs pkts content) {b : Nat}
    (apart : ∀ i < m, pkts i ≠ b) (bytes : List UInt8) :
    Ring n m cur hw pending rxdescs pkts (Function.update content b bytes) := by
  constructor
  · exact ring.inside
  · exact ring.within
  · exact ring.room
  · exact ring.start
  · exact ring.hw
  · exact ring.empty
  · exact ring.wraps
  · exact ring.ptrs
  · intro i inside f waits
    have there := waiting_ready ring inside (List.getElem?_eq_some_iff.mp waits).1
    rw [Function.update_of_ne (apart i there)]
    exact ring.waits i inside f waits
  · exact ring.sized

theorem ring_unset (ring : Ring n m cur hw pending rxdescs pkts content) (b : Nat) :
    Ring n m cur hw pending rxdescs (Function.update pkts m b) content := by
  constructor
  · exact ring.inside
  · exact ring.within
  · exact ring.room
  · exact ring.start
  · exact ring.hw
  · exact ring.empty
  · exact ring.wraps
  · intro i there
    rw [Function.update_of_ne (Nat.ne_of_lt there)]
    exact ring.ptrs i there
  · intro i inside f waits
    have there := waiting_ready ring inside (List.getElem?_eq_some_iff.mp waits).1
    rw [Function.update_of_ne (Nat.ne_of_lt there)]
    exact ring.waits i inside f waits
  · exact ring.sized

theorem ring_armed (ring : Ring n m cur hw pending rxdescs pkts content) (more : m < n)
    (b : Nat) :
    Ring n (m + 1) cur hw pending (Function.update rxdescs m (armed n m b))
      (Function.update pkts m b) content := by
  have first := ring.start more
  have room := ring.room
  have place : ∀ i, i < n → offset n 0 i = i := by
    intro i inside
    rw [offset_eq (by omega) inside]
    simp
  subst first
  constructor
  · exact ring.inside
  · omega
  · omega
  · intro _
    rfl
  · exact ring.hw
  · intro i inside
    by_cases same : i = m
    · rw [same, Function.update_self, place m more]
      simp [armed, room]
    · rw [Function.update_of_ne same, ring.empty i inside]
      omega
  · intro i inside empty
    by_cases same : i = m
    · rw [same, Function.update_self]
      simp only [armed, beq_iff_eq]
      omega
    · rw [Function.update_of_ne same] at empty ⊢
      exact ring.wraps i inside empty
  · intro i inside
    by_cases same : i = m
    · rw [same, Function.update_self, Function.update_self]
      rfl
    · rw [Function.update_of_ne same, Function.update_of_ne same]
      exact ring.ptrs i (by omega)
  · intro i inside f waits
    have there := waiting_ready ring inside (List.getElem?_eq_some_iff.mp waits).1
    have other : i ≠ m := by omega
    rw [Function.update_of_ne other, Function.update_of_ne other]
    exact ring.waits i inside f waits
  · exact ring.sized

theorem ring_rearmed {f : Frame × Bool} {rest : List (Frame × Bool)}
    (ring : Ring n n cur hw (f :: rest) rxdescs pkts content) (b : Nat) :
    Ring n n (next n cur) hw rest (Function.update rxdescs cur (armed n cur b))
      (Function.update pkts cur b) content := by
  have inside := ring.inside
  have room := ring.room
  rw [List.length_cons] at room
  have behind := offset_of_next_self inside
  constructor
  · exact next_lt inside
  · exact Nat.le_refl n
  · omega
  · intro less
    omega
  · rw [ring.hw, List.length_cons, next, Nat.mod_add_mod]
    congr 1
    omega
  · intro i there
    by_cases same : i = cur
    · rw [same, Function.update_self]
      simp only [armed, true_iff]
      omega
    · rw [Function.update_of_ne same, ring.empty i there, List.length_cons]
      have nearer := offset_of_next inside there same
      omega
  · intro i there empty
    by_cases same : i = cur
    · rw [same, Function.update_self]
      simp only [armed, beq_iff_eq]
      omega
    · rw [Function.update_of_ne same] at empty ⊢
      exact ring.wraps i there empty
  · intro i there
    by_cases same : i = cur
    · rw [same, Function.update_self, Function.update_self]
      rfl
    · rw [Function.update_of_ne same, Function.update_of_ne same]
      exact ring.ptrs i there
  · intro i there g waits
    have before := (List.getElem?_eq_some_iff.mp waits).1
    have other : i ≠ cur := by
      intro same
      rw [same] at before
      omega
    have nearer := offset_of_next inside there other
    rw [Function.update_of_ne other, Function.update_of_ne other]
    refine ring.waits i there g ?_
    rw [← nearer, List.getElem?_cons_succ]
    exact waits
  · intro g there
    exact ring.sized g (List.mem_cons_of_mem _ there)

theorem ring_received (ring : Ring n m cur hw pending rxdescs pkts content)
    (apart : ∀ i < m, ∀ j < m, pkts i = pkts j → i = j) {frame : Frame} {error : Bool}
    (legal : 64 ≤ frame.length ∧ frame.length ≤ 1536) (open_ : (rxdescs hw).empty = true) :
    hw < m ∧
    Ring n m cur (if (rxdescs hw).wrap then 0 else hw + 1) (pending ++ [(frame, error)])
      (Function.update rxdescs hw
        { rxdescs hw with empty := false, error := error, len := frame.length }) pkts
      (Function.update content (rxdescs hw).ptr
        (frame ++ (content (rxdescs hw).ptr).drop frame.length)) := by
  have inside := ring.inside
  have within := ring.within
  have here : hw < n := by
    rw [ring.hw]
    exact Nat.mod_lt _ (by omega)
  obtain ⟨own, far⟩ := (ring.empty hw here).mp open_
  have less : pending.length < n := by
    have bound := offset_lt (i := hw) inside
    omega
  have place : offset n cur hw = pending.length := by
    rw [ring.hw]
    exact offset_add inside less
  have fits : pending.length < m := by
    by_cases full : m < n
    · have first := ring.start full
      rw [first, offset_eq (by omega) here] at place
      simp at place
      omega
    · omega
  have ptr := ring.ptrs hw own
  have moved : (if (rxdescs hw).wrap then 0 else hw + 1) = next n hw := by
    rw [next_eq here]
    have wrap := ring.wraps _ here open_
    by_cases last : hw + 1 = n
    · rw [if_pos (wrap.mpr last), if_pos last]
    · rw [if_neg (fun set => last (wrap.mp set)), if_neg last]
  have alone : ∀ i < n, i ≠ hw → offset n cur i ≠ pending.length := by
    intro i there other same
    apply other
    rw [← add_offset inside there, same, ring.hw]
  refine ⟨own, ?_⟩
  constructor
  · exact inside
  · exact within
  · rw [List.length_append, List.length_singleton]
    exact fits
  · exact ring.start
  · rw [moved, next, ring.hw, Nat.mod_add_mod, List.length_append, List.length_singleton,
      Nat.add_assoc]
  · intro i there
    rw [List.length_append, List.length_singleton]
    by_cases same : i = hw
    · rw [same, Function.update_self, place]
      simp
    · rw [Function.update_of_ne same, ring.empty i there]
      have other := alone i there same
      omega
  · intro i there empty
    by_cases same : i = hw
    · rw [same, Function.update_self] at empty
      cases empty
    · rw [Function.update_of_ne same] at empty ⊢
      exact ring.wraps i there empty
  · intro i there
    by_cases same : i = hw
    · rw [same, Function.update_self]
      exact ptr
    · rw [Function.update_of_ne same]
      exact ring.ptrs i there
  · intro i there g waits
    by_cases same : i = hw
    · rw [same, place, List.getElem?_append_right (Nat.le_refl _)] at waits
      simp only [Nat.sub_self, List.getElem?_cons_zero, Option.some.injEq] at waits
      rw [same, Function.update_self, ← waits, ← ptr, Function.update_self]
      exact ⟨rfl, rfl, _, rfl⟩
    · have other := alone i there same
      have before : offset n cur i < pending.length := by
        have bound := (List.getElem?_eq_some_iff.mp waits).1
        rw [List.length_append, List.length_singleton] at bound
        omega
      rw [List.getElem?_append_left before] at waits
      have ready := waiting_ready ring there before
      have distinct : pkts i ≠ (rxdescs hw).ptr := by
        intro equal
        rw [ptr] at equal
        exact same (apart i ready hw own equal)
      rw [Function.update_of_ne same, Function.update_of_ne distinct]
      exact ring.waits i there g waits
  · intro g there
    rcases List.mem_append.mp there with old | new
    · exact ring.sized g old
    · rw [List.mem_singleton.mp new]
      exact legal

end

theorem read_payload {content : Nat → List UInt8} {p : Packet} {f : Frame} {stale : List UInt8}
    (holds : content p.buffer = f ++ stale) (sized : 64 ≤ f.length ∧ f.length ≤ 1536)
    (nbPlen : p.nbPlen = (f.length + (2 ^ 32 - (14 + 4))) % 2 ^ 32)
    (type : p.type = ((content p.buffer).getD 12 0, (content p.buffer).getD 13 0)) :
    readOut content p = payload f := by
  have length : p.nbPlen = f.length - 18 := by omega
  have early : ∀ i, i < 14 → (f ++ stale).getD i 0 = f.getD i 0 := by
    intro i less
    rw [List.getD_eq_getElem?_getD, List.getD_eq_getElem?_getD,
      List.getElem?_append_left (by omega)]
  rw [readOut, type, length, holds, payload, early 12 (by omega), early 13 (by omega),
    List.drop_append_of_le_length (by omega), List.take_append_of_le_length]
  rw [List.length_drop]
  omega

theorem read_elsewhere {content : Nat → List UInt8} {packets : List Packet} {b : Nat}
    (apart : b ∉ packets.map Packet.buffer) (bytes : List UInt8) :
    packets.map (readOut (Function.update content b bytes)) = packets.map (readOut content) := by
  apply List.map_congr_left
  intro p there
  have other : p.buffer ≠ b := by
    intro same
    exact apart (same ▸ List.mem_map_of_mem there)
  rw [readOut, readOut, Function.update_of_ne other]

theorem exchanged {m i : Nat} (inside : i < m) (pkts : Nat → Nat) (b : Nat) (others : List Nat) :
    ((List.range m).map pkts ++ (b :: others)).Perm
      ((List.range m).map (Function.update pkts i b) ++ (pkts i :: others)) := by
  have split : List.range m = List.range i ++ i :: List.range' (i + 1) (m - i - 1) := by
    have whole := @List.range'_append_1 0 i (m - i - 1 + 1)
    rw [Nat.zero_add, show i + (m - i - 1 + 1) = m by omega] at whole
    rw [List.range_eq_range', List.range_eq_range', ← List.range'_succ, whole]
  have before : (List.range i).map (Function.update pkts i b) = (List.range i).map pkts := by
    apply List.map_congr_left
    intro j there
    rw [Function.update_of_ne (by have := List.mem_range.mp there; omega)]
  have behind : (List.range' (i + 1) (m - i - 1)).map (Function.update pkts i b) =
      (List.range' (i + 1) (m - i - 1)).map pkts := by
    apply List.map_congr_left
    intro j there
    have bound := List.mem_range'_1.mp there
    rw [Function.update_of_ne (by omega)]
  rw [split, List.map_append, List.map_append, List.map_cons, List.map_cons, before, behind,
    Function.update_self, List.append_assoc, List.append_assoc]
  apply List.Perm.append_left
  rw [List.cons_append, List.cons_append]
  refine ((List.perm_middle).cons _).trans ((List.Perm.swap _ _ _).trans ?_)
  exact (List.perm_middle.symm).cons _

section
variable {n} {pool} {total : List Nat} {s s' : State}

theorem told_dealt {f : Frame × Bool} {rest : List (Frame × Bool)} (fate : Fate) (told : Told s)
    (pending : s.pending = f :: rest) (arrived : s'.arrived = s.arrived)
    (left : s'.pending = rest) (processed : s'.processed = s.processed ++ [(f, fate)])
    (read : s'.seen ++ s'.rcvdq.map (readOut s'.content) =
      s.seen ++ s.rcvdq.map (readOut s.content) ++ (delivered [(f, fate)]).map payload)
    (right : fate = .damaged ↔ f.2 = true)
    (octets : s'.mib.ifInOctets = s.mib.ifInOctets + f.1.length)
    (discards : s'.mib.ifInDiscards = s.mib.ifInDiscards + (fate != .delivered).toNat)
    (busyIrq : s'.busyIrq = s.busyIrq)
    (loop : s'.loop.elim false Prod.snd = s.loop.elim false Prod.snd)
    (missed : s'.missed = s.missed) : Told s' := by
  have one : [(f, fate)].countP (fun p => p.2 != .delivered) = (fate != .delivered).toNat := by
    cases fate <;> rfl
  have counted := told.counted
  have excess := told.excess
  constructor
  · rw [arrived, left, processed, told.arrived, pending, List.map_append, List.append_assoc]
    rfl
  · rw [read, told.read, processed, delivered, delivered, delivered, List.filter_append,
      List.map_append, List.map_append]
  · intro p there
    rw [processed] at there
    rcases List.mem_append.mp there with old | new
    · exact told.fates p old
    · rw [List.mem_singleton.mp new]
      exact right
  · rw [octets, processed, told.octets, List.map_append, List.sum_append]
    simp
  · rw [processed, discards, List.countP_append, one]
    omega
  · rw [processed, discards, List.countP_append, one, busyIrq, loop, missed]
    omega

theorem inUse_nodup (different : total.Nodup) (inv : Inv n total s) :
    (inUse n s ++ s.free).Nodup :=
  inv.custody.nodup_iff.mp different

theorem pkts_apart (different : total.Nodup) (inv : Inv n total s) :
    ∀ i < ready n s, ∀ j < ready n s, s.pkts i = s.pkts j → i = j := by
  have ring := (List.nodup_append.mp (List.nodup_append.mp (inUse_nodup different inv)).1).1
  intro i hi j hj same
  exact List.inj_on_of_nodup_map ring (List.mem_range.mpr hi) (List.mem_range.mpr hj) same

theorem pkts_own (different : total.Nodup) (inv : Inv n total s) {i : Nat}
    (there : i < ready n s) : s.pkts i ∉ s.rcvdq.map Packet.buffer ++ s.held := by
  have split := List.nodup_append.mp (List.nodup_append.mp (inUse_nodup different inv)).1
  intro other
  exact split.2.2 _ (List.mem_map_of_mem (List.mem_range.mpr there)) _ other rfl

theorem discard_turn {f : Frame × Bool} {rest : List (Frame × Bool)} {fate : Fate} {cur : Nat}
    {busy : Bool} (inv : Inv n total s) (loop : s.loop = some (cur, busy))
    (pending : s.pending = f :: rest) (length : (s.rxdescs cur).len = f.1.length)
    (right : fate = .damaged ↔ f.2 = true) (lost : fate ≠ .delivered) :
    Inv n total { discard fate { s with
        mib := { s.mib with ifInOctets := s.mib.ifInOctets + (s.rxdescs cur).len } } with
      rxdescs := Function.update s.rxdescs cur (armed n cur (s.pkts cur))
      loop := some (next n cur, busy) } := by
  have done := inv.looping (by simp [loop])
  have all : ready n s = n := by simp [ready, done]
  have here : cursor s = cur := by simp [cursor, loop]
  have ring := inv.ring
  rw [all, here, pending] at ring
  have moved := ring_rearmed ring (s.pkts cur)
  rw [Function.update_eq_self] at moved
  have counts : (fate != .delivered) = true := by simp [lost]
  constructor
  · have same : ready n { discard fate { s with
        mib := { s.mib with ifInOctets := s.mib.ifInOctets + (s.rxdescs cur).len } } with
      rxdescs := Function.update s.rxdescs cur (armed n cur (s.pkts cur))
      loop := some (next n cur, busy) } = n := all
    rw [same]
    simp only [discard, settle, pending, List.tail_cons]
    exact moved
  · exact inv.custody
  · refine told_dealt fate inv.told pending rfl ?_ ?_ ?_ right ?_ ?_ rfl ?_ rfl
    · simp [discard, settle, pending]
    · simp [discard, settle, pending]
    · simp [discard, settle, delivered, lost]
    · simp [discard, settle, length]
    · simp [discard, settle, counts]
    · simp [loop]
  · intro _
    exact done
  · intro stopped
    cases stopped

theorem deliver_turn {f : Frame × Bool} {rest : List (Frame × Bool)} {cur b : Nat}
    {free : List Nat} {busy : Bool} {stale : List UInt8} (inv : Inv n total s)
    (loop : s.loop = some (cur, busy)) (pending : s.pending = f :: rest)
    (length : (s.rxdescs cur).len = f.1.length)
    (good : f.2 = false) (holds : s.content (s.pkts cur) = f.1 ++ stale)
    (taken : s.free.Perm (b :: free)) :
    Inv n total { settle .delivered { s with
        mib := { s.mib with ifInOctets := s.mib.ifInOctets + (s.rxdescs cur).len }
        rcvdq := s.rcvdq ++ [packetAt s cur]
        pkts := Function.update s.pkts cur b
        free := free } with
      rxdescs := Function.update s.rxdescs cur (armed n cur b)
      loop := some (next n cur, busy) } := by
  have done := inv.looping (by simp [loop])
  have all : ready n s = n := by simp [ready, done]
  have here : cursor s = cur := by simp [cursor, loop]
  have ring := inv.ring
  rw [all, here, pending] at ring
  have inside := ring.inside
  have moved := ring_rearmed ring b
  constructor
  · have same : ready n { settle .delivered { s with
        mib := { s.mib with ifInOctets := s.mib.ifInOctets + (s.rxdescs cur).len }
        rcvdq := s.rcvdq ++ [packetAt s cur]
        pkts := Function.update s.pkts cur b
        free := free } with
      rxdescs := Function.update s.rxdescs cur (armed n cur b)
      loop := some (next n cur, busy) } = n := all
    rw [same]
    simp only [settle, pending, List.tail_cons]
    exact moved
  · have custody := inv.custody
    have queued : (packetAt s cur).buffer = s.pkts cur := rfl
    simp only [inUse, ready, done, settle] at custody ⊢
    rw [List.map_append, List.map_singleton, queued]
    refine custody.trans ((taken.append_left _).trans ?_)
    simp only [List.append_assoc, List.singleton_append]
    refine (List.Perm.append_left _ ?_).trans ((exchanged inside s.pkts b
      (s.rcvdq.map Packet.buffer ++ (s.held ++ free))).trans (List.Perm.append_left _ ?_))
    · rw [← List.append_assoc, ← List.append_assoc]
      exact List.perm_middle
    · exact List.perm_middle.symm
  · refine told_dealt .delivered inv.told pending rfl ?_ ?_ ?_ ?_ ?_ ?_ rfl ?_ rfl
    · simp [settle, pending]
    · simp [settle, pending]
    · have told := @read_payload s.content (packetAt s cur) f.1 stale holds
        (ring.sized f (by simp)) (by simp [packetAt, length]) rfl
      simp [settle, delivered, told]
    · simp [good]
    · simp [settle, length]
    · simp [settle]
    · simp [loop]
  · intro _
    exact done
  · intro stopped
    cases stopped

theorem turn_inv {cur : Nat} {busy : Bool} (inv : Inv n total s)
    (loop : s.loop = some (cur, busy)) : Inv n total (rxTurn n pool s cur busy) := by
  have done := inv.looping (by simp [loop])
  have all : ready n s = n := by simp [ready, done]
  have here : cursor s = cur := by simp [cursor, loop]
  have ring := inv.ring
  rw [all, here] at ring
  have inside := ring.inside
  have first := ring.empty cur inside
  rw [offset_self inside] at first
  cases open_ : (s.rxdescs cur).empty with
  | true =>
    have nothing : s.pending = [] := by
      have none_waits := (first.mp open_).2
      exact List.length_eq_zero_iff.mp (by omega)
    have through : rxTurn n pool s cur busy = { s with
        curRxDesc := cur
        loop := none
        mib := { s.mib with
          ifInDiscards := if busy then s.mib.ifInDiscards + 1 else s.mib.ifInDiscards } } := by
      simp [rxTurn, open_]
    rw [through]
    have told := inv.told
    constructor
    · have same := inv.ring
      rw [here] at same
      exact same
    · exact inv.custody
    · constructor
      · exact told.arrived
      · exact told.read
      · exact told.fates
      · exact told.octets
      · have counted := told.counted
        dsimp only
        split <;> omega
      · have excess := told.excess
        rw [loop] at excess
        cases busy
        · exact excess
        · simp only [Option.elim_some, Bool.toNat_true, Option.elim_none, Bool.toNat_false,
            if_true] at excess ⊢
          omega
    · intro still
      exact absurd rfl still
    · intro _ _
      exact nothing
  | false =>
    cases pending : s.pending with
    | nil =>
      have none_waits : (s.rxdescs cur).empty = true := by
        rw [first, pending]
        exact ⟨inside, Nat.le_refl 0⟩
      rw [open_] at none_waits
      cases none_waits
    | cons f rest =>
      have waits := ring.waits cur inside f
      rw [offset_self inside, pending] at waits
      obtain ⟨error, length, stale, holds⟩ := waits rfl
      have turned := next_eq inside
      cases bad : (s.rxdescs cur).error with
      | true =>
        have damaged : rxTurn n pool s cur busy = { discard .damaged { s with
              mib := { s.mib with ifInOctets := s.mib.ifInOctets + (s.rxdescs cur).len } } with
            rxdescs := Function.update s.rxdescs cur (armed n cur (s.pkts cur))
            loop := some (next n cur, busy) } := by
          simp [rxTurn, open_, deliver, bad, discard, settle, turned]
        rw [damaged]
        rw [bad] at error
        exact discard_turn inv loop pending length (by simp [← error]) (by decide)
      | false =>
        rw [bad] at error
        cases alloc : pool.alloc s.free with
        | none =>
          have starved : rxTurn n pool s cur busy = { discard .starved { s with
                mib := { s.mib with ifInOctets := s.mib.ifInOctets + (s.rxdescs cur).len } } with
              rxdescs := Function.update s.rxdescs cur (armed n cur (s.pkts cur))
              loop := some (next n cur, busy) } := by
            simp [rxTurn, open_, deliver, bad, alloc, discard, settle, turned]
          rw [starved]
          exact discard_turn inv loop pending length (by simp [← error]) (by decide)
        | some taken =>
          obtain ⟨b, free⟩ := taken
          have sent : rxTurn n pool s cur busy = { settle .delivered { s with
                mib := { s.mib with ifInOctets := s.mib.ifInOctets + (s.rxdescs cur).len }
                rcvdq := s.rcvdq ++ [packetAt s cur]
                pkts := Function.update s.pkts cur b
                free := free } with
              rxdescs := Function.update s.rxdescs cur (armed n cur b)
              loop := some (next n cur, busy) } := by
            simp [rxTurn, open_, deliver, bad, alloc, settle, turned, packetAt]
          rw [sent]
          exact deliver_turn inv loop pending length error.symm holds
            (pool.takes _ _ _ alloc)

theorem settle_more (fate : Fate) (s : State) : ∃ more,
    (settle fate s).processed = s.processed ++ more ∧ ∀ p ∈ more, p.2 = fate := by
  refine ⟨_, rfl, ?_⟩
  intro p there
  obtain ⟨f, _, same⟩ := List.mem_map.mp there
  rw [← same]

theorem deliver_more (s : State) (cur : Nat) : ∃ more,
    (deliver pool s cur).processed = s.processed ++ more ∧
      ∀ p ∈ more, p.2 = .starved → pool.alloc s.free = none := by
  unfold deliver
  split
  · obtain ⟨more, after, all⟩ := settle_more .damaged
      { s with mib := { s.mib with ifInDiscards := s.mib.ifInDiscards + 1 } }
    refine ⟨more, after, ?_⟩
    intro p there starved
    rw [all p there] at starved
    cases starved
  · cases alloc : pool.alloc s.free with
    | none =>
      obtain ⟨more, after, _⟩ := settle_more .starved
        { s with mib := { s.mib with ifInDiscards := s.mib.ifInDiscards + 1 } }
      exact ⟨more, after, fun _ _ _ => rfl⟩
    | some taken =>
      obtain ⟨more, after, all⟩ := settle_more .delivered { s with
        rcvdq := s.rcvdq ++ [packetAt s cur]
        pkts := Function.update s.pkts cur taken.1
        free := taken.2 }
      refine ⟨more, after, ?_⟩
      intro p there starved
      rw [all p there] at starved
      cases starved

theorem setupTurn_processed (s : State) (i : Nat) :
    (setupTurn n pool s i).processed = s.processed := by
  unfold setupTurn
  split
  · split
    · rfl
    · split <;> rfl
  · rfl

theorem starves_for_want (s : State) : StarvesForWant n pool s := by
  intro a s' stepped
  have same : ∀ {t : State}, t.processed = s.processed →
      ∃ more, t.processed = s.processed ++ more ∧
        ∀ p ∈ more, p.2 = .starved → pool.alloc s.free = none := by
    intro t same
    exact ⟨[], by rw [same, List.append_nil], fun p there => absurd there List.not_mem_nil⟩
  cases a with
  | turn =>
    simp only [step] at stepped
    split at stepped
    · cases stepped
    · rename_i cur busy _
      cases stepped
      unfold rxTurn
      split
      · exact same rfl
      · exact @deliver_more pool { s with
          mib := { s.mib with ifInOctets := s.mib.ifInOctets + (s.rxdescs cur).len } } cur
  | setup =>
    simp only [step] at stepped
    split at stepped
    · cases stepped
      exact same (setupTurn_processed s _)
    · cases stepped
  | isr =>
    simp only [step] at stepped
    split_ifs at stepped <;> cases stepped <;> exact same rfl
  | received frame error =>
    simp only [step] at stepped
    split_ifs at stepped <;> cases stepped <;> exact same rfl
  | demux =>
    simp only [step] at stepped
    split at stepped <;> cases stepped
    exact same rfl
  | edit b bytes =>
    simp only [step] at stepped
    split_ifs at stepped
    cases stepped
    exact same rfl
  | pkFree b =>
    simp only [step] at stepped
    split_ifs at stepped
    cases stepped
    exact same rfl
  | pkAlloc =>
    simp only [step] at stepped
    split at stepped <;> cases stepped
    exact same rfl

theorem setup_inv {i : Nat} (inv : Inv n total s) (loop : s.loop = none)
    (running : s.setup = .running i) : Inv n total (setupTurn n pool s i) := by
  have ring := inv.ring
  have custody := inv.custody
  have told := inv.told
  have here : ready n s = i := by simp [ready, running]
  have still : ∀ s' : State, s'.loop = s.loop → s'.loop ≠ none → s'.setup = .done := by
    intro s' same other
    rw [same, loop] at other
    exact absurd rfl other
  rw [here] at ring
  by_cases more : i < n
  · have closed : (s.rxdescs i).empty = false := by
      rw [Bool.eq_false_iff, Ne, ring.empty i more]
      omega
    cases alloc : pool.alloc s.free with
    | none =>
      have failed : setupTurn n pool s i =
          { s with pkts := Function.update s.pkts i 0, setup := .failed i } := by
        simp [setupTurn, more, alloc]
      have same : (List.range i).map (Function.update s.pkts i 0) = (List.range i).map s.pkts := by
        apply List.map_congr_left
        intro j there
        rw [Function.update_of_ne (Nat.ne_of_lt (List.mem_range.mp there))]
      rw [failed]
      constructor
      · exact ring_unset ring 0
      · simp only [inUse, ready, running] at custody ⊢
        rw [same]
        exact custody
      · exact ⟨told.arrived, told.read, told.fates, told.octets, told.counted, told.excess⟩
      · exact still _ rfl
      · exact inv.settled
    | some taken =>
      obtain ⟨b, free⟩ := taken
      have set_up : setupTurn n pool s i = { s with
          pkts := Function.update s.pkts i b
          free := free
          rxdescs := Function.update s.rxdescs i (armed n i b)
          setup := .running (i + 1) } := by
        simp [setupTurn, more, alloc, closed]
      have same : (List.range i).map (Function.update s.pkts i b) = (List.range i).map s.pkts := by
        apply List.map_congr_left
        intro j there
        rw [Function.update_of_ne (Nat.ne_of_lt (List.mem_range.mp there))]
      rw [set_up]
      constructor
      · exact ring_armed ring more b
      · have taken := pool.takes _ _ _ alloc
        simp only [inUse, ready, running] at custody ⊢
        rw [List.range_succ, List.map_append, same, List.map_singleton, Function.update_self]
        refine custody.trans ((taken.append_left _).trans ?_)
        simp only [List.append_assoc, List.singleton_append]
        rw [← List.append_assoc (s.rcvdq.map Packet.buffer) s.held (b :: free)]
        exact List.Perm.append_left _ List.perm_middle
      · exact ⟨told.arrived, told.read, told.fates, told.octets, told.counted, told.excess⟩
      · exact still _ rfl
      · exact inv.settled
  · have over_ : i = n := by
      have within := ring.within
      omega
    have ended : setupTurn n pool s i = { s with setup := .done } := by
      simp [setupTurn, more]
    rw [ended]
    rw [over_] at ring here
    constructor
    · exact ring
    · simp only [inUse, here] at custody
      exact custody
    · exact ⟨told.arrived, told.read, told.fates, told.octets, told.counted, told.excess⟩
    · exact fun _ => rfl
    · exact inv.settled

theorem isr_inv (inv : Inv n total s) (done : s.setup = .done)
    (stepped : step n pool s .isr = some s') : Inv n total s' := by
  have told := inv.told
  have excess := told.excess
  simp only [step] at stepped
  split at stepped
  · rename_i due
    have idle : (s.loop.elim false Prod.snd) = false := by rw [due.1]; rfl
    rw [idle] at excess
    split at stepped
    · cases stepped
      constructor
      · have ring := inv.ring
        simp only [cursor, due.1] at ring
        exact ring
      · exact inv.custody
      · refine ⟨told.arrived, told.read, told.fates, told.octets, told.counted, ?_⟩
        simpa [Nat.add_assoc, Nat.add_comm] using excess
      · exact fun _ => done
      · intro stopped
        cases stopped
    · rename_i quiet
      have busy : s.busyIrq = true := by
        have either := due.2
        simpa [quiet] using either
      cases stepped
      constructor
      · exact inv.ring
      · exact inv.custody
      · have counted := told.counted
        refine ⟨told.arrived, told.read, told.fates, told.octets, by dsimp only; omega, ?_⟩
        rw [busy] at excess
        simpa [idle] using excess
      · exact inv.looping
      · exact inv.settled
  · cases stepped

theorem received_inv {frame : Frame} {error : Bool} (different : total.Nodup)
    (inv : Inv n total s) (stepped : step n pool s (.received frame error) = some s') :
    Inv n total s' := by
  have told := inv.told
  simp only [step] at stepped
  split at stepped
  · rename_i legal
    split at stepped
    · rename_i open_
      cases stepped
      obtain ⟨own, moved⟩ := @ring_received n _ _ _ _ _ _ _ inv.ring (pkts_apart different inv)
        frame error legal open_
      have ptr := inv.ring.ptrs _ own
      have apart : (s.rxdescs s.hw).ptr ∉ s.rcvdq.map Packet.buffer := by
        intro there
        rw [ptr] at there
        exact pkts_own different inv own (List.mem_append_left _ there)
      constructor
      · exact moved
      · exact inv.custody
      · constructor
        · dsimp only
          rw [told.arrived, List.append_assoc]
        · dsimp only
          rw [read_elsewhere apart]
          exact told.read
        · exact told.fates
        · exact told.octets
        · exact told.counted
        · exact told.excess
      · exact inv.looping
      · intro _ quiet
        cases quiet
    · cases stepped
      have excess := told.excess
      refine ⟨inv.ring, inv.custody, ⟨told.arrived, told.read, told.fates, told.octets,
        told.counted, ?_⟩, inv.looping, inv.settled⟩
      cases busy : s.busyIrq <;> simp only [busy, Bool.toNat_true, Bool.toNat_false] at excess ⊢
        <;> omega
  · cases stepped

theorem stack_inv {a : Action} (different : total.Nodup) (inv : Inv n total s)
    (stack : a = .demux ∨ (∃ b bytes, a = .edit b bytes) ∨ (∃ b, a = .pkFree b) ∨ a = .pkAlloc)
    (stepped : step n pool s a = some s') : Inv n total s' := by
  have told := inv.told
  have custody := inv.custody
  rcases stack with rfl | ⟨b, bytes, rfl⟩ | ⟨b, rfl⟩ | rfl
  · simp only [step] at stepped
    split at stepped
    · cases stepped
    · rename_i p rest queue
      cases stepped
      refine ⟨inv.ring, ?_, ⟨told.arrived, ?_, told.fates, told.octets, told.counted,
        told.excess⟩, inv.looping, inv.settled⟩
      · simp only [inUse, ready, queue, List.map_cons] at custody ⊢
        refine custody.trans (List.Perm.append_right _ (List.Perm.append_left _ ?_))
        exact List.perm_middle.symm
      · have read := told.read
        rw [queue] at read
        simpa using read
  · simp only [step] at stepped
    split at stepped
    · rename_i held
      cases stepped
      have outside : ∀ i < ready n s, s.pkts i ≠ b := by
        intro i there same
        exact pkts_own different inv there (List.mem_append_right _ (same ▸ held))
      have apart : b ∉ s.rcvdq.map Packet.buffer := by
        have split := List.nodup_append.mp
          (List.nodup_append.mp (List.nodup_append.mp (inUse_nodup different inv)).1).2.1
        intro there
        exact split.2.2 b there b held rfl
      refine ⟨ring_apart inv.ring outside bytes, custody, ⟨told.arrived, ?_, told.fates,
        told.octets, told.counted, told.excess⟩, inv.looping, inv.settled⟩
      dsimp only
      rw [read_elsewhere apart]
      exact told.read
    · cases stepped
  · simp only [step] at stepped
    split at stepped
    · rename_i held
      cases stepped
      refine ⟨inv.ring, ?_, ⟨told.arrived, told.read, told.fates, told.octets, told.counted,
        told.excess⟩, inv.looping, inv.settled⟩
      simp only [inUse, ready, List.append_assoc] at custody ⊢
      refine custody.trans (List.Perm.append_left _ (List.Perm.append_left _ ?_))
      exact ((List.perm_cons_erase held).append_right _).trans List.perm_middle.symm
    · cases stepped
  · simp only [step] at stepped
    split at stepped
    · cases stepped
    · rename_i b free alloc
      cases stepped
      refine ⟨inv.ring, ?_, ⟨told.arrived, told.read, told.fates, told.octets, told.counted,
        told.excess⟩, inv.looping, inv.settled⟩
      have taken := pool.takes _ _ _ alloc
      simp only [inUse, ready, List.append_assoc] at custody ⊢
      refine custody.trans (List.Perm.append_left _ (List.Perm.append_left _ ?_))
      exact (taken.append_left _).trans List.perm_middle

theorem inv_step (different : total.Nodup) (inv : Inv n total s) {a : Action}
    (ok : timely s a) (stepped : step n pool s a = some s') : Inv n total s' := by
  cases a with
  | setup =>
    simp only [step] at stepped
    split at stepped
    · cases stepped
      exact setup_inv inv (by assumption) (by assumption)
    · cases stepped
  | isr => exact isr_inv inv (ok rfl) stepped
  | turn =>
    simp only [step] at stepped
    split at stepped
    · cases stepped
    · cases stepped
      exact turn_inv inv (by assumption)
  | received frame error => exact received_inv different inv stepped
  | demux => exact stack_inv different inv (.inl rfl) stepped
  | edit b bytes => exact stack_inv different inv (.inr (.inl ⟨b, bytes, rfl⟩)) stepped
  | pkFree b => exact stack_inv different inv (.inr (.inr (.inl ⟨b, rfl⟩))) stepped
  | pkAlloc => exact stack_inv different inv (.inr (.inr (.inr rfl))) stepped

theorem inv_initial (positive : 0 < n) (pkts : Nat → Nat) (content : Nat → List UInt8) :
    Inv n total (initial pkts content total) := by
  constructor
  · constructor
    · exact positive
    · exact Nat.zero_le n
    · exact Nat.le_refl 0
    · intro _
      rfl
    · exact (Nat.mod_eq_of_lt positive).symm
    · intro i _
      simp [initial, ready]
    · intro i _ empty
      simp [initial] at empty
    · intro i there
      exact absurd there (Nat.not_lt_zero i)
    · intro i _ f waits
      simp [initial] at waits
    · intro f there
      simp [initial] at there
  · exact List.Perm.refl _
  · constructor
    · rfl
    · rfl
    · intro p there
      simp [initial] at there
    · rfl
    · exact Nat.le_refl 0
    · exact Nat.le_refl 0
  · intro looping
    exact absurd rfl looping
  · intro _ _
    rfl

end

/-- In every run of the driver, the MAC and the stack whose interrupts come when the ring is set
    up: no buffer is lost or held twice, and the MAC has none that is the stack's; every frame
    that has arrived waits in the ring or has been dealt with, in order; what the stack reads are
    the frames delivered, unchanged and in order; only damaged frames are dropped and those for
    which the pool has no buffer, and they are counted; and no frame is left waiting without an
    interrupt. -/
theorem receive_fifo (n : Nat) (pool : Pool) (positive : 0 < n) {total : List Nat}
    (different : total.Nodup) (pkts : Nat → Nat) (content : Nat → List UInt8) {as : List Action}
    {s : State} (good : Runs.Along (step n pool) timely (initial pkts content total) as)
    (ran : Runs.exec (step n pool) (initial pkts content total) as = some s) :
    total.Perm (inUse n s ++ s.free) ∧
    (∀ i < n, (s.rxdescs i).empty = true →
      (s.rxdescs i).ptr ∉ s.rcvdq.map Packet.buffer ++ s.held ∧ (s.rxdescs i).ptr ∉ s.free) ∧
    s.arrived = s.processed.map Prod.fst ++ s.pending ∧ s.pending.length ≤ n ∧
    s.seen ++ s.rcvdq.map (readOut s.content) = (delivered s.processed).map payload ∧
    (∀ p ∈ s.processed, p.2 = .damaged ↔ p.1.2 = true) ∧ StarvesForWant n pool s ∧
    s.processed.countP (fun p => p.2 != .delivered) ≤ s.mib.ifInDiscards ∧
    s.mib.ifInDiscards ≤ s.processed.countP (fun p => p.2 != .delivered) + s.missed ∧
    (s.loop = none → s.rxIrq = false → s.pending = []) := by
  have preserved : ∀ s a s', Inv n total s → timely s a → step n pool s a = some s' →
      Inv n total s' := by
    intro s a s' inv ok stepped
    exact inv_step different inv ok stepped
  have inv := Runs.invariant_along preserved (inv_initial positive pkts content) good ran
  have ring := inv.ring
  have excess := inv.told.excess
  have room := ring.room
  have within := ring.within
  refine ⟨inv.custody, ?_, inv.told.arrived, by omega, inv.told.read, inv.told.fates,
    starves_for_want s, inv.told.counted, by omega, inv.settled⟩
  intro i inside empty
  have own := ((ring.empty i inside).mp empty).1
  rw [ring.ptrs i own]
  refine ⟨pkts_own different inv own, ?_⟩
  have apart := (List.nodup_append.mp (inUse_nodup different inv)).2.2
  intro free
  exact apart _ (List.mem_append_left _ (List.mem_map_of_mem (List.mem_range.mpr own))) _ free rfl

def lastIn : Pool where
  alloc
    | [] => none
    | b :: free => some (b, free)
  takes := by
    intro free b rest taken
    cases free with
    | nil => cases taken
    | cons c free =>
      cases taken
      exact List.Perm.refl _

theorem two_frames_received :
    ∃ s, Runs.exec (step 1 lastIn) (initial (fun _ => 99) (fun _ => []) [10, 11])
        [.setup, .setup, .received (List.replicate 64 1) false,
          .received (List.replicate 64 2) false, .isr, .turn, .turn, .demux,
          .received (List.replicate 70 3) true, .isr, .turn, .turn, .pkFree 10] = some s ∧
      (([10, 11] : List Nat).Perm (inUse 1 s ++ s.free) ∧
        (∀ i < 1, (s.rxdescs i).empty = true →
          (s.rxdescs i).ptr ∉ s.rcvdq.map Packet.buffer ++ s.held ∧
            (s.rxdescs i).ptr ∉ s.free) ∧
        s.arrived = s.processed.map Prod.fst ++ s.pending ∧ s.pending.length ≤ 1 ∧
        s.seen ++ s.rcvdq.map (readOut s.content) = (delivered s.processed).map payload ∧
        (∀ p ∈ s.processed, p.2 = .damaged ↔ p.1.2 = true) ∧ StarvesForWant 1 lastIn s ∧
        s.processed.countP (fun p => p.2 != .delivered) ≤ s.mib.ifInDiscards ∧
        s.mib.ifInDiscards ≤ s.processed.countP (fun p => p.2 != .delivered) + s.missed ∧
        (s.loop = none → s.rxIrq = false → s.pending = [])) ∧
      s.seen = [((1, 1), List.replicate 46 1)] ∧ s.mib = ⟨134, 2⟩ ∧ s.free = [10] := by
  refine ⟨_, rfl, ?_, rfl, rfl, rfl⟩
  exact @receive_fifo 1 lastIn (by decide) [10, 11] (by decide) (fun _ => 99) (fun _ => [])
    [.setup, .setup, .received (List.replicate 64 1) false,
      .received (List.replicate 64 2) false, .isr, .turn, .turn, .demux,
      .received (List.replicate 70 3) true, .isr, .turn, .turn, .pkFree 10] _ (by decide) rfl

/-- The condition is needed: a frame that arrives while the second descriptor has no buffer yet
    makes the interrupt routine take that descriptor for a frame too, and the stack is handed
    what `malloc` has left in its place. -/
theorem early_interrupt (n : Nat) (pool : Pool) (several : 2 ≤ n) {total : List Nat}
    {b c d : Nat} {rest rest' rest'' : List Nat} (first : pool.alloc total = some (b, rest))
    (second : pool.alloc rest = some (c, rest'))
    (third : pool.alloc rest' = some (d, rest'')) (pkts : Nat → Nat)
    (content : Nat → List UInt8) {frame : Frame}
    (legal : 64 ≤ frame.length ∧ frame.length ≤ 1536) :
    ∃ as s, Runs.exec (step n pool) (initial pkts content total) as = some s ∧
      s.setup = .running 1 ∧ s.rcvdq.map Packet.buffer = [b, pkts 1] := by
  have wrong : ¬ 1 = n := by omega
  refine ⟨[.setup, .received frame false, .isr, .turn, .turn], ?_⟩
  simp [Runs.exec, step, initial, setupTurn, show 0 < n by omega, first, armed, legal, rxTurn,
    deliver, second, settle, wrong, third, packetAt]

theorem early_interrupt_two :
    ∃ as s, Runs.exec (step 2 lastIn) (initial (fun _ => 99) (fun _ => []) [10, 11, 12, 13]) as =
        some s ∧
      s.setup = .running 1 ∧ s.rcvdq.map Packet.buffer = [10, 99] :=
  @early_interrupt 2 lastIn (by decide) [10, 11, 12, 13] 10 11 12 [11, 12, 13] [12, 13] [13] rfl rfl
    rfl (fun _ => 99) (fun _ => []) (List.replicate 64 1) (by decide)

end OcmReceive
