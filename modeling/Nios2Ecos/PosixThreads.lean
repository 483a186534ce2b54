import Mathlib.Data.List.Basic
import Mathlib.Logic.Function.Basic
import Mathlib.Algebra.Order.Ring.Nat
import Mathlib.Data.BitVec
import Nios2Ecos.CyclicWindow
import Nios2Ecos.Runs
import Nios2Ecos.SlotTally

/- The thread table of the POSIX layer: creating, exiting, joining, detaching and reaping threads.
   Each call is one step, as it holds the mutex, but for the wait inside a join. -/
namespace PosixThreads
open SlotTally

inductive ThreadState where
  | detached
  | running
  | join
  | exited
  deriving DecidableEq

/-- `gen` numbers the threads in the order of their creation, so that a pointer to a record whose
    block has been freed, and perhaps given out again, is told from one that is good; `alive` says
    that the thread has not been through `pthread_exit`. -/
structure Thread where
  gen : Nat
  id : BitVec 32
  state : ThreadState
  retval : Nat
  alive : Bool
  deriving DecidableEq

structure Wait where
  self : Nat
  slot : Nat
  joinee : Nat
  deriving DecidableEq

/-- The variables of pthread.cxx and the waits; then the history: the slots and ids given out,
    the values that threads have exited with and the values that joins have returned. -/
structure State where
  threadTable : Nat → Option Thread
  pthreadCount : Int
  pthreadsExited : Int
  pthreadsTobejoined : Int
  threadInfoNext : Nat
  threadIdCookie : BitVec 32
  waits : List Wait
  issued : List (Nat × BitVec 32)
  exits : List (Nat × Nat)
  joined : List (Nat × Nat)

inductive Result where
  | created (id : BitVec 32)
  | eagain
  | enomem
  | exits (callExit : Bool)
  | joins (retval : Nat)
  | blocks
  | esrch
  | edeadlk
  | einval
  | done
  | unfinished
  /-- the record behind the pointer has been freed -/
  | fault
  deriving DecidableEq

def cookieInc : BitVec 32 := 0x400#32

def indexOf (id : BitVec 32) : Nat := (id &&& 0x3FF#32).toNat

def pthreadInfoId (s : State) (id : BitVec 32) : Option Thread :=
  match s.threadTable (indexOf id) with
  | none => none
  | some th => if th.state = .exited then none else if th.id ≠ id then none else some th

variable (max : Nat)

/-- The body of the loop of `pthread_reap`, for a thread whose kernel thread has come to its
    end. -/
def reapOne (s : State) (i : Nat) : State :=
  match s.threadTable i with
  | none => s
  | some th =>
    if s.pthreadsExited ≠ 0 ∧ th.state = .exited then
      { s with
        threadTable := Function.update s.threadTable i none
        pthreadCount := s.pthreadCount - 1
        pthreadsExited := s.pthreadsExited - 1 }
    else s

def pthreadReap (s : State) : State := (List.range max).foldl reapOne s

def findSlot (table : Nat → Option Thread) (start : Nat) : Nat → Nat → Option (Option Nat)
  | 0, _ => none
  | fuel + 1, threadNext =>
    if (table threadNext).isNone then some (some threadNext)
    else
      let threadNext := if threadNext + 1 ≥ max then 0 else threadNext + 1
      if threadNext = start then some none else findSlot table start fuel threadNext

def newThread (s : State) (i : Nat) (detached : Bool) : Thread where
  gen := s.issued.length
  id := BitVec.ofNat 32 i + (s.threadIdCookie + cookieInc)
  state := if detached then .detached else .running
  retval := 0
  alive := true

def pthreadCreate (detached : Bool) (s : State) : Result × State :=
  let s := pthreadReap max s
  match findSlot max s.threadTable s.threadInfoNext max s.threadInfoNext with
  | none => (.unfinished, s)
  | some none => (.enomem, s)
  | some (some i) =>
    (.created (newThread s i detached).id,
      { s with
        threadTable := Function.update s.threadTable i (some (newThread s i detached))
        threadInfoNext := i
        threadIdCookie := s.threadIdCookie + cookieInc
        pthreadCount := s.pthreadCount + 1
        issued := s.issued ++ [(i, (newThread s i detached).id)] })

def ended (th : Thread) (retval : Nat) : Thread :=
  { th with
    retval := retval
    alive := false
    state := if th.state = .detached then .exited else .join }

/-- The end of `pthread_exit`, by the thread in slot `i`. -/
def pthreadExit (i : Nat) (th : Thread) (retval : Nat) (s : State) : Result × State :=
  let s := { s with
    threadTable := Function.update s.threadTable i (some (ended th retval))
    pthreadsExited :=
      if th.state = .detached then s.pthreadsExited + 1 else s.pthreadsExited
    pthreadsTobejoined :=
      if th.state = .detached then s.pthreadsTobejoined else s.pthreadsTobejoined + 1
    exits := s.exits ++ [(th.gen, retval)] }
  (.exits (s.pthreadsExited + s.pthreadsTobejoined = s.pthreadCount), s)

def finishJoin (i : Nat) (th : Thread) (s : State) : Result × State :=
  (.joins th.retval, pthreadReap max { s with
    threadTable := Function.update s.threadTable i (some { th with state := .exited })
    pthreadsExited := s.pthreadsExited + 1
    pthreadsTobejoined := s.pthreadsTobejoined - 1
    joined := s.joined ++ [(th.gen, th.retval)] })

def joinWith (w : Wait) (th : Thread) (s : State) : Result × State :=
  match th.state with
  | .running => (.blocks, { s with waits := w :: s.waits })
  | .join => finishJoin max w.slot th s
  | _ => (.einval, s)

def pthreadJoin (self : Nat) (id : BitVec 32) (s : State) : Result × State :=
  let s := pthreadReap max s
  match pthreadInfoId s id with
  | none => (.esrch, s)
  | some th =>
    if th.gen = self then (.edeadlk, s) else joinWith max ⟨self, indexOf id, th.gen⟩ th s

def wake (w : Wait) (s : State) : Result × State :=
  match s.threadTable w.slot with
  | some th =>
    if th.gen = w.joinee then joinWith max w th { s with waits := s.waits.erase w }
    else (.fault, s)
  | none => (.fault, s)

/-- A waiting thread that is cancelled gives up, but looks at the joinee first. -/
def cancelled (w : Wait) (s : State) : Result × State :=
  match s.threadTable w.slot with
  | some th =>
    if th.gen = w.joinee then (.einval, { s with waits := s.waits.erase w }) else (.fault, s)
  | none => (.fault, s)

def pthreadDetach (id : BitVec 32) (s : State) : Result × State :=
  match pthreadInfoId s id with
  | none => (.esrch, pthreadReap max s)
  | some th =>
    if th.state = .detached then (.einval, pthreadReap max s)
    else
      (.done, pthreadReap max { s with
        threadTable := Function.update s.threadTable (indexOf id)
          (some { th with state := .detached }) })

inductive Action where
  | create (detached : Bool)
  /-- `pthread_malloc` has no stack for the new thread -/
  | noStack
  | exit (i : Nat) (retval : Nat)
  | join (i : Nat) (id : BitVec 32)
  | wake (w : Wait)
  | cancelled (w : Wait)
  | detach (id : BitVec 32)
  deriving DecidableEq

def caller (s : State) (i : Nat) : Option Thread :=
  (s.threadTable i).filter fun th => th.alive && s.waits.all fun w => w.self ≠ th.gen

def step (s : State) : Action → Option (Result × State)
  | .create detached => some (pthreadCreate max detached s)
  | .noStack => some (.eagain, s)
  | .exit i retval => (caller s i).map fun th => pthreadExit i th retval s
  | .join i id =>
    if indexOf id < max then (caller s i).map fun th => pthreadJoin max th.gen id s else none
  | .wake w => if w ∈ s.waits then some (wake max w s) else none
  | .cancelled w => if w ∈ s.waits then some (cancelled w s) else none
  | .detach id => if indexOf id < max then some (pthreadDetach max id s) else none

/-- A call that touches a freed record is the last of its run: what it reads there, and what it
    does then, depends on what the block is used for now. -/
def next (s : State) (a : Action) : Option State :=
  (step max s a).bind fun r => if r.1 = .fault then none else some r.2

def initial : State where
  threadTable := fun _ => none
  pthreadCount := 0
  pthreadsExited := 0
  pthreadsTobejoined := 0
  threadInfoNext := 0
  threadIdCookie := cookieInc
  waits := []
  issued := []
  exits := []
  joined := []

/-- Has been through `pthread_exit` and is not going to be reaped by itself. -/
def unclaimed (th : Thread) : Bool :=
  th.state = .join || (th.state = .detached && !th.alive)

def reapable (th : Thread) : Bool := th.state = .exited

def idOf (i gen : Nat) : BitVec 32 := BitVec.ofNat 32 (i + 0x400 * (gen + 2))

def stateFits (th : Thread) : Bool :=
  match th.state with
  | .detached => true
  | .running => th.alive
  | .join => !th.alive
  | .exited => !th.alive

structure Counted (s : State) : Prop where
  count : s.pthreadCount = tally max (fun _ => true) s.threadTable
  exited : s.pthreadsExited = tally max reapable s.threadTable
  tobejoined : s.pthreadsTobejoined = tally max unclaimed s.threadTable

structure Sound (s : State) : Prop where
  inside : ∀ i, max ≤ i → s.threadTable i = none
  issued : ∀ i th, s.threadTable i = some th → s.issued[th.gen]? = some (i, th.id)
  ids : ∀ g p, s.issued[g]? = some p → p.1 < max ∧ p.2 = idOf p.1 g
  newest : ∀ g p th, s.issued[g]? = some p → s.threadTable p.1 = some th → g ≤ th.gen
  states : ∀ i th, s.threadTable i = some th → stateFits th
  next : s.threadInfoNext < max
  cookie : s.threadIdCookie = BitVec.ofNat 32 (0x400 * (s.issued.length + 1))

/-- The values that joins return are those of the exits, each at most once. -/
structure Honest (s : State) : Prop where
  left : ∀ i th, s.threadTable i = some th → th.alive = false → (th.gen, th.retval) ∈ s.exits
  alive : ∀ i th, s.threadTable i = some th → th.alive = true → th.gen ∉ s.exits.map Prod.fst
  known : ∀ p ∈ s.exits, p.1 < s.issued.length
  exitsOnce : (s.exits.map Prod.fst).Nodup
  returned : ∀ p ∈ s.joined, p ∈ s.exits
  joinsOnce : (s.joined.map Prod.fst).Nodup
  gone : ∀ i th, s.threadTable i = some th → th.state ≠ .exited → th.gen ∉ s.joined.map Prod.fst

structure Inv (s : State) : Prop where
  counted : Counted max s
  sound : Sound max s
  honest : Honest s

variable {max}

theorem slot_inside {s : State} {i : Nat} {th : Thread} (sound : Sound max s)
    (there : s.threadTable i = some th) : i < max := by
  apply Nat.lt_of_not_le
  intro outside
  rw [sound.inside i outside] at there
  cases there

theorem apart {s : State} {i j : Nat} {a b : Thread} (sound : Sound max s)
    (at_i : s.threadTable i = some a) (at_j : s.threadTable j = some b) (same : a.gen = b.gen) :
    i = j := by
  have first := sound.issued i a at_i
  rw [same, sound.issued j b at_j] at first
  exact (congrArg Prod.fst (Option.some.inj first)).symm

theorem slot_id {s : State} {i : Nat} {th : Thread} (sound : Sound max s)
    (there : s.threadTable i = some th) : th.id = idOf i th.gen :=
  (sound.ids _ _ (sound.issued i th there)).2

/- Reaping. -/

def kept (th : Thread) : Bool := !reapable th

def swept (s : State) : State :=
  { s with
    threadTable := fun i => (s.threadTable i).filter kept
    pthreadCount := s.pthreadCount - s.pthreadsExited
    pthreadsExited := 0 }

theorem reapOne_skips {s : State} {i : Nat}
    (stays : ∀ th, s.threadTable i = some th → reapable th = false) : reapOne s i = s := by
  unfold reapOne
  cases there : s.threadTable i with
  | none => rfl
  | some th =>
    have not_exited : th.state ≠ .exited := by
      simpa [reapable] using stays th there
    exact if_neg fun both => not_exited both.2

theorem reapOne_takes {s : State} {i : Nat} {th : Thread} (there : s.threadTable i = some th)
    (exited : reapable th = true) (some_left : s.pthreadsExited ≠ 0) :
    reapOne s i =
      { s with
        threadTable := Function.update s.threadTable i none
        pthreadCount := s.pthreadCount - 1
        pthreadsExited := s.pthreadsExited - 1 } := by
  unfold reapOne
  rw [there]
  exact if_pos ⟨some_left, by simpa [reapable] using exited⟩

def sweptTo (n : Nat) (s : State) : State :=
  { s with
    threadTable := fun i => if i < n then (s.threadTable i).filter kept else s.threadTable i
    pthreadCount := s.pthreadCount - tally n reapable s.threadTable
    pthreadsExited := s.pthreadsExited - tally n reapable s.threadTable }

theorem sweptTo_succ {s : State} {n : Nat}
    (enough : s.pthreadsExited = tally max reapable s.threadTable) (inside : n < max) :
    reapOne (sweptTo n s) n = sweptTo (n + 1) s := by
  have here : (sweptTo n s).threadTable n = s.threadTable n := if_neg (Nat.lt_irrefl n)
  have more : tally (n + 1) reapable s.threadTable =
      tally n reapable s.threadTable + ((s.threadTable n).any reapable).toNat := tally_succ
  have others : ∀ i, i ≠ n → (i < n + 1 ↔ i < n) := by
    intro i other
    omega
  cases there : s.threadTable n with
  | none =>
    rw [reapOne_skips (by simp [here, there])]
    have same : tally (n + 1) reapable s.threadTable = tally n reapable s.threadTable := by
      simpa [there] using more
    unfold sweptTo
    rw [same]
    congr 1
    funext i
    by_cases last : i = n
    · simp [last, there]
    · simp only [others i last]
  | some th =>
    cases kind : reapable th with
    | false =>
      rw [reapOne_skips (by simp [here, there, kind])]
      have same : tally (n + 1) reapable s.threadTable = tally n reapable s.threadTable := by
        simpa [there, kind] using more
      unfold sweptTo
      rw [same]
      congr 1
      funext i
      by_cases last : i = n
      · simp [last, there, kept, kind, Option.filter_some]
      · simp only [others i last]
    | true =>
      have one_more : tally (n + 1) reapable s.threadTable =
          tally n reapable s.threadTable + 1 := by
        simpa [there, kind] using more
      have bound : tally (n + 1) reapable s.threadTable ≤ tally max reapable s.threadTable :=
        tally_mono inside
      have some_left : (sweptTo n s).pthreadsExited ≠ 0 := by
        dsimp only [sweptTo]
        omega
      rw [reapOne_takes (here.trans there) kind some_left]
      unfold sweptTo
      rw [one_more]
      congr 1
      · funext i
        by_cases last : i = n
        · simp [last, there, kept, kind, Option.filter_some]
        · rw [Function.update_of_ne last]
          simp only [others i last]
      · dsimp only
        omega
      · dsimp only
        omega

theorem reap_sweptTo {s : State} {n : Nat}
    (enough : s.pthreadsExited = tally max reapable s.threadTable) (inside : n ≤ max) :
    (List.range n).foldl reapOne s = sweptTo n s := by
  induction n with
  | zero => simp [sweptTo, tally]
  | succ n ih =>
    rw [List.range_succ, List.foldl_append, ih (by omega)]
    exact sweptTo_succ enough inside

theorem reap_eq {s : State} (inv : Inv max s) : pthreadReap max s = swept s := by
  have enough := inv.counted.exited
  unfold pthreadReap
  rw [reap_sweptTo enough (Nat.le_refl max)]
  unfold sweptTo swept
  rw [← enough, Int.sub_self]
  congr 1
  funext i
  by_cases inside : i < max
  · exact if_pos inside
  · rw [if_neg inside, inv.sound.inside i (by omega)]
    rfl

theorem swept_some {s : State} {i : Nat} {th : Thread}
    (there : (swept s).threadTable i = some th) :
    s.threadTable i = some th ∧ th.state ≠ .exited := by
  obtain ⟨before, stays⟩ := Option.filter_eq_some_iff.mp there
  exact ⟨before, by simpa [kept, reapable] using stays⟩

theorem some_swept {s : State} {i : Nat} {th : Thread} (there : s.threadTable i = some th)
    (stays : th.state ≠ .exited) : (swept s).threadTable i = some th :=
  Option.filter_eq_some_iff.mpr ⟨there, by simpa [kept, reapable] using stays⟩

theorem counted_swept {s : State} (counted : Counted max s) : Counted max (swept s) := by
  have parts : tally max (fun _ => true) s.threadTable =
      tally max (fun th => true && kept th) s.threadTable + tally max reapable s.threadTable := by
    apply tally_add
    intro th
    cases kind : reapable th with
    | true => simp [kept, kind]
    | false => simp [kept, kind]
  constructor
  · have total := counted.count
    have gone := counted.exited
    dsimp only [swept]
    rw [tally_filter]
    omega
  · dsimp only [swept]
    rw [tally_filter]
    have none_left : tally max (fun th => reapable th && kept th) s.threadTable = 0 := by
      apply tally_zero_iff.mpr
      intro i _ th _
      simp [kept]
    omega
  · dsimp only [swept]
    rw [tally_filter, counted.tobejoined]
    have same : (fun th => unclaimed th && kept th) = unclaimed := by
      funext th
      cases kind : th.state with
      | exited => simp [unclaimed, kind]
      | _ => simp [kept, reapable, kind]
    rw [same]

theorem sound_swept {s : State} (sound : Sound max s) : Sound max (swept s) := by
  constructor
  · intro i outside
    dsimp only [swept]
    rw [sound.inside i outside]
    rfl
  · intro i th there
    exact sound.issued i th (swept_some there).1
  · exact sound.ids
  · intro g p th given there
    exact sound.newest g p th given (swept_some there).1
  · intro i th there
    exact sound.states i th (swept_some there).1
  · exact sound.next
  · exact sound.cookie

theorem honest_swept {s : State} (honest : Honest s) : Honest (swept s) := by
  constructor
  · intro i th there
    exact honest.left i th (swept_some there).1
  · intro i th there
    exact honest.alive i th (swept_some there).1
  · exact honest.known
  · exact honest.exitsOnce
  · exact honest.returned
  · exact honest.joinsOnce
  · intro i th there
    exact honest.gone i th (swept_some there).1

theorem inv_swept {s : State} (inv : Inv max s) : Inv max (swept s) :=
  ⟨counted_swept inv.counted, sound_swept inv.sound, honest_swept inv.honest⟩

/- The search for a free slot. -/

theorem findSlot_spec (table : Nat → Option Thread) {start fuel cur : Nat} (hs : start < max)
    (hc : cur < max) (enough : fuel + CyclicWindow.offset max start cur = max)
    (behind : ∀ i < max, CyclicWindow.offset max start i < CyclicWindow.offset max start cur →
      table i ≠ none) :
    (∃ i < max, table i = none ∧ findSlot max table start fuel cur = some (some i)) ∨
      ((∀ i < max, table i ≠ none) ∧ findSlot max table start fuel cur = some none) := by
  induction fuel generalizing cur with
  | zero =>
    have bound : CyclicWindow.offset max start cur < max := CyclicWindow.offset_lt hs
    omega
  | succ fuel ih =>
    unfold findSlot
    by_cases free : table cur = none
    · left
      exact ⟨cur, hc, free, by simp [free]⟩
    · have held : (table cur).isNone = false := by
        simpa [Option.isSome_iff_ne_none] using free
      rw [held, if_neg (by decide)]
      dsimp only
      rw [CyclicWindow.wrapped_eq_next hc]
      have upto : ∀ i < max,
          CyclicWindow.offset max start i < CyclicWindow.offset max start cur + 1 →
            table i ≠ none := by
        intro i inside less
        rcases Nat.lt_succ_iff_lt_or_eq.mp less with before | here
        · exact behind i inside before
        · have same : i = cur := by
            rw [← CyclicWindow.add_offset hs inside, here, CyclicWindow.add_offset hs hc]
          rw [same]
          exact free
      have advance := CyclicWindow.offset_next hs hc
      have next_inside := CyclicWindow.next_lt hc
      by_cases round : CyclicWindow.next max cur = start
      · right
        rw [if_pos round]
        refine ⟨?_, rfl⟩
        intro i inside
        apply upto i inside
        have bound : CyclicWindow.offset max start i < max := CyclicWindow.offset_lt hs
        rw [round, CyclicWindow.offset_self hs] at advance
        split_ifs at advance with last
        omega
      · rw [if_neg round]
        have not_zero : CyclicWindow.offset max start (CyclicWindow.next max cur) ≠ 0 :=
          fun zero => round ((CyclicWindow.offset_eq_zero hs next_inside).mp zero)
        have further : CyclicWindow.offset max start (CyclicWindow.next max cur) =
            CyclicWindow.offset max start cur + 1 := by
          split_ifs at advance
          · exact absurd advance not_zero
          · exact advance
        apply ih next_inside
        · rw [further]
          omega
        · rw [further]
          exact upto

/- Ids. -/

theorem indexOf_idOf {i gen : Nat} (inside : i < 0x400) : indexOf (idOf i gen) = i := by
  have mask : (0x3FF#32).toNat = 2 ^ 10 - 1 := by decide
  rw [indexOf, idOf, BitVec.toNat_and, BitVec.toNat_ofNat, mask, Nat.and_two_pow_sub_one_eq_mod]
  omega

theorem idOf_eq {i j g h : Nat} (hi : i < 0x400) (hj : j < 0x400) (same : idOf i g = idOf j h) :
    i = j ∧ g % 2 ^ 22 = h % 2 ^ 22 := by
  have index := congrArg indexOf same
  rw [indexOf_idOf hi, indexOf_idOf hj] at index
  have number := congrArg BitVec.toNat same
  rw [idOf, idOf, BitVec.toNat_ofNat, BitVec.toNat_ofNat] at number
  omega

/- One slot changes. -/

theorem sound_set {s : State} {i : Nat} {th : Thread} (th' : Thread) (sound : Sound max s)
    (there : s.threadTable i = some th) (gen : th'.gen = th.gen) (id : th'.id = th.id)
    (fits : stateFits th') :
    Sound max { s with threadTable := Function.update s.threadTable i (some th') } := by
  have inside := slot_inside sound there
  have old : ∀ j a, Function.update s.threadTable i (some th') j = some a →
      ∃ b, s.threadTable j = some b ∧ a.gen = b.gen ∧ a.id = b.id := by
    intro j a at_j
    by_cases here : j = i
    · subst here
      rw [Function.update_self] at at_j
      cases at_j
      exact ⟨th, there, gen, id⟩
    · rw [Function.update_of_ne here] at at_j
      exact ⟨a, at_j, rfl, rfl⟩
  constructor
  · intro j outside
    dsimp only
    rw [Function.update_of_ne (by omega)]
    exact sound.inside j outside
  · intro j a at_j
    obtain ⟨b, before, same_gen, same_id⟩ := old j a at_j
    rw [same_gen, same_id]
    exact sound.issued j b before
  · exact sound.ids
  · intro g p a given at_p
    obtain ⟨b, before, same_gen, _⟩ := old p.1 a at_p
    rw [same_gen]
    exact sound.newest g p b given before
  · intro j a at_j
    by_cases here : j = i
    · subst here
      dsimp only at at_j
      rw [Function.update_self] at at_j
      cases at_j
      exact fits
    · dsimp only at at_j
      rw [Function.update_of_ne here] at at_j
      exact sound.states j a at_j
  · exact sound.next
  · exact sound.cookie

theorem tally_set {table : Nat → Option Thread} {i : Nat} {th : Thread} (th' : Thread)
    (p : Thread → Bool) (inside : i < max) (there : table i = some th) :
    tally max p (Function.update table i (some th')) + (p th).toNat =
      tally max p table + (p th').toNat := by
  have both := tally_update p table inside (some th')
  rw [there] at both
  exact both

theorem updated_some {table : Nat → Option Thread} {i j : Nat} {th' a : Thread}
    (at_j : Function.update table i (some th') j = some a) :
    (j = i ∧ a = th') ∨ (j ≠ i ∧ table j = some a) := by
  by_cases here : j = i
  · subst here
    rw [Function.update_self] at at_j
    cases at_j
    exact .inl ⟨rfl, rfl⟩
  · rw [Function.update_of_ne here] at at_j
    exact .inr ⟨here, at_j⟩

/- Creating. -/

def withThread (s : State) (i : Nat) (detached : Bool) : State :=
  { s with
    threadTable := Function.update s.threadTable i (some (newThread s i detached))
    threadInfoNext := i
    threadIdCookie := s.threadIdCookie + cookieInc
    pthreadCount := s.pthreadCount + 1
    issued := s.issued ++ [(i, (newThread s i detached).id)] }

theorem newThread_id {s : State} (sound : Sound max s) (i : Nat) (detached : Bool) :
    (newThread s i detached).id = idOf i s.issued.length := by
  have number : i + 0x400 * (s.issued.length + 2) =
      i + (0x400 * (s.issued.length + 1) + 0x400) := by omega
  have increment : cookieInc = BitVec.ofNat 32 0x400 := by decide
  dsimp only [newThread, idOf]
  rw [sound.cookie, increment, number, ← BitVec.ofNat_add, ← BitVec.ofNat_add]

theorem tally_create {s : State} {i : Nat} (inside : i < max) (free : s.threadTable i = none)
    (detached : Bool) (p : Thread → Bool) :
    tally max p (withThread s i detached).threadTable =
      tally max p s.threadTable + (p (newThread s i detached)).toNat := by
  have both := tally_update p s.threadTable inside
    (some (newThread s i detached))
  rw [free] at both
  exact both

theorem counted_create {s : State} {i : Nat} (counted : Counted max s) (inside : i < max)
    (free : s.threadTable i = none) (detached : Bool) :
    Counted max (withThread s i detached) := by
  have more := tally_create inside free detached
  constructor
  · rw [more]
    dsimp only [withThread, Bool.toNat_true]
    rw [counted.count]
    omega
  · have none_more : (reapable (newThread s i detached)).toNat = 0 := by
      cases detached <;> rfl
    rw [more, none_more]
    exact counted.exited
  · have none_more : (unclaimed (newThread s i detached)).toNat = 0 := by
      cases detached <;> rfl
    rw [more, none_more]
    exact counted.tobejoined

theorem issued_length {s : State} {i : Nat} {detached : Bool} :
    (withThread s i detached).issued.length = s.issued.length + 1 :=
  List.length_append

theorem issued_last {s : State} {i : Nat} {detached : Bool} :
    (withThread s i detached).issued[s.issued.length]? =
      some (i, (newThread s i detached).id) := by
  dsimp only [withThread]
  rw [List.getElem?_append_right (Nat.le_refl _), Nat.sub_self]
  rfl

theorem issued_before {s : State} {i g : Nat} {detached : Bool} (older : g < s.issued.length) :
    (withThread s i detached).issued[g]? = s.issued[g]? :=
  List.getElem?_append_left older

theorem gen_less {s : State} {i : Nat} {th : Thread} (sound : Sound max s)
    (there : s.threadTable i = some th) : th.gen < s.issued.length :=
  (List.getElem?_eq_some_iff.mp (sound.issued i th there)).1

theorem sound_create {s : State} {i : Nat} (sound : Sound max s) (inside : i < max)
    (detached : Bool) : Sound max (withThread s i detached) := by
  have id := newThread_id sound i detached
  constructor
  · intro j outside
    dsimp only [withThread]
    rw [Function.update_of_ne (by omega)]
    exact sound.inside j outside
  · intro j th there
    rcases updated_some there with ⟨here, same⟩ | ⟨_, older⟩
    · rw [same, here]
      exact issued_last
    · rw [issued_before (gen_less sound older)]
      exact sound.issued j th older
  · intro g p given
    by_cases older : g < s.issued.length
    · rw [issued_before older] at given
      exact sound.ids g p given
    · have bound := (List.getElem?_eq_some_iff.mp given).1
      rw [issued_length] at bound
      have same : g = s.issued.length := by omega
      rw [same, issued_last] at given
      rw [← Option.some.inj given, same]
      exact ⟨inside, id⟩
  · intro g p th given there
    have bound := (List.getElem?_eq_some_iff.mp given).1
    rw [issued_length] at bound
    rcases updated_some there with ⟨_, same⟩ | ⟨other, older⟩
    · rw [same]
      dsimp only [newThread]
      omega
    · by_cases earlier : g < s.issued.length
      · rw [issued_before earlier] at given
        exact sound.newest g p th given older
      · have same : g = s.issued.length := by omega
        rw [same, issued_last] at given
        rw [← Option.some.inj given] at other
        exact absurd rfl other
  · intro j th there
    rcases updated_some there with ⟨_, same⟩ | ⟨_, older⟩
    · subst same
      cases detached <;> rfl
    · exact sound.states j th older
  · exact inside
  · have increment : cookieInc = BitVec.ofNat 32 0x400 := by decide
    rw [issued_length]
    dsimp only [withThread]
    rw [sound.cookie, increment, ← BitVec.ofNat_add]
    have number : 0x400 * (s.issued.length + 1) + 0x400 = 0x400 * (s.issued.length + 1 + 1) := by
      omega
    rw [number]

theorem honest_create {s : State} {i : Nat} (honest : Honest s) (detached : Bool) :
    Honest (withThread s i detached) := by
  constructor
  · intro j th there dead
    rcases updated_some there with ⟨_, same⟩ | ⟨_, older⟩
    · subst same
      cases dead
    · exact honest.left j th older dead
  · intro j th there living
    rcases updated_some there with ⟨_, same⟩ | ⟨_, older⟩
    · subst same
      intro member
      obtain ⟨p, p_in, at_p⟩ := List.mem_map.mp member
      have less := honest.known p p_in
      dsimp only [newThread] at at_p
      omega
    · exact honest.alive j th older living
  · intro p p_in
    rw [issued_length]
    exact Nat.lt_succ_of_lt (honest.known p p_in)
  · exact honest.exitsOnce
  · exact honest.returned
  · exact honest.joinsOnce
  · intro j th there other
    rcases updated_some there with ⟨_, same⟩ | ⟨_, older⟩
    · subst same
      intro member
      obtain ⟨p, p_in, at_p⟩ := List.mem_map.mp member
      have less := honest.known p (honest.returned p p_in)
      dsimp only [newThread] at at_p
      omega
    · exact honest.gone j th older other

theorem inv_create {s : State} {i : Nat} (inv : Inv max s) (inside : i < max)
    (free : s.threadTable i = none) (detached : Bool) :
    Inv max (withThread s i detached) :=
  ⟨counted_create inv.counted inside free detached, sound_create inv.sound inside detached,
    honest_create inv.honest detached⟩

/- A record that stays in its slot. -/

theorem honest_set {s : State} {i : Nat} {th : Thread} (th' : Thread) (honest : Honest s)
    (there : s.threadTable i = some th) (gen : th'.gen = th.gen)
    (retval : th'.retval = th.retval) (alive : th'.alive = th.alive)
    (claimed : th.state = .exited → th'.state = .exited) :
    Honest { s with threadTable := Function.update s.threadTable i (some th') } := by
  constructor
  · intro j a at_j dead
    rcases updated_some at_j with ⟨_, same⟩ | ⟨_, older⟩
    · rw [same, gen, retval]
      rw [same, alive] at dead
      exact honest.left i th there dead
    · exact honest.left j a older dead
  · intro j a at_j living
    rcases updated_some at_j with ⟨_, same⟩ | ⟨_, older⟩
    · rw [same, gen]
      rw [same, alive] at living
      exact honest.alive i th there living
    · exact honest.alive j a older living
  · exact honest.known
  · exact honest.exitsOnce
  · exact honest.returned
  · exact honest.joinsOnce
  · intro j a at_j other
    rcases updated_some at_j with ⟨_, same⟩ | ⟨_, older⟩
    · rw [same, gen]
      rw [same] at other
      exact honest.gone i th there fun exited => other (claimed exited)
    · exact honest.gone j a older other

/- Exiting. -/

theorem counted_exit {s : State} {i : Nat} {th : Thread} (counted : Counted max s)
    (inside : i < max) (there : s.threadTable i = some th) (fits : stateFits th)
    (living : th.alive = true) (retval : Nat) : Counted max (pthreadExit i th retval s).2 := by
  have set : ∀ p : Thread → Bool, _ := fun p =>
    tally_set (ended th retval) p inside there
  constructor
  · have same := set fun _ => true
    rw [Bool.toNat_true, Nat.add_right_cancel_iff] at same
    dsimp only [pthreadExit]
    rw [counted.count, same]
  · have change := set reapable
    have before := counted.exited
    dsimp only [pthreadExit]
    by_cases detached : th.state = .detached
    · have lost : (reapable th).toNat = 0 := by simp [reapable, detached]
      have won : (reapable (ended th retval)).toNat = 1 := by
        simp [reapable, ended, detached]
      rw [if_pos detached]
      omega
    · have lost : (reapable th).toNat = 0 := by
        cases kind : th.state with
        | exited => simp [stateFits, kind, living] at fits
        | _ => simp [reapable, kind]
      have won : (reapable (ended th retval)).toNat = 0 := by
        simp [reapable, ended, detached]
      rw [if_neg detached]
      omega
  · have change := set unclaimed
    have before := counted.tobejoined
    have lost : (unclaimed th).toNat = 0 := by
      cases kind : th.state with
      | join => simp [stateFits, kind, living] at fits
      | _ => simp [unclaimed, kind, living]
    dsimp only [pthreadExit]
    by_cases detached : th.state = .detached
    · have won : (unclaimed (ended th retval)).toNat = 0 := by
        simp [unclaimed, ended, detached]
      rw [if_pos detached]
      omega
    · have won : (unclaimed (ended th retval)).toNat = 1 := by
        simp [unclaimed, ended, detached]
      rw [if_neg detached]
      omega

theorem sound_exit {s : State} {i : Nat} {th : Thread} (sound : Sound max s)
    (there : s.threadTable i = some th) (retval : Nat) :
    Sound max (pthreadExit i th retval s).2 := by
  have fits' : stateFits (ended th retval) = true := by
    by_cases detached : th.state = .detached
    · simp [stateFits, ended, detached]
    · simp [stateFits, ended, detached]
  have moved := sound_set (ended th retval) sound there rfl rfl fits'
  exact ⟨moved.inside, moved.issued, moved.ids, moved.newest, moved.states, moved.next,
    moved.cookie⟩

theorem honest_exit {s : State} {i : Nat} {th : Thread} (sound : Sound max s)
    (honest : Honest s) (there : s.threadTable i = some th) (living : th.alive = true)
    (retval : Nat) : Honest (pthreadExit i th retval s).2 := by
  have fits := sound.states i th there
  have less := gen_less sound there
  constructor
  · intro j a at_j dead
    apply List.mem_append.mpr
    rcases updated_some at_j with ⟨_, same⟩ | ⟨_, older⟩
    · right
      rw [same]
      exact List.mem_singleton.mpr rfl
    · exact .inl (honest.left j a older dead)
  · intro j a at_j living_a member
    rcases updated_some at_j with ⟨_, same⟩ | ⟨other, older⟩
    · rw [same] at living_a
      cases living_a
    · dsimp only [pthreadExit] at member
      rw [List.map_append, List.mem_append] at member
      rcases member with earlier | now
      · exact honest.alive j a older living_a earlier
      · have same : a.gen = th.gen := by simpa using now
        exact other (apart sound older there same)
  · intro p p_in
    rcases List.mem_append.mp p_in with earlier | now
    · exact honest.known p earlier
    · rw [List.mem_singleton.mp now]
      exact less
  · dsimp only [pthreadExit]
    rw [List.map_append]
    apply List.nodup_append.mpr
    refine ⟨honest.exitsOnce, List.nodup_singleton _, ?_⟩
    intro g earlier h now same
    have is_own : h = th.gen := by simpa using now
    rw [same, is_own] at earlier
    exact honest.alive i th there living earlier
  · intro p p_in
    exact List.mem_append.mpr (.inl (honest.returned p p_in))
  · exact honest.joinsOnce
  · intro j a at_j other
    rcases updated_some at_j with ⟨_, same⟩ | ⟨_, older⟩
    · rw [same]
      apply honest.gone i th there
      intro exited
      simp [stateFits, exited, living] at fits
    · exact honest.gone j a older other

theorem inv_exit {s : State} {i : Nat} {th : Thread} (inv : Inv max s)
    (there : s.threadTable i = some th) (living : th.alive = true) (retval : Nat) :
    Inv max (pthreadExit i th retval s).2 :=
  ⟨counted_exit inv.counted (slot_inside inv.sound there) there (inv.sound.states i th there)
    living retval, sound_exit inv.sound there retval,
    honest_exit inv.sound inv.honest there living retval⟩

/- Joining. -/

def claimedState (i : Nat) (th : Thread) (s : State) : State :=
  { s with
    threadTable := Function.update s.threadTable i (some { th with state := .exited })
    pthreadsExited := s.pthreadsExited + 1
    pthreadsTobejoined := s.pthreadsTobejoined - 1
    joined := s.joined ++ [(th.gen, th.retval)] }

theorem counted_claimed {s : State} {i : Nat} {th : Thread} (counted : Counted max s)
    (inside : i < max) (there : s.threadTable i = some th) (join : th.state = .join) :
    Counted max (claimedState i th s) := by
  have set : ∀ p : Thread → Bool, _ := fun p =>
    tally_set { th with state := .exited } p inside there
  constructor
  · have same := set fun _ => true
    rw [Bool.toNat_true, Nat.add_right_cancel_iff] at same
    dsimp only [claimedState]
    rw [counted.count, same]
  · have change := set reapable
    have before := counted.exited
    have lost : (reapable th).toNat = 0 := by simp [reapable, join]
    have won : (reapable { th with state := .exited }).toNat = 1 := by simp [reapable]
    dsimp only [claimedState]
    omega
  · have change := set unclaimed
    have before := counted.tobejoined
    have lost : (unclaimed th).toNat = 1 := by simp [unclaimed, join]
    have won : (unclaimed { th with state := .exited }).toNat = 0 := by simp [unclaimed]
    dsimp only [claimedState]
    omega

theorem join_dead {s : State} {i : Nat} {th : Thread} (sound : Sound max s)
    (there : s.threadTable i = some th) (join : th.state = .join) : th.alive = false := by
  have fits := sound.states i th there
  simpa [stateFits, join] using fits

theorem sound_claimed {s : State} {i : Nat} {th : Thread} (sound : Sound max s)
    (there : s.threadTable i = some th) (join : th.state = .join) :
    Sound max (claimedState i th s) := by
  have dead := join_dead sound there join
  have moved := sound_set { th with state := .exited } sound there rfl rfl
    (by simp [stateFits, dead])
  exact ⟨moved.inside, moved.issued, moved.ids, moved.newest, moved.states, moved.next,
    moved.cookie⟩

theorem honest_claimed {s : State} {i : Nat} {th : Thread} (sound : Sound max s)
    (honest : Honest s) (there : s.threadTable i = some th) (join : th.state = .join) :
    Honest (claimedState i th s) := by
  have moved := honest_set { th with state := .exited } honest there rfl rfl rfl
    (fun _ => rfl)
  have exits := honest.left i th there (join_dead sound there join)
  have new := honest.gone i th there (by simp [join])
  constructor
  · exact moved.left
  · exact moved.alive
  · exact moved.known
  · exact moved.exitsOnce
  · intro p p_in
    rcases List.mem_append.mp p_in with earlier | now
    · exact honest.returned p earlier
    · rw [List.mem_singleton.mp now]
      exact exits
  · dsimp only [claimedState]
    rw [List.map_append]
    apply List.nodup_append.mpr
    refine ⟨honest.joinsOnce, List.nodup_singleton _, ?_⟩
    intro g earlier h now same
    have is_own : h = th.gen := by simpa using now
    rw [same, is_own] at earlier
    exact new earlier
  · intro j a at_j other member
    rcases updated_some at_j with ⟨_, same⟩ | ⟨other_slot, older⟩
    · rw [same] at other
      exact other rfl
    · dsimp only [claimedState] at member
      rw [List.map_append, List.mem_append] at member
      rcases member with earlier | now
      · exact honest.gone j a older other earlier
      · have same : a.gen = th.gen := by simpa using now
        exact other_slot (apart sound older there same)

theorem inv_claimed {s : State} {i : Nat} {th : Thread} (inv : Inv max s)
    (there : s.threadTable i = some th) (join : th.state = .join) :
    Inv max (claimedState i th s) :=
  ⟨counted_claimed inv.counted (slot_inside inv.sound there) there join,
    sound_claimed inv.sound there join, honest_claimed inv.sound inv.honest there join⟩

theorem inv_waits {s : State} (inv : Inv max s) (waits : List Wait) :
    Inv max { s with waits := waits } := by
  obtain ⟨counted, sound, honest⟩ := inv
  refine ⟨⟨counted.count, counted.exited, counted.tobejoined⟩, ?_, ?_⟩
  · exact ⟨sound.inside, sound.issued, sound.ids, sound.newest, sound.states, sound.next,
      sound.cookie⟩
  · exact ⟨honest.left, honest.alive, honest.known, honest.exitsOnce, honest.returned,
      honest.joinsOnce, honest.gone⟩

theorem finishJoin_eq {s : State} {i : Nat} {th : Thread} (inv : Inv max s)
    (there : s.threadTable i = some th) (join : th.state = .join) :
    finishJoin max i th s = (.joins th.retval, swept (claimedState i th s)) := by
  unfold finishJoin
  rw [← reap_eq (inv_claimed inv there join)]
  rfl

theorem inv_joinWith {s : State} {w : Wait} {th : Thread} (inv : Inv max s)
    (there : s.threadTable w.slot = some th) : Inv max (joinWith max w th s).2 := by
  unfold joinWith
  cases kind : th.state with
  | running => exact inv_waits inv _
  | join =>
    dsimp only
    rw [finishJoin_eq inv there kind]
    exact inv_swept (inv_claimed inv there kind)
  | detached => exact inv
  | exited => exact inv

theorem found {s : State} {id : BitVec 32} {th : Thread}
    (there : pthreadInfoId s id = some th) :
    s.threadTable (indexOf id) = some th ∧ th.state ≠ .exited ∧ th.id = id := by
  unfold pthreadInfoId at there
  cases at_index : s.threadTable (indexOf id) with
  | none =>
    rw [at_index] at there
    cases there
  | some found_th =>
    rw [at_index] at there
    dsimp only at there
    split_ifs at there with exited other
    cases there
    exact ⟨rfl, exited, not_not.mp other⟩

/- Detaching. -/

def detachedState (i : Nat) (th : Thread) (s : State) : State :=
  { s with threadTable := Function.update s.threadTable i (some { th with state := .detached }) }

theorem counted_detached {s : State} {i : Nat} {th : Thread} (counted : Counted max s)
    (inside : i < max) (there : s.threadTable i = some th) (fits : stateFits th)
    (visible : th.state ≠ .exited) : Counted max (detachedState i th s) := by
  have set : ∀ p : Thread → Bool, _ := fun p =>
    tally_set { th with state := .detached } p inside there
  constructor
  · have same := set fun _ => true
    rw [Bool.toNat_true, Nat.add_right_cancel_iff] at same
    dsimp only [detachedState]
    rw [counted.count, same]
  · have change := set reapable
    have before := counted.exited
    have lost : (reapable th).toNat = 0 := by simp [reapable, visible]
    have won : (reapable { th with state := .detached }).toNat = 0 := by simp [reapable]
    dsimp only [detachedState]
    omega
  · have change := set unclaimed
    have before := counted.tobejoined
    have same : unclaimed { th with state := .detached } = unclaimed th := by
      cases kind : th.state with
      | detached => simp [unclaimed, kind]
      | running =>
        have living : th.alive = true := by simpa [stateFits, kind] using fits
        simp [unclaimed, kind, living]
      | join =>
        have dead : th.alive = false := by simpa [stateFits, kind] using fits
        simp [unclaimed, kind, dead]
      | exited => exact absurd kind visible
    rw [same] at change
    dsimp only [detachedState]
    omega

theorem inv_detached {s : State} {i : Nat} {th : Thread} (inv : Inv max s)
    (there : s.threadTable i = some th) (visible : th.state ≠ .exited) :
    Inv max (detachedState i th s) := by
  obtain ⟨counted, sound, honest⟩ := inv
  have inside := slot_inside sound there
  have fits := sound.states i th there
  refine ⟨counted_detached counted inside there fits visible, ?_, ?_⟩
  · have moved := sound_set { th with state := .detached } sound there rfl rfl rfl
    exact ⟨moved.inside, moved.issued, moved.ids, moved.newest, moved.states, moved.next,
      moved.cookie⟩
  · exact honest_set _ honest there rfl rfl rfl fun exited => absurd exited visible

/- Steps. -/

theorem create_cases {s : State} (inv : Inv max s) (detached : Bool) :
    (∃ i < max, (swept s).threadTable i = none ∧
      pthreadCreate max detached s =
        (.created (newThread (swept s) i detached).id, withThread (swept s) i detached)) ∨
      ((∀ i < max, (swept s).threadTable i ≠ none) ∧
        pthreadCreate max detached s = (.enomem, swept s)) := by
  have start := inv.sound.next
  have from_start : max + CyclicWindow.offset max s.threadInfoNext s.threadInfoNext = max := by
    rw [CyclicWindow.offset_self start]
    rfl
  rcases findSlot_spec (swept s).threadTable start start from_start (by
    intro i _ less
    rw [CyclicWindow.offset_self start] at less
    omega) with ⟨i, inside, free, at_i⟩ | ⟨all_held, nowhere⟩
  · left
    refine ⟨i, inside, free, ?_⟩
    unfold pthreadCreate
    rw [reap_eq inv]
    have search : findSlot max (swept s).threadTable (swept s).threadInfoNext max
        (swept s).threadInfoNext = some (some i) := at_i
    dsimp only
    rw [search]
    rfl
  · right
    refine ⟨all_held, ?_⟩
    unfold pthreadCreate
    rw [reap_eq inv]
    have search : findSlot max (swept s).threadTable (swept s).threadInfoNext max
        (swept s).threadInfoNext = some none := nowhere
    dsimp only
    rw [search]

theorem inv_joins {s : State} (inv : Inv max s) (self : Nat) (id : BitVec 32) :
    Inv max (pthreadJoin max self id s).2 := by
  unfold pthreadJoin
  rw [reap_eq inv]
  have clean := inv_swept inv
  dsimp only
  cases joinee : pthreadInfoId (swept s) id with
  | none => exact clean
  | some th =>
    dsimp only
    split_ifs with own
    · exact clean
    · exact inv_joinWith clean (found joinee).1

theorem inv_detach {s : State} (inv : Inv max s) (id : BitVec 32) :
    Inv max (pthreadDetach max id s).2 := by
  unfold pthreadDetach
  cases detachee : pthreadInfoId s id with
  | none =>
    dsimp only
    rw [reap_eq inv]
    exact inv_swept inv
  | some th =>
    obtain ⟨there, visible, _⟩ := found detachee
    dsimp only
    split_ifs with already
    · rw [reap_eq inv]
      exact inv_swept inv
    · have detached := inv_detached inv there visible
      have reaped := reap_eq detached
      unfold detachedState at reaped
      rw [reaped]
      exact inv_swept detached

theorem inv_wake {s : State} (inv : Inv max s) (w : Wait) : Inv max (wake max w s).2 := by
  unfold wake
  cases there : s.threadTable w.slot with
  | none => exact inv
  | some th =>
    dsimp only
    split_ifs with same
    · exact inv_joinWith (inv_waits inv _) there
    · exact inv

theorem inv_cancelled {s : State} (inv : Inv max s) (w : Wait) : Inv max (cancelled w s).2 := by
  unfold cancelled
  cases there : s.threadTable w.slot with
  | none => exact inv
  | some th =>
    dsimp only
    split_ifs with same
    · exact inv_waits inv _
    · exact inv

theorem caller_some {s : State} {i : Nat} {th : Thread} (call : caller s i = some th) :
    s.threadTable i = some th ∧ th.alive = true ∧ ∀ w ∈ s.waits, w.self ≠ th.gen := by
  obtain ⟨there, both⟩ := Option.filter_eq_some_iff.mp call
  rw [Bool.and_eq_true, List.all_eq_true] at both
  refine ⟨there, both.1, ?_⟩
  intro w w_in
  simpa using both.2 w w_in

theorem inv_creates {s : State} (inv : Inv max s) (detached : Bool) :
    Inv max (pthreadCreate max detached s).2 := by
  rcases create_cases inv detached with ⟨i, inside, free, same⟩ | ⟨_, same⟩
  · rw [same]
    exact inv_create (inv_swept inv) inside free detached
  · rw [same]
    exact inv_swept inv

theorem inv_step {s : State} {a : Action} {result : Result} {s' : State} (inv : Inv max s)
    (stepped : step max s a = some (result, s')) : Inv max s' := by
  cases a with
  | create detached =>
    have kept_inv := inv_creates inv detached
    rw [Option.some.inj stepped] at kept_inv
    exact kept_inv
  | noStack =>
    cases stepped
    exact inv
  | exit i retval =>
    obtain ⟨th, call, ends⟩ := Option.map_eq_some_iff.mp stepped
    obtain ⟨there, living, _⟩ := caller_some call
    have kept_inv := inv_exit inv there living retval
    rw [ends] at kept_inv
    exact kept_inv
  | join i id =>
    dsimp only [step] at stepped
    split_ifs at stepped with inside
    obtain ⟨th, call, ends⟩ := Option.map_eq_some_iff.mp stepped
    have kept_inv := inv_joins inv th.gen id
    rw [ends] at kept_inv
    exact kept_inv
  | wake w =>
    dsimp only [step] at stepped
    split_ifs at stepped with waiting
    have kept_inv := inv_wake inv w
    rw [Option.some.inj stepped] at kept_inv
    exact kept_inv
  | cancelled w =>
    dsimp only [step] at stepped
    split_ifs at stepped with waiting
    have kept_inv := inv_cancelled inv w
    rw [Option.some.inj stepped] at kept_inv
    exact kept_inv
  | detach id =>
    dsimp only [step] at stepped
    split_ifs at stepped with inside
    have kept_inv := inv_detach inv id
    rw [Option.some.inj stepped] at kept_inv
    exact kept_inv

theorem next_some {s s' : State} {a : Action} (stepped : next max s a = some s') :
    ∃ result, result ≠ .fault ∧ step max s a = some (result, s') := by
  obtain ⟨⟨result, last⟩, there, goes_on⟩ := Option.bind_eq_some_iff.mp stepped
  dsimp only at goes_on
  split_ifs at goes_on with fault
  cases goes_on
  exact ⟨result, fault, there⟩

theorem inv_initial (room : 0 < max) : Inv max initial := by
  have empty : ∀ p : Thread → Bool, tally max p initial.threadTable = 0 := by
    intro p
    apply tally_zero_iff.mpr
    intro i _ th there
    cases there
  refine ⟨⟨?_, ?_, ?_⟩, ?_, ?_⟩
  · rw [empty]
    rfl
  · rw [empty]
    rfl
  · rw [empty]
    rfl
  · constructor <;> simp [initial, room, cookieInc]
  · constructor <;> simp [initial]

theorem inv_run {s : State} {actions : List Action} (room : 0 < max)
    (ran : Runs.exec (next max) initial actions = some s) : Inv max s := by
  apply Runs.invariant_run _ (inv_initial room) ran
  intro s a s' inv stepped
  obtain ⟨result, _, there⟩ := next_some stepped
  exact inv_step inv there

/- The accounts that the calls rely on. -/

structure Accounts (max : Nat) (s : State) : Prop where
  held : s.pthreadCount = tally max (fun _ => true) s.threadTable
  exits : ∀ i retval callExit s', step max s (.exit i retval) = some (.exits callExit, s') →
    (callExit = true ↔ ∀ j th, s'.threadTable j = some th → th.alive = false)
  enomem : ∀ detached, (pthreadCreate max detached s).1 = .enomem ↔
    ∀ i < max, ∃ th, s.threadTable i = some th ∧ th.state ≠ .exited
  finishes : ∀ detached, (pthreadCreate max detached s).1 ≠ .unfinished
  found : ∀ i th, s.threadTable i = some th → th.state ≠ .exited →
    pthreadInfoId s th.id = some th
  stale : ∀ g p th, s.issued[g]? = some p → pthreadInfoId s p.2 = some th →
    s.issued.length ≤ g + 2 ^ 22 → th.gen = g

def dead (th : Thread) : Bool := reapable th || unclaimed th

theorem dead_iff {th : Thread} (fits : stateFits th) : dead th = true ↔ th.alive = false := by
  cases kind : th.state with
  | detached => simp [dead, reapable, unclaimed, kind]
  | running =>
    have living : th.alive = true := by simpa [stateFits, kind] using fits
    simp [dead, reapable, unclaimed, kind, living]
  | join =>
    have not_living : th.alive = false := by simpa [stateFits, kind] using fits
    simp [dead, reapable, unclaimed, kind, not_living]
  | exited =>
    have not_living : th.alive = false := by simpa [stateFits, kind] using fits
    simp [dead, reapable, unclaimed, kind, not_living]

theorem last_one {s : State} (inv : Inv max s) :
    s.pthreadsExited + s.pthreadsTobejoined = s.pthreadCount ↔
      ∀ i th, s.threadTable i = some th → th.alive = false := by
  have both : tally max dead s.threadTable =
      tally max reapable s.threadTable + tally max unclaimed s.threadTable := by
    apply tally_add
    intro th
    cases kind : th.state with
    | exited => simp [dead, reapable, unclaimed, kind]
    | _ => simp [dead, reapable, kind]
  have total : tally max (fun _ => true) s.threadTable =
      tally max dead s.threadTable + tally max (fun th => !dead th) s.threadTable := by
    apply tally_add
    intro th
    cases dead th <;> rfl
  have none_living : s.pthreadsExited + s.pthreadsTobejoined = s.pthreadCount ↔
      tally max (fun th => !dead th) s.threadTable = 0 := by
    rw [inv.counted.count, inv.counted.exited, inv.counted.tobejoined]
    omega
  rw [none_living, tally_zero_iff]
  constructor
  · intro all i th there
    have fits := inv.sound.states i th there
    apply (dead_iff fits).mp
    simpa using all i (slot_inside inv.sound there) th there
  · intro all i _ th there
    have fits := inv.sound.states i th there
    rw [(dead_iff fits).mpr (all i th there)]
    rfl

theorem visible_found {s : State} {i : Nat} {th : Thread} (small : max ≤ 0x400)
    (inv : Inv max s) (there : s.threadTable i = some th) (visible : th.state ≠ .exited) :
    indexOf th.id = i ∧ pthreadInfoId s th.id = some th := by
  have inside := slot_inside inv.sound there
  have index : indexOf th.id = i := by
    rw [slot_id inv.sound there]
    exact indexOf_idOf (by omega)
  refine ⟨index, ?_⟩
  unfold pthreadInfoId
  rw [index, there]
  dsimp only
  rw [if_neg visible, if_neg (by simp)]

theorem stale_id {s : State} {g : Nat} {p : Nat × BitVec 32} {th : Thread}
    (small : max ≤ 0x400) (inv : Inv max s) (given : s.issued[g]? = some p)
    (there : pthreadInfoId s p.2 = some th) (recent : s.issued.length ≤ g + 2 ^ 22) :
    th.gen = g := by
  obtain ⟨at_index, _, same_id⟩ := found there
  obtain ⟨inside, id_p⟩ := inv.sound.ids g p given
  have inside_th := slot_inside inv.sound at_index
  have id_th := slot_id inv.sound at_index
  have gen_less := (List.getElem?_eq_some_iff.mp (inv.sound.issued _ th at_index)).1
  obtain ⟨same_slot, same_mod⟩ := idOf_eq (by omega) (by omega)
    (id_p.symm.trans (same_id.symm.trans id_th))
  -- an older thread has left the slot
  rw [← same_slot] at at_index
  have newest := inv.sound.newest g p th given at_index
  omega

theorem accounts_kept {s : State} {actions : List Action} (room : 0 < max)
    (small : max ≤ 0x400) (ran : Runs.exec (next max) initial actions = some s) :
    Accounts max s := by
  have inv := inv_run room ran
  constructor
  · exact inv.counted.count
  · intro i retval callExit s' stepped
    have after := inv_step inv stepped
    obtain ⟨th, _, ends⟩ := Option.map_eq_some_iff.mp stepped
    obtain ⟨answer, same⟩ := Prod.mk.inj ends
    rw [← last_one after, ← same]
    have decided := Result.exits.inj answer
    rw [← decided]
    exact decide_eq_true_iff
  · intro detached
    rcases create_cases inv detached with ⟨i, inside, free, same⟩ | ⟨all_held, same⟩
    · rw [same]
      constructor
      · intro other
        cases other
      · intro all_held
        obtain ⟨th, there, visible⟩ := all_held i inside
        rw [some_swept there visible] at free
        cases free
    · rw [same]
      constructor
      · intro _ i inside
        obtain ⟨th, there⟩ := Option.ne_none_iff_exists'.mp (all_held i inside)
        exact ⟨th, swept_some there⟩
      · intro _
        rfl
  · intro detached
    rcases create_cases inv detached with ⟨i, inside, free, same⟩ | ⟨all_held, same⟩
    · rw [same]
      intro other
      cases other
    · rw [same]
      intro other
      cases other
  · intro i th there visible
    exact (visible_found small inv there visible).2
  · intro g p th given there recent
    exact stale_id small inv given there recent

theorem accounts_of_two : ∃ s,
    Runs.exec (next 3) initial [.create false, .create false, .exit 1 7] = some s ∧
      Accounts 3 s :=
  ⟨_, rfl, @accounts_kept 3 _ [.create false, .create false, .exit 1 7] (by decide) (by decide)
    rfl⟩

end PosixThreads
