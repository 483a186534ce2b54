import Mathlib.Data.List.Basic
import Mathlib.Data.List.Range
import Mathlib.Logic.Function.Basic
import Mathlib.Algebra.Order.Ring.Nat
import Nios2Ecos.BitSearch

/- Thread-specific data of the POSIX layer: keys in a map of free bits, values in a table that a
   thread gets when it first stores one, and the destructors at its exit. The store that this is
   for comes first. -/
namespace ThreadKeys
open BitSearch (Word halLsbitIndex IsLsb)

inductive Call where
  | keyCreate (destructor : Option Nat)
  | keyDelete (key : Nat)
  | setspecific (thread key pointer : Nat)
  | getspecific (thread key : Nat)
  | start (thread : Nat)
  | reap (thread : Nat)
  deriving DecidableEq

inductive Result where
  | key (k : Nat)
  | value (pointer : Nat)
  | done
  | eagain
  | einval
  deriving DecidableEq

/-- A value for each thread and key; NULL, 0 here, until one is set. -/
structure Store where
  inUse : Nat → Prop
  value : Nat → Nat → Nat

def Store.Allows (max : Nat) (a : Store) : Call → Result → Prop
  | .keyCreate _, .key k => k < max ∧ ¬ a.inUse k
  | .keyCreate _, .eagain => ∀ k < max, a.inUse k
  | .setspecific _ k _, .done => a.inUse k
  | .setspecific _ k _, .einval => ¬ a.inUse k
  | .getspecific t k, .value v => (a.inUse k → v = a.value t k) ∧ (¬ a.inUse k → v = 0)
  | .keyDelete _, .done => True
  | .start _, .done => True
  | .reap _, .done => True
  | _, _ => False

/-- A new key has no values and a new thread has none; a set value stays. -/
def Store.after (a : Store) : Call → Result → Store
  | .keyCreate _, .key k =>
    ⟨fun j => j = k ∨ a.inUse j, fun t j => if j = k then 0 else a.value t j⟩
  | .keyDelete k, _ => ⟨fun j => j ≠ k ∧ a.inUse j, a.value⟩
  | .setspecific t k v, .done =>
    ⟨a.inUse, fun u j => if u = t ∧ j = k then v else a.value u j⟩
  | .start t, _ => ⟨a.inUse, fun u j => if u = t then 0 else a.value u j⟩
  | _, _ => a

def Store.Answers (max : Nat) : Store → List (Call × Result) → Prop
  | _, [] => True
  | a, (c, r) :: rest => a.Allows max c r ∧ Store.Answers max (a.after c r) rest

structure State where
  threadKey : Nat → Word
  keyDestructor : Nat → Option Nat
  threadTable : Nat → Option (Option (Nat → Nat))

def keyBit (key : Nat) : Word := 1#32 <<< (key % 32)

def isFree (s : State) (key : Nat) : Bool := s.threadKey (key / 32) &&& keyBit key ≠ 0

/-- A key is NULL in the data of every thread again. -/
def plantNull (threadsMax k : Nat) (table : Nat → Option (Option (Nat → Nat))) :
    Nat → Option (Option (Nat → Nat)) := fun i =>
  if i < threadsMax then (table i).map fun data => data.map fun d => Function.update d k 0
  else table i

variable (words threadsMax : Nat)

def pthreadKeyCreate (destructor : Option Nat) (s : State) : Result × State :=
  match (List.range words).find? fun i => s.threadKey i ≠ 0 with
  | none => (.eagain, s)
  | some i =>
    let k := (halLsbitIndex (s.threadKey i)).toNat
    let key := k + i * 32
    (.key key,
      { threadKey := Function.update s.threadKey i (s.threadKey i &&& ~~~(1#32 <<< k))
        keyDestructor := Function.update s.keyDestructor key destructor
        threadTable := plantNull threadsMax key s.threadTable })

def pthreadKeyDelete (key : Nat) (s : State) : Result × State :=
  (.done, { s with
    threadKey := Function.update s.threadKey (key / 32) (s.threadKey (key / 32) ||| keyBit key) })

def store (t : Nat) (d : Nat → Nat) (s : State) : State :=
  { s with threadTable := Function.update s.threadTable t (some (some d)) }

def pthreadSetspecific (t key pointer : Nat) (data : Option (Nat → Nat)) (s : State) :
    Result × State :=
  if isFree s key then (.einval, s)
  else (.done, store t (Function.update (data.getD fun _ => 0) key pointer) s)

def pthreadGetspecific (key : Nat) (data : Option (Nat → Nat)) (s : State) : Result :=
  if isFree s key then .value 0
  else
    match data with
    | none => .value 0
    | some d => .value (d key)

def step (s : State) : Call → Option (Result × State)
  | .keyCreate destructor => some (pthreadKeyCreate words threadsMax destructor s)
  | .keyDelete key => if key < 32 * words then some (pthreadKeyDelete key s) else none
  | .setspecific t key pointer =>
    if key < 32 * words then
      (s.threadTable t).map fun data => pthreadSetspecific t key pointer data s
    else none
  | .getspecific t key =>
    if key < 32 * words then
      (s.threadTable t).map fun data => (pthreadGetspecific key data s, s)
    else none
  | .start t =>
    if t < threadsMax ∧ (s.threadTable t).isNone then
      some (.done, { s with threadTable := Function.update s.threadTable t (some none) })
    else none
  | .reap t =>
    some (.done, { s with threadTable := Function.update s.threadTable t none })

def answers (s : State) : List Call → Option (List (Call × Result) × State)
  | [] => some ([], s)
  | c :: cs =>
    match step words threadsMax s c with
    | none => none
    | some (r, s') => (answers s' cs).map fun rest => ((c, r) :: rest.1, rest.2)

def initial (keyDestructor : Nat → Option Nat) : State where
  threadKey := fun _ => BitVec.allOnes 32
  keyDestructor := keyDestructor
  threadTable := fun _ => none

def empty : Store := ⟨fun _ => False, fun _ _ => 0⟩

section
variable {words threadsMax} {s : State} {a : Store}

end

/-- What a destructor does with a value, to the keys and values at least. -/
abbrev Destructors := Nat → Nat → State → State

def destroyKey (run : Destructors) (t : Nat) (r : State × List (Nat × Nat)) (key : Nat) :
    State × List (Nat × Nat) :=
  match r.1.threadTable t with
  | some (some d) =>
    if isFree r.1 key then r
    else
      match r.1.keyDestructor key with
      | none => r
      | some destructor =>
        if d key = 0 then r
        else
          (run destructor (d key) (store t (Function.update d key 0) r.1), r.2 ++ [(key, d key)])
  | _ => r

def destroyPass (run : Destructors) (t : Nat) (s : State) : State × List (Nat × Nat) :=
  (List.range (32 * words)).foldl (destroyKey run t) (s, [])

def destroyLoop (run : Destructors) (t : Nat) : Nat → State → State × List (List (Nat × Nat))
  | 0, s => (s, [])
  | n + 1, s =>
    let r := destroyPass words run t s
    if r.2 = [] then (r.1, [[]])
    else ((destroyLoop run t n r.1).1, r.2 :: (destroyLoop run t n r.1).2)

def exitDestructors (run : Destructors) (iterations t : Nat) (s : State) :
    State × List (List (Nat × Nat)) :=
  match s.threadTable t with
  | some (some _) => destroyLoop words run t (iterations + 1) s
  | _ => (s, [])

def Clean (t : Nat) (s : State) : Prop :=
  ∀ d, s.threadTable t = some (some d) → ∀ k < 32 * words, isFree s k = false →
    (s.keyDestructor k).isSome → d k = 0

section
variable {words} {run : Destructors} {t : Nat}

theorem destroy_key_cases (r : State × List (Nat × Nat)) (key : Nat) :
    (destroyKey run t r key = r ∧ ∀ d, r.1.threadTable t = some (some d) →
      isFree r.1 key = false → (r.1.keyDestructor key).isSome → d key = 0) ∨
    ∃ s v, destroyKey run t r key = (s, r.2 ++ [(key, v)]) ∧ v ≠ 0 := by
  unfold destroyKey
  split
  · rename_i d there
    split
    · rename_i free
      left
      refine ⟨rfl, ?_⟩
      intro d' _ used
      rw [free] at used
      cases used
    · split
      · rename_i none_set
        left
        refine ⟨rfl, ?_⟩
        intro d' _ _ set
        rw [none_set] at set
        cases set
      · split
        · rename_i zero
          left
          refine ⟨rfl, ?_⟩
          intro d' there' _ _
          rw [there] at there'
          cases there'
          exact zero
        · rename_i nonzero
          right
          exact ⟨_, _, rfl, nonzero⟩
  · rename_i other
    left
    refine ⟨rfl, ?_⟩
    intro d there
    exact absurd there (other d)

theorem destroy_keys (keys : List Nat) (sorted : keys.Pairwise (· < ·))
    (r : State × List (Nat × Nat)) (behind : ∀ c ∈ r.2, ∀ k ∈ keys, c.1 < k)
    (before : (r.2.map Prod.fst).Pairwise (· < ·)) (inside : ∀ c ∈ r.2, c.2 ≠ 0) :
    ∃ more, (keys.foldl (destroyKey run t) r).2 = r.2 ++ more ∧
      (∀ c ∈ more, c.1 ∈ keys ∧ c.2 ≠ 0) ∧
      ((r.2 ++ more).map Prod.fst).Pairwise (· < ·) ∧
      (more = [] → (keys.foldl (destroyKey run t) r).1 = r.1 ∧ ∀ k ∈ keys, ∀ d,
        r.1.threadTable t = some (some d) → isFree r.1 k = false →
          (r.1.keyDestructor k).isSome → d k = 0) := by
  induction keys generalizing r with
  | nil =>
    refine ⟨[], (List.append_nil _).symm, by simp, by simpa using before, ?_⟩
    intro _
    exact ⟨rfl, by simp⟩
  | cons key keys ih =>
    obtain ⟨first, rest⟩ := List.pairwise_cons.mp sorted
    rw [List.foldl_cons]
    rcases @destroy_key_cases run t r key with ⟨same, clean⟩ | ⟨s, v, called, nonzero⟩
    · rw [same]
      obtain ⟨more, calls, from_keys, order, nothing⟩ := ih rest r
        (fun c there k later => behind c there k (List.mem_cons_of_mem _ later)) before inside
      refine ⟨more, calls, ?_, order, ?_⟩
      · intro c there
        exact ⟨List.mem_cons_of_mem _ (from_keys c there).1, (from_keys c there).2⟩
      · intro none_called
        obtain ⟨still, all⟩ := nothing none_called
        refine ⟨still, ?_⟩
        intro k there
        rcases List.mem_cons.mp there with rfl | later
        · exact clean
        · exact all k later
    · rw [called]
      have follows : ∀ c ∈ r.2 ++ [(key, v)], ∀ k ∈ keys, c.1 < k := by
        intro c there k later
        rcases List.mem_append.mp there with old | new
        · exact behind c old k (List.mem_cons_of_mem _ later)
        · rw [List.mem_singleton.mp new]
          exact first k later
      have ordered : ((r.2 ++ [(key, v)]).map Prod.fst).Pairwise (· < ·) := by
        rw [List.map_append, List.pairwise_append]
        refine ⟨before, by simp, ?_⟩
        intro i there j last
        obtain ⟨c, old, rfl⟩ := List.mem_map.mp there
        have new : j = key := by simpa using last
        rw [new]
        exact behind c old key (by simp)
      have values : ∀ c ∈ r.2 ++ [(key, v)], c.2 ≠ 0 := by
        intro c there
        rcases List.mem_append.mp there with old | new
        · exact inside c old
        · rw [List.mem_singleton.mp new]
          exact nonzero
      obtain ⟨more, calls, from_keys, order, _⟩ := ih rest (s, r.2 ++ [(key, v)]) follows ordered
        values
      refine ⟨(key, v) :: more, ?_, ?_, ?_, ?_⟩
      · rw [calls, List.append_assoc]
        rfl
      · intro c there
        rcases List.mem_cons.mp there with rfl | later
        · exact ⟨by simp, nonzero⟩
        · exact ⟨List.mem_cons_of_mem _ (from_keys c later).1, (from_keys c later).2⟩
      · rw [List.append_assoc] at order
        exact order
      · intro none_called
        cases none_called

theorem pass_called (s : State) :
    ((destroyPass words run t s).2.map Prod.fst).Pairwise (· < ·) ∧
    (∀ c ∈ (destroyPass words run t s).2, c.1 < 32 * words ∧ c.2 ≠ 0) ∧
    ((destroyPass words run t s).2 = [] → Clean words t (destroyPass words run t s).1) := by
  obtain ⟨more, calls, from_keys, order, nothing⟩ := @destroy_keys run t (List.range (32 * words))
    List.pairwise_lt_range (s, []) (by simp) (by simp) (by simp)
  rw [List.nil_append] at calls order
  rw [destroyPass, calls]
  refine ⟨order, ?_, ?_⟩
  · intro c there
    exact ⟨List.mem_range.mp (from_keys c there).1, (from_keys c there).2⟩
  · intro none_called
    obtain ⟨same, clean⟩ := nothing none_called
    rw [same]
    intro d there k small
    exact clean k (List.mem_range.mpr small) d there

theorem loop_called (n : Nat) (s : State) :
    (Clean words t (destroyLoop words run t n s).1 ∨
      (destroyLoop words run t n s).2.length = n ∧ [] ∉ (destroyLoop words run t n s).2) ∧
    (destroyLoop words run t n s).2.length ≤ n ∧
    ∀ pass ∈ (destroyLoop words run t n s).2, (pass.map Prod.fst).Pairwise (· < ·) ∧
      ∀ c ∈ pass, c.1 < 32 * words ∧ c.2 ≠ 0 := by
  induction n generalizing s with
  | zero => exact ⟨Or.inr ⟨rfl, by simp [destroyLoop]⟩, Nat.le_refl 0, by simp [destroyLoop]⟩
  | succ n ih =>
    obtain ⟨order, values, clean⟩ := @pass_called words run t s
    rw [destroyLoop]
    by_cases none_called : (destroyPass words run t s).2 = []
    · simp only [none_called, if_true]
      refine ⟨Or.inl (clean none_called), by simp, ?_⟩
      intro pass there
      rw [List.mem_singleton.mp there]
      exact ⟨List.Pairwise.nil, by simp⟩
    · simp only [none_called, if_false]
      obtain ⟨ends, bound, passes⟩ := ih (destroyPass words run t s).1
      refine ⟨?_, ?_, ?_⟩
      · rcases ends with done | ⟨all, busy⟩
        · exact Or.inl done
        · refine Or.inr ⟨by rw [List.length_cons, all], ?_⟩
          intro there
          rcases List.mem_cons.mp there with first | later
          · exact none_called first.symm
          · exact busy later
      · rw [List.length_cons]
        omega
      · intro pass there
        rcases List.mem_cons.mp there with rfl | later
        · exact ⟨order, values⟩
        · exact passes pass later

end

/-- Whatever the destructors do, an exiting thread makes at most one pass over the keys more than
    the configured iterations; in a pass each key has its destructor called at most once, in the
    order of the keys and with a value that is there; and the thread exits with nothing left to
    destroy, unless every pass has called some destructor. -/
theorem exit_destructors (words : Nat) (run : Destructors) (iterations t : Nat) (s : State) :
    (Clean words t (exitDestructors words run iterations t s).1 ∨
      (exitDestructors words run iterations t s).2.length = iterations + 1 ∧
        [] ∉ (exitDestructors words run iterations t s).2) ∧
    (exitDestructors words run iterations t s).2.length ≤ iterations + 1 ∧
    ∀ pass ∈ (exitDestructors words run iterations t s).2,
      (pass.map Prod.fst).Pairwise (· < ·) ∧ ∀ c ∈ pass, c.1 < 32 * words ∧ c.2 ≠ 0 := by
  unfold exitDestructors
  split
  · exact loop_called (iterations + 1) s
  · rename_i other
    refine ⟨Or.inl ?_, Nat.zero_le _, by simp⟩
    intro d there
    exact absurd there (other d)

end ThreadKeys
