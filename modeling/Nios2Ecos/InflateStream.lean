import Mathlib.Data.List.Basic

/- A streaming decompressor as its caller sees it: each call is given some input and
   answers how much of it was used, what came out and a code. What the next call does
   may depend on all the calls before it. -/
namespace InflateStream

def zOk : Int := 0
def zStreamEnd : Int := 1
def zMemError : Int := -4
def zBufError : Int := -5

structure Reply where
  used : Nat
  out : List UInt8
  code : Int
  deriving DecidableEq, Repr

structure Call where
  given : List UInt8
  reply : Reply
  deriving DecidableEq, Repr

/-- `room` is the size of the output buffer every call is offered. -/
structure Inflater (room : Nat) where
  inflate : List Call → List UInt8 → Reply
  used_le : ∀ calls given, (inflate calls given).used ≤ given.length
  out_le : ∀ calls given, (inflate calls given).out.length ≤ room

def consumed (calls : List Call) : List UInt8 :=
  calls.flatMap (fun c => c.given.take c.reply.used)

def produced (calls : List Call) : List UInt8 :=
  calls.flatMap (fun c => c.reply.out)

variable {room : Nat} (z : Inflater room)

/-- The call that `z` answers next. -/
def Inflater.next (calls : List Call) (given : List UInt8) : Call :=
  ⟨given, z.inflate calls given⟩

inductive History : List Call → Prop where
  | start : History []
  | call (calls : List Call) (given : List UInt8) : History calls →
      History (calls ++ [z.next calls given])

/-- Every call that goes well moves the stream on, and finitely many bytes come out of
    finitely many. -/
structure Progresses : Prop where
  moves : ∀ calls given, History z calls → (z.inflate calls given).code = zOk →
    0 < (z.inflate calls given).used ∨ (z.inflate calls given).out ≠ []
  finite : ∀ body, ∃ bound, ∀ calls, History z calls → consumed calls <+: body →
    (produced calls).length ≤ bound

/-- `decode` is what the stream at the front of some data expands to, if it is a
    complete one. -/
structure Decodes (decode : List UInt8 → Option (List UInt8)) : Prop where
  sound : ∀ calls given, History z calls → (z.inflate calls given).code = zStreamEnd →
    ∀ rest, decode (consumed (calls ++ [z.next calls given]) ++ rest) =
      some (produced (calls ++ [z.next calls given]))
  live : ∀ calls given rest image, History z calls → (∀ c ∈ calls, c.reply.code = zOk) →
    decode (consumed calls ++ (given ++ rest)) = some image → given ≠ [] ∨ rest = [] →
    (z.inflate calls given).code = zOk ∨ (z.inflate calls given).code = zStreamEnd
  bounded : ∀ calls rest image, History z calls → (∀ c ∈ calls, c.reply.code = zOk) →
    decode (consumed calls ++ rest) = some image → (produced calls).length ≤ image.length

theorem consumed_snoc (calls : List Call) (c : Call) :
    consumed (calls ++ [c]) = consumed calls ++ c.given.take c.reply.used := by
  simp [consumed]

theorem produced_snoc (calls : List Call) (c : Call) :
    produced (calls ++ [c]) = produced calls ++ c.reply.out := by
  simp [produced]

section
variable (stream image : List UInt8) (small : image.length ≤ room)

/-- What is left of the one stream that is known after `calls`. -/
def leftOf (calls : List Call) : List UInt8 := stream.drop (consumed calls).length

/-- A decompressor for one stream: it takes input as long as it continues that stream
    and hands out the whole image at its end. -/
def known : Inflater room where
  inflate calls given :=
    if ∃ c ∈ calls, c.reply.code = zStreamEnd then ⟨0, [], zStreamEnd⟩
    else if leftOf stream calls <+: given then ⟨(leftOf stream calls).length, image, zStreamEnd⟩
    else if given = [] then ⟨0, [], zBufError⟩
    else if given <+: leftOf stream calls then ⟨given.length, [], zOk⟩
    else ⟨0, [], -3⟩
  used_le calls given := by
    split_ifs with ended whole
    · exact Nat.zero_le _
    · exact whole.length_le
    · exact Nat.zero_le _
    · exact Nat.le_refl _
    · exact Nat.zero_le _
  out_le calls given := by
    split_ifs
    · exact Nat.zero_le _
    · exact small
    · exact Nat.zero_le _
    · exact Nat.zero_le _
    · exact Nat.zero_le _

def decodeKnown (data : List UInt8) : Option (List UInt8) :=
  if stream <+: data then some image else none

/- Before the end nothing has come out and part of the stream has gone in; after it
   everything has. -/
def KnownState (calls : List Call) : Prop :=
  consumed calls ++ leftOf stream calls = stream ∧
  ((∀ c ∈ calls, c.reply.code ≠ zStreamEnd) → produced calls = []) ∧
  ((∃ c ∈ calls, c.reply.code = zStreamEnd) →
    leftOf stream calls = [] ∧ produced calls = image)

theorem left_of_snoc (calls : List Call) (c : Call) :
    leftOf stream (calls ++ [c]) =
      (leftOf stream calls).drop (c.given.take c.reply.used).length := by
  simp only [leftOf, consumed_snoc, List.length_append, List.drop_drop]

theorem unfinished {calls : List Call} (going : ¬ ∃ c ∈ calls, c.reply.code = zStreamEnd) :
    ∀ c ∈ calls, c.reply.code ≠ zStreamEnd := by
  intro c mem code
  exact going ⟨c, mem, code⟩

theorem still_going {calls : List Call} {last : Call} {code : Int}
    (going : ¬ ∃ c ∈ calls, c.reply.code = zStreamEnd) (answer : last.reply.code = code)
    (more : code ≠ zStreamEnd) :
    ¬ ∃ c, (c ∈ calls ∨ c = last) ∧ c.reply.code = zStreamEnd := by
  rintro ⟨c, old | rfl, ended⟩
  · exact going ⟨c, old, ended⟩
  · exact more (answer.symm.trans ended)

theorem known_next (calls : List Call) (given : List UInt8) (h : KnownState stream image calls) :
    KnownState stream image (calls ++ [(known stream image small).next calls given]) := by
  obtain ⟨order, before, after⟩ := h
  unfold KnownState
  rw [consumed_snoc, produced_snoc, left_of_snoc]
  simp only [List.mem_append, List.mem_singleton]
  unfold Inflater.next known
  dsimp only
  split_ifs with ended whole empty part
  · obtain ⟨nothing, all⟩ := after ended
    rw [nothing, List.append_nil] at order
    simp only [List.take_zero, List.length_nil, List.drop_zero, List.append_nil, nothing, order]
    refine ⟨trivial, ?_, fun _ => ⟨trivial, all⟩⟩
    intro none
    obtain ⟨c, mem, code⟩ := ended
    exact absurd code (none c (Or.inl mem))
  · obtain ⟨rest, split⟩ := whole
    have front : given.take (leftOf stream calls).length = leftOf stream calls := by
      rw [← split, List.take_left]
    rw [front, List.drop_length, List.append_nil, order, before (unfinished ended)]
    refine ⟨rfl, ?_, fun _ => ⟨rfl, rfl⟩⟩
    intro none
    exact absurd rfl (none _ (Or.inr rfl))
  · simp only [List.take_zero, List.length_nil, List.drop_zero, List.append_nil, order]
    refine ⟨trivial, fun _ => before (unfinished ended), ?_⟩
    intro finished
    exact absurd finished (@still_going calls _ zBufError ended rfl (by decide))
  · obtain ⟨rest, split⟩ := part
    rw [← split] at order
    rw [List.take_length, ← split, List.drop_left, List.append_assoc, order, List.append_nil]
    refine ⟨rfl, fun _ => before (unfinished ended), ?_⟩
    intro finished
    exact absurd finished (@still_going calls _ zOk ended rfl (by decide))
  · simp only [List.take_zero, List.length_nil, List.drop_zero, List.append_nil, order]
    refine ⟨trivial, fun _ => before (unfinished ended), ?_⟩
    intro finished
    exact absurd finished (@still_going calls _ (-3) ended rfl (by decide))

theorem known_history (calls : List Call) (h : History (known stream image small) calls) :
    KnownState stream image calls := by
  induction h with
  | start =>
    refine ⟨rfl, fun _ => rfl, ?_⟩
    rintro ⟨c, mem, -⟩
    cases mem
  | call calls given _ ih => exact known_next stream image small calls given ih

theorem known_bounded (calls : List Call) (h : History (known stream image small) calls) :
    (produced calls).length ≤ image.length := by
  obtain ⟨-, before, after⟩ := known_history stream image small calls h
  by_cases ended : ∃ c ∈ calls, c.reply.code = zStreamEnd
  · exact Nat.le_of_eq (congrArg List.length (after ended).2)
  · rw [before (unfinished ended)]
    exact Nat.zero_le _

theorem known_progresses : Progresses (known stream image small) := by
  constructor
  · intro calls given _ ok
    unfold known at ok ⊢
    dsimp only at ok ⊢
    split_ifs at ok ⊢ with ended whole empty part
    · cases ok
    · cases ok
    · cases ok
    · exact Or.inl (List.length_pos_of_ne_nil empty)
    · cases ok
  · intro body
    exact ⟨image.length, fun calls history _ => known_bounded stream image small calls history⟩

theorem known_decodes : Decodes (known stream image small) (decodeKnown stream image) := by
  constructor
  · intro calls given history ended rest
    obtain ⟨order, -, after⟩ := known_history stream image small _ (.call calls given history)
    obtain ⟨nothing, all⟩ := after ⟨_, List.mem_append_right _ List.mem_cons_self, ended⟩
    rw [nothing, List.append_nil] at order
    rw [order, all]
    exact if_pos ⟨rest, rfl⟩
  · intro calls given rest answer history fine whole more
    obtain ⟨order, -, -⟩ := known_history stream image small calls history
    have ahead : leftOf stream calls <+: given ++ rest := by
      unfold decodeKnown at whole
      split at whole
      · rename_i front
        obtain ⟨tail, eq⟩ := front
        refine ⟨tail, ?_⟩
        rw [← order, List.append_assoc] at eq
        exact List.append_cancel_left eq
      · cases whole
    have open_ : ¬ ∃ c ∈ calls, c.reply.code = zStreamEnd := by
      rintro ⟨c, mem, code⟩
      rw [fine c mem] at code
      cases code
    unfold known
    dsimp only
    rw [if_neg open_]
    by_cases complete : leftOf stream calls <+: given
    · rw [if_pos complete]
      exact Or.inr rfl
    · rw [if_neg complete]
      have part : given <+: leftOf stream calls :=
        (List.prefix_or_prefix_of_prefix ahead ⟨rest, rfl⟩).resolve_left complete
      have some : given ≠ [] := by
        intro none
        subst none
        rcases more with no | no
        · exact no rfl
        · subst no
          exact complete ahead
      rw [if_neg some, if_pos part]
      exact Or.inl rfl
  · intro calls rest answer history _ whole
    have all := known_bounded stream image small calls history
    unfold decodeKnown at whole
    split at whole
    · cases whole
      exact all
    · cases whole

end

end InflateStream
