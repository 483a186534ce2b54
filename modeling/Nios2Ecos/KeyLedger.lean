import Mathlib.Data.List.Basic
import Mathlib.Data.List.Perm.Basic
import Mathlib.Data.List.Nodup

/- Keys that are handed out once and taken back once. What was sent is what was
   reported and what is still outstanding, up to order. -/
namespace KeyLedger
variable {K : Type}

structure Balanced (sent reported outstanding : List K) : Prop where
  distinct : sent.Nodup
  accounted : sent.Perm (reported ++ outstanding)

variable {sent reported outstanding left : List K} {k : K}

theorem balanced_nil : Balanced ([] : List K) [] [] :=
  ⟨List.nodup_nil, List.Perm.refl []⟩

theorem balanced_send (balanced : Balanced sent reported outstanding) (fresh : k ∉ sent)
    (taken : left.Perm (k :: outstanding)) : Balanced (sent ++ [k]) reported left := by
  constructor
  · apply List.Nodup.append balanced.distinct (List.nodup_singleton k)
    intro other early last
    have same := List.mem_singleton.mp last
    subst same
    exact fresh early
  · have moved : (sent ++ [k]).Perm (k :: (reported ++ outstanding)) :=
      List.perm_append_comm.trans (balanced.accounted.cons k)
    have placed : (reported ++ left).Perm (reported ++ k :: outstanding) :=
      taken.append_left reported
    exact moved.trans (List.perm_middle.symm.trans placed.symm)

theorem balanced_report (balanced : Balanced sent reported outstanding)
    (given : outstanding.Perm (k :: left)) : Balanced sent (reported ++ [k]) left := by
  refine ⟨balanced.distinct, ?_⟩
  have placed : (reported ++ outstanding).Perm (reported ++ k :: left) :=
    given.append_left reported
  rw [List.append_assoc]
  exact balanced.accounted.trans placed

theorem all_distinct (balanced : Balanced sent reported outstanding) :
    (reported ++ outstanding).Nodup :=
  balanced.accounted.nodup_iff.mp balanced.distinct

theorem reported_nodup (balanced : Balanced sent reported outstanding) : reported.Nodup :=
  List.Nodup.of_append_left (all_distinct balanced)

theorem outstanding_not_reported (balanced : Balanced sent reported outstanding)
    (waits : k ∈ outstanding) : k ∉ reported := by
  intro early
  exact List.disjoint_of_nodup_append (all_distinct balanced) early waits

theorem sent_cases (balanced : Balanced sent reported outstanding) (mem : k ∈ sent) :
    k ∈ reported ∨ k ∈ outstanding :=
  List.mem_append.mp (balanced.accounted.mem_iff.mp mem)

end KeyLedger
