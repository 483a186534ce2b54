import Mathlib.Algebra.BigOperators.Group.List.Basic
import Nios2Ecos.LcdText

/- How far the timer calls carry scrollpos, and that the repaint loop ends. -/
namespace LcdTicks
open LcdDriver LcdText

/-- scrollpos after a timer call -/
def advance (scrollmax scrollpos : Int) : Int :=
  if scrollmax ≤ scrollpos + 1 then 0 else char (scrollpos + 1)

section
variable {m p : Int}

theorem advance_range (scrolls : 0 < m) (small : m ≤ 127) (start : 0 ≤ p) :
    0 ≤ advance m p ∧ advance m p < m := by
  unfold advance char
  split <;> omega

theorem advances_nonneg (small : m ≤ 127) (start : 0 ≤ p) (k : Nat) : 0 ≤ (advance m)^[k] p := by
  induction k generalizing p with
  | zero => exact start
  | succ k ih =>
    apply ih
    unfold advance char
    split <;> omega

theorem advance_cyclic (small : m ≤ 127) (start : 0 ≤ p) (inside : p < m) (k : Nat) :
    (advance m)^[k] p = (p + k) % m := by
  induction k with
  | zero =>
    change p = (p + 0) % m
    rw [Int.add_zero, Int.emod_eq_of_lt start inside]
  | succ k ih =>
    have low := Int.emod_nonneg (p + k) (show m ≠ 0 by omega)
    have high := Int.emod_lt_of_pos (p + k) (show 0 < m by omega)
    have next : (p + (k + 1 : Nat)) % m = ((p + k) % m + 1) % m := by
      rw [Int.emod_add_emod, Int.natCast_succ, Int.add_assoc]
    rw [Function.iterate_succ_apply', ih, next]
    generalize (p + k) % m = r at low high
    unfold advance
    split
    · have last : r + 1 = m := by omega
      rw [last, Int.emod_self]
    · rw [Int.emod_eq_of_lt (by omega) (by omega), char]
      omega

theorem advance_succ (scrolls : 0 < m) (small : m ≤ 127) (start : 0 ≤ p) (k : Nat) :
    (advance m)^[k + 1] p = (advance m p + k) % m := by
  obtain ⟨low, high⟩ := advance_range scrolls small start
  rw [Function.iterate_succ_apply, advance_cyclic small low high]

/-- From any time on, scrollpos takes every value within one round. -/
theorem advance_reaches (scrolls : 0 < m) (small : m ≤ 127) (start : 0 ≤ p) {q : Int}
    (low : 0 ≤ q) (high : q < m) {t : Nat} (begun : 0 < t) :
    ∃ s : Nat, t ≤ s ∧ (s : Int) < t + m ∧ (advance m)^[s] p = q := by
  obtain ⟨k, rfl⟩ : ∃ k, t = k + 1 := ⟨t - 1, by omega⟩
  have wait := Int.emod_nonneg (q - (advance m p + k)) (show m ≠ 0 by omega)
  have less := Int.emod_lt_of_pos (q - (advance m p + k)) scrolls
  refine ⟨k + ((q - (advance m p + k)) % m).toNat + 1, by omega, by omega, ?_⟩
  have sum : advance m p + (k + ((q - (advance m p + k)) % m).toNat : Nat)
      = advance m p + k + (q - (advance m p + k)) % m := by omega
  rw [advance_succ scrolls small start, sum, Int.add_emod_emod, Int.add_comm, Int.sub_add_cancel,
    Int.emod_eq_of_lt low high]

/-- With fewer calls than scrollmax, only none at all leaves scrollpos where it was. -/
theorem advance_still (scrolls : 0 < m) (small : m ≤ 127) (start : 0 ≤ p) {k : Nat}
    (few : (k : Int) < m) (still : (advance m)^[k] p = p) : k = 0 := by
  by_cases inside : p < m
  · rw [advance_cyclic small start inside] at still
    have whole := Int.dvd_self_sub_of_emod_eq still
    rw [Int.add_comm, Int.add_sub_cancel] at whole
    have none := Int.eq_zero_of_dvd_of_nonneg_of_lt (Int.natCast_nonneg k) few whole
    omega
  · cases k with
    | zero => rfl
    | succ k =>
      rw [advance_succ scrolls small start] at still
      have high := Int.emod_lt_of_pos (advance m p + k) scrolls
      omega

end

/-- There have been `k` timer calls between the two. -/
structure Elapsed (w v : World) (k : Nat) : Prop where
  spent : v.ticks.sum + k = w.ticks.sum
  scrollmax : v.dev.scrollmax = w.dev.scrollmax
  scrolled : v.dev.scrollpos = (advance w.dev.scrollmax)^[k] w.dev.scrollpos

def Later (w v : World) : Prop := ∃ k, Elapsed w v k

theorem Elapsed.trans {w v u : World} {j k : Nat} (first : Elapsed w v j)
    (second : Elapsed v u k) : Elapsed w u (j + k) := by
  have spent := first.spent
  have spent' := second.spent
  refine ⟨by omega, second.scrollmax.trans first.scrollmax, ?_⟩
  rw [second.scrolled, first.scrollmax, first.scrolled, ← Function.iterate_add_apply,
    Nat.add_comm]

theorem Later.refl (w : World) : Later w w := ⟨0, rfl, rfl, rfl⟩

theorem Later.trans {w v u : World} (first : Later w v) (second : Later v u) : Later w u := by
  obtain ⟨j, first⟩ := first
  obtain ⟨k, second⟩ := second
  exact ⟨j + k, first.trans second⟩

/-- What an access to the panel leaves alone, beside the settings. -/
structure Instant (w v : World) : Prop where
  ticks : v.ticks = w.ticks
  trace : v.trace = w.trace
  scrollpos : v.dev.scrollpos = w.dev.scrollpos

theorem Instant.trans {w v u : World} (first : Instant w v) (second : Instant v u) :
    Instant w u :=
  ⟨second.ticks.trans first.ticks, second.trace.trans first.trace,
    second.scrollpos.trans first.scrollpos⟩

theorem instant_command (command : UInt8) (w : World) :
    Instant w (lcdWriteCommand command w) := by
  unfold lcdWriteCommand access
  split
  · exact ⟨rfl, rfl, rfl⟩
  · dsimp only
    split <;> exact ⟨rfl, rfl, rfl⟩

theorem instant_data (c : UInt8) (w : World) : Instant w (lcdWriteData c w) := by
  unfold lcdWriteData access
  split
  · exact ⟨rfl, rfl, rfl⟩
  · dsimp only
    split <;> exact ⟨rfl, rfl, rfl⟩

theorem repaint_instant (w : World) : Instant w (lcdRepaintScreen (fun _ w => w) w) := by
  have drawn : Drawn (fun _ w => w) (Instant w) := by
    refine ⟨fun _ same => same, ?_, ?_, ?_, ?_, ?_⟩
    · intro v command same
      exact same.trans (instant_command command v)
    · intro v c same
      exact same.trans (instant_data c v)
    all_goals
      intro v _ same
      exact ⟨same.ticks, same.trace, same.scrollpos⟩
  exact drawn_repaint drawn ⟨rfl, rfl, rfl⟩

theorem timeout_moves (w : World) : (timeout w).ticks = w.ticks ∧
    (timeout w).trace = w.trace ∧
    (timeout w).dev.scrollpos = advance w.dev.scrollmax w.dev.scrollpos := by
  unfold timeout
  dsimp only
  split
  · obtain ⟨ticks, trace, scrollpos⟩ := repaint_instant (w.assign fun d => { d with
      scrollpos := if d.scrollmax ≤ d.scrollpos + 1 then 0 else char (d.scrollpos + 1) })
    exact ⟨ticks, trace, scrollpos⟩
  · exact ⟨rfl, rfl, rfl⟩

theorem interrupt_moves (moment : Moment) (w : World) : (interrupt moment w).ticks = w.ticks ∧
    (interrupt moment w).dev.scrollpos = advance w.dev.scrollmax w.dev.scrollpos := by
  obtain ⟨ticks, -, scrollpos⟩ := timeout_moves w
  unfold interrupt
  split <;> exact ⟨ticks, scrollpos⟩

theorem interrupts_move (moment : Moment) (n : Nat) (w : World) :
    ((interrupt moment)^[n] w).ticks = w.ticks ∧
      ((interrupt moment)^[n] w).dev.scrollpos
        = (advance w.dev.scrollmax)^[n] w.dev.scrollpos := by
  induction n generalizing w with
  | zero => exact ⟨rfl, rfl⟩
  | succ n ih =>
    obtain ⟨ticks, scrollpos⟩ := interrupt_moves moment w
    have scrollmax := scrollmax_of (settings_interrupt moment w)
    have rest := ih (interrupt moment w)
    rw [Function.iterate_succ_apply, Function.iterate_succ_apply]
    rw [ticks, scrollpos, scrollmax] at rest
    exact rest

theorem later_gap (moment : Moment) (w : World) : Later w (gap moment w) := by
  have scrollmax := scrollmax_of (settings_gap moment w)
  unfold gap at scrollmax ⊢
  split at scrollmax
  · exact ⟨0, rfl, rfl, rfl⟩
  · rename_i n rest ticks
    obtain ⟨left, scrollpos⟩ := interrupts_move moment n ({ w with ticks := rest }.record moment)
    refine ⟨n, ?_, scrollmax, scrollpos⟩
    rw [left, ticks, List.sum_cons]
    exact Nat.add_comm _ _

theorem later_instant {w v : World} (instant : Instant w v) (same : settings v = settings w) :
    Later w v :=
  ⟨0, congrArg List.sum instant.ticks, scrollmax_of same, instant.scrollpos⟩

theorem later_drawn (w : World) : Drawn gap (Later w) where
  pause := fun v later => later.trans (later_gap .painting v)
  command := fun v command later =>
    later.trans (later_instant (instant_command command v) (settings_command command v))
  data := fun v c later => later.trans (later_instant (instant_data c v) (settings_data c v))
  address := fun _ _ ⟨k, spent, scrollmax, scrolled⟩ => ⟨k, spent, scrollmax, scrolled⟩
  visible := fun _ _ ⟨k, spent, scrollmax, scrolled⟩ => ⟨k, spent, scrollmax, scrolled⟩
  check := fun _ _ ⟨k, spent, scrollmax, scrolled⟩ => ⟨k, spent, scrollmax, scrolled⟩

theorem later_repaint (w : World) : Later w (lcdRepaintScreen gap w) :=
  drawn_repaint (later_drawn w) (Later.refl w)

theorem later_once (w : World) : Later w (repaintOnce w) := by
  have start := later_gap .elsewhere w
  unfold repaintOnce
  dsimp only
  generalize gap .elsewhere w = v at start
  have painted := start.trans (later_repaint v)
  generalize lcdRepaintScreen gap v = p at painted
  have paused := painted.trans (later_gap .elsewhere p)
  generalize gap .elsewhere p = q at paused
  obtain ⟨k, spent, scrollmax, scrolled⟩ := paused
  have released : Later w (q.assign fun d => { d with active := false }) :=
    ⟨k, spent, scrollmax, scrolled⟩
  exact released.trans (later_gap .elsewhere _)

theorem settings_once (w : World) :
    settings (repaintOnce w) = { settings w with active := false } := by
  unfold repaintOnce
  dsimp only
  have same : settings (gap .elsewhere (lcdRepaintScreen gap (gap .elsewhere w))) = settings w := by
    rw [settings_gap, settings_repaint gap (settings_gap .painting), settings_gap]
  generalize gap .elsewhere (lcdRepaintScreen gap (gap .elsewhere w)) = v at same
  rw [settings_gap]
  change { settings v with active := false } = _
  rw [same]

/-- The state in which the repaint loop starts over. -/
def resumed (w : World) : World := gap .elsewhere (w.assign fun d => { d with active := true })

theorem putc_finish (c : UInt8) (w : World) :
    putc c w = (finish (gap .elsewhere (receive c (resumed w)))).record .returned := rfl

theorem repaint_loop_succ (turns : Nat) (w : World) : repaintLoop (turns + 1) w
    = if (repaintOnce w).dev.scrollpos = w.dev.scrollpos then repaintOnce w
      else repaintLoop turns (resumed (gap .elsewhere (repaintOnce w))) := by
  rw [repaintLoop]
  unfold repaintTurn
  generalize repaintOnce w = v
  dsimp only
  by_cases still : v.dev.scrollpos = w.dev.scrollpos
  · rw [if_pos still, if_pos still, if_pos rfl]
  · rw [if_neg still, if_neg still, if_neg Bool.false_ne_true]
    rfl

theorem settings_resumed {w : World} (active : w.dev.active = true) :
    settings (resumed (gap .elsewhere (repaintOnce w))) = settings w := by
  have once := (settings_gap .elsewhere (repaintOnce w)).trans (settings_once w)
  have held : (settings w).active = true := active
  unfold resumed
  generalize gap .elsewhere (repaintOnce w) = v at once
  rw [settings_gap]
  change { settings v with active := true } = _
  rw [once, ← held]

/-- A turn that does not break has used up a timer call. -/
theorem resumed_spent {w : World} (moved : (repaintOnce w).dev.scrollpos ≠ w.dev.scrollpos) :
    (resumed (gap .elsewhere (repaintOnce w))).ticks.sum < w.ticks.sum := by
  obtain ⟨k, spent, -, scrolled⟩ := later_once w
  have some_call : k ≠ 0 := by
    rintro rfl
    exact moved scrolled
  unfold resumed
  generalize repaintOnce w = u at spent
  obtain ⟨i, before, -, -⟩ := later_gap .elsewhere u
  generalize gap .elsewhere u = v at before
  obtain ⟨j, rest, -, -⟩ := later_gap .elsewhere (v.assign fun d => { d with active := true })
  have same : (v.assign fun d => { d with active := true }).ticks = v.ticks := rfl
  rw [same] at rest
  omega

/-- What every turn preserves holds before the last one, which leaves scrollpos as it was. -/
theorem loop_ends {P : World → Prop}
    (again : ∀ w, P w → (repaintOnce w).dev.scrollpos ≠ w.dev.scrollpos →
      P (resumed (gap .elsewhere (repaintOnce w))))
    {w : World} (start : P w) (turns : Nat) (enough : w.ticks.sum < turns) :
    ∃ u, P u ∧ repaintLoop turns w = repaintOnce u
      ∧ (repaintOnce u).dev.scrollpos = u.dev.scrollpos := by
  induction turns generalizing w with
  | zero => omega
  | succ turns ih =>
    rw [repaint_loop_succ]
    by_cases still : (repaintOnce w).dev.scrollpos = w.dev.scrollpos
    · rw [if_pos still]
      exact ⟨w, start, rfl, still⟩
    · have spent := resumed_spent still
      rw [if_neg still]
      exact ih (again w start still) (by omega)

theorem finish_ends {P : World → Prop}
    (again : ∀ w, P w → (repaintOnce w).dev.scrollpos ≠ w.dev.scrollpos →
      P (resumed (gap .elsewhere (repaintOnce w))))
    {w : World} (start : P (gap .elsewhere (rescale w))) :
    ∃ u, P u ∧ finish w = repaintOnce u ∧ (repaintOnce u).dev.scrollpos = u.dev.scrollpos := by
  unfold finish
  dsimp only
  generalize gap .elsewhere (rescale w) = v at start
  exact loop_ends again start (v.ticks.sum + 1) (Nat.lt_succ_self _)

end LcdTicks
