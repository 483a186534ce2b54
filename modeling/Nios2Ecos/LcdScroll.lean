import Mathlib.Tactic.Linarith
import Nios2Ecos.LcdBounds
import Nios2Ecos.LcdDisplay

/- What the scrolling of the timer shows of two lines, from the end of a call of putc on. -/
namespace LcdScroll
open LcdDriver LcdText LcdTicks LcdBounds LcdDisplay

def after (t : Nat) (w : World) : World := (interrupt .elsewhere)^[t] w

def offset (w : World) (y : Nat) : Int := offsetOf w.dev.scrollpos w.dev y

def Appears (w : World) (y i : Nat) : Prop :=
  ∃ x : Nat, x < 16 ∧ (x + offset w y).tmod (w.dev.width y) = i ∧
    w.dev.visible y x = w.dev.text.data y i

/-- The lines go round one position at a time, come back to 0 and to where they were once in a
    period, and show in each period all the characters of a line that is longer than the panel. -/
structure Scrolls (w : World) (period : Nat) : Prop where
  inside : ∀ t, ∀ y < 2, 0 ≤ offset (after t w) y ∧ offset (after t w) y < w.dev.width y
  advances : ∀ t, ∀ y < 2, offset (after (t + 1) w) y = offset (after t w) y ∨
    offset (after (t + 1) w) y = (offset (after t w) y + 1) % w.dev.width y
  periodic : ∀ t > 0, ∀ y < 2, offset (after (t + period) w) y = offset (after t w) y
  returns : ∀ t > 0, ∃ s, t ≤ s ∧ s < t + period ∧ ∀ y < 2, offset (after s w) y = 0
  covers : ∀ y < 2, 16 < lineLength (w.dev.text.data y) 80 →
    ∀ i < lineLength (w.dev.text.data y) 80, ∀ t > 0,
      ∃ s, t ≤ s ∧ s < t + period ∧ Appears (after s w) y i

structure Turning (m speed width : Int) : Prop where
  forward : 0 ≤ speed
  slow : speed ≤ 128
  once : m * speed ≤ 256 * width
  whole : 256 * (width - 1) ≤ (m - 1) * speed

theorem turning_of_widths {width widest : Int} (long : 16 < width) (most : width ≤ widest)
    (short : widest ≤ 63) : Turning (widest * 2) (256 * width / (widest * 2) % 256) width := by
  have positive : 0 < widest * 2 := by omega
  have forward : 0 ≤ 256 * width / (widest * 2) := Int.ediv_nonneg (by omega) (by omega)
  have slow : 256 * width / (widest * 2) ≤ 128 :=
    Int.ediv_le_of_le_mul positive (by omega)
  have once := Int.mul_ediv_self_le (x := 256 * width) (k := widest * 2) (by omega)
  have whole := Int.lt_mul_ediv_self_add (x := 256 * width) (k := widest * 2) positive
  rw [Int.emod_eq_of_lt forward (by omega)]
  generalize 256 * width / (widest * 2) = speed at forward slow once whole
  refine ⟨forward, slow, once, ?_⟩
  rw [Int.sub_mul]
  omega

def offsetAt (speed width p : Int) : Int :=
  if width ≤ p * speed / 256 then 0 else p * speed / 256

section
variable {m speed width p : Int}

theorem offset_inside (turning : Turning m speed width) (before : p < m) (some_width : 0 < width) :
    offsetAt speed width p = p * speed / 256 ∧ p * speed / 256 < width := by
  have bound : p * speed < 256 * width := by
    have most : p * speed ≤ (m - 1) * speed :=
      Int.mul_le_mul_of_nonneg_right (by omega) turning.forward
    have once := turning.once
    have forward := turning.forward
    rw [Int.sub_mul] at most
    by_cases still : speed = 0
    · subst still
      omega
    · omega
  have low : p * speed / 256 < width := by omega
  exact ⟨if_neg (by omega), low⟩

theorem offset_step (turning : Turning m speed width) (start : 0 ≤ p) (small : m ≤ 127)
    (some_width : 0 < width) : offsetAt speed width (advance m p) = offsetAt speed width p ∨
      offsetAt speed width (advance m p) = (offsetAt speed width p + 1) % width := by
  have forward := turning.forward
  have slow := turning.slow
  have product : 0 ≤ p * speed := Int.mul_nonneg start forward
  by_cases last : m ≤ p + 1
  · have far : 256 * (width - 1) ≤ p * speed := by
      have most : (m - 1) * speed ≤ p * speed :=
        Int.mul_le_mul_of_nonneg_right (by omega) forward
      have whole := turning.whole
      omega
    have home : offsetAt speed width (advance m p) = 0 := by
      unfold offsetAt advance
      rw [if_pos last, Int.zero_mul]
      exact if_neg (by omega)
    rw [home]
    unfold offsetAt
    split
    · exact Or.inl rfl
    · have edge : p * speed / 256 + 1 = width := by omega
      rw [edge, Int.emod_self]
      exact Or.inr rfl
  · have next : advance m p = p + 1 := by
      unfold advance char
      rw [if_neg last]
      omega
    obtain ⟨here, low⟩ := offset_inside turning (show p < m by omega) some_width
    obtain ⟨there, low'⟩ := offset_inside turning (show p + 1 < m by omega) some_width
    rw [next, here, there]
    have split : (p + 1) * speed = p * speed + speed := by rw [Int.add_mul, Int.one_mul]
    rw [split] at low' ⊢
    by_cases same : (p * speed + speed) / 256 = p * speed / 256
    · exact Or.inl same
    · rw [Int.emod_eq_of_lt (by omega) (by omega)]
      omega

/-- Every offset up to the one reached at `n` is passed on the way there. -/
theorem offset_passed (forward : 0 ≤ speed) (slow : speed ≤ 128) {target : Int}
    (start : 0 ≤ target) (n : Nat) (reached : 256 * target ≤ n * speed) :
    ∃ q : Nat, q ≤ n ∧ q * speed / 256 = target := by
  induction n with
  | zero => exact ⟨0, Nat.le_refl 0, by simp at reached ⊢; omega⟩
  | succ n ih =>
    by_cases before : 256 * target ≤ n * speed
    · obtain ⟨q, low, there⟩ := ih before
      exact ⟨q, by omega, there⟩
    · refine ⟨n + 1, Nat.le_refl _, ?_⟩
      have split : ((n + 1 : Nat) : Int) * speed = n * speed + speed := by
        rw [Int.natCast_succ, Int.add_mul, Int.one_mul]
      rw [split] at reached ⊢
      omega

end

theorem after_settings (t : Nat) (w : World) : settings (after t w) = settings w :=
  settings_interrupts .elsewhere t w

theorem after_offset (t : Nat) (w : World) (y : Nat) : offset (after t w) y
    = offsetAt (w.dev.speed y) (w.dev.width y) ((advance w.dev.scrollmax)^[t] w.dev.scrollpos) := by
  have same := after_settings t w
  have scrollpos : (after t w).dev.scrollpos = (advance w.dev.scrollmax)^[t] w.dev.scrollpos :=
    (interrupts_move .elsewhere t w).2
  unfold offset
  generalize after t w = v at same scrollpos
  rw [offset_of_settings same, scrollpos]
  rfl

structure Settled (w : World) : Prop where
  paced : Paced (settings w)
  idle : w.dev.active = false
  scrolled : 0 ≤ w.dev.scrollpos

theorem rescaled_active (s : Settings) : (rescaled s).active = s.active := by
  have widths : (withWidth 1 (withWidth 0 s)).active = s.active := rfl
  unfold rescaled
  dsimp only
  generalize withWidth 1 (withWidth 0 s) = u at widths
  split
  · exact widths
  · obtain ⟨-, -, -, first, -⟩ := with_pace_spec
      { u with scrollmax := char (widest u.text * 2 : Nat) } (widest u.text * 2 : Nat) 0
    obtain ⟨-, -, -, second, -⟩ := with_pace_spec
      (withPace (widest u.text * 2 : Nat) 0 { u with scrollmax := char (widest u.text * 2 : Nat) })
      (widest u.text * 2 : Nat) 1
    exact second.trans (first.trans widths)

theorem finish_settings {w : World} (active : w.dev.active = true) :
    settings (finish w) = { rescaled (settings w) with active := false } := by
  have held : (rescaled (settings w)).active = true := (rescaled_active _).trans active
  obtain ⟨u, last, done, -⟩ := finish_ends (P := fun v => settings v = rescaled (settings w)) (by
    intro v same _
    exact (settings_resumed ((active_of same).trans held)).trans same)
    ((settings_gap .elsewhere _).trans (settings_rescale w))
  rw [done, settings_once, last]

theorem finish_settled {w : World} (working : Working w) : Settled (finish w) := by
  have same := finish_settings working.2
  have paced := rescaled_paced (settings w)
  have fit := (ready_finish working).1
  generalize finish w = v at same fit
  refine ⟨?_, active_of same, fit.scrolled⟩
  rw [same]
  exact ⟨paced.measured, paced.still, paced.scrolling⟩

theorem offset_still {width : Int} (some_width : 0 < width) (p : Int) : offsetAt 0 width p = 0 := by
  unfold offsetAt
  rw [Int.mul_zero]
  exact if_neg (by omega)

theorem display_width_long {row : Nat → UInt8} (long : 16 < lineLength row 80) :
    displayWidth row = lineLength row 80 + 1 :=
  if_neg (by omega)

theorem widest_range (t : Text) : 16 ≤ widest t ∧ widest t ≤ 81 ∧
    ∀ y < 2, displayWidth (t.data y) ≤ widest t := by
  have first := display_width_range (t.data 0)
  have second := display_width_range (t.data 1)
  unfold widest
  refine ⟨by omega, by omega, ?_⟩
  intro y row
  obtain rfl | rfl : y = 0 ∨ y = 1 := by omega
  · exact Nat.le_max_left _ _
  · exact Nat.le_max_right _ _

theorem widest_short {t : Text} (short : ∀ y < 2, lineLength (t.data y) 80 ≤ 62) :
    widest t ≤ 63 := by
  have first := short 0 (by decide)
  have second := short 1 (by decide)
  unfold widest displayWidth
  split <;> split <;> omega

section
variable {w : World}

theorem settled_width (settled : Settled w) {y : Nat} (row : y < 2) :
    w.dev.width y = displayWidth (w.dev.text.data y) ∧ 16 ≤ w.dev.width y := by
  have width : w.dev.width y = displayWidth (w.dev.text.data y) := settled.paced.measured y row
  have range := display_width_range (w.dev.text.data y)
  exact ⟨width, by omega⟩

theorem settled_inside (settled : Settled w) (limited : w.dev.scrollmax ≤ 127)
    (speeds : ∀ y < 2, 0 ≤ w.dev.speed y) (t y : Nat) (row : y < 2) :
    0 ≤ offset (after t w) y ∧ offset (after t w) y < w.dev.width y := by
  obtain ⟨-, wide⟩ := settled_width settled row
  have scrolled := advances_nonneg limited settled.scrolled t
  have bounds := offset_range (d := w.dev) (y := y) scrolled (speeds y row) (by omega)
  rw [after_offset]
  exact bounds

theorem scrolls_narrow (settled : Settled w) (narrow : widest w.dev.text ≤ 16) : Scrolls w 1 := by
  obtain ⟨stopped, slow⟩ := settled.paced.still narrow
  have rest : ∀ t, ∀ y < 2, offset (after t w) y = 0 := by
    intro t y row
    obtain ⟨-, wide⟩ := settled_width settled row
    have speed : w.dev.speed y = 0 := slow y row
    rw [after_offset, speed]
    exact offset_still (by omega) _
  constructor
  · intro t y row
    obtain ⟨-, wide⟩ := settled_width settled row
    rw [rest t y row]
    omega
  · intro t y row
    rw [rest (t + 1) y row, rest t y row]
    exact Or.inl rfl
  · intro t _ y row
    rw [rest (t + 1) y row, rest t y row]
  · intro t _
    exact ⟨t, Nat.le_refl t, Nat.lt_succ_self t, rest t⟩
  · intro y row long
    have most := (widest_range w.dev.text).2.2 y row
    rw [display_width_long long] at most
    omega

theorem settled_speed (settled : Settled w) (wide : 16 < widest w.dev.text)
    (short : widest w.dev.text ≤ 63) : w.dev.scrollmax = widest w.dev.text * 2 ∧ ∀ y < 2,
      (16 < w.dev.width y → Turning w.dev.scrollmax (w.dev.speed y) (w.dev.width y)) ∧
      (w.dev.width y ≤ 16 → w.dev.speed y = 0) := by
  obtain ⟨goes, speeds⟩ := settled.paced.scrolling wide
  have scrollmax : w.dev.scrollmax = widest w.dev.text * 2 := by
    have wrapped : w.dev.scrollmax = char (widest w.dev.text * 2 : Nat) := goes
    rw [wrapped, char]
    omega
  refine ⟨scrollmax, ?_⟩
  intro y row
  have speed : w.dev.speed y = if 16 < w.dev.width y then
      256 * w.dev.width y / (widest w.dev.text * 2 : Nat) % 256 else 0 := speeds y row
  have most := (widest_range w.dev.text).2.2 y row
  obtain ⟨width, -⟩ := settled_width settled row
  constructor
  · intro long
    rw [speed, if_pos long, scrollmax, Nat.cast_mul]
    exact turning_of_widths long (by omega) (by omega)
  · intro fits
    rw [speed, if_neg (by omega)]

theorem appears_at (settled : Settled w) (scrolls : 0 < w.dev.scrollmax) {s : Nat} (begun : 0 < s)
    {y x i : Nat} (row : y < 2) (column : x < 16)
    (place : (x + offset (after s w) y).tmod (w.dev.width y) = i) : Appears (after s w) y i := by
  have same := after_settings s w
  have current : Current (after s w).dev := by
    obtain ⟨k, rfl⟩ : ∃ k, s = k + 1 := ⟨s - 1, by omega⟩
    have before := after_settings k w
    unfold after at before ⊢
    have idle := (active_of before).trans settled.idle
    rw [Function.iterate_succ_apply', interrupt_idle idle]
    exact current_timeout idle ((scrollmax_of before).symm ▸ scrolls)
  generalize after s w = v at same current place
  have width : v.dev.width = w.dev.width := width_of same
  rw [← width] at place
  refine ⟨x, column, place, ?_⟩
  rw [current y row x column, shown]
  change v.dev.text.data y ((x + offset v y).tmod (v.dev.width y)).toNat = _
  rw [place]
  rfl

theorem scrolls_wide (settled : Settled w) (wide : 16 < widest w.dev.text)
    (short : widest w.dev.text ≤ 63) : Scrolls w (widest w.dev.text * 2) := by
  obtain ⟨scrollmax, line⟩ := settled_speed settled wide short
  have scrolls : 0 < w.dev.scrollmax := by omega
  have limited : w.dev.scrollmax ≤ 127 := by omega
  have start := settled.scrolled
  have speeds : ∀ y < 2, 0 ≤ w.dev.speed y := by
    intro y row
    by_cases long : 16 < w.dev.width y
    · exact ((line y row).1 long).forward
    · rw [(line y row).2 (by omega)]
  constructor
  · exact settled_inside settled limited speeds
  · intro t y row
    obtain ⟨-, some_width⟩ := settled_width settled row
    rw [after_offset, after_offset, Function.iterate_succ_apply']
    by_cases long : 16 < w.dev.width y
    · exact offset_step ((line y row).1 long) (advances_nonneg limited start t) limited (by omega)
    · rw [(line y row).2 (by omega), offset_still (by omega), offset_still (by omega)]
      exact Or.inl rfl
  · intro t begun y row
    obtain ⟨k, rfl⟩ : ∃ k, t = k + 1 := ⟨t - 1, by omega⟩
    have later : k + 1 + widest w.dev.text * 2 = k + widest w.dev.text * 2 + 1 := by omega
    have round : advance w.dev.scrollmax w.dev.scrollpos + (k + widest w.dev.text * 2 : Nat)
        = advance w.dev.scrollmax w.dev.scrollpos + k + w.dev.scrollmax := by omega
    rw [after_offset, after_offset, later, advance_succ scrolls limited start,
      advance_succ scrolls limited start, round, Int.add_emod_right]
  · intro t begun
    obtain ⟨s, first, last, home⟩ :=
      advance_reaches scrolls limited start (Int.le_refl 0) scrolls begun
    refine ⟨s, first, by omega, ?_⟩
    intro y row
    obtain ⟨-, some_width⟩ := settled_width settled row
    rw [after_offset, home, offsetAt, Int.zero_mul]
    exact if_neg (by omega)
  · intro y row long i present t begun
    obtain ⟨width, -⟩ := settled_width settled row
    rw [display_width_long long] at width
    have turning := (line y row).1 (by omega)
    have whole := turning.whole
    -- the offset that brings the character to the last column, or none
    obtain ⟨q, passed, place⟩ := offset_passed turning.forward turning.slow
      (show 0 ≤ max 0 ((i : Int) - 15) by omega) (widest w.dev.text * 2 - 1) (by
        have last : ((widest w.dev.text * 2 - 1 : Nat) : Int) = w.dev.scrollmax - 1 := by omega
        rw [last]
        omega)
    obtain ⟨s, first, last, there⟩ :=
      advance_reaches scrolls limited start (q := q) (by omega) (by omega) begun
    have distance : offset (after s w) y = max 0 ((i : Int) - 15) := by
      rw [after_offset, there, (offset_inside turning (by omega) (by omega)).1, place]
    refine ⟨s, first, by omega, appears_at settled scrolls (by omega) row (x := min i 15)
      (by omega) ?_⟩
    have sum : ((min i 15 : Nat) : Int) + max 0 ((i : Int) - 15) = i := by omega
    rw [distance, sum, Int.tmod_eq_of_lt (by omega) (by omega)]

theorem stuck_not_covered (settled : Settled w) {y : Nat} (row : y < 2)
    (long : 62 < lineLength (w.dev.text.data y) 80) (period : Nat) : ¬Scrolls w period := by
  intro scrolls
  obtain ⟨low, high, most⟩ := widest_range w.dev.text
  have wide := most y row
  rw [display_width_long (by omega)] at wide
  have negative : w.dev.scrollmax < 0 := by
    have wrapped : w.dev.scrollmax = char (widest w.dev.text * 2 : Nat) :=
      (settled.paced.scrolling (show 16 < widest w.dev.text by omega)).1
    rw [wrapped, char]
    omega
  obtain ⟨width, -⟩ := settled_width settled row
  rw [display_width_long (by omega)] at width
  obtain ⟨s, begun, -, x, column, place, -⟩ :=
    scrolls.covers y row (by omega) 16 (by omega) 1 (by decide)
  have home : offset (after s w) y = 0 := by
    obtain ⟨k, rfl⟩ : ∃ k, s = k + 1 := ⟨s - 1, by omega⟩
    have before := advances_nonneg (show w.dev.scrollmax ≤ 127 by omega) settled.scrolled k
    rw [after_offset, Function.iterate_succ_apply', advance, if_pos (by omega), offsetAt,
      Int.zero_mul]
    exact if_neg (by omega)
  have same : (after s w).dev.width y = w.dev.width y :=
    congrFun (width_of (after_settings s w)) y
  rw [home, same, Int.add_zero, Int.tmod_eq_of_lt (by omega) (by omega)] at place
  omega

end

/-- After the scrolling parameters have been set and the loop has ended, the lines scroll as they
    should exactly when neither is longer than 62 characters. -/
theorem scroll_coverage_iff {w : World} (working : Working w) :
    (∃ period, Scrolls (finish w) period) ↔
      ∀ y < 2, lineLength (w.dev.text.data y) 80 ≤ 62 := by
  have settled := finish_settled working
  have text := finish_text w
  generalize finish w = v at settled text
  rw [← text]
  constructor
  · rintro ⟨period, scrolls⟩ y row
    by_contra long
    exact stuck_not_covered settled row (by omega) period scrolls
  · intro short
    by_cases narrow : widest v.dev.text ≤ 16
    · exact ⟨1, scrolls_narrow settled narrow⟩
    · exact ⟨_, scrolls_wide settled (by omega) (widest_short short)⟩

def lettered (n : Nat) : World :=
  (fresh [] fun _ => false).assign fun d =>
    { d with active := true, text := (received 0x41)^[n] d.text }

theorem lettered_working (n : Nat) : Working (lettered n) :=
  ⟨⟨rfl, Int.le_refl 0, Int.zero_le_ofNat 127, fun _ => Int.le_refl 0⟩, rfl⟩

theorem scroll_coverage_twenty : Working (lettered 20) ∧
    ∃ period, Scrolls (finish (lettered 20)) period :=
  ⟨lettered_working 20, (scroll_coverage_iff (lettered_working 20)).mpr (by decide +kernel)⟩

/-- 63 letters: twice 64 is no signed char. -/
theorem long_line_not_covered :
    ¬∀ w, Working w → ∃ period, Scrolls (finish w) period := by
  intro claimed
  obtain ⟨period, scrolls⟩ := claimed (lettered 63) (lettered_working 63)
  have settled := finish_settled (lettered_working 63)
  have text := finish_text (lettered 63)
  generalize finish (lettered 63) = v at settled text scrolls
  have long : 62 < lineLength (v.dev.text.data 0) 80 := by
    rw [text]
    decide +kernel
  exact stuck_not_covered settled (by decide) long period scrolls

end LcdScroll
