import Nios2Ecos.LcdTicks

/- Which runs of the driver keep every index and the cursor in range. -/
namespace LcdBounds
open LcdDriver LcdText LcdTicks

/-- What every run that meets the condition keeps of the text. -/
structure TextFit (t : Text) : Prop where
  sound : t.fault = false
  left : 0 ≤ t.x
  right : t.x ≤ 127
  top : 0 ≤ t.y
  bottom : t.y ≤ 2
  begun : -1 ≤ t.esccount
  full : t.esccount ≤ 7

structure TextInBounds (t : Text) : Prop where
  sound : t.fault = false
  left : 0 ≤ t.x
  top : 0 ≤ t.y
  bottom : t.y ≤ 2

def SequenceMeets (c : UInt8) (parm1 parm2 : Int) (t : Text) : Prop :=
  (c = 0x48 ∨ c = 0x66 →
    (0 < parm2 → (parm2 - 1) % 256 < 128) ∧ (0 < parm1 → (parm1 - 1) % 256 < 128))
  ∧ (c = 0x4b → parm1 < 1 → t.x < 80 → t.y < 2)

/-- Nothing is printed in column 127, no sequence moves the cursor to a row or a column that a
    char takes for a negative one, and none clears the line below the last row. -/
def Meets (c : UInt8) (t : Text) : Prop :=
  (0 ≤ t.esccount → ends t c → ∀ parm1 parm2,
      parameters (t.keep 0).escape = some (parm1, parm2) → SequenceMeets c parm1 parm2 t) ∧
    (t.esccount < 0 → isprint c = true → t.x < 127)

theorem char_nonneg_iff {n : Int} : 0 ≤ char n ↔ n % 256 < 128 := by
  unfold char
  omega

theorem TextFit.in_bounds {t : Text} (fit : TextFit t) : TextInBounds t :=
  ⟨fit.sound, fit.left, fit.top, fit.bottom⟩

section escape
variable {escape : Nat → UInt8}

theorem digits_stop (left i j : Nat) (parm : Int) (first : i ≤ j) (last : j < i + left)
    (stop : isdigit (escape j) = false) :
    ∃ value k, digits escape left i parm = some (value, k) ∧ i ≤ k ∧ k ≤ j := by
  induction left generalizing i parm with
  | zero => omega
  | succ left ih =>
    unfold digits
    by_cases digit : isdigit (escape i) = true
    · have further : i ≠ j := by
        rintro rfl
        rw [digit] at stop
        cases stop
      rw [if_pos digit]
      obtain ⟨value, k, found, low, high⟩ := ih (i + 1) (parm * 10 + ((escape i).toNat - 0x30))
        (by omega) (by omega)
      exact ⟨value, k, found, by omega, high⟩
    · rw [if_neg digit]
      exact ⟨parm, i, rfl, Nat.le_refl i, first⟩

/-- The scan of the parameters stops at the terminator. -/
theorem parameters_some {e : Nat} (inside : e ≤ 7) (terminator : escape e = 0) :
    ∃ parm1 parm2, parameters escape = some (parm1, parm2) := by
  unfold parameters
  by_cases bracket : escape 0 = 0x5b
  · have later : e ≠ 0 := by
      rintro rfl
      rw [bracket] at terminator
      cases terminator
    have stop : isdigit (escape e) = false := by rw [terminator]; rfl
    obtain ⟨value, k, found, low, high⟩ :=
      digits_stop 7 1 e 0 (by omega) (by omega) stop
    rw [if_pos bracket, found]
    dsimp only
    by_cases semicolon : escape k = 0x3b
    · have before : k ≠ e := by
        rintro rfl
        rw [semicolon] at terminator
        cases terminator
      obtain ⟨value', k', found', -, -⟩ :=
        digits_stop (7 - k) (k + 1) e 0 (by omega) (by omega) stop
      rw [if_pos semicolon, found']
      exact ⟨value, value', rfl⟩
    · rw [if_neg semicolon]
      exact ⟨value, 0, rfl⟩
  · rw [if_neg bracket]
    exact ⟨-1, 0, rfl⟩

end escape

structure SameBut (t t' : Text) (y : Int) : Prop where
  column : t'.x = t.x
  row : t'.y = y
  sound : t'.fault = t.fault
  esccount : t'.esccount = t.esccount

theorem scrolled_up_same (t : Text) : SameBut t (scrolledUp t) (char (t.y - 1)) := by
  constructor <;> simp [scrolledUp, Text.blank, Text.moveUp]

theorem cleared_fields (t : Text) : (cleared t).x = 0 ∧ (cleared t).y = 0 ∧
    (cleared t).fault = t.fault ∧ (cleared t).esccount = t.esccount := by
  simp [cleared, Text.blank]

theorem to_row_same (parm1 : Int) (t : Text) :
    SameBut t (toRow parm1 t) (if 0 < parm1 then min (char (parm1 - 1)) 2 else t.y) := by
  unfold toRow
  by_cases given : 0 < parm1
  · rw [if_pos given, if_pos given]
    have clamped : SameBut t (clampRow { t with y := char (parm1 - 1) })
        (min (char (parm1 - 1)) 4) := by
      unfold clampRow
      dsimp only
      split
      · exact ⟨rfl, by dsimp only; omega, rfl, rfl⟩
      · exact ⟨rfl, by dsimp only; omega, rfl, rfl⟩
    generalize clampRow { t with y := char (parm1 - 1) } = u at clamped
    have first := scrolled_up_same u
    have second := scrolled_up_same (scrolledUp u)
    have row := clamped.row
    have range := char_range (parm1 - 1)
    unfold scrolledDown
    by_cases below : 2 < u.y
    · have row1 : (scrolledUp u).y = u.y - 1 := by
        rw [first.row, char_small (by omega) (by omega)]
      rw [if_pos below]
      unfold scrolledDown
      by_cases further : 2 < (scrolledUp u).y
      · have row2 : (scrolledUp (scrolledUp u)).y = u.y - 2 := by
          rw [second.row, row1, char_small (by omega) (by omega)]
          omega
        rw [if_pos further]
        unfold scrolledDown
        exact ⟨by rw [second.column, first.column, clamped.column], by rw [row2]; omega,
          by rw [second.sound, first.sound, clamped.sound],
          by rw [second.esccount, first.esccount, clamped.esccount]⟩
      · rw [if_neg further]
        exact ⟨by rw [first.column, clamped.column], by rw [row1]; omega,
          by rw [first.sound, clamped.sound], by rw [first.esccount, clamped.esccount]⟩
    · rw [if_neg below]
      exact ⟨clamped.column, by omega, clamped.sound, clamped.esccount⟩
  · rw [if_neg given, if_neg given]
    exact ⟨rfl, rfl, rfl, rfl⟩

theorem moved_bounds_iff {t : Text} (fit : TextFit t) (parm1 parm2 : Int) :
    TextInBounds (toRow parm1 (toColumn parm2 t)) ↔
      (0 < parm2 → (parm2 - 1) % 256 < 128) ∧ (0 < parm1 → (parm1 - 1) % 256 < 128) := by
  have row := to_row_same parm1 (toColumn parm2 t)
  have same : (toColumn parm2 t).fault = t.fault ∧ (toColumn parm2 t).y = t.y ∧
      (toColumn parm2 t).x = if 0 < parm2 then char (parm2 - 1) else t.x := by
    unfold toColumn
    split <;> exact ⟨rfl, rfl, rfl⟩
  obtain ⟨sound, y, x⟩ := same
  have column : 0 ≤ (toColumn parm2 t).x ↔ (0 < parm2 → (parm2 - 1) % 256 < 128) := by
    rw [x]
    split
    · rename_i given
      rw [char_nonneg_iff]
      simp [given]
    · rename_i absent
      simp [absent, fit.left]
  have top : 0 ≤ (toRow parm1 (toColumn parm2 t)).y ↔ (0 < parm1 → (parm1 - 1) % 256 < 128) := by
    rw [row.row]
    split
    · rename_i given
      rw [← char_nonneg_iff]
      simp [given]
    · rename_i absent
      simp [absent, y, fit.top]
  rw [← column, ← top]
  constructor
  · intro bounds
    exact ⟨row.column ▸ bounds.left, bounds.top⟩
  · rintro ⟨left, top⟩
    refine ⟨row.sound.trans (sound.trans fit.sound), row.column ▸ left, top, ?_⟩
    rw [row.row, y]
    have bottom := fit.bottom
    split <;> omega

theorem cleared_to_end_iff {t : Text} (fit : TextFit t) (inside : t.x < 80) :
    TextInBounds (t.blank t.y t.x (80 - t.x)) ↔ t.y < 2 := by
  have left := fit.left
  have top := fit.top
  by_cases on_panel : t.y < 2
  · rw [Text.blank, if_pos (by omega)]
    exact ⟨fun _ => on_panel, fun _ => ⟨fit.sound, left, top, fit.bottom⟩⟩
  · rw [Text.blank, if_neg (by omega)]
    constructor
    · intro bounds
      have bad := bounds.sound
      cases bad
    · intro below
      exact absurd below on_panel

theorem escaped_bounds_iff {t : Text} (fit : TextFit t) {parm1 parm2 : Int}
    (scanned : parameters t.escape = some (parm1, parm2)) (c : UInt8) :
    TextInBounds (escaped c t) ↔ SequenceMeets c parm1 parm2 t := by
  have stays : TextInBounds t := fit.in_bounds
  unfold escaped SequenceMeets
  rw [scanned]
  dsimp only
  by_cases move : c = 0x48 ∨ c = 0x66
  · have other : c ≠ 0x4b := by
      rintro rfl
      exact absurd move (by decide)
    rw [if_pos move, moved_bounds_iff fit]
    simp [move, other]
  rw [if_neg move]
  by_cases screen : c = 0x4a
  · subst screen
    rw [if_pos rfl]
    split
    · obtain ⟨column, row, sound, -⟩ := cleared_fields t
      have bounds : TextInBounds (cleared t) :=
        ⟨sound.trans fit.sound, by omega, by omega, by omega⟩
      simp [bounds]
    · simp [stays]
  rw [if_neg screen]
  by_cases line : c = 0x4b
  · rw [if_pos line]
    split
    · rename_i clears
      rw [cleared_to_end_iff fit clears.2]
      simp [line, clears]
    · rename_i keeps
      have untouched : parm1 < 1 → t.x < 80 → t.y < 2 := fun low left => absurd ⟨low, left⟩ keeps
      exact ⟨fun _ => ⟨fun m => absurd m move, fun _ => untouched⟩, fun _ => stays⟩
  · rw [if_neg line]
    simp [move, line, stays]

theorem escaped_right {t : Text} (right : t.x ≤ 127) (c : UInt8) : (escaped c t).x ≤ 127 := by
  unfold escaped
  cases parameters t.escape with
  | none => exact right
  | some parm =>
    dsimp only
    split
    · rw [(to_row_same parm.1 (toColumn parm.2 t)).column]
      unfold toColumn
      split
      · exact (char_range _).2
      · exact right
    · split
      · split
        · rw [(cleared_fields t).1]
          decide
        · exact right
      · split
        · split
          · unfold Text.blank
            split <;> exact right
          · exact right
        · exact right

theorem keep_same {t : Text} (low : 0 ≤ t.esccount) (high : t.esccount ≤ 7) (c : UInt8) :
    t.keep c = { t with escape := fun i => if i = t.esccount.toNat then c else t.escape i } :=
  if_pos ⟨low, high⟩

theorem in_escape_step {t : Text} (fit : TextFit t) (under_way : 0 ≤ t.esccount) (c : UInt8) :
    (TextInBounds (inEscape c t) ↔ (ends t c → ∀ parm1 parm2,
        parameters (t.keep 0).escape = some (parm1, parm2) → SequenceMeets c parm1 parm2 t))
      ∧ (inEscape c t).x ≤ 127 ∧ -1 ≤ (inEscape c t).esccount ∧ (inEscape c t).esccount ≤ 7 := by
  have full := fit.full
  unfold inEscape
  by_cases ended : ends t c
  · have kept := keep_same under_way full 0
    have fit' : TextFit (t.keep 0) := by
      rw [kept]
      exact ⟨fit.sound, fit.left, fit.right, fit.top, fit.bottom, fit.begun, fit.full⟩
    have terminator : (t.keep 0).escape t.esccount.toNat = 0 := by
      rw [kept]
      exact if_pos rfl
    obtain ⟨parm1, parm2, scanned⟩ := parameters_some (by omega) terminator
    have outcome := escaped_bounds_iff fit' scanned c
    have right := escaped_right fit'.right c
    rw [if_pos ended]
    refine ⟨?_, right, Int.le_refl (-1), by dsimp only; omega⟩
    constructor
    · rintro ⟨sound, left, top, bottom⟩ _ p1 p2 same
      rw [scanned] at same
      cases same
      have meets := outcome.mp ⟨sound, left, top, bottom⟩
      rw [kept] at meets
      exact meets
    · intro meets
      have condition := meets ended parm1 parm2 scanned
      have bounds := outcome.mpr (by rw [kept]; exact condition)
      exact ⟨bounds.sound, bounds.left, bounds.top, bounds.bottom⟩
  · rw [if_neg ended]
    by_cases room : t.esccount < 7
    · have next : char (t.esccount + 1) = t.esccount + 1 := char_small (by omega) (by omega)
      rw [if_pos room, keep_same under_way full c]
      refine ⟨?_, fit.right, by dsimp only; omega, by dsimp only; omega⟩
      have bounds := fit.in_bounds
      constructor
      · intro _ other
        exact absurd other ended
      · intro _
        exact ⟨bounds.sound, bounds.left, bounds.top, bounds.bottom⟩
    · rw [if_neg room]
      refine ⟨?_, fit.right, fit.begun, fit.full⟩
      constructor
      · intro _ other
        exact absurd other ended
      · intro _
        exact fit.in_bounds

theorem printed_step {t : Text} (fit : TextFit t) (c : UInt8) :
    (TextInBounds (printed c t) ↔ t.x < 127) ∧ (printed c t).x ≤ 127
      ∧ (printed c t).esccount = t.esccount := by
  have left := fit.left
  have right := fit.right
  have room : SameBut t (makeRoom t) (min t.y 1) := by
    have top := fit.top
    have bottom := fit.bottom
    unfold makeRoom
    split
    · have same := scrolled_up_same t
      rw [char_small (by omega) (by omega)] at same
      have row : t.y - 1 = min t.y 1 := by omega
      rw [← row]
      exact same
    · exact ⟨rfl, by omega, rfl, rfl⟩
  have put : SameBut (makeRoom t) (placed c (makeRoom t)) (min t.y 1) := by
    have column := room.column
    have row := room.row
    have top := fit.top
    unfold placed
    split
    · rw [Text.store, if_pos (by omega)]
      exact ⟨rfl, row, rfl, rfl⟩
    · exact ⟨rfl, row, rfl, rfl⟩
  have column : (placed c (makeRoom t)).x = t.x := put.column.trans room.column
  have sound : (placed c (makeRoom t)).fault = false := put.sound.trans (room.sound.trans fit.sound)
  have row := put.row
  have top := fit.top
  refine ⟨?_, (char_range _).2, put.esccount.trans room.esccount⟩
  unfold printed
  dsimp only
  constructor
  · intro bounds
    have inside := bounds.left
    dsimp only at inside
    rw [char_nonneg_iff, column] at inside
    omega
  · intro inside
    refine ⟨sound, ?_, ?_, ?_⟩
    · dsimp only
      rw [char_nonneg_iff, column]
      omega
    · dsimp only
      omega
    · dsimp only
      omega

theorem line_feed_step {t : Text} (fit : TextFit t) :
    TextInBounds (lineFeed t) ∧ (lineFeed t).x = 0 ∧ (lineFeed t).esccount = t.esccount := by
  have top := fit.top
  have bottom := fit.bottom
  have next : char (t.y + 1) = t.y + 1 := char_small (by omega) (by omega)
  unfold lineFeed
  dsimp only
  rw [next]
  split
  · rename_i below
    have same := scrolled_up_same { t with x := 0, y := t.y + 1 }
    obtain ⟨column, row, sound, esccount⟩ := same
    dsimp only at column row sound esccount
    rw [char_small (by omega) (by omega)] at row
    exact ⟨⟨sound.trans fit.sound, by omega, by omega, by omega⟩, column, esccount⟩
  · exact ⟨⟨fit.sound, Int.le_refl 0, by dsimp only; omega, by dsimp only; omega⟩, rfl, rfl⟩

theorem received_step {t : Text} (fit : TextFit t) (c : UInt8) :
    (TextInBounds (received c t) ↔ Meets c t)
      ∧ (received c t).x ≤ 127 ∧ -1 ≤ (received c t).esccount ∧ (received c t).esccount ≤ 7 := by
  have bounds := fit.in_bounds
  have begun := fit.begun
  unfold received Meets
  by_cases under_way : 0 ≤ t.esccount
  · have calm : ¬t.esccount < 0 := by omega
    rw [if_pos under_way]
    simpa [under_way, calm] using in_escape_step fit under_way c
  have calm : t.esccount < 0 := by omega
  rw [if_neg under_way]
  have printing : (0 ≤ t.esccount → ends t c → ∀ parm1 parm2,
        parameters (t.keep 0).escape = some (parm1, parm2) → SequenceMeets c parm1 parm2 t) ∧
      (t.esccount < 0 → isprint c = true → t.x < 127) ↔ (isprint c = true → t.x < 127) := by
    simp [under_way, calm]
  rw [printing]
  by_cases shown : isprint c = true
  · have other (k : UInt8) (control : isprint k = false) : c ≠ k := by
      rintro rfl
      rw [control] at shown
      cases shown
    obtain ⟨iff, right, esccount⟩ := printed_step fit c
    rw [if_neg (other _ rfl), if_neg (other _ rfl), if_neg (other _ rfl), if_neg (other _ rfl),
      if_pos shown, iff, esccount]
    exact ⟨⟨fun inside _ => inside, fun meets => meets shown⟩, right, begun, fit.full⟩
  · have free : (isprint c = true → t.x < 127) := fun printable => absurd printable shown
    have right := fit.right
    have left := fit.left
    have full := fit.full
    have met {u : Text} (inside : TextInBounds u) :
        TextInBounds u ↔ (isprint c = true → t.x < 127) := ⟨fun _ => free, fun _ => inside⟩
    split_ifs with start home feed back inside
    · exact ⟨met ⟨bounds.sound, left, bounds.top, bounds.bottom⟩, right, by dsimp only; omega,
        by dsimp only; omega⟩
    · exact ⟨met ⟨bounds.sound, Int.le_refl 0, bounds.top, bounds.bottom⟩, by dsimp only; omega,
        begun, full⟩
    · obtain ⟨fed, column, esccount⟩ := line_feed_step fit
      rw [column, esccount]
      exact ⟨met fed, by omega, begun, full⟩
    · have before : char (t.x - 1) = t.x - 1 := char_small (by omega) (by omega)
      exact ⟨met ⟨bounds.sound, by dsimp only; omega, bounds.top, bounds.bottom⟩,
        by dsimp only; omega, begun, full⟩
    · exact ⟨met bounds, right, begun, full⟩
    · exact ⟨met bounds, right, begun, full⟩

theorem received_fit {t : Text} (fit : TextFit t) {c : UInt8} (meets : Meets c t) :
    TextFit (received c t) := by
  obtain ⟨iff, right, begun, full⟩ := received_step fit c
  obtain ⟨sound, left, top, bottom⟩ := iff.mpr meets
  exact ⟨sound, left, right, top, bottom, begun, full⟩

/-- What keeps the repaints in range, whatever the panel does. -/
structure Fit (w : World) : Prop where
  sound : w.fault = false
  scrolled : 0 ≤ w.dev.scrollpos
  limited : w.dev.scrollmax ≤ 127
  speeds : ∀ y, 0 ≤ w.dev.speed y

def Sized (w : World) : Prop := ∀ y < 2, 0 < w.dev.width y ∧ w.dev.width y ≤ 81

/-- A timer call that is not held off finds the widths set. -/
def Guarded (w : World) : Prop := w.dev.active = false → 0 < w.dev.scrollmax → Sized w

theorem sized_of_settings {v w : World} (same : settings v = settings w) (sized : Sized w) :
    Sized v := by
  unfold Sized
  rw [width_of same]
  exact sized

theorem guarded_of_settings {v w : World} (same : settings v = settings w)
    (guarded : Guarded w) : Guarded v := by
  intro idle scrolls
  rw [active_of same] at idle
  rw [scrollmax_of same] at scrolls
  exact sized_of_settings same (guarded idle scrolls)

theorem fit_command {w : World} (fit : Fit w) (command : UInt8) :
    Fit (lcdWriteCommand command w) := by
  obtain ⟨sound, scrolled, limited, speeds⟩ := fit
  unfold lcdWriteCommand access
  split
  · exact ⟨sound, scrolled, limited, speeds⟩
  · dsimp only
    split <;> exact ⟨sound, scrolled, limited, speeds⟩

theorem fit_data {w : World} (fit : Fit w) (c : UInt8) : Fit (lcdWriteData c w) := by
  obtain ⟨sound, scrolled, limited, speeds⟩ := fit
  unfold lcdWriteData access
  split
  · exact ⟨sound, scrolled, limited, speeds⟩
  · dsimp only
    split <;> exact ⟨sound, scrolled, limited, speeds⟩

structure Harmless (pause : Moment → World → World) (s : Settings) : Prop where
  quiet : ∀ w, settings (pause .painting w) = settings w
  fit : ∀ w, settings w = s → Fit w → Fit (pause .painting w)

section
variable {pause : Moment → World → World} {s : Settings}

theorem fit_seek (harmless : Harmless pause s) {w : World} (same : settings w = s)
    (fit : Fit w) (address : Nat) : Fit (seek pause address w) := by
  unfold seek
  split
  · obtain ⟨sound, scrolled, limited, speeds⟩ := harmless.fit _
      (by rw [settings_command, same]) (fit_command fit (0x80 ||| UInt8.ofNat address))
    exact ⟨sound, scrolled, limited, speeds⟩
  · exact fit

theorem fit_paint (harmless : Harmless pause s) {w : World} (same : settings w = s)
    (fit : Fit w) (y x : Nat) (c : UInt8) : Fit (paint pause y x c w) := by
  have sought := fit_seek harmless same fit ((x + colstart y) % 256)
  have soughtSame := drawn_seek (settings_drawn harmless.quiet s) ((x + colstart y) % 256) same
  have paused := harmless.fit _ soughtSame sought
  obtain ⟨sound, scrolled, limited, speeds⟩ := harmless.fit _
    (by rw [settings_data, harmless.quiet, soughtSame]) (fit_data paused c)
  exact ⟨sound, scrolled, limited, speeds⟩

theorem fit_paint_cell (harmless : Harmless pause s) {w : World} (same : settings w = s)
    (fit : Fit w) (y x : Nat) {offset width : Int} (start : 0 ≤ offset) (some_width : 0 < width)
    (wide : width ≤ 81) : Fit (paintCell pause y offset width x w) := by
  have low : 0 ≤ (x + offset).tmod width := Int.tmod_nonneg width (by omega)
  have high : (x + offset).tmod width < width := Int.tmod_lt_of_pos (x + offset) some_width
  have inRange : width ≠ 0 ∧ 0 ≤ (x + offset).tmod width ∧ (x + offset).tmod width ≤ 80 := by
    omega
  have checked : Fit (w.check (decide (width ≠ 0 ∧ 0 ≤ (x + offset).tmod width ∧
      (x + offset).tmod width ≤ 80))) := by
    rw [decide_eq_true inRange]
    exact ⟨by simp [World.check, fit.sound], fit.scrolled, fit.limited, fit.speeds⟩
  unfold paintCell
  dsimp only
  split
  · exact fit_paint harmless (w := w.check _) same checked y x _
  · exact checked

theorem offset_range {d : Dev} {y : Nat} {scrollpos : Int} (scrolled : 0 ≤ scrollpos)
    (speed : 0 ≤ d.speed y) (some_width : 0 < d.width y) :
    0 ≤ offsetOf scrollpos d y ∧ offsetOf scrollpos d y < d.width y := by
  have product : 0 ≤ scrollpos * d.speed y := Int.mul_nonneg scrolled speed
  unfold offsetOf
  dsimp only
  split <;> omega

theorem fit_paint_line (harmless : Harmless pause s) {w : World} (same : settings w = s)
    (fit : Fit w) (sized : Sized w) {scrollpos : Int} (scrolled : 0 ≤ scrollpos) {y : Nat}
    (row : y < 2) : Fit (paintLine pause scrollpos y w) := by
  obtain ⟨some_width, wide⟩ := sized y row
  have start := (offset_range scrolled (fit.speeds y) some_width).1
  unfold paintLine
  dsimp only
  generalize List.range 16 = cells
  generalize offsetOf scrollpos w.dev y = offset at start
  generalize w.dev.width y = width at some_width wide
  clear sized
  induction cells generalizing w with
  | nil => exact fit
  | cons x rest ih =>
    have cell := fit_paint_cell harmless same fit y x start some_width wide
    have cellSame := drawn_paint_cell (settings_drawn harmless.quiet s) y offset width x same
    exact ih ((harmless.quiet _).trans cellSame) (harmless.fit _ cellSame cell)

theorem fit_repaint (harmless : Harmless pause s) {w : World} (same : settings w = s)
    (fit : Fit w) (sized : Sized w) : Fit (lcdRepaintScreen pause w) := by
  have quiet := harmless.quiet
  have start := harmless.fit w same fit
  have startSame := (quiet w).trans same
  have first := fit_paint_line harmless startSame start
    (sized_of_settings (quiet w) sized) fit.scrolled (y := 0) (by decide)
  have firstSame := drawn_paint_line (settings_drawn quiet s) w.dev.scrollpos 0 startSame
  exact fit_paint_line harmless firstSame first
    (sized_of_settings (firstSame.trans same.symm) sized) fit.scrolled (y := 1) (by decide)

end

theorem harmless_none (s : Settings) : Harmless (fun _ w => w) s :=
  ⟨fun _ => rfl, fun _ _ fit => fit⟩

theorem fit_timeout {w : World} (fit : Fit w) (guarded : Guarded w) : Fit (timeout w) := by
  obtain ⟨sound, scrolled, limited, speeds⟩ := fit
  have moved : Fit (w.assign fun d => { d with
      scrollpos := if d.scrollmax ≤ d.scrollpos + 1 then 0 else char (d.scrollpos + 1) }) := by
    refine ⟨sound, ?_, limited, speeds⟩
    dsimp only [World.assign]
    split
    · exact Int.le_refl 0
    · rw [char_nonneg_iff]
      omega
  unfold timeout
  dsimp only
  split
  · rename_i repaints
    exact fit_repaint (harmless_none _) rfl moved (guarded repaints.2 repaints.1)
  · exact moved

theorem fit_record {w : World} (fit : Fit w) (moment : Moment) : Fit (w.record moment) :=
  ⟨fit.sound, fit.scrolled, fit.limited, fit.speeds⟩

theorem fit_interrupt {w : World} (fit : Fit w) (guarded : Guarded w) (moment : Moment) :
    Fit (interrupt moment w) := by
  have called := fit_timeout fit guarded
  unfold interrupt
  split
  · exact fit_record called moment
  · exact fit_record (fit_record called .ticked) moment

theorem fit_gap {w : World} (fit : Fit w) (guarded : Guarded w) (moment : Moment) :
    Fit (gap moment w) := by
  unfold gap
  split
  · exact fit_record fit moment
  · rename_i n rest ticks
    have start : Fit ({ w with ticks := rest }.record moment) :=
      ⟨fit.sound, fit.scrolled, fit.limited, fit.speeds⟩
    have startGuarded : Guarded ({ w with ticks := rest }.record moment) := guarded
    generalize { w with ticks := rest }.record moment = v at start startGuarded
    clear ticks
    induction n generalizing v with
    | zero => exact start
    | succ n ih =>
      rw [Function.iterate_succ_apply]
      exact ih _ (fit_interrupt start startGuarded moment)
        (guarded_of_settings (settings_interrupt moment v) startGuarded)

/-- The foreground at work: the timer is held off. -/
def Working (w : World) : Prop := Fit w ∧ w.dev.active = true

theorem guarded_of_active {w : World} (active : w.dev.active = true) : Guarded w := by
  intro idle
  rw [active] at idle
  cases idle

theorem working_gap {w : World} (working : Working w) (moment : Moment) :
    Working (gap moment w) :=
  ⟨fit_gap working.1 (guarded_of_active working.2) moment,
    (active_of (settings_gap moment w)).trans working.2⟩

theorem working_edit {w : World} (working : Working w) (f : Text → Text) :
    Working (w.edit f) :=
  ⟨⟨working.1.sound, working.1.scrolled, working.1.limited, working.1.speeds⟩, working.2⟩

theorem working_command {w : World} (working : Working w) (command : UInt8) :
    Working (lcdWriteCommand command w) :=
  ⟨fit_command working.1 command, (active_of (settings_command command w)).trans working.2⟩

theorem working_clear_line {w : World} (working : Working w) (y : Nat) :
    Working (clearLine y w) := by
  have blanked := working_gap (working_edit working fun t => t.blank y 0 81) .clearing
  have shadowed : Working ((gap .clearing (w.edit fun t => t.blank y 0 81)).assign fun d =>
      { d with visible := fun y' x' => if y' = y ∧ x' < 16 then space else d.visible y' x' }) :=
    ⟨⟨blanked.1.sound, blanked.1.scrolled, blanked.1.limited, blanked.1.speeds⟩, blanked.2⟩
  obtain ⟨fit, active⟩ := working_gap shadowed .clearing
  exact ⟨⟨fit.sound, fit.scrolled, fit.limited, fit.speeds⟩, active⟩

theorem working_clear_screen {w : World} (working : Working w) : Working (lcdClearScreen w) := by
  have moved := working_gap (working_edit (working_gap (working_edit
    (working_gap (working_command working 0x01) .clearing) fun t => { t with x := 0 }) .clearing)
    fun t => { t with y := 0 }) .clearing
  obtain ⟨fit, active⟩ := moved
  have addressed := working_gap (w := World.assign _ fun d => { d with address := 0 })
    ⟨⟨fit.sound, fit.scrolled, fit.limited, fit.speeds⟩, active⟩ .clearing
  exact working_clear_line (working_gap (working_clear_line addressed 0) .clearing) 1

theorem working_kept : Kept Working :=
  ⟨fun _ working => working_gap working .elsewhere, fun _ f working => working_edit working f,
    fun _ working => working_clear_screen working⟩

theorem working_assign {w : World} (working : Working w) (f : Dev → Dev)
    (scrollpos : (f w.dev).scrollpos = w.dev.scrollpos) (limited : (f w.dev).scrollmax ≤ 127)
    (speeds : ∀ y, 0 ≤ (f w.dev).speed y) (active : (f w.dev).active = w.dev.active) :
    Working (w.assign f) :=
  ⟨⟨working.1.sound, scrollpos ▸ working.1.scrolled, limited, speeds⟩, active.trans working.2⟩

theorem working_tuned : Tuned Working where
  gap := fun _ working => working_gap working .elsewhere
  width := fun _ _ working => working_assign working _ rfl working.1.limited working.1.speeds rfl
  speed := by
    intro w f forward working
    apply working_assign working _ rfl working.1.limited _ rfl
    intro y
    rcases forward y with same | positive
    · dsimp only
      rw [same]
      exact working.1.speeds y
    · exact positive
  scrollmax := fun _ _ limited working =>
    working_assign working _ rfl limited working.1.speeds rfl

theorem sized_of_paced {w : World} (paced : Paced (settings w)) : Sized w := by
  intro y row
  have range := display_width_range (w.dev.text.data y)
  have width : w.dev.width y = displayWidth (w.dev.text.data y) := paced.measured y row
  omega

theorem harmless_gap {s : Settings} (active : s.active = true) : Harmless gap s := by
  refine ⟨settings_gap .painting, ?_⟩
  rintro w rfl fit
  exact fit_gap fit (guarded_of_active active) .painting

theorem fit_repaint_once {w : World} (working : Working w) (sized : Sized w) :
    Fit (repaintOnce w) := by
  have start := working_gap working .elsewhere
  have startSized := sized_of_settings (settings_gap .elsewhere w) sized
  unfold repaintOnce
  dsimp only
  generalize gap .elsewhere w = v at start startSized
  have painted := fit_repaint (harmless_gap start.2) rfl start.1 startSized
  have same := settings_repaint gap (settings_gap .painting) v
  generalize lcdRepaintScreen gap v = p at painted same
  have after := working_gap ⟨painted, (active_of same).trans start.2⟩ .elsewhere
  have afterSized := sized_of_settings ((settings_gap .elsewhere p).trans same) startSized
  generalize gap .elsewhere p = q at after afterSized
  apply fit_gap
  · exact ⟨after.1.sound, after.1.scrolled, after.1.limited, after.1.speeds⟩
  · intro _ _
    exact afterSized

/-- The state between two calls: the repaints are in range, whenever they come. -/
def Ready (w : World) : Prop := Fit w ∧ Guarded w

theorem sized_once {w : World} (sized : Sized w) : Sized (repaintOnce w) := by
  have width := width_of (settings_once w)
  generalize repaintOnce w = v at width
  unfold Sized
  rw [width]
  exact sized

theorem working_resumed {w : World} (fit : Fit w) : Working (resumed w) := by
  have begun : Working (w.assign fun d => { d with active := true }) :=
    ⟨⟨fit.sound, fit.scrolled, fit.limited, fit.speeds⟩, rfl⟩
  exact working_gap begun .elsewhere

theorem ready_finish {w : World} (working : Working w) : Ready (finish w) := by
  have paced := rescaled_paced (settings w)
  rw [← settings_rescale] at paced
  have start : Working (gap .elsewhere (rescale w)) ∧ Sized (gap .elsewhere (rescale w)) :=
    ⟨working_gap (tuned_rescale working_tuned working) .elsewhere,
      sized_of_settings (settings_gap .elsewhere (rescale w)) (sized_of_paced paced)⟩
  obtain ⟨u, ⟨last, sized⟩, done, -⟩ := finish_ends (P := fun v => Working v ∧ Sized v) (by
    rintro v ⟨working, sized⟩ -
    have fit := fit_repaint_once working sized
    have sizedOnce := sized_once sized
    generalize repaintOnce v = q at fit sizedOnce
    have fitLater := fit_gap fit (fun _ _ => sizedOnce) .elsewhere
    have sizedLater := sized_of_settings (settings_gap .elsewhere q) sizedOnce
    generalize gap .elsewhere q = r at fitLater sizedLater
    exact ⟨working_resumed fitLater,
      sized_of_settings (settings_gap .elsewhere _) sizedLater⟩) start
  have fit := fit_repaint_once last sized
  have sizedOnce := sized_once sized
  rw [done]
  generalize repaintOnce u = q at fit sizedOnce
  exact ⟨fit, fun _ _ => sizedOnce⟩

theorem ready_putc {w : World} (ready : Ready w) (c : UInt8) : Ready (putc c w) := by
  obtain ⟨fit, -⟩ := ready
  have text := kept_receive working_kept (working_resumed fit) c
  have done := ready_finish (working_gap text .elsewhere)
  rw [putc_finish]
  generalize finish (gap .elsewhere (receive c (resumed w))) = v at done
  exact ⟨fit_record done.1 .returned, done.2⟩

theorem ready_timer {w : World} (ready : Ready w) : Ready (interrupt .elsewhere w) :=
  ⟨fit_interrupt ready.1 ready.2 .elsewhere,
    guarded_of_settings (settings_interrupt .elsewhere w) ready.2⟩

structure InBounds (w : World) : Prop where
  repaints : w.fault = false
  text : TextInBounds w.dev.text

def AllInBounds : List Event → World → Prop
  | [], w => InBounds w
  | e :: rest, w => InBounds w ∧ AllInBounds rest (step w e)

def AllMeet : List Event → World → Prop
  | [], _ => True
  | .timer :: rest, w => AllMeet rest (step w .timer)
  | .output c :: rest, w => Meets c w.dev.text ∧ AllMeet rest (step w (.output c))

theorem bounds_from {w : World} (ready : Ready w) (fit : TextFit w.dev.text)
    (events : List Event) : AllInBounds events w ↔ AllMeet events w := by
  have here : InBounds w := ⟨ready.1.sound, fit.in_bounds⟩
  induction events generalizing w with
  | nil => exact ⟨fun _ => trivial, fun _ => here⟩
  | cons e rest ih =>
    unfold AllInBounds
    cases e with
    | timer =>
      have next := ready_timer ready
      have text := text_of (settings_interrupt .elsewhere w)
      have nextFit : TextFit (interrupt .elsewhere w).dev.text := by
        rw [text]
        exact fit
      have tail := ih next nextFit ⟨next.1.sound, nextFit.in_bounds⟩
      exact ⟨fun all => tail.mp all.2, fun meets => ⟨here, tail.mpr meets⟩⟩
    | output c =>
      have next := ready_putc ready c
      have text := putc_text c w
      constructor
      · rintro ⟨_, all⟩
        have after : InBounds (putc c w) := by
          cases rest with
          | nil => exact all
          | cons e' rest' => exact all.1
        have meets : Meets c w.dev.text := by
          have bounds := after.text
          rw [text] at bounds
          exact (received_step fit c).1.mp bounds
        have nextFit : TextFit (putc c w).dev.text := by
          rw [text]
          exact received_fit fit meets
        exact ⟨meets, (ih next nextFit after).mp all⟩
      · rintro ⟨meets, tail⟩
        have nextFit : TextFit (putc c w).dev.text := by
          rw [text]
          exact received_fit fit meets
        exact ⟨here, (ih next nextFit ⟨next.1.sound, nextFit.in_bounds⟩).mpr tail⟩

theorem fresh_ready (ticks : List Nat) (hangs : Nat → Bool) : Ready (fresh ticks hangs) := by
  refine ⟨⟨rfl, Int.le_refl 0, Int.zero_le_ofNat 127, fun _ => Int.le_refl 0⟩, ?_⟩
  intro _ scrolls
  cases scrolls

theorem fresh_fit : TextFit (fresh [] fun _ => false).dev.text :=
  ⟨rfl, Int.le_refl 0, by decide, Int.le_refl 0, by decide, Int.le_refl (-1), by decide⟩

/-- In a run from the cleared screen, with the timer calling as it may, the bounds hold all the
    way exactly when each byte meets the condition. -/
theorem bounds_iff (ticks : List Nat) (hangs : Nat → Bool) (events : List Event) :
    AllInBounds events (fresh ticks hangs) ↔ AllMeet events (fresh ticks hangs) :=
  bounds_from (fresh_ready ticks hangs) fresh_fit events

theorem clears_below_last_row :
    ¬∀ (ticks : List Nat) (hangs : Nat → Bool) (events : List Event),
        AllInBounds events (fresh ticks hangs) := by
  intro claimed
  have all := claimed [] (fun _ => false)
    [.output 0x0a, .output 0x0a, .output 0x1b, .output 0x4b]
  have sound := all.2.2.2.2.text.sound
  simp only [step, putc_text] at sound
  have stray : (received 0x4b (received 0x1b (received 0x0a (received 0x0a
      (fresh [] fun _ => false).dev.text)))).fault = true := by decide
  rw [stray] at sound
  cases sound

end LcdBounds
