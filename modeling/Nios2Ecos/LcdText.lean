import Mathlib.Tactic.SplitIfs
import Nios2Ecos.LcdDriver

/- What the timer leaves alone, and the text of the terminal as a function of the bytes. -/
namespace LcdText
open LcdDriver

theorem char_range (n : Int) : -128 ≤ char n ∧ char n ≤ 127 := by
  unfold char
  omega

theorem char_small {n : Int} (low : -128 ≤ n) (high : n ≤ 127) : char n = n := by
  unfold char
  omega

/-- The fields that neither a repaint nor the timer writes. -/
structure Settings where
  text : Text
  width : Nat → Int
  speed : Nat → Int
  scrollmax : Int
  active : Bool

def settings (w : World) : Settings :=
  { text := w.dev.text, width := w.dev.width, speed := w.dev.speed
    scrollmax := w.dev.scrollmax, active := w.dev.active }

section
variable {v w : World} {s : Settings}

theorem text_of (same : settings v = s) : v.dev.text = s.text := congrArg Settings.text same

theorem width_of (same : settings v = s) : v.dev.width = s.width := congrArg Settings.width same

theorem speed_of (same : settings v = s) : v.dev.speed = s.speed := congrArg Settings.speed same

theorem scrollmax_of (same : settings v = s) : v.dev.scrollmax = s.scrollmax :=
  congrArg Settings.scrollmax same

theorem active_of (same : settings v = s) : v.dev.active = s.active :=
  congrArg Settings.active same

end

theorem settings_record (w : World) (moment : Moment) : settings (w.record moment) = settings w :=
  rfl

theorem settings_command (command : UInt8) (w : World) :
    settings (lcdWriteCommand command w) = settings w := by
  unfold lcdWriteCommand access
  split
  · rfl
  · dsimp only
    split <;> rfl

theorem settings_data (c : UInt8) (w : World) : settings (lcdWriteData c w) = settings w := by
  unfold lcdWriteData access
  split
  · rfl
  · dsimp only
    split <;> rfl

/-- A property that the steps of a repaint preserve, the pauses between them included. -/
structure Drawn (pause : Moment → World → World) (P : World → Prop) : Prop where
  pause : ∀ w, P w → P (pause .painting w)
  command : ∀ w command, P w → P (lcdWriteCommand command w)
  data : ∀ w c, P w → P (lcdWriteData c w)
  address : ∀ w address, P w → P (w.assign fun d => { d with address := address })
  visible : ∀ w (f : Dev → Nat → Nat → UInt8),
    P w → P (w.assign fun d => { d with visible := f d })
  check : ∀ w inRange, P w → P (w.check inRange)

section
variable {pause : Moment → World → World} {P : World → Prop}

theorem drawn_seek (drawn : Drawn pause P) (address : Nat) {w : World} (h : P w) :
    P (seek pause address w) := by
  unfold seek
  split
  · exact drawn.address _ _ (drawn.pause _ (drawn.command _ _ h))
  · exact h

theorem drawn_paint (drawn : Drawn pause P) (y x : Nat) (c : UInt8) {w : World} (h : P w) :
    P (paint pause y x c w) := by
  have sought := drawn_seek drawn ((x + colstart y) % 256) h
  exact drawn.visible _ (fun d y' x' => if y' = y ∧ x' = x then c else d.visible y' x')
    (drawn.pause _ (drawn.data _ c (drawn.pause _ sought)))

theorem drawn_paint_cell (drawn : Drawn pause P) (y : Nat) (offset width : Int) (x : Nat)
    {w : World} (h : P w) : P (paintCell pause y offset width x w) := by
  unfold paintCell
  dsimp only
  split
  · exact drawn_paint drawn y x _ (drawn.check _ _ h)
  · exact drawn.check _ _ h

theorem drawn_paint_line (drawn : Drawn pause P) (scrollpos : Int) (y : Nat) {w : World}
    (h : P w) : P (paintLine pause scrollpos y w) := by
  unfold paintLine
  dsimp only
  generalize List.range 16 = cells
  generalize offsetOf scrollpos w.dev y = offset
  generalize w.dev.width y = width
  induction cells generalizing w with
  | nil => exact h
  | cons x rest ih => exact ih (drawn.pause _ (drawn_paint_cell drawn y offset width x h))

theorem drawn_repaint (drawn : Drawn pause P) {w : World} (h : P w) :
    P (lcdRepaintScreen pause w) :=
  drawn_paint_line drawn _ 1 (drawn_paint_line drawn _ 0 (drawn.pause w h))

theorem settings_drawn (quiet : ∀ w, settings (pause .painting w) = settings w) (s : Settings) :
    Drawn pause (fun w => settings w = s) where
  pause := fun w same => (quiet w).trans same
  command := fun w command same => (settings_command command w).trans same
  data := fun w c same => (settings_data c w).trans same
  address := fun _ _ same => same
  visible := fun _ _ same => same
  check := fun _ _ same => same

variable (pause) in
theorem settings_repaint (quiet : ∀ w, settings (pause .painting w) = settings w) (w : World) :
    settings (lcdRepaintScreen pause w) = settings w :=
  drawn_repaint (settings_drawn quiet (settings w)) rfl

end

theorem settings_timeout (w : World) : settings (timeout w) = settings w := by
  unfold timeout
  dsimp only
  split
  · rw [settings_repaint (fun _ w => w) (fun _ => rfl)]
    rfl
  · rfl

theorem settings_interrupt (moment : Moment) (w : World) :
    settings (interrupt moment w) = settings w := by
  unfold interrupt
  split <;> simp only [settings_record, settings_timeout]

theorem settings_interrupts (moment : Moment) (n : Nat) (w : World) :
    settings ((interrupt moment)^[n] w) = settings w := by
  induction n generalizing w with
  | zero => rfl
  | succ n ih => rw [Function.iterate_succ_apply, ih, settings_interrupt]

theorem settings_gap (moment : Moment) (w : World) : settings (gap moment w) = settings w := by
  unfold gap
  split
  · rfl
  · rw [settings_interrupts]
    rfl

theorem gap_text (moment : Moment) (w : World) : (gap moment w).dev.text = w.dev.text :=
  text_of (settings_gap moment w)

theorem command_text (command : UInt8) (w : World) :
    (lcdWriteCommand command w).dev.text = w.dev.text :=
  text_of (settings_command command w)

theorem edit_text (w : World) (f : Text → Text) : (w.edit f).dev.text = f w.dev.text := rfl

theorem assign_text (w : World) (f : Dev → Dev) : (w.assign f).dev.text = (f w.dev).text := rfl

/-- lcd_clear_screen -/
def cleared (t : Text) : Text := ((({ t with x := 0, y := 0 } : Text).blank 0 0 81).blank 1 0 81)

/-- lcd_scroll_up -/
def scrolledUp (t : Text) : Text :=
  let t := t.moveUp.blank 1 0 80
  { t with y := char (t.y - 1) }

def scrolledDown : Nat → Text → Text
  | 0, t => t
  | turns + 1, t => if 2 < t.y then scrolledDown turns (scrolledUp t) else t

def clampRow (t : Text) : Text := if 4 < t.y then { t with y := 4 } else t

def toColumn (parm2 : Int) (t : Text) : Text :=
  if 0 < parm2 then { t with x := char (parm2 - 1) } else t

def toRow (parm1 : Int) (t : Text) : Text :=
  if 0 < parm1 then scrolledDown 2 (clampRow { t with y := char (parm1 - 1) }) else t

/-- lcd_handle_escape -/
def escaped (c : UInt8) (t : Text) : Text :=
  match parameters t.escape with
  | none => { t with fault := true }
  | some (parm1, parm2) =>
    if c = 0x48 ∨ c = 0x66 then toRow parm1 (toColumn parm2 t)
    else if c = 0x4a then (if parm1 = 2 then cleared t else t)
    else if c = 0x4b then (if parm1 < 1 ∧ t.x < 80 then t.blank t.y t.x (80 - t.x) else t)
    else t

def lineFeed (t : Text) : Text :=
  let t : Text := { t with x := 0, y := char (t.y + 1) }
  if 2 < t.y then scrolledUp t else t

def makeRoom (t : Text) : Text := if 2 ≤ t.y then scrolledUp t else t

def placed (c : UInt8) (t : Text) : Text := if t.x < 80 then t.store t.y t.x c else t

def printed (c : UInt8) (t : Text) : Text :=
  let t := placed c (makeRoom t)
  { t with x := char (t.x + 1) }

def inEscape (c : UInt8) (t : Text) : Text :=
  if ends t c then
    let t := escaped c (t.keep 0)
    { t with esccount := -1 }
  else if t.esccount < 7 then { t.keep c with esccount := char (t.esccount + 1) }
  else t

/-- The text part of alt_lcd_16207_putc, with no timer about. -/
def received (c : UInt8) (t : Text) : Text :=
  if 0 ≤ t.esccount then inEscape c t
  else if c = 0x1b then { t with esccount := 0 }
  else if c = 0x0d then { t with x := 0 }
  else if c = 0x0a then lineFeed t
  else if c = 0x08 then (if 0 < t.x then { t with x := char (t.x - 1) } else t)
  else if isprint c then printed c t
  else t

theorem scroll_up_text (w : World) : (lcdScrollUp w).dev.text = scrolledUp w.dev.text := by
  simp only [lcdScrollUp, edit_text, gap_text, scrolledUp]

theorem scroll_down_text (turns : Nat) (w : World) :
    (scrollDown turns w).dev.text = scrolledDown turns w.dev.text := by
  induction turns generalizing w with
  | zero => rfl
  | succ turns ih =>
    unfold scrollDown scrolledDown
    split
    · rw [ih, gap_text, scroll_up_text]
    · rfl

theorem clear_line_text (y : Nat) (w : World) :
    (clearLine y w).dev.text = w.dev.text.blank y 0 81 := by
  simp only [clearLine, assign_text, gap_text, edit_text]

theorem clear_screen_text (w : World) : (lcdClearScreen w).dev.text = cleared w.dev.text := by
  simp only [lcdClearScreen, clear_line_text, assign_text, gap_text, edit_text, command_text]
  rfl

theorem move_to_text (parm1 parm2 : Int) (w : World) :
    (moveTo parm1 parm2 w).dev.text = toRow parm1 (toColumn parm2 w.dev.text) := by
  have column : (if 0 < parm2 then
      gap .elsewhere (w.edit fun t => { t with x := char (parm2 - 1) }) else w).dev.text
      = toColumn parm2 w.dev.text := by
    unfold toColumn
    split
    · rw [gap_text, edit_text]
    · rfl
  unfold moveTo toRow
  dsimp only
  split
  · rw [scroll_down_text]
    congr 1
    unfold clampRow
    rw [gap_text, edit_text, column]
    split
    · rw [gap_text, edit_text, gap_text, edit_text, column]
    · rw [gap_text, edit_text, column]
  · exact column

theorem handle_escape_text (c : UInt8) (w : World) :
    (lcdHandleEscape c w).dev.text = escaped c w.dev.text := by
  unfold lcdHandleEscape escaped
  cases parameters w.dev.text.escape with
  | none => rfl
  | some parm =>
    dsimp only
    split
    · exact move_to_text _ _ w
    · split
      · split
        · exact clear_screen_text w
        · rfl
      · split
        · split <;> rfl
        · rfl

theorem line_feed_text (w : World) : (putLineFeed w).dev.text = lineFeed w.dev.text := by
  unfold putLineFeed lineFeed
  simp only [edit_text, gap_text]
  split
  · simp only [scroll_up_text, gap_text, edit_text]
  · simp only [gap_text, edit_text]

theorem printable_text (c : UInt8) (w : World) :
    (putPrintable c w).dev.text = printed c w.dev.text := by
  have room : (if 2 ≤ w.dev.text.y then gap .elsewhere (lcdScrollUp w) else w).dev.text
      = makeRoom w.dev.text := by
    unfold makeRoom
    split
    · rw [gap_text, scroll_up_text]
    · rfl
  unfold putPrintable printed placed
  dsimp only
  rw [edit_text, room]
  split
  · rw [gap_text, edit_text, room]
  · rw [room]

theorem escape_text (c : UInt8) (w : World) : (putEscape c w).dev.text = inEscape c w.dev.text := by
  unfold putEscape inEscape
  split
  · simp only [edit_text, gap_text, handle_escape_text]
  · split <;> rfl

theorem receive_text (c : UInt8) (w : World) :
    (receive c w).dev.text = received c w.dev.text := by
  unfold receive received
  by_cases escape : 0 ≤ w.dev.text.esccount
  · rw [if_pos escape, if_pos escape, escape_text]
  rw [if_neg escape, if_neg escape]
  by_cases feed : c = 0x0a
  · subst feed
    exact line_feed_text w
  by_cases shown : isprint c = true
  · split_ifs <;> first | rfl | exact printable_text c w
  · split_ifs <;> rfl

theorem set_width_text (y : Nat) (w : World) : (setWidth y w).dev.text = w.dev.text := by
  simp only [setWidth, gap_text, assign_text]

theorem pace_text (widthmax : Int) (y : Nat) (w : World) :
    (pace widthmax y w).dev.text = w.dev.text := by
  unfold pace
  split
  · simp only [gap_text, assign_text]
  · rfl

theorem rescale_text (w : World) : (rescale w).dev.text = w.dev.text := by
  unfold rescale
  dsimp only
  split
  · simp only [gap_text, assign_text, set_width_text]
  · simp only [gap_text, assign_text, set_width_text, pace_text]

theorem repaint_text (w : World) : (lcdRepaintScreen gap w).dev.text = w.dev.text :=
  text_of (settings_repaint gap (settings_gap .painting) w)

theorem once_text (w : World) : (repaintOnce w).dev.text = w.dev.text := by
  unfold repaintOnce
  dsimp only
  rw [gap_text, assign_text, gap_text, repaint_text, gap_text]

theorem turn_text (w : World) : (repaintTurn w).2.dev.text = w.dev.text := by
  have once := once_text w
  unfold repaintTurn
  generalize repaintOnce w = after at once
  dsimp only
  split
  · exact once
  · rw [gap_text, assign_text, gap_text, once]

theorem loop_text (turns : Nat) (w : World) : (repaintLoop turns w).dev.text = w.dev.text := by
  induction turns generalizing w with
  | zero => rfl
  | succ turns ih =>
    have turn := turn_text w
    rw [repaintLoop]
    split
    · exact turn
    · rw [ih, turn]

theorem finish_text (w : World) : (finish w).dev.text = w.dev.text := by
  unfold finish
  dsimp only
  rw [loop_text, gap_text, rescale_text]

/-- Whatever the timer does, putc does to the text what its text part does. -/
theorem putc_text (c : UInt8) (w : World) : (putc c w).dev.text = received c w.dev.text := by
  unfold putc
  dsimp only [World.record]
  rw [finish_text, gap_text, receive_text, gap_text, assign_text]

/-- A property that text assignments, gaps and lcd_clear_screen preserve. -/
structure Kept (P : World → Prop) : Prop where
  gap : ∀ w, P w → P (gap .elsewhere w)
  edit : ∀ w f, P w → P (w.edit f)
  clear : ∀ w, P w → P (lcdClearScreen w)

section
variable {P : World → Prop} {w : World}

theorem kept_edit_gap (kept : Kept P) (h : P w) (f : Text → Text) :
    P (LcdDriver.gap .elsewhere (w.edit f)) :=
  kept.gap _ (kept.edit _ f h)

theorem kept_scroll_up (kept : Kept P) (h : P w) : P (lcdScrollUp w) := by
  unfold lcdScrollUp
  exact kept.edit _ _ (kept_edit_gap kept (kept_edit_gap kept h _) _)

theorem kept_scroll_down (kept : Kept P) (h : P w) (turns : Nat) : P (scrollDown turns w) := by
  induction turns generalizing w with
  | zero => exact h
  | succ turns ih =>
    unfold scrollDown
    split
    · exact ih (kept.gap _ (kept_scroll_up kept h))
    · exact h

theorem kept_move_to (kept : Kept P) (h : P w) (parm1 parm2 : Int) :
    P (moveTo parm1 parm2 w) := by
  have column : P (if 0 < parm2 then
      LcdDriver.gap .elsewhere (w.edit fun t => { t with x := char (parm2 - 1) }) else w) := by
    split
    · exact kept_edit_gap kept h _
    · exact h
  unfold moveTo
  dsimp only
  generalize (if 0 < parm2 then
      LcdDriver.gap .elsewhere (w.edit fun t => { t with x := char (parm2 - 1) }) else w) = v
    at column
  split
  · apply kept_scroll_down kept
    have row := kept_edit_gap kept column fun t => { t with y := char (parm1 - 1) }
    split
    · exact kept_edit_gap kept row _
    · exact row
  · exact column

theorem kept_handle_escape (kept : Kept P) (h : P w) (c : UInt8) : P (lcdHandleEscape c w) := by
  unfold lcdHandleEscape
  cases parameters w.dev.text.escape with
  | none => exact kept.edit _ _ h
  | some parm =>
    dsimp only
    split
    · exact kept_move_to kept h _ _
    · split
      · split
        · exact kept.clear _ h
        · exact h
      · split
        · split
          · exact kept.edit _ _ h
          · exact h
        · exact h

theorem kept_escape (kept : Kept P) (h : P w) (c : UInt8) : P (putEscape c w) := by
  unfold putEscape
  split
  · exact kept.edit _ _ (kept.gap _ (kept_handle_escape kept (kept_edit_gap kept h _) c))
  · split
    · exact kept.edit _ _ h
    · exact h

theorem kept_line_feed (kept : Kept P) (h : P w) : P (putLineFeed w) := by
  have fed := kept_edit_gap kept
    (kept_edit_gap kept h fun t => { t with x := 0 }) fun t => { t with y := char (t.y + 1) }
  unfold putLineFeed
  dsimp only
  split
  · exact kept_scroll_up kept fed
  · exact fed

theorem kept_printable (kept : Kept P) (h : P w) (c : UInt8) : P (putPrintable c w) := by
  have room : P (if 2 ≤ w.dev.text.y then LcdDriver.gap .elsewhere (lcdScrollUp w) else w) := by
    split
    · exact kept.gap _ (kept_scroll_up kept h)
    · exact h
  unfold putPrintable
  dsimp only
  generalize (if 2 ≤ w.dev.text.y then LcdDriver.gap .elsewhere (lcdScrollUp w) else w) = v at room
  apply kept.edit
  split
  · exact kept_edit_gap kept room _
  · exact room

theorem kept_receive (kept : Kept P) (h : P w) (c : UInt8) : P (receive c w) := by
  unfold receive
  split
  · exact kept_escape kept h c
  · split
    · exact kept.edit _ _ h
    · split
      · exact kept.edit _ _ h
      · split
        · exact kept_line_feed kept h
        · split
          · split
            · exact kept.edit _ _ h
            · exact h
          · split
            · exact kept_printable kept h c
            · exact h

end

/-- A property that the new scrolling parameters and the gaps between them preserve. -/
structure Tuned (P : World → Prop) : Prop where
  gap : ∀ w, P w → P (gap .elsewhere w)
  width : ∀ w (f : Dev → Nat → Int), P w → P (w.assign fun d => { d with width := f d })
  speed : ∀ w (f : Dev → Nat → Int), (∀ y, f w.dev y = w.dev.speed y ∨ 0 ≤ f w.dev y) →
    P w → P (w.assign fun d => { d with speed := f d })
  scrollmax : ∀ w scrollmax, scrollmax ≤ 127 →
    P w → P (w.assign fun d => { d with scrollmax := scrollmax })

section
variable {P : World → Prop} {w : World}

theorem tuned_set_width (tuned : Tuned P) (h : P w) (y : Nat) : P (setWidth y w) := by
  have wide := tuned.gap _ (tuned.width w (fun d y' =>
    if y' = y then char (displayWidth (w.dev.text.data y)) else d.width y') h)
  unfold setWidth
  apply tuned.gap
  apply tuned.speed _ (fun d y' => if y' = y then 0 else d.speed y') _ wide
  intro y'
  by_cases here : y' = y
  · exact Or.inr (by rw [if_pos here])
  · exact Or.inl (if_neg here)

theorem tuned_pace (tuned : Tuned P) (h : P w) (widthmax : Int) (y : Nat) :
    P (pace widthmax y w) := by
  unfold pace
  split
  · apply tuned.gap
    apply tuned.speed _ (fun d y' =>
      if y' = y then 256 * d.width y / widthmax % 256 else d.speed y') _ h
    intro y'
    by_cases here : y' = y
    · exact Or.inr (by rw [if_pos here]; exact Int.emod_nonneg _ (by decide))
    · exact Or.inl (if_neg here)
  · exact h

theorem tuned_rescale (tuned : Tuned P) (h : P w) : P (rescale w) := by
  have widths := tuned_set_width tuned (tuned_set_width tuned h 0) 1
  unfold rescale
  dsimp only
  split
  · exact tuned.gap _ (tuned.scrollmax _ 0 (by decide) widths)
  · apply tuned_pace tuned
    apply tuned_pace tuned
    exact tuned.gap _ (tuned.scrollmax _ _ (char_range _).2 widths)

end

def withWidth (y : Nat) (s : Settings) : Settings :=
  { s with
    width := fun y' => if y' = y then char (displayWidth (s.text.data y)) else s.width y'
    speed := fun y' => if y' = y then 0 else s.speed y' }

def withPace (widthmax : Int) (y : Nat) (s : Settings) : Settings :=
  if 16 < s.width y then
    { s with speed := fun y' =>
        if y' = y then 256 * s.width y / widthmax % 256 else s.speed y' }
  else s

def widest (t : Text) : Nat := max (displayWidth (t.data 0)) (displayWidth (t.data 1))

/-- The scrolling parameters, with no timer about. -/
def rescaled (s : Settings) : Settings :=
  let s := withWidth 1 (withWidth 0 s)
  if widest s.text ≤ 16 then { s with scrollmax := 0 }
  else
    let widthmax := widest s.text * 2
    withPace widthmax 1 (withPace widthmax 0 { s with scrollmax := char widthmax })

theorem settings_set_width (y : Nat) (w : World) :
    settings (setWidth y w) = withWidth y (settings w) := by
  have first := settings_gap .elsewhere (w.assign fun d => { d with
    width := fun y' => if y' = y then char (displayWidth (w.dev.text.data y)) else d.width y' })
  unfold setWidth
  dsimp only
  generalize gap .elsewhere (w.assign fun d => { d with
    width := fun y' => if y' = y then char (displayWidth (w.dev.text.data y)) else d.width y' })
    = v at first
  rw [settings_gap]
  change { settings v with speed := fun y' => if y' = y then 0 else (settings v).speed y' } = _
  rw [first]
  rfl

theorem settings_pace (widthmax : Int) (y : Nat) (w : World) :
    settings (pace widthmax y w) = withPace widthmax y (settings w) := by
  have same : (settings w).width y = w.dev.width y := rfl
  unfold pace withPace
  rw [same]
  split
  · rw [settings_gap]
    rfl
  · rfl

theorem settings_rescale (w : World) : settings (rescale w) = rescaled (settings w) := by
  have widths := settings_set_width 1 (setWidth 0 w)
  rw [settings_set_width 0 w] at widths
  unfold rescale rescaled
  dsimp only
  generalize setWidth 1 (setWidth 0 w) = v at widths
  generalize withWidth 1 (withWidth 0 (settings w)) = s at widths
  subst widths
  change settings (if widest v.dev.text ≤ 16 then _ else _)
    = if widest v.dev.text ≤ 16 then _ else _
  split
  · rw [settings_gap]
    rfl
  · rw [settings_pace, settings_pace, settings_gap]
    rfl

theorem line_length_le (row : Nat → UInt8) (n : Nat) : lineLength row n ≤ n := by
  induction n with
  | zero => exact Nat.le_refl 0
  | succ n ih =>
    unfold lineLength
    split
    · exact Nat.le_refl (n + 1)
    · omega

theorem display_width_range (row : Nat → UInt8) :
    16 ≤ displayWidth row ∧ displayWidth row ≤ 81 := by
  have short := line_length_le row 80
  unfold displayWidth
  split <;> omega

theorem char_display_width (row : Nat → UInt8) : char (displayWidth row) = displayWidth row := by
  have range := display_width_range row
  unfold char
  omega

/-- The scrolling parameters that a text asks for. -/
structure Paced (s : Settings) : Prop where
  measured : ∀ y < 2, s.width y = displayWidth (s.text.data y)
  still : widest s.text ≤ 16 → s.scrollmax = 0 ∧ ∀ y < 2, s.speed y = 0
  scrolling : 16 < widest s.text → s.scrollmax = char (widest s.text * 2 : Nat) ∧
    ∀ y < 2, s.speed y =
      if 16 < s.width y then 256 * s.width y / (widest s.text * 2 : Nat) % 256 else 0

theorem with_pace_spec (v : Settings) (k : Int) (y : Nat) : (withPace k y v).text = v.text ∧
    (withPace k y v).width = v.width ∧ (withPace k y v).scrollmax = v.scrollmax ∧
    (withPace k y v).active = v.active ∧
    ∀ z, (withPace k y v).speed z =
      if z = y ∧ 16 < v.width y then 256 * v.width y / k % 256 else v.speed z := by
  unfold withPace
  split
  · rename_i long
    exact ⟨rfl, rfl, rfl, rfl, fun z => by simp [long]⟩
  · rename_i short
    exact ⟨rfl, rfl, rfl, rfl, fun z => by simp [short]⟩

theorem rescaled_paced (s : Settings) : Paced (rescaled s) := by
  have width0 : (withWidth 1 (withWidth 0 s)).width 0 = displayWidth (s.text.data 0) :=
    char_display_width _
  have width1 : (withWidth 1 (withWidth 0 s)).width 1 = displayWidth (s.text.data 1) :=
    char_display_width _
  have slow : ∀ y < 2, (withWidth 1 (withWidth 0 s)).speed y = 0 := by
    intro y row
    obtain rfl | rfl : y = 0 ∨ y = 1 := by omega
    · rfl
    · rfl
  have text : (withWidth 1 (withWidth 0 s)).text = s.text := rfl
  unfold rescaled
  dsimp only
  generalize withWidth 1 (withWidth 0 s) = u at width0 width1 slow text
  rw [← text] at width0 width1
  have measured : ∀ y < 2, u.width y = displayWidth (u.text.data y) := by
    intro y row
    obtain rfl | rfl : y = 0 ∨ y = 1 := by omega
    · exact width0
    · exact width1
  split
  · rename_i narrow
    refine ⟨measured, fun _ => ⟨rfl, slow⟩, ?_⟩
    intro wide
    dsimp only at wide
    omega
  · rename_i wide
    obtain ⟨text0, widths0, max0, -, speed0⟩ :=
      with_pace_spec { u with scrollmax := char (widest u.text * 2 : Nat) }
        (widest u.text * 2 : Nat) 0
    generalize withPace (widest u.text * 2 : Nat) 0
      { u with scrollmax := char (widest u.text * 2 : Nat) } = v at text0 widths0 max0 speed0
    obtain ⟨text1, widths1, max1, -, speed1⟩ := with_pace_spec v (widest u.text * 2 : Nat) 1
    have text2 := text1.trans text0
    have widths2 := widths1.trans widths0
    dsimp only at text2 widths2 widths0 speed0 max0
    constructor
    · rw [text2, widths2]
      exact measured
    · rw [text2]
      intro narrow
      exact absurd narrow wide
    · rw [text2, widths2]
      intro _
      refine ⟨max1.trans max0, ?_⟩
      intro y row
      rw [speed1, widths0]
      obtain rfl | rfl : y = 0 ∨ y = 1 := by omega
      · rw [if_neg (by simp), speed0, slow 0 (by decide)]
        simp
      · rw [speed0, slow 1 (by decide)]
        simp

end LcdText
