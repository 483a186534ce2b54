import Nios2Ecos.LcdTicks

/- What a repaint leaves on the panel and in the driver's copy of it, pauses included. -/
namespace LcdDisplay
open LcdDriver LcdText LcdTicks

/-- What a timer call that is held off leaves alone, beside the settings. -/
structure Display where
  broken : Bool
  address : Int
  visible : Nat → Nat → UInt8
  panel : Panel

def display (w : World) : Display :=
  { broken := w.dev.broken, address := w.dev.address, visible := w.dev.visible, panel := w.panel }

theorem visible_of {v w : World} (same : display v = display w) : v.dev.visible = w.dev.visible :=
  congrArg Display.visible same

theorem display_timeout {w : World} (active : w.dev.active = true) :
    display (timeout w) = display w := by
  unfold timeout
  dsimp only
  split
  · rename_i repaints
    have idle : w.dev.active = false := repaints.2
    rw [active] at idle
    cases idle
  · rfl

theorem display_interrupt {w : World} (active : w.dev.active = true) (moment : Moment) :
    display (interrupt moment w) = display w := by
  unfold interrupt
  rw [if_pos active]
  exact display_timeout active

theorem display_interrupts {w : World} (active : w.dev.active = true) (moment : Moment) (n : Nat) :
    display ((interrupt moment)^[n] w) = display w := by
  induction n generalizing w with
  | zero => rfl
  | succ n ih =>
    have still : (interrupt moment w).dev.active = true :=
      (active_of (settings_interrupt moment w)).trans active
    rw [Function.iterate_succ_apply, ih still, display_interrupt active]

theorem display_gap {w : World} (active : w.dev.active = true) (moment : Moment) :
    display (gap moment w) = display w := by
  unfold gap
  split
  · rfl
  · rename_i n rest ticks
    exact display_interrupts (w := { w with ticks := rest }.record moment) active moment n

/-- A pause in a repaint with these settings that leaves them and the display alone. -/
structure Calm (pause : Moment → World → World) (s : Settings) : Prop where
  quiet : ∀ w, settings (pause .painting w) = settings w
  still : ∀ w, settings w = s → display (pause .painting w) = display w

theorem calm_none (s : Settings) : Calm (fun _ w => w) s := ⟨fun _ => rfl, fun _ _ => rfl⟩

theorem calm_gap {s : Settings} (active : s.active = true) : Calm gap s := by
  refine ⟨settings_gap .painting, ?_⟩
  intro w same
  exact display_gap ((active_of same).trans active) .painting

/-- The character that a repaint at `scrollpos` puts in a cell. -/
def shown (scrollpos : Int) (d : Dev) (y x : Nat) : UInt8 :=
  d.text.data y ((x + offsetOf scrollpos d y).tmod (d.width y)).toNat

theorem offset_of_settings {v w : World} (same : settings v = settings w) (scrollpos : Int)
    (y : Nat) : offsetOf scrollpos v.dev y = offsetOf scrollpos w.dev y := by
  unfold offsetOf
  rw [width_of same, speed_of same]
  rfl

theorem shown_congr {d e : Dev} (text : d.text = e.text) (width : d.width = e.width)
    (speed : d.speed = e.speed) (scrollpos : Int) : shown scrollpos d = shown scrollpos e := by
  funext y x
  unfold shown offsetOf
  rw [text, width, speed]

theorem shown_of_settings {v w : World} (same : settings v = settings w) (scrollpos : Int) :
    shown scrollpos v.dev = shown scrollpos w.dev :=
  shown_congr (text_of same) (width_of same) (speed_of same) scrollpos

/-- The driver's copy of the panel is right. -/
structure Coherent (d : Dev) (p : Panel) : Prop where
  working : d.broken = false
  prompt : ∀ n, p.hangs n = false
  counter : d.address = p.counter
  mirrored : ∀ y < 2, ∀ x < 16, d.visible y x = p.ddram (colstart y + x)

theorem coherent_of {v w : World} (same : display v = display w)
    (coherent : Coherent w.dev w.panel) : Coherent v.dev v.panel := by
  have broken : v.dev.broken = w.dev.broken := congrArg Display.broken same
  have address : v.dev.address = w.dev.address := congrArg Display.address same
  have panel : v.panel = w.panel := congrArg Display.panel same
  obtain ⟨working, prompt, counter, mirrored⟩ := coherent
  constructor
  · rw [broken]
    exact working
  · rw [panel]
    exact prompt
  · rw [address, panel]
    exact counter
  · rw [visible_of same, panel]
    exact mirrored

theorem visible_command (command : UInt8) (w : World) :
    (lcdWriteCommand command w).dev.visible = w.dev.visible := by
  unfold lcdWriteCommand access
  split
  · rfl
  · dsimp only
    split <;> rfl

theorem visible_data (c : UInt8) (w : World) :
    (lcdWriteData c w).dev.visible = w.dev.visible := by
  unfold lcdWriteData access
  split
  · rfl
  · dsimp only
    split <;> rfl

theorem command_done {w : World} (working : w.dev.broken = false)
    (prompt : ∀ n, w.panel.hangs n = false) (command : UInt8) :
    lcdWriteCommand command w
      = { w with panel := { w.panel with waits := w.panel.waits + 1 }.command command } := by
  unfold lcdWriteCommand access
  rw [working, prompt]
  rfl

theorem data_done {w : World} (working : w.dev.broken = false)
    (prompt : ∀ n, w.panel.hangs n = false) (c : UInt8) :
    lcdWriteData c w
      = { w with panel := { w.panel with waits := w.panel.waits + 1 }.write c }.assign fun d =>
          { d with address := char (d.address + 1) } := by
  unfold lcdWriteData access
  rw [working, prompt]
  rfl

theorem cell_address (y : Nat) {x : Nat} (column : x < 16) :
    (x + colstart y) % 256 = colstart y + x ∧
      (colstart y + x < 0x10 ∨ 0x40 ≤ colstart y + x ∧ colstart y + x < 0x50) := by
  unfold colstart
  split <;> omega

theorem address_command {address : Nat} (small : address < 128) (p : Panel) :
    p.command (0x80 ||| UInt8.ofNat address) = { p with counter := address } := by
  have marked : (0x80 ||| UInt8.ofNat address).toNat = 0x80 + address := by
    have every : ∀ a < 128, (0x80 ||| UInt8.ofNat a).toNat = 0x80 + a := by decide
    exact every address small
  unfold Panel.command
  rw [if_pos (by rw [UInt8.le_iff_toNat_le, marked]; exact Nat.le_add_right _ _), marked,
    Nat.add_sub_cancel_left]

section
variable {pause : Moment → World → World} {s : Settings}

theorem seek_coherent (calm : Calm pause s) {w : World} (same : settings w = s)
    (coherent : Coherent w.dev w.panel) {address : Nat} (small : address < 128) :
    Coherent (seek pause address w).dev (seek pause address w).panel
      ∧ (seek pause address w).dev.address = address := by
  unfold seek
  split
  · have done := command_done coherent.working coherent.prompt (0x80 ||| UInt8.ofNat address)
    rw [address_command small] at done
    have kept := calm.still (lcdWriteCommand (0x80 ||| UInt8.ofNat address) w)
      ((settings_command _ w).trans same)
    rw [done] at kept ⊢
    generalize pause .painting _ = v at kept
    have panel := congrArg Display.panel kept
    have visible := congrArg Display.visible kept
    have broken := congrArg Display.broken kept
    dsimp only [display] at panel visible broken
    have target : char address = address := by
      unfold char
      omega
    refine ⟨⟨broken.trans coherent.working, ?_, ?_, ?_⟩, target⟩
    · dsimp only [World.assign]
      rw [panel]
      exact coherent.prompt
    · dsimp only [World.assign]
      rw [panel]
      exact target
    · dsimp only [World.assign]
      rw [panel, visible]
      exact coherent.mirrored
  · rename_i there
    exact ⟨coherent, (not_not.mp there).symm⟩

theorem paint_coherent (calm : Calm pause s) {w : World} (same : settings w = s)
    (coherent : Coherent w.dev w.panel) {y x : Nat} (row : y < 2) (column : x < 16) (c : UInt8) :
    Coherent (paint pause y x c w).dev (paint pause y x c w).panel := by
  obtain ⟨place, range⟩ := cell_address y column
  have sought := seek_coherent calm same coherent (show (x + colstart y) % 256 < 128 by omega)
  have soughtSame := drawn_seek (settings_drawn calm.quiet s) ((x + colstart y) % 256) same
  unfold paint
  dsimp only
  generalize seek pause ((x + colstart y) % 256) w = u at sought soughtSame
  have first := calm.still u soughtSame
  have firstSame := (calm.quiet u).trans soughtSame
  have ready := coherent_of first sought.1
  have address : (pause .painting u).dev.address = ((x + colstart y) % 256 : Nat) :=
    (congrArg Display.address first).trans sought.2
  generalize pause .painting u = v at ready address firstSame
  have done := data_done ready.working ready.prompt c
  have second := calm.still (lcdWriteData c v) ((settings_data c v).trans firstSame)
  rw [done] at second ⊢
  generalize pause .painting _ = q at second
  have panel := congrArg Display.panel second
  have visible := congrArg Display.visible second
  have broken := congrArg Display.broken second
  have after := congrArg Display.address second
  dsimp only [display, World.assign] at panel visible broken after
  have counter : v.panel.counter = colstart y + x := by
    have known := ready.counter
    omega
  refine ⟨broken.trans ready.working, ?_, ?_, ?_⟩
  · dsimp only [World.assign]
    rw [panel]
    exact ready.prompt
  · dsimp only [World.assign]
    rw [panel, after, address]
    dsimp only [Panel.write]
    rw [counter, nextCounter, if_neg (by omega), if_neg (by omega), char]
    omega
  · dsimp only [World.assign]
    rw [panel, visible]
    intro y' row' x' column'
    dsimp only [Panel.write]
    rw [counter, ready.mirrored y' row' x' column']
    by_cases here : y' = y ∧ x' = x
    · obtain ⟨rfl, rfl⟩ := here
      rw [if_pos ⟨rfl, rfl⟩, if_pos rfl]
    · have elsewhere : colstart y' + x' ≠ colstart y + x := by
        unfold colstart
        split <;> split <;> omega
      rw [if_neg here, if_neg elsewhere]

theorem paint_visible (calm : Calm pause s) {w : World} (same : settings w = s) (y x : Nat)
    (c : UInt8) (y' x' : Nat) : (paint pause y x c w).dev.visible y' x'
      = if y' = y ∧ x' = x then c else w.dev.visible y' x' := by
  have sought : (seek pause ((x + colstart y) % 256) w).dev.visible = w.dev.visible := by
    unfold seek
    split
    · exact (visible_of (calm.still _ ((settings_command _ w).trans same))).trans
        (visible_command _ w)
    · rfl
  have soughtSame := drawn_seek (settings_drawn calm.quiet s) ((x + colstart y) % 256) same
  unfold paint
  dsimp only
  generalize seek pause ((x + colstart y) % 256) w = u at sought soughtSame
  have first := visible_of (calm.still u soughtSame)
  have firstSame := (calm.quiet u).trans soughtSame
  generalize pause .painting u = v at first firstSame
  have second := visible_of (calm.still (lcdWriteData c v) ((settings_data c v).trans firstSame))
  generalize pause .painting (lcdWriteData c v) = q at second
  dsimp only [World.assign]
  rw [second, visible_data, first, sought]

theorem paint_cell_visible (calm : Calm pause s) {w : World} (same : settings w = s) (y : Nat)
    (offset width : Int) (x y' x' : Nat) : (paintCell pause y offset width x w).dev.visible y' x'
      = if y' = y ∧ x' = x then s.text.data y ((x + offset).tmod width).toNat
        else w.dev.visible y' x' := by
  have text : w.dev.text = s.text := text_of same
  rw [← text]
  unfold paintCell
  dsimp only
  split
  · rw [paint_visible calm (w := w.check _) same]
    rfl
  · rename_i already
    split
    · rename_i here
      obtain ⟨rfl, rfl⟩ := here
      exact not_not.mp already
    · rfl

/-- The cells of one line in the order of the loop. -/
def paintCells (pause : Moment → World → World) (y : Nat) (offset width : Int) (cells : List Nat)
    (w : World) : World :=
  cells.foldl (fun w x => pause .painting (paintCell pause y offset width x w)) w

theorem paint_cells_visible (calm : Calm pause s) (y : Nat) (offset width : Int)
    (cells : List Nat) {w : World} (same : settings w = s) (y' x' : Nat) :
    (paintCells pause y offset width cells w).dev.visible y' x'
      = if y' = y ∧ x' ∈ cells then s.text.data y ((x' + offset).tmod width).toNat
        else w.dev.visible y' x' := by
  induction cells generalizing w with
  | nil => simp [paintCells]
  | cons x rest ih =>
    have cellSame := drawn_paint_cell (settings_drawn calm.quiet s) y offset width x same
    have cell := paint_cell_visible calm same y offset width x y' x'
    have paused := visible_of (calm.still _ cellSame)
    rw [paintCells, List.foldl_cons, ← paintCells, ih ((calm.quiet _).trans cellSame), paused, cell]
    by_cases row : y' = y
    · by_cases column : x' = x
      · subst column
        simp [row]
      · simp [row, column]
    · simp [row]

theorem paint_cells_coherent (calm : Calm pause s) {y : Nat} (row : y < 2) (offset width : Int)
    (cells : List Nat) (columns : ∀ x ∈ cells, x < 16) {w : World} (same : settings w = s)
    (coherent : Coherent w.dev w.panel) :
    Coherent (paintCells pause y offset width cells w).dev
      (paintCells pause y offset width cells w).panel := by
  induction cells generalizing w with
  | nil => exact coherent
  | cons x rest ih =>
    have cellSame := drawn_paint_cell (settings_drawn calm.quiet s) y offset width x same
    have cell : Coherent (paintCell pause y offset width x w).dev
        (paintCell pause y offset width x w).panel := by
      unfold paintCell
      dsimp only
      split
      · exact paint_coherent calm (w := w.check _) same coherent row
          (columns x List.mem_cons_self) _
      · exact coherent
    rw [paintCells, List.foldl_cons, ← paintCells]
    exact ih (fun x' member => columns x' (List.mem_cons_of_mem x member))
      ((calm.quiet _).trans cellSame) (coherent_of (calm.still _ cellSame) cell)

theorem paint_line_visible (calm : Calm pause s) {w : World} (same : settings w = s)
    (scrollpos : Int) (y y' x : Nat) :
    (paintLine pause scrollpos y w).dev.visible y' x
      = if y' = y ∧ x < 16 then shown scrollpos w.dev y x else w.dev.visible y' x := by
  have line := paint_cells_visible calm y (offsetOf scrollpos w.dev y) (w.dev.width y)
    (List.range 16) same y' x
  simp only [List.mem_range] at line
  rw [← text_of same] at line
  exact line

theorem paint_line_coherent (calm : Calm pause s) {w : World} (same : settings w = s)
    (scrollpos : Int) {y : Nat} (row : y < 2) (coherent : Coherent w.dev w.panel) :
    Coherent (paintLine pause scrollpos y w).dev (paintLine pause scrollpos y w).panel :=
  paint_cells_coherent calm row _ _ (List.range 16) (fun _ member => List.mem_range.mp member) same
    coherent

/-- The differential repaint sets every cell of the copy. -/
theorem repaint_visible (calm : Calm pause s) {w : World} (same : settings w = s) {y x : Nat}
    (row : y < 2) (column : x < 16) :
    (lcdRepaintScreen pause w).dev.visible y x = shown w.dev.scrollpos w.dev y x := by
  have start := (calm.quiet w).trans same
  have first := drawn_paint_line (settings_drawn calm.quiet s) w.dev.scrollpos 0 start
  have line1 := paint_line_visible calm first w.dev.scrollpos 1 y x
  have line0 := paint_line_visible calm start w.dev.scrollpos 0 y x
  have last : (lcdRepaintScreen pause w).dev.visible y x
      = (paintLine pause w.dev.scrollpos 1
          (paintLine pause w.dev.scrollpos 0 (pause .painting w))).dev.visible y x := rfl
  rw [last, line1, line0, shown_of_settings (first.trans same.symm),
    shown_of_settings (start.trans same.symm)]
  obtain rfl | rfl : y = 0 ∨ y = 1 := by omega
  · simp [column]
  · simp [column]

theorem repaint_coherent (calm : Calm pause s) {w : World} (same : settings w = s)
    (coherent : Coherent w.dev w.panel) :
    Coherent (lcdRepaintScreen pause w).dev (lcdRepaintScreen pause w).panel := by
  have start := (calm.quiet w).trans same
  have first := drawn_paint_line (settings_drawn calm.quiet s) w.dev.scrollpos 0 start
  exact paint_line_coherent calm first w.dev.scrollpos (by decide)
    (paint_line_coherent calm start w.dev.scrollpos (by decide)
      (coherent_of (calm.still w same) coherent))

end

/-- The copy shows what a repaint now would. -/
def Current (d : Dev) : Prop := ∀ y < 2, ∀ x < 16, d.visible y x = shown d.scrollpos d y x

theorem current_timeout {w : World} (idle : w.dev.active = false)
    (scrolls : 0 < w.dev.scrollmax) : Current (timeout w).dev := by
  unfold timeout
  dsimp only
  rw [if_pos ⟨scrolls, idle⟩]
  generalize (w.assign fun d => { d with
    scrollpos := if d.scrollmax ≤ d.scrollpos + 1 then 0 else char (d.scrollpos + 1) }) = v
  intro y row x column
  rw [(repaint_instant v).scrollpos, repaint_visible (calm_none _) rfl row column,
    shown_of_settings (settings_repaint (fun _ w => w) (fun _ => rfl) v)]

theorem interrupt_idle {w : World} (idle : w.dev.active = false) (moment : Moment) :
    interrupt moment w = ((timeout w).record .ticked).record moment := by
  unfold interrupt
  rw [idle]
  rfl

end LcdDisplay
