import Nios2Ecos.LcdScroll

/- The driver's copy of the panel against the panel, with the timer calling between any two
   statements of putc. -/
namespace LcdShadow
open LcdDriver LcdText LcdTicks LcdBounds LcdDisplay LcdScroll

def Exact (d : Dev) (p : Panel) : Prop :=
  ∀ y < 2, ∀ x < 16, p.ddram (colstart y + x) = shown d.scrollpos d y x

theorem exact_of_current {d : Dev} {p : Panel} (coherent : Coherent d p) (current : Current d) :
    Exact d p := by
  intro y row x column
  rw [← coherent.mirrored y row x column, current y row x column]

/-- What holds at a moment of a run, but for where the copy is being brought up to date. -/
structure Mirrors (updating : Moment → Prop) (s : Snapshot) : Prop where
  coherent : ¬updating s.moment → Coherent s.dev s.panel
  exact : s.moment = .ticked ∨ s.moment = .returned → Exact s.dev s.panel
  widths : s.moment = .painting → ∀ y < 2, s.dev.width y ≠ 0

def Updating (moment : Moment) : Prop := moment = .painting ∨ moment = .clearing

def Traced (w : World) : Prop := ∀ s ∈ w.trace, Mirrors Updating s

def snapshot (moment : Moment) (w : World) : Snapshot :=
  { moment := moment, dev := w.dev, panel := w.panel }

theorem traced_record {w : World} {moment : Moment} (traced : Traced w)
    (mirrors : Mirrors Updating (snapshot moment w)) : Traced (w.record moment) := by
  intro s member
  rcases List.mem_cons.mp member with rfl | earlier
  · exact mirrors
  · exact traced s earlier

theorem mirrors_within {w : World} {moment : Moment} (unticked : moment ≠ .ticked)
    (within : moment ≠ .returned) (coherent : ¬Updating moment → Coherent w.dev w.panel)
    (widths : moment = .painting → ∀ y < 2, w.dev.width y ≠ 0) :
    Mirrors Updating (snapshot moment w) :=
  ⟨coherent, fun shows => (shows.elim unticked within).elim, widths⟩

theorem mirrors_elsewhere {w : World} (coherent : Coherent w.dev w.panel) :
    Mirrors Updating (snapshot .elsewhere w) :=
  mirrors_within (by decide) (by decide) (fun _ => coherent) (by rintro ⟨⟩)

theorem mirrors_clearing (w : World) : Mirrors Updating (snapshot .clearing w) :=
  mirrors_within (by decide) (by decide) (fun outside => absurd (Or.inr rfl) outside)
    (by rintro ⟨⟩)

theorem mirrors_painting {w : World} (widths : ∀ y < 2, w.dev.width y ≠ 0) :
    Mirrors Updating (snapshot .painting w) :=
  mirrors_within (by decide) (by decide) (fun outside => absurd (Or.inl rfl) outside)
    (fun _ => widths)

theorem mirrors_exact {w : World} {moment : Moment} (coherent : Coherent w.dev w.panel)
    (current : Current w.dev) (outside : moment ≠ .painting) :
    Mirrors Updating (snapshot moment w) :=
  ⟨fun _ => coherent, fun _ => exact_of_current coherent current,
    fun painting => absurd painting outside⟩

/-- A gap with the timer held off is seen as its moment asks, if that only depends on what the
    timer leaves alone. -/
theorem traced_gap {w : World} (active : w.dev.active = true) {moment : Moment}
    (mirrors : ∀ v, settings v = settings w → display v = display w →
      Mirrors Updating (snapshot moment v)) (traced : Traced w) : Traced (gap moment w) := by
  unfold gap
  split
  · exact traced_record traced (mirrors w rfl rfl)
  · rename_i n rest ticks
    have start : Traced ({ w with ticks := rest }.record moment) :=
      traced_record (w := { w with ticks := rest }) traced (mirrors w rfl rfl)
    have settled : settings ({ w with ticks := rest }.record moment) = settings w := rfl
    have displayed : display ({ w with ticks := rest }.record moment) = display w := rfl
    generalize { w with ticks := rest }.record moment = v at start settled displayed
    clear ticks
    induction n generalizing v with
    | zero => exact start
    | succ n ih =>
      have held : v.dev.active = true := (active_of settled).trans active
      have called : settings (timeout v) = settings w := (settings_timeout v).trans settled
      have same : display (timeout v) = display w := (display_timeout held).trans displayed
      have next : interrupt moment v = (timeout v).record moment := by
        unfold interrupt
        rw [if_pos held]
      have earlier : Traced (timeout v) := by
        unfold Traced
        rw [(timeout_moves v).2.1]
        exact start
      rw [Function.iterate_succ_apply]
      apply ih
      · rw [next]
        exact traced_record earlier (mirrors _ called same)
      · rw [next]
        exact called
      · rw [next]
        exact same

/-- The foreground between two statements that are no update: the timer is held off, and at most
    `n` of its calls are to come. -/
structure Held (n : Nat) (w : World) : Prop where
  coherent : Coherent w.dev w.panel
  active : w.dev.active = true
  traced : Traced w
  coming : w.ticks.sum ≤ n

theorem later_coming {v w : World} {n : Nat} (later : Later w v) (coming : w.ticks.sum ≤ n) :
    v.ticks.sum ≤ n := by
  obtain ⟨k, spent, -, -⟩ := later
  omega

section
variable {n : Nat} {w : World}

theorem held_gap (held : Held n w) : Held n (gap .elsewhere w) where
  coherent := coherent_of (display_gap held.active .elsewhere) held.coherent
  active := (active_of (settings_gap .elsewhere w)).trans held.active
  traced := traced_gap held.active
    (fun _ _ same => mirrors_elsewhere (coherent_of same held.coherent)) held.traced
  coming := later_coming (later_gap .elsewhere w) held.coming

theorem held_edit (held : Held n w) (f : Text → Text) : Held n (w.edit f) :=
  ⟨coherent_of (w := w) rfl held.coherent, held.active, held.traced, held.coming⟩

theorem held_tuned : Tuned (Held n) where
  gap := fun _ held => held_gap held
  width := fun w _ held =>
    ⟨coherent_of (w := w) rfl held.coherent, held.active, held.traced, held.coming⟩
  speed := fun w _ _ held =>
    ⟨coherent_of (w := w) rfl held.coherent, held.active, held.traced, held.coming⟩
  scrollmax := fun w _ _ held =>
    ⟨coherent_of (w := w) rfl held.coherent, held.active, held.traced, held.coming⟩

structure Clearing (n : Nat) (d : Display) (w : World) : Prop where
  active : w.dev.active = true
  traced : Traced w
  coming : w.ticks.sum ≤ n
  displayed : display w = d

theorem clearing_gap {d : Display} (clearing : Clearing n d w) :
    Clearing n d (gap .clearing w) where
  active := (active_of (settings_gap .clearing w)).trans clearing.active
  traced := traced_gap clearing.active (fun v _ _ => mirrors_clearing v) clearing.traced
  coming := later_coming (later_gap .clearing w) clearing.coming
  displayed := (display_gap clearing.active .clearing).trans clearing.displayed

theorem clearing_edit {d : Display} (clearing : Clearing n d w) (f : Text → Text) :
    Clearing n d (w.edit f) :=
  ⟨clearing.active, clearing.traced, clearing.coming, clearing.displayed⟩

theorem clearing_line {d : Display} (clearing : Clearing n d w) (y : Nat) :
    Clearing n { d with visible := fun y' x' =>
      if y' = y ∧ x' < 16 then space else d.visible y' x' } (clearLine y w) := by
  have blanked := clearing_gap (clearing_edit clearing fun t => t.blank y 0 81)
  unfold clearLine
  dsimp only
  generalize gap .clearing (w.edit fun t => t.blank y 0 81) = v at blanked
  obtain ⟨active, traced, coming, rfl⟩ := blanked
  have shadowed : Clearing n { display v with visible := fun y' x' =>
      if y' = y ∧ x' < 16 then space else v.dev.visible y' x' } (v.assign fun d =>
      { d with visible := fun y' x' => if y' = y ∧ x' < 16 then space else d.visible y' x' }) :=
    ⟨active, traced, coming, rfl⟩
  obtain ⟨active', traced', coming', displayed⟩ := clearing_gap shadowed
  exact ⟨active', traced', coming', displayed⟩

theorem held_clear_screen (held : Held n w) : Held n (lcdClearScreen w) := by
  have sent := command_done held.coherent.working held.coherent.prompt 0x01
  have started : Clearing n
      { display w with panel := { w.panel with
          ddram := fun _ => space, counter := 0, waits := w.panel.waits + 1 } }
      (lcdWriteCommand 0x01 w) := by
    rw [sent]
    exact ⟨held.active, held.traced, held.coming, rfl⟩
  have moved := clearing_gap (clearing_edit (clearing_gap (clearing_edit (clearing_gap started)
    fun t => { t with x := 0 })) fun t => { t with y := 0 })
  unfold lcdClearScreen
  dsimp only
  generalize gap .clearing ((gap .clearing ((gap .clearing (lcdWriteCommand 0x01 w)).edit
    fun t => { t with x := 0 })).edit fun t => { t with y := 0 }) = v at moved
  obtain ⟨active, traced, coming, displayed⟩ := moved
  have addressed : Clearing n { display v with address := 0 }
      (v.assign fun d => { d with address := 0 }) := ⟨active, traced, coming, rfl⟩
  rw [displayed] at addressed
  have done := clearing_line (clearing_gap (clearing_line (clearing_gap addressed) 0)) 1
  generalize clearLine 1 _ = u at done
  have panel := congrArg Display.panel done.displayed
  have visible := congrArg Display.visible done.displayed
  have broken := congrArg Display.broken done.displayed
  have address := congrArg Display.address done.displayed
  dsimp only [display] at panel visible broken address
  refine ⟨⟨broken.trans held.coherent.working, ?_, ?_, ?_⟩, done.active, done.traced,
    done.coming⟩
  · rw [panel]
    exact held.coherent.prompt
  · rw [panel, address]
    rfl
  · intro y row x column
    rw [panel, visible]
    dsimp only
    obtain rfl | rfl : y = 0 ∨ y = 1 := by omega
    · rw [if_neg (by omega), if_pos ⟨rfl, column⟩]
    · rw [if_pos ⟨rfl, column⟩]

theorem held_kept : Kept (Held n) :=
  ⟨fun _ held => held_gap held, fun _ f held => held_edit held f,
    fun _ held => held_clear_screen held⟩

end

def Steady (s : Settings) : Prop := 0 < s.scrollmax ∨ s.scrollmax = 0 ∧ ∀ y < 2, s.speed y = 0

theorem shown_still {d : Dev} {y : Nat} (slow : d.speed y = 0) (p q : Int) (x : Nat) :
    shown p d y x = shown q d y x := by
  unfold shown offsetOf
  rw [slow, Int.mul_zero, Int.mul_zero]

/-- The timer is let in. While nothing scrolls, its calls repaint nothing, and need not. -/
structure Idle (w : World) : Prop where
  coherent : Coherent w.dev w.panel
  idle : w.dev.active = false
  steady : Steady (settings w)
  traced : Traced w
  still : w.dev.scrollmax = 0 → Current w.dev

theorem idle_timeout {w : World} (idle : Idle w) :
    Coherent (timeout w).dev (timeout w).panel ∧ Current (timeout w).dev := by
  rcases idle.steady with scrolls | ⟨stopped, slow⟩
  · refine ⟨?_, current_timeout idle.idle scrolls⟩
    unfold timeout
    dsimp only
    rw [if_pos ⟨scrolls, idle.idle⟩]
    exact repaint_coherent (calm_none _) rfl (coherent_of (w := w) rfl idle.coherent)
  · have calm : w.dev.scrollmax = 0 := stopped
    have before := idle.still calm
    unfold timeout
    dsimp only
    rw [if_neg (by dsimp only [World.assign]; omega)]
    refine ⟨coherent_of (w := w) rfl idle.coherent, ?_⟩
    intro y row x column
    exact (before y row x column).trans (shown_still (slow y row) _ _ x)

theorem idle_interrupt {w : World} (idle : Idle w) :
    Idle (interrupt .elsewhere w) ∧ Current (interrupt .elsewhere w).dev := by
  obtain ⟨coherent, current⟩ := idle_timeout idle
  have same := settings_timeout w
  have trace := (timeout_moves w).2.1
  rw [interrupt_idle idle.idle]
  generalize timeout w = v at coherent current same trace
  have seen : Traced v := by
    unfold Traced
    rw [trace]
    exact idle.traced
  have ticked : Traced (v.record .ticked) :=
    traced_record seen (mirrors_exact coherent current (by decide))
  refine ⟨⟨coherent, (active_of same).trans idle.idle, ?_, ?_, fun _ => current⟩, current⟩
  · change Steady (settings v)
    rw [same]
    exact idle.steady
  · exact traced_record (w := v.record .ticked) ticked (mirrors_elsewhere coherent)

theorem idle_gap {w : World} (idle : Idle w) : Idle (gap .elsewhere w) ∧
    (Current (gap .elsewhere w).dev ∨ (gap .elsewhere w).dev = w.dev) := by
  unfold gap
  split
  · exact ⟨⟨idle.coherent, idle.idle, idle.steady,
      traced_record idle.traced (mirrors_elsewhere idle.coherent), idle.still⟩, Or.inr rfl⟩
  · rename_i n rest ticks
    have start : Idle ({ w with ticks := rest }.record .elsewhere) :=
      ⟨idle.coherent, idle.idle, idle.steady,
        traced_record (w := { w with ticks := rest }) idle.traced
          (mirrors_elsewhere idle.coherent), idle.still⟩
    clear ticks
    induction n with
    | zero => exact ⟨start, Or.inr rfl⟩
    | succ n ih =>
      rw [Function.iterate_succ_apply']
      obtain ⟨next, current⟩ := idle_interrupt ih.1
      exact ⟨next, Or.inl current⟩

section
variable {n : Nat} {s : Settings}

theorem traced_drawn (active : s.active = true) (widths : ∀ y < 2, s.width y ≠ 0) :
    Drawn gap (fun w => settings w = s ∧ Traced w) where
  pause := by
    rintro w ⟨same, traced⟩
    refine ⟨(settings_gap .painting w).trans same,
      traced_gap ((active_of same).trans active) ?_ traced⟩
    intro v settled _
    apply mirrors_painting
    rw [width_of (settled.trans same)]
    exact widths
  command := by
    rintro w command ⟨same, traced⟩
    refine ⟨(settings_command command w).trans same, ?_⟩
    unfold Traced
    rw [(instant_command command w).trace]
    exact traced
  data := by
    rintro w c ⟨same, traced⟩
    refine ⟨(settings_data c w).trans same, ?_⟩
    unfold Traced
    rw [(instant_data c w).trace]
    exact traced
  address := fun _ _ drawn => drawn
  visible := fun _ _ drawn => drawn
  check := fun _ _ drawn => drawn

theorem held_repaint {w : World} (held : Held n w) (same : settings w = s)
    (widths : ∀ y < 2, s.width y ≠ 0) : Held n (lcdRepaintScreen gap w) := by
  have active : s.active = true := (active_of same).symm.trans held.active
  obtain ⟨painted, traced⟩ := drawn_repaint (traced_drawn active widths) ⟨same, held.traced⟩
  exact ⟨repaint_coherent (calm_gap active) same held.coherent, (active_of painted).trans active,
    traced, later_coming (later_repaint w) held.coming⟩

theorem once_spec {u : World} (held : Held n u) (same : settings u = s)
    (widths : ∀ y < 2, s.width y ≠ 0) (steady : Steady s) :
    ∃ v r, Later u v ∧ Later v r ∧ repaintOnce u = gap .elsewhere r ∧ Idle r
      ∧ settings r = { s with active := false }
      ∧ ∀ y < 2, ∀ x < 16, r.dev.visible y x = shown v.dev.scrollpos r.dev y x := by
  have start := held_gap held
  have startSame := (settings_gap .elsewhere u).trans same
  have first := later_gap .elsewhere u
  unfold repaintOnce
  dsimp only
  generalize gap .elsewhere u = v at start startSame first
  have active : s.active = true := (active_of startSame).symm.trans start.active
  have painted := held_repaint start startSame widths
  have paintedSame := (settings_repaint gap (settings_gap .painting) v).trans startSame
  have second := later_repaint v
  have visible : ∀ y < 2, ∀ x < 16,
      (lcdRepaintScreen gap v).dev.visible y x = shown v.dev.scrollpos v.dev y x :=
    fun y row x column => repaint_visible (calm_gap active) startSame row column
  generalize lcdRepaintScreen gap v = p at painted paintedSame second visible
  have paused := held_gap painted
  have pausedSame := (settings_gap .elsewhere p).trans paintedSame
  have third := second.trans (later_gap .elsewhere p)
  rw [← visible_of (display_gap painted.active .elsewhere)] at visible
  generalize gap .elsewhere p = q at paused pausedSame third visible
  obtain ⟨k, spent, scrollmax, scrolled⟩ := third
  have shows : shown v.dev.scrollpos v.dev = shown v.dev.scrollpos q.dev :=
    shown_of_settings (startSame.trans pausedSame.symm) _
  rw [shows] at visible
  have released : settings (q.assign fun d => { d with active := false })
      = { s with active := false } := by
    rw [← pausedSame]
    rfl
  refine ⟨v, q.assign fun d => { d with active := false }, first,
    ⟨k, spent, scrollmax, scrolled⟩, rfl,
    ⟨coherent_of (w := q) rfl paused.coherent, rfl, ?_, paused.traced, ?_⟩, released, visible⟩
  · rw [released]
    exact steady
  · intro stopped
    have slow : ∀ y < 2, q.dev.speed y = 0 := by
      have none : s.scrollmax = 0 := (scrollmax_of pausedSame).symm.trans stopped
      rcases steady with scrolls | ⟨-, slow⟩
      · omega
      · rw [speed_of pausedSame]
        exact slow
    intro y row x column
    exact (visible y row x column).trans (shown_still (slow y row) _ _ x)

theorem held_resumed {w : World} (idle : Idle w) (coming : w.ticks.sum ≤ n) :
    Held n (resumed w) := by
  have begun : Held n (w.assign fun d => { d with active := true }) :=
    ⟨coherent_of (w := w) rfl idle.coherent, rfl, idle.traced, coming⟩
  exact held_gap begun

theorem once_current {u : World} (held : Held n u) (same : settings u = s)
    (widths : ∀ y < 2, s.width y ≠ 0) (steady : Steady s) (scrolled : 0 ≤ u.dev.scrollpos)
    (limited : s.scrollmax ≤ 127)
    (few : 0 < s.scrollmax → n < (repaintOnce u).ticks.sum + s.scrollmax)
    (still : (repaintOnce u).dev.scrollpos = u.dev.scrollpos) :
    Idle (repaintOnce u) ∧ Current (repaintOnce u).dev := by
  obtain ⟨v, r, ⟨j, first⟩, ⟨k, second⟩, done, idle, released, visible⟩ :=
    once_spec held same widths steady
  rw [done] at few still ⊢
  obtain ⟨after, current | unmoved⟩ := idle_gap idle
  · exact ⟨after, current⟩
  refine ⟨after, ?_⟩
  have left := later_coming (later_gap .elsewhere r) (Nat.le_refl _)
  generalize gap .elsewhere r = q at after unmoved left few still
  rw [unmoved] at still ⊢
  rcases steady with scrolls | ⟨stopped, -⟩
  · have total := first.trans second
    have spent := total.spent
    have coming := held.coming
    have bound := few scrolls
    have scrollmax : u.dev.scrollmax = s.scrollmax := scrollmax_of same
    have round := total.scrolled
    rw [still, scrollmax] at round
    have none : j + k = 0 :=
      advance_still scrolls limited scrolled (by omega) round.symm
    have silent : k = 0 := by omega
    have place : r.dev.scrollpos = v.dev.scrollpos := by
      have moved := second.scrolled
      rw [silent] at moved
      exact moved
    intro y row x column
    rw [visible y row x column, place]
  · exact idle.still ((scrollmax_of released).trans stopped)

end

structure Looping (n : Nat) (s : Settings) (w : World) : Prop where
  working : Working w
  held : Held n w
  same : settings w = s

theorem looping_again {n : Nat} {s : Settings} {w : World} (looping : Looping n s w)
    (sized : ∀ y < 2, 0 < s.width y ∧ s.width y ≤ 81) (steady : Steady s) :
    Looping n s (resumed (gap .elsewhere (repaintOnce w))) := by
  obtain ⟨working, held, same⟩ := looping
  have wide : Sized w := by
    unfold Sized
    rw [width_of same]
    exact sized
  obtain ⟨v, r, -, -, done, idle, -, -⟩ :=
    once_spec held same (fun y row => by have := sized y row; omega) steady
  have after : Idle (repaintOnce w) := by
    rw [done]
    exact (idle_gap idle).1
  have fit := fit_gap (fit_repaint_once working wide) (fun _ _ => sized_once wide) .elsewhere
  have coming := later_coming (later_gap .elsewhere (repaintOnce w))
    (later_coming (later_once w) held.coming)
  exact ⟨working_resumed fit, held_resumed (idle_gap after).1 coming,
    (settings_resumed working.2).trans same⟩

theorem steady_of_short {s : Settings} (paced : Paced s)
    (short : ∀ y < 2, lineLength (s.text.data y) 80 ≤ 62) : Steady s := by
  by_cases narrow : widest s.text ≤ 16
  · exact Or.inr (paced.still narrow)
  · left
    rw [(paced.scrolling (by omega)).1, char]
    have most := widest_short short
    omega

theorem finish_current {n : Nat} {w : World} (working : Working w) (held : Held n w)
    (short : ∀ y < 2, lineLength (w.dev.text.data y) 80 ≤ 62)
    (few : 0 < (finish w).dev.scrollmax →
      n < (finish w).ticks.sum + (finish w).dev.scrollmax) :
    Idle (finish w) ∧ Current (finish w).dev := by
  have scrollmax := scrollmax_of (finish_settings working.2)
  have paced := rescaled_paced (settings w)
  have text : (rescaled (settings w)).text = w.dev.text := by
    rw [← settings_rescale]
    exact rescale_text w
  rw [← text] at short
  have steady := steady_of_short paced short
  have sized : ∀ y < 2, 0 < (rescaled (settings w)).width y ∧
      (rescaled (settings w)).width y ≤ 81 := by
    intro y row
    have range := display_width_range ((rescaled (settings w)).text.data y)
    have width := paced.measured y row
    omega
  have start := settings_rescale w
  generalize rescaled (settings w) = s at scrollmax steady sized start
  dsimp only at scrollmax
  rw [scrollmax] at few
  obtain ⟨u, last, done, still⟩ := finish_ends (P := Looping n s)
    (fun v looping _ => looping_again looping sized steady) (w := w)
    ⟨working_gap (tuned_rescale working_tuned working) .elsewhere,
      held_gap (tuned_rescale held_tuned held), (settings_gap .elsewhere _).trans start⟩
  rw [done] at few ⊢
  have limited := last.working.1.limited
  rw [scrollmax_of last.same] at limited
  exact once_current last.held last.same (fun y row => by have := sized y row; omega) steady
    last.working.1.scrolled limited few still

structure Rest (w : World) : Prop where
  ready : Ready w
  idle : Idle w
  current : Current w.dev

theorem rest_timer {w : World} (rest : Rest w) : Rest (interrupt .elsewhere w) :=
  ⟨ready_timer rest.ready, (idle_interrupt rest.idle).1, (idle_interrupt rest.idle).2⟩

/-- A call with the cursor and the escape buffer in range, no line longer than 62 characters, and
    fewer timer calls than scrollmax if the lines scroll. -/
structure Call (c : UInt8) (w : World) : Prop where
  bounds : TextInBounds (putc c w).dev.text
  short : ∀ y < 2, lineLength ((putc c w).dev.text.data y) 80 ≤ 62
  few : 0 < (putc c w).dev.scrollmax → w.ticks.sum < (putc c w).ticks.sum + (putc c w).dev.scrollmax

theorem rest_putc {w : World} (rest : Rest w) {c : UInt8} (call : Call c w) : Rest (putc c w) := by
  have ready := ready_putc rest.ready c
  obtain ⟨-, short, few⟩ := call
  rw [putc_finish] at ready short few ⊢
  have held := held_gap (kept_receive held_kept
    (held_resumed rest.idle (Nat.le_refl w.ticks.sum)) c)
  have working := working_gap (kept_receive working_kept (working_resumed rest.ready.1) c)
    .elsewhere
  generalize gap .elsewhere (receive c (resumed w)) = v at ready short few held working
  have text := finish_text v
  have done := finish_current working held
  generalize finish v = q at ready text done short few
  have same : (q.record .returned).dev.text = v.dev.text := text
  rw [same] at short
  obtain ⟨idle, current⟩ := done short few
  exact ⟨ready, ⟨idle.coherent, idle.idle, idle.steady, traced_record idle.traced
    (mirrors_exact idle.coherent current (by decide)), idle.still⟩, current⟩

def run (events : List Event) (w : World) : World := events.foldl step w

def Calls : List Event → World → Prop
  | [], _ => True
  | .timer :: rest, w => Calls rest (step w .timer)
  | .output c :: rest, w => Call c w ∧ Calls rest (step w (.output c))

instance (c : UInt8) (w : World) : Decidable (Call c w) :=
  decidable_of_iff (((putc c w).dev.text.fault = false ∧ 0 ≤ (putc c w).dev.text.x
      ∧ 0 ≤ (putc c w).dev.text.y ∧ (putc c w).dev.text.y ≤ 2)
    ∧ (∀ y < 2, lineLength ((putc c w).dev.text.data y) 80 ≤ 62)
    ∧ (0 < (putc c w).dev.scrollmax →
      w.ticks.sum < (putc c w).ticks.sum + (putc c w).dev.scrollmax))
    ⟨fun ⟨⟨sound, left, top, bottom⟩, short, few⟩ => ⟨⟨sound, left, top, bottom⟩, short, few⟩,
      fun call => ⟨⟨call.bounds.sound, call.bounds.left, call.bounds.top, call.bounds.bottom⟩,
        call.short, call.few⟩⟩

def Calls.decide : ∀ events w, Decidable (Calls events w)
  | [], _ => .isTrue trivial
  | .timer :: rest, w => Calls.decide rest (step w .timer)
  | .output c :: rest, w =>
    have := Calls.decide rest (step w (.output c))
    inferInstanceAs (Decidable (_ ∧ _))

instance (events : List Event) (w : World) : Decidable (Calls events w) := Calls.decide events w

theorem run_rest {w : World} (rest : Rest w) (events : List Event) (calls : Calls events w) :
    Rest (run events w) := by
  induction events generalizing w with
  | nil => exact rest
  | cons e events ih =>
    cases e with
    | timer => exact ih (rest_timer rest) calls
    | output c =>
      obtain ⟨call, later⟩ := calls
      have next : Rest (step w (.output c)) := by
        rw [step]
        exact rest_putc rest call
      rw [run, List.foldl_cons, ← run]
      exact ih next later

theorem fresh_rest (ticks : List Nat) : Rest (fresh ticks fun _ => false) where
  ready := fresh_ready ticks _
  idle := ⟨⟨rfl, fun _ => rfl, rfl, fun _ _ _ _ => rfl⟩, rfl, Or.inr ⟨rfl, fun _ _ => rfl⟩,
    fun _ member => absurd member List.not_mem_nil, fun _ _ _ _ _ => rfl⟩
  current := fun _ _ _ _ => rfl

/-- In a run from the cleared panel, with the timer calling between any two statements, the copy
    is right but in a repaint and in lcd_clear_screen, the panel is exact after a call and after
    a timer call that is let in, and no repaint has found a width of 0. -/
theorem shadow_mirrors {ticks : List Nat} {events : List Event}
    (calls : Calls events (fresh ticks fun _ => false)) :
    (∀ s ∈ (run events (fresh ticks fun _ => false)).trace, Mirrors Updating s) ∧
      (run events (fresh ticks fun _ => false)).fault = false := by
  have rest := run_rest (fresh_rest ticks) events calls
  exact ⟨rest.idle.traced, rest.ready.1.sound⟩

def seventeen : List Event := List.replicate 17 (.output 0x41) ++ [.timer]

theorem shadow_mirrors_seventeen :
    Calls seventeen (fresh (List.replicate 400 0 ++ [1]) fun _ => false)
    ∧ (∀ s ∈ (run seventeen (fresh (List.replicate 400 0 ++ [1]) fun _ => false)).trace,
      Mirrors Updating s)
    ∧ (run seventeen (fresh (List.replicate 400 0 ++ [1]) fun _ => false)).fault = false := by
  have calls : Calls seventeen (fresh (List.replicate 400 0 ++ [1]) fun _ => false) := by
    decide +kernel
  exact ⟨calls, shadow_mirrors calls⟩

/-- ESC [2J after a letter: between the command and the assignment to `address` the panel's
    counter is 0 and the driver's is 1. -/
theorem clear_screen_behind : ¬∀ (ticks : List Nat) (events : List Event),
    Calls events (fresh ticks fun _ => false) →
    (∀ s ∈ (run events (fresh ticks fun _ => false)).trace, Mirrors (fun m => m = .painting) s) ∧
      (run events (fresh ticks fun _ => false)).fault = false := by
  intro claimed
  have all := (claimed [] [.output 0x41, .output 0x1b, .output 0x5b, .output 0x32, .output 0x4a]
    (by decide +kernel)).1
  have some_behind : ∃ s ∈ (run [.output 0x41, .output 0x1b, .output 0x5b, .output 0x32,
      .output 0x4a] (fresh [] fun _ => false)).trace,
      s.moment = .clearing ∧ s.dev.address ≠ s.panel.counter := by
    decide +kernel
  obtain ⟨s, member, clearing, behind⟩ := some_behind
  have coherent := (all s member).coherent (by rw [clearing]; decide)
  exact behind coherent.counter

end LcdShadow
