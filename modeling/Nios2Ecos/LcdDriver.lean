import Mathlib.Algebra.Order.Ring.Nat
import Mathlib.Logic.Function.Iterate

/- The driver of the 16207 LCD panel, statement by statement. Between two statements the timer
   may call alt_lcd_16207_timeout any number of times: the functions of the foreground are given
   what happens there as `gap`, and the timer's own call of lcd_repaint_screen runs without. -/
namespace LcdDriver

def char (n : Int) : Int := (n + 128) % 256 - 128

def space : UInt8 := 0x20

/-- The panel in its two-line mode. `hangs` says whether the wait before an access times out. -/
structure Panel where
  ddram : Nat → UInt8
  counter : Nat
  hangs : Nat → Bool
  waits : Nat

def nextCounter (a : Nat) : Nat := if a = 0x27 then 0x40 else if a = 0x67 then 0 else a + 1

def Panel.command (p : Panel) (command : UInt8) : Panel :=
  if 0x80 ≤ command then { p with counter := command.toNat - 0x80 }
  else if command = 0x01 then { p with ddram := fun _ => space, counter := 0 }
  else p

def Panel.write (p : Panel) (c : UInt8) : Panel :=
  { p with ddram := fun a => if a = p.counter then c else p.ddram a
           counter := nextCounter p.counter }

/-- The fields of alt_lcd_16207_dev that hold the text and the cursor, and whether an access to
    them has been out of range. -/
structure Text where
  x : Int
  y : Int
  esccount : Int
  escape : Nat → UInt8
  data : Nat → Nat → UInt8
  fault : Bool

structure Dev where
  text : Text
  broken : Bool
  address : Int
  scrollpos : Int
  scrollmax : Int
  active : Bool
  visible : Nat → Nat → UInt8
  width : Nat → Int
  speed : Nat → Int

/-- Where the driver is: in lcd_clear_screen, in lcd_repaint_screen or elsewhere, after a timer
    call that was not held off by `active`, or back from putc. -/
inductive Moment
  | clearing | painting | elsewhere | ticked | returned
deriving DecidableEq

structure Snapshot where
  moment : Moment
  dev : Dev
  panel : Panel

/-- `ticks` is how often the timer will call in each gap to come, `fault` whether a repaint has
    divided by zero or indexed out of range, and `trace` what has been seen in the gaps. -/
structure World where
  dev : Dev
  panel : Panel
  ticks : List Nat
  fault : Bool
  trace : List Snapshot

def fresh (ticks : List Nat) (hangs : Nat → Bool) : World :=
  { dev :=
      { text := { x := 0, y := 0, esccount := -1, escape := fun _ => 0
                  data := fun _ _ => space, fault := false }
        broken := false, address := 0, scrollpos := 0, scrollmax := 0, active := false
        visible := fun _ _ => space, width := fun _ => 0, speed := fun _ => 0 }
    panel := { ddram := fun _ => space, counter := 0, hangs := hangs, waits := 0 }
    ticks := ticks, fault := false, trace := [] }

def World.assign (w : World) (f : Dev → Dev) : World := { w with dev := f w.dev }

def World.edit (w : World) (f : Text → Text) : World :=
  w.assign fun d => { d with text := f d.text }

def World.check (w : World) (inRange : Bool) : World := { w with fault := w.fault || !inRange }

def World.record (w : World) (moment : Moment) : World :=
  { w with trace := { moment := moment, dev := w.dev, panel := w.panel } :: w.trace }

def colstart (y : Nat) : Nat := if y = 0 then 0x00 else 0x40

def access (w : World) (done : World → World) : World :=
  if w.dev.broken then w
  else
    let waited := { w with panel := { w.panel with waits := w.panel.waits + 1 } }
    if w.panel.hangs w.panel.waits then waited.assign fun d => { d with broken := true }
    else done waited

def lcdWriteCommand (command : UInt8) (w : World) : World :=
  access w fun w => { w with panel := w.panel.command command }

def lcdWriteData (c : UInt8) (w : World) : World :=
  access w fun w =>
    { w with panel := w.panel.write c }.assign fun d => { d with address := char (d.address + 1) }

section
variable (gap : Moment → World → World)

def seek (address : Nat) (w : World) : World :=
  if (address : Int) ≠ w.dev.address then
    (gap .painting (lcdWriteCommand (0x80 ||| UInt8.ofNat address) w)).assign
      fun d => { d with address := char address }
  else w

def paint (y x : Nat) (c : UInt8) (w : World) : World :=
  let w := seek gap ((x + colstart y) % 256) w
  let w := gap .painting (lcdWriteData c (gap .painting w))
  w.assign fun d =>
    { d with visible := fun y' x' => if y' = y ∧ x' = x then c else d.visible y' x' }

def paintCell (y : Nat) (offset width : Int) (x : Nat) (w : World) : World :=
  let i := (x + offset).tmod width
  let w := w.check (decide (width ≠ 0 ∧ 0 ≤ i ∧ i ≤ 80))
  let c := w.dev.text.data y i.toNat
  if w.dev.visible y x ≠ c then paint gap y x c w else w

/-- `offset` for one line; the shift is an arithmetic one. -/
def offsetOf (scrollpos : Int) (d : Dev) (y : Nat) : Int :=
  let offset := scrollpos * d.speed y / 256
  if d.width y ≤ offset then 0 else offset

def paintLine (scrollpos : Int) (y : Nat) (w : World) : World :=
  let width := w.dev.width y
  let offset := offsetOf scrollpos w.dev y
  (List.range 16).foldl (fun w x => gap .painting (paintCell gap y offset width x w)) w

def lcdRepaintScreen (w : World) : World :=
  let scrollpos := w.dev.scrollpos
  (List.range 2).foldl (fun w y => paintLine gap scrollpos y w) (gap .painting w)

end

def timeout (w : World) : World :=
  let w := w.assign fun d =>
    { d with scrollpos := if d.scrollmax ≤ d.scrollpos + 1 then 0 else char (d.scrollpos + 1) }
  if 0 < w.dev.scrollmax ∧ w.dev.active = false then lcdRepaintScreen (fun _ w => w) w else w

def interrupt (moment : Moment) (w : World) : World :=
  if w.dev.active then (timeout w).record moment
  else ((timeout w).record .ticked).record moment

def gap (moment : Moment) (w : World) : World :=
  match w.ticks with
  | [] => w.record moment
  | n :: rest => (interrupt moment)^[n] ({ w with ticks := rest }.record moment)

def Text.store (t : Text) (y x : Int) (c : UInt8) : Text :=
  if 0 ≤ y ∧ y < 2 ∧ 0 ≤ x ∧ x ≤ 80 then
    { t with data := fun y' x' =>
        if y' = y.toNat ∧ x' = x.toNat then c else t.data y' x' }
  else { t with fault := true }

def Text.blank (t : Text) (y x n : Int) : Text :=
  if 0 ≤ y ∧ y < 2 ∧ 0 ≤ x ∧ x + n ≤ 81 then
    { t with data := fun y' x' =>
        if y' = y.toNat ∧ x ≤ x' ∧ x' < x + n then space else t.data y' x' }
  else { t with fault := true }

def Text.moveUp (t : Text) : Text :=
  { t with data := fun y x => if y = 0 ∧ x < 80 then t.data 1 x else t.data y x }

def clearLine (y : Nat) (w : World) : World :=
  let w := gap .clearing (w.edit fun t => t.blank y 0 81)
  let w := gap .clearing (w.assign fun d =>
    { d with visible := fun y' x' => if y' = y ∧ x' < 16 then space else d.visible y' x' })
  w.assign fun d => { d with width := fun y' => if y' = y then 0 else d.width y' }

def lcdClearScreen (w : World) : World :=
  let w := gap .clearing (lcdWriteCommand 0x01 w)
  let w := gap .clearing (w.edit fun t => { t with x := 0 })
  let w := gap .clearing (w.edit fun t => { t with y := 0 })
  let w := gap .clearing (w.assign fun d => { d with address := 0 })
  clearLine 1 (gap .clearing (clearLine 0 w))

def lcdScrollUp (w : World) : World :=
  let w := gap .elsewhere (w.edit fun t => t.moveUp)
  let w := gap .elsewhere (w.edit fun t => t.blank 1 0 80)
  w.edit fun t => { t with y := char (t.y - 1) }

def isdigit (c : UInt8) : Bool := 0x30 ≤ c ∧ c ≤ 0x39
def isprint (c : UInt8) : Bool := 0x20 ≤ c ∧ c ≤ 0x7e

/-- The digits from escape[i] on, and where they end; none where the scan leaves the array. -/
def digits (escape : Nat → UInt8) : Nat → Nat → Int → Option (Int × Nat)
  | 0, _, _ => none
  | left + 1, i, parm =>
    if isdigit (escape i) then digits escape left (i + 1) (parm * 10 + ((escape i).toNat - 0x30))
    else some (parm, i)

def parameters (escape : Nat → UInt8) : Option (Int × Int) :=
  if escape 0 = 0x5b then
    match digits escape 7 1 0 with
    | none => none
    | some (parm1, i) =>
      if escape i = 0x3b then
        match digits escape (7 - i) (i + 1) 0 with
        | none => none
        | some (parm2, _) => some (parm1, parm2)
      else some (parm1, 0)
  else some (-1, 0)

/-- while (dev->y > ALT_LCD_HEIGHT): two turns are all there can be after the clamp. -/
def scrollDown : Nat → World → World
  | 0, w => w
  | turns + 1, w =>
    if 2 < w.dev.text.y then scrollDown turns (gap .elsewhere (lcdScrollUp w)) else w

def moveTo (parm1 parm2 : Int) (w : World) : World :=
  let w :=
    if 0 < parm2 then gap .elsewhere (w.edit fun t => { t with x := char (parm2 - 1) }) else w
  if 0 < parm1 then
    let w := gap .elsewhere (w.edit fun t => { t with y := char (parm1 - 1) })
    let w := if 4 < w.dev.text.y then gap .elsewhere (w.edit fun t => { t with y := 4 }) else w
    scrollDown 2 w
  else w

def lcdHandleEscape (c : UInt8) (w : World) : World :=
  match parameters w.dev.text.escape with
  | none => w.edit fun t => { t with fault := true }
  | some (parm1, parm2) =>
    if c = 0x48 ∨ c = 0x66 then moveTo parm1 parm2 w
    else if c = 0x4a then (if parm1 = 2 then lcdClearScreen w else w)
    else if c = 0x4b then
      (if parm1 < 1 ∧ w.dev.text.x < 80 then w.edit fun t => t.blank t.y t.x (80 - t.x) else w)
    else w

def Text.keep (t : Text) (c : UInt8) : Text :=
  if 0 ≤ t.esccount ∧ t.esccount ≤ 7 then
    { t with escape := fun i => if i = t.esccount.toNat then c else t.escape i }
  else { t with fault := true }

def ends (t : Text) (c : UInt8) : Prop :=
  (t.esccount = 0 ∧ c ≠ 0x5b) ∨ (0 < t.esccount ∧ ¬isdigit c ∧ c ≠ 0x3b)

instance (t : Text) (c : UInt8) : Decidable (ends t c) := inferInstanceAs (Decidable (_ ∨ _))

def putEscape (c : UInt8) (w : World) : World :=
  if ends w.dev.text c then
    let w := gap .elsewhere (w.edit fun t => t.keep 0)
    let w := gap .elsewhere (lcdHandleEscape c w)
    w.edit fun t => { t with esccount := -1 }
  else if w.dev.text.esccount < 7 then
    w.edit fun t => { t.keep c with esccount := char (t.esccount + 1) }
  else w

def putLineFeed (w : World) : World :=
  let w := gap .elsewhere (w.edit fun t => { t with x := 0 })
  let w := gap .elsewhere (w.edit fun t => { t with y := char (t.y + 1) })
  if 2 < w.dev.text.y then lcdScrollUp w else w

def putPrintable (c : UInt8) (w : World) : World :=
  let w := if 2 ≤ w.dev.text.y then gap .elsewhere (lcdScrollUp w) else w
  let w := if w.dev.text.x < 80 then gap .elsewhere (w.edit fun t => t.store t.y t.x c) else w
  w.edit fun t => { t with x := char (t.x + 1) }

def receive (c : UInt8) (w : World) : World :=
  if 0 ≤ w.dev.text.esccount then putEscape c w
  else if c = 0x1b then w.edit fun t => { t with esccount := 0 }
  else if c = 0x0d then w.edit fun t => { t with x := 0 }
  else if c = 0x0a then putLineFeed w
  else if c = 0x08 then
    (if 0 < w.dev.text.x then w.edit fun t => { t with x := char (t.x - 1) } else w)
  else if isprint c then putPrintable c w
  else w

def lineLength (row : Nat → UInt8) : Nat → Nat
  | 0 => 0
  | n + 1 => if row n ≠ space then n + 1 else lineLength row n

def displayWidth (row : Nat → UInt8) : Nat :=
  if lineLength row 80 ≤ 16 then 16 else lineLength row 80 + 1

def setWidth (y : Nat) (w : World) : World :=
  let width := displayWidth (w.dev.text.data y)
  let w := gap .elsewhere (w.assign fun d =>
    { d with width := fun y' => if y' = y then char width else d.width y' })
  gap .elsewhere (w.assign fun d => { d with speed := fun y' => if y' = y then 0 else d.speed y' })

def pace (widthmax : Int) (y : Nat) (w : World) : World :=
  if 16 < w.dev.width y then
    gap .elsewhere (w.assign fun d =>
      { d with speed := fun y' =>
          if y' = y then (256 * d.width y / widthmax) % 256 else d.speed y' })
  else w

def rescale (w : World) : World :=
  let w := setWidth 1 (setWidth 0 w)
  let widthmax := max (displayWidth (w.dev.text.data 0)) (displayWidth (w.dev.text.data 1))
  if widthmax ≤ 16 then gap .elsewhere (w.assign fun d => { d with scrollmax := 0 })
  else
    let widthmax := widthmax * 2
    let w := gap .elsewhere (w.assign fun d => { d with scrollmax := char widthmax })
    pace widthmax 1 (pace widthmax 0 w)

def repaintOnce (w : World) : World :=
  let w := gap .elsewhere (lcdRepaintScreen gap (gap .elsewhere w))
  gap .elsewhere (w.assign fun d => { d with active := false })

def repaintTurn (w : World) : Bool × World :=
  let old_scrollpos := w.dev.scrollpos
  let w := repaintOnce w
  if w.dev.scrollpos = old_scrollpos then (true, w)
  else (false, gap .elsewhere ((gap .elsewhere w).assign fun d => { d with active := true }))

def repaintLoop : Nat → World → World
  | 0, w => w
  | turns + 1, w =>
    if (repaintTurn w).1 then (repaintTurn w).2 else repaintLoop turns (repaintTurn w).2

/-- What follows the text part of alt_lcd_16207_putc. The loop turns once for each timer call
    that disturbs it, and once more. -/
def finish (w : World) : World :=
  let w := gap .elsewhere (rescale w)
  repaintLoop (w.ticks.sum + 1) w

def putc (c : UInt8) (w : World) : World :=
  let w := gap .elsewhere (w.assign fun d => { d with active := true })
  (finish (gap .elsewhere (receive c w))).record .returned

inductive Event
  | timer
  | output (c : UInt8)

def step (w : World) : Event → World
  | .timer => interrupt .elsewhere w
  | .output c => putc c w

end LcdDriver
