import Mathlib.Data.List.GetD
import Nios2Ecos.LcdText

/- What a text of lines leaves on the two rows of the panel. -/
namespace LcdTextLaw
open LcdDriver LcdText

def putcs (bytes : List UInt8) (w : World) : World := bytes.foldl (fun w c => putc c w) w

def receivedAll (bytes : List UInt8) (t : Text) : Text :=
  bytes.foldl (fun t c => received c t) t

theorem putcs_text (bytes : List UInt8) (w : World) :
    (putcs bytes w).dev.text = receivedAll bytes w.dev.text := by
  induction bytes generalizing w with
  | nil => rfl
  | cons c rest ih =>
    rw [putcs, List.foldl_cons, ← putcs, ih, putc_text]
    rfl

def padded (line : List UInt8) (x : Nat) : UInt8 := line.getD x space

def Line (line : List UInt8) : Prop := line.length ≤ 80 ∧ ∀ c ∈ line, isprint c = true

/-- The cursor is at `(x, y)`, no escape sequence is under way, nothing was out of range, and
    the rows show `rows`. -/
structure Screen (t : Text) (rows : Nat → List UInt8) (y x : Nat) : Prop where
  sound : t.fault = false
  calm : t.esccount = -1
  column : t.x = x
  row : t.y = y
  data : ∀ r < 2, ∀ i < 80, t.data r i = padded (rows r) i

def shifted (rows : Nat → List UInt8) (r : Nat) : List UInt8 := if r = 0 then rows 1 else []

theorem scrolled_screen {t : Text} {rows : Nat → List UInt8} {y x : Nat}
    (screen : Screen t rows (y + 1) x) (small : y < 127) :
    Screen (scrolledUp t) (shifted rows) y x := by
  obtain ⟨sound, calm, column, row, data⟩ := screen
  have blanked : t.moveUp.blank 1 0 80 = { t.moveUp with
      data := fun r i => if r = 1 ∧ (0 : Int) ≤ i ∧ (i : Int) < 80 then space
        else t.moveUp.data r i } := by
    simp [Text.blank]
  constructor
  · rw [scrolledUp, blanked]
    exact sound
  · rw [scrolledUp, blanked]
    exact calm
  · rw [scrolledUp, blanked]
    exact column
  · rw [scrolledUp, blanked]
    change char (t.y - 1) = y
    rw [row, char_small (by omega) (by omega)]
    omega
  · intro r rowed i inside
    rw [scrolledUp, blanked]
    dsimp only [Text.moveUp]
    by_cases first : r = 0
    · subst first
      rw [if_neg (by omega), if_pos ⟨rfl, inside⟩, data 1 (by decide) i inside]
      rfl
    · have second : r = 1 := by omega
      subst second
      rw [if_pos ⟨rfl, by omega, by omega⟩]
      rfl

theorem line_feed_screen {t : Text} {rows : Nat → List UInt8} {y x : Nat}
    (screen : Screen t rows y x) (small : y < 127) :
    Screen (received 0x0a t) (if 2 ≤ y then shifted rows else rows) (if 2 ≤ y then y else y + 1)
      0 := by
  have calm := screen.calm
  have moved : Screen { t with x := 0, y := char (t.y + 1) } rows (y + 1) 0 := by
    refine ⟨screen.sound, calm, rfl, ?_, screen.data⟩
    change char (t.y + 1) = _
    rw [screen.row, char_small (by omega) (by omega)]
    omega
  have fed : received 0x0a t = lineFeed t := by
    unfold received
    rw [calm]
    rfl
  rw [fed, lineFeed]
  dsimp only
  by_cases low : 2 ≤ y
  · rw [if_pos low, if_pos low, if_pos (by have := moved.row; dsimp only at this; omega)]
    exact scrolled_screen moved small
  · rw [if_neg low, if_neg low, if_neg (by have := moved.row; dsimp only at this; omega)]
    exact moved

theorem received_printable {t : Text} {c : UInt8} (calm : t.esccount = -1)
    (shown : isprint c = true) : received c t = printed c t := by
  have range : 0x20 ≤ c.toNat ∧ c.toNat ≤ 0x7e := by
    simpa [isprint, UInt8.le_iff_toNat_le] using shown
  have apart (k : UInt8) (control : k.toNat < 0x20) : c ≠ k := by
    rintro rfl
    omega
  unfold received
  rw [calm, if_neg (by decide), if_neg (apart _ (by decide)), if_neg (apart _ (by decide)),
    if_neg (apart _ (by decide)), if_neg (apart _ (by decide)), if_pos shown]

theorem printed_screen {t : Text} {rows : Nat → List UInt8} {y : Nat} {c : UInt8}
    (screen : Screen t rows y (rows y).length) (on_panel : y < 2)
    (room : (rows y).length < 80) :
    Screen (printed c t) (Function.update rows y (rows y ++ [c])) y
      ((rows y).length + 1) := by
  obtain ⟨sound, calm, column, row, data⟩ := screen
  have stays : makeRoom t = t := if_neg (by omega)
  have here : placed c t = { t with data := fun r i =>
      if r = y ∧ i = (rows y).length then c else t.data r i } := by
    rw [placed, if_pos (by omega), Text.store, if_pos (by omega), row, column]
    rfl
  rw [printed, stays, here]
  constructor
  · exact sound
  · exact calm
  · change char (t.x + 1) = _
    rw [column, char_small (by omega) (by omega)]
    omega
  · exact row
  · intro r rowed i inside
    dsimp only
    by_cases same : r = y
    · subst same
      rw [Function.update_self]
      by_cases last : i = (rows r).length
      · rw [if_pos ⟨rfl, last⟩, last, padded, List.getD_append_right _ _ _ _ (Nat.le_refl _)]
        simp
      · rw [if_neg (fun both => last both.2), data r rowed i inside, padded, padded]
        by_cases before : i < (rows r).length
        · rw [List.getD_append _ _ _ _ before]
        · rw [List.getD_eq_default _ _ (by omega), List.getD_eq_default _ _ (by simp; omega)]
    · rw [if_neg (fun both => same both.1), Function.update_of_ne same, data r rowed i inside]

theorem printed_line {t : Text} {rows : Nat → List UInt8} {y : Nat} (rest : List UInt8)
    (screen : Screen t rows y (rows y).length) (on_panel : y < 2)
    (room : (rows y).length + rest.length ≤ 80) (shown : ∀ c ∈ rest, isprint c = true) :
    Screen (receivedAll rest t) (Function.update rows y (rows y ++ rest)) y
      ((rows y).length + rest.length) := by
  induction rest generalizing t rows with
  | nil => simpa [receivedAll] using screen
  | cons c rest ih =>
    have room' : (rows y).length + rest.length + 1 ≤ 80 := by simpa [Nat.add_assoc] using room
    have first : Screen (received c t) (Function.update rows y (rows y ++ [c])) y
        (Function.update rows y (rows y ++ [c]) y).length := by
      rw [received_printable screen.calm (shown c (by simp)), Function.update_self,
        List.length_append]
      exact printed_screen screen on_panel (by omega)
    have tail := ih first (by simp; omega) (fun d member => shown d (by simp [member]))
    simpa [receivedAll, Nat.add_comm, Nat.add_left_comm, Nat.add_assoc] using tail

/-- A line written below the last row scrolls when its first character comes, not before. -/
theorem deferred_line {t : Text} {rows : Nat → List UInt8} (line : List UInt8) (fits : Line line)
    (screen : Screen t rows 2 0) (some_char : line ≠ []) :
    Screen (receivedAll line t) (Function.update (shifted rows) 1 line) 1 line.length := by
  obtain ⟨c, rest, rfl⟩ := List.exists_cons_of_ne_nil some_char
  obtain ⟨short, shown⟩ := fits
  have scrolled := scrolled_screen (y := 1) screen (by decide)
  have waits : received c t = received c (scrolledUp t) := by
    rw [received_printable screen.calm (shown c (by simp)),
      received_printable scrolled.calm (shown c (by simp)), printed, printed, makeRoom, makeRoom,
      if_pos (by have := screen.row; omega), if_neg (by have := scrolled.row; omega)]
  have line := printed_line (c :: rest) (y := 1) scrolled (by decide)
    (by simpa [shifted] using short) shown
  rw [receivedAll, List.foldl_cons, waits]
  simpa [shifted, receivedAll] using line

theorem Screen.congr {t : Text} {rows rows' : Nat → List UInt8} {y x : Nat}
    (screen : Screen t rows y x) (same : ∀ r < 2, rows' r = rows r) : Screen t rows' y x := by
  refine ⟨screen.sound, screen.calm, screen.column, screen.row, ?_⟩
  intro r rowed i inside
  rw [same r rowed]
  exact screen.data r rowed i inside

def text (lines : List (List UInt8)) : List UInt8 := List.intercalate [0x0a] lines

def pair (first second : List UInt8) (r : Nat) : List UInt8 := if r = 0 then first else second

def rowsOf : List (List UInt8) → Nat → List UInt8
  | [] => pair [] []
  | [l1] => pair l1 []
  | [l2, l1] => pair l1 l2
  | l :: l1 :: l2 :: _ => if l = [] then pair l2 l1 else pair l1 l

def cursorRow : List (List UInt8) → Nat
  | [] => 0
  | [_] => 0
  | [_, _] => 1
  | l :: _ :: _ :: _ => if l = [] then 2 else 1

theorem text_snoc (lines : List (List UInt8)) (line : List UInt8) (some_line : lines ≠ []) :
    text (lines ++ [line]) = text lines ++ 0x0a :: line := by
  unfold text
  induction lines with
  | nil => exact absurd rfl some_line
  | cons first rest ih =>
    cases rest with
    | nil => simp
    | cons second rest =>
      rw [List.cons_append, List.intercalate_cons_of_ne_nil (by simp), ih (by simp),
        List.intercalate_cons_cons, List.append_assoc, List.append_assoc, List.append_assoc]

theorem received_all_append (first second : List UInt8) (t : Text) :
    receivedAll (first ++ second) t = receivedAll second (receivedAll first t) :=
  List.foldl_append

theorem fed_below {t : Text} (p q : List UInt8) (rest : List (List UInt8)) {x : Nat}
    (screen : Screen t (rowsOf (p :: q :: rest)) (cursorRow (p :: q :: rest)) x) :
    Screen (received 0x0a t) (pair q p) 2 0 := by
  cases rest with
  | nil => exact line_feed_screen (y := 1) screen (by decide)
  | cons r rest =>
    by_cases empty : p = []
    · subst empty
      have fed := line_feed_screen (y := 2) screen (by decide)
      apply fed.congr
      intro r' rowed
      obtain rfl | rfl : r' = 0 ∨ r' = 1 := by omega
      · rfl
      · rfl
    · rw [rowsOf, cursorRow, if_neg empty, if_neg empty] at screen
      exact line_feed_screen (y := 1) screen (by decide)

theorem lines_screen (last : List UInt8) (before : List (List UInt8))
    (fits : ∀ l ∈ last :: before, Line l) {t : Text} (start : Screen t (pair [] []) 0 0) :
    Screen (receivedAll (text (last :: before).reverse) t) (rowsOf (last :: before))
      (cursorRow (last :: before)) last.length := by
  induction before generalizing last with
  | nil =>
    obtain ⟨short, shown⟩ := fits last (by simp)
    have line := printed_line (y := 0) last start (by decide) (by simpa [pair] using short) shown
    have sent : text [last].reverse = last := by simp [text]
    rw [sent]
    have shown' : Screen (receivedAll last t) (Function.update (pair [] []) 0 last) 0
        last.length := by simpa [pair] using line
    apply shown'.congr
    intro r rowed
    obtain rfl | rfl : r = 0 ∨ r = 1 := by omega
    · simp [rowsOf, pair, Function.update]
    · simp [rowsOf, pair, Function.update]
  | cons p before ih =>
    obtain ⟨short, shown⟩ := fits last (by simp)
    have earlier := ih p (fun l member => fits l (by simp [List.mem_cons.mp member]))
    rw [List.reverse_cons, text_snoc _ _ (by simp), received_all_append]
    generalize receivedAll (text (p :: before).reverse) t = t' at earlier
    change Screen (receivedAll last (received 0x0a t')) _ _ _
    cases before with
    | nil =>
      -- the second line goes to the second row
      have fed : Screen (received 0x0a t') (pair p []) 1 0 :=
        line_feed_screen (y := 0) earlier (by decide)
      have line := printed_line (y := 1) last fed (by decide) (by simpa [pair] using short) shown
      have shown' : Screen (receivedAll last (received 0x0a t')) (Function.update (pair p []) 1 last)
          1 last.length := by simpa [pair] using line
      apply shown'.congr
      intro r rowed
      obtain rfl | rfl : r = 0 ∨ r = 1 := by omega
      · simp [rowsOf, pair, Function.update]
      · simp [rowsOf, pair, Function.update]
    | cons q rest =>
      have fed := fed_below p q rest earlier
      by_cases empty : last = []
      · subst empty
        exact fed
      · rw [rowsOf, cursorRow, if_neg empty, if_neg empty]
        apply (deferred_line last ⟨short, shown⟩ fed empty).congr
        intro r rowed
        obtain rfl | rfl : r = 0 ∨ r = 1 := by omega
        · simp [shifted, pair, Function.update]
        · simp [pair, Function.update]

def Rows (t : Text) (first second : List UInt8) : Prop :=
  ∀ i < 80, t.data 0 i = padded first i ∧ t.data 1 i = padded second i

def line (lines : List (List UInt8)) (k : Nat) : List UInt8 := lines.getD (k - 1) []

/-- What a text leaves on the screen: its last lines, with the last scroll put off while the
    last line is empty. -/
structure Shows (t : Text) (lines : List (List UInt8)) : Prop where
  short : lines.length ≤ 2 → Rows t (line lines 1) (line lines 2)
  long : 3 ≤ lines.length → line lines lines.length ≠ [] →
    Rows t (line lines (lines.length - 1)) (line lines lines.length)
  deferred : 3 ≤ lines.length → line lines lines.length = [] →
    Rows t (line lines (lines.length - 2)) (line lines (lines.length - 1)) ∧ t.x = 0 ∧ t.y = 2

theorem Screen.rows {t : Text} {first second : List UInt8} {y x : Nat}
    (screen : Screen t (pair first second) y x) : Rows t first second := by
  intro i inside
  exact ⟨screen.data 0 (by decide) i inside, screen.data 1 (by decide) i inside⟩

theorem shows_of_screen (last : List UInt8) (before : List (List UInt8)) {t : Text}
    (screen : Screen t (rowsOf (last :: before)) (cursorRow (last :: before)) last.length) :
    Shows t (last :: before).reverse := by
  match before with
  | [] =>
    refine ⟨fun _ => screen.rows, ?_, ?_⟩
    · simp
    · simp
  | [l1] =>
    refine ⟨fun _ => screen.rows, ?_, ?_⟩
    · simp
    · simp
  | l1 :: l2 :: rest =>
    have nth (k : Nat) (l : List UInt8) (there : [l2, l1, last][k]? = some l) :
        line (last :: l1 :: l2 :: rest).reverse (rest.length + k + 1) = l := by
      simp [line, List.getD_eq_getElem?_getD, List.getElem?_append_right, there]
    have count : (last :: l1 :: l2 :: rest).reverse.length = rest.length + 3 := by simp
    rw [rowsOf, cursorRow] at screen
    constructor
    · intro short
      omega
    · intro _ filled
      rw [count] at filled ⊢
      rw [nth 2 last rfl] at filled ⊢
      rw [if_neg filled, if_neg filled] at screen
      have previous := nth 1 l1 rfl
      change Rows t (line _ (rest.length + 1 + 1)) last
      rw [previous]
      exact screen.rows
    · intro _ empty
      rw [count] at empty ⊢
      rw [nth 2 last rfl] at empty
      subst empty
      have previous := nth 1 l1 rfl
      have earlier := nth 0 l2 rfl
      rw [if_pos rfl, if_pos rfl] at screen
      refine ⟨?_, screen.column, screen.row⟩
      change Rows t (line _ (rest.length + 0 + 1)) (line _ (rest.length + 1 + 1))
      rw [earlier, previous]
      exact screen.rows

structure Blank (t : Text) : Prop where
  sound : t.fault = false
  calm : t.esccount = -1
  column : t.x = 0
  row : t.y = 0
  data : ∀ r < 2, ∀ i ≤ 80, t.data r i = space

theorem text_law (lines : List (List UInt8)) (some_line : lines ≠ [])
    (fits : ∀ l ∈ lines, Line l) (w : World) (blank : Blank w.dev.text) :
    Shows (putcs (text lines) w).dev.text lines
      ∧ (putcs (text lines) w).dev.text.fault = false := by
  obtain ⟨sound, calm, column, row, data⟩ := blank
  have start : Screen w.dev.text (pair [] []) 0 0 := by
    refine ⟨sound, calm, column, row, ?_⟩
    intro r rowed i inside
    rw [data r rowed i (by omega)]
    unfold pair
    split <;> rfl
  have some_last : lines.reverse ≠ [] := List.reverse_ne_nil_iff.mpr some_line
  obtain ⟨last, before, reversed⟩ := List.exists_cons_of_ne_nil some_last
  have order : lines = (last :: before).reverse := by rw [← reversed, List.reverse_reverse]
  have screen := lines_screen last before (by
    intro l member
    rw [← reversed] at member
    exact fits l (List.mem_reverse.mp member)) start
  rw [putcs_text, order]
  exact ⟨shows_of_screen last before screen, screen.sound⟩

theorem fresh_blank (ticks : List Nat) (hangs : Nat → Bool) : Blank (fresh ticks hangs).dev.text :=
  ⟨rfl, rfl, rfl, rfl, fun _ _ _ _ => rfl⟩

theorem text_law_two_lines :
    Shows (putcs (text [[0x41], [0x42, 0x43]]) (fresh [3] fun _ => false)).dev.text
        [[0x41], [0x42, 0x43]]
      ∧ (putcs (text [[0x41], [0x42, 0x43]]) (fresh [3] fun _ => false)).dev.text.fault = false :=
  text_law [[0x41], [0x42, 0x43]] (by decide) (by simp [Line]; decide) _ (fresh_blank _ _)

end LcdTextLaw
