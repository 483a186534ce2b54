import Mathlib.Data.List.Basic
import Nios2Ecos.WhileLoop

/- Reading a text a line at a time with fgets into one buffer, until the end of the file has
   been seen: `do { fgets(..); handle the buffer } while (!feof(..))`. -/
namespace TextLines
variable {State : Type}

def takeLine : Nat → List Char → List Char × List Char × Bool
  | 0, text => ([], text, false)
  | _ + 1, [] => ([], [], true)
  | n + 1, c :: text =>
    if c = '\n' then ([c], text, false)
    else
      let (taken, rest, ended) := takeLine n text
      (c :: taken, rest, ended)

structure Reader where
  line : List Char
  rest : List Char
  ended : Bool
  deriving DecidableEq

/-- The buffer keeps what stood behind the terminating null, and all of it when nothing could
    be read. -/
def fgets (size : Nat) (r : Reader) : Reader :=
  let (taken, rest, ended) := takeLine (size - 1) r.rest
  if taken = [] then ⟨r.line, rest, ended⟩
  else ⟨taken ++ '\x00' :: r.line.drop (taken.length + 1), rest, ended⟩

variable (size : Nat) (handle : State → List Char → State)

def turn (s : Reader × State) : Reader × State :=
  let reader := fgets size s.1
  (reader, handle s.2 reader.line)

def running (s : Reader × State) : Bool := !s.1.ended

structure Fits (line : List Char) : Prop where
  unbroken : '\n' ∉ line
  short : line.length + 1 < size

def text (lines : List (List Char)) : List Char := lines.flatMap (· ++ ['\n'])

variable {size handle}

theorem takeLine_line {n : Nat} {line : List Char} (unbroken : '\n' ∉ line)
    (short : line.length < n) (rest : List Char) :
    takeLine n (line ++ '\n' :: rest) = (line ++ ['\n'], rest, false) := by
  induction line generalizing n with
  | nil =>
    cases n with
    | zero => simp at short
    | succ n => simp [takeLine]
  | cons c line ih =>
    cases n with
    | zero => simp at short
    | succ n =>
      have other : c ≠ '\n' := by
        intro same
        exact unbroken (by simp [same])
      have later := @ih n (by intro there; exact unbroken (by simp [there]))
        (by simpa using short)
      simp [takeLine, other, later]

theorem fgets_line {line : List Char} (fits : Fits size line) (buffer rest : List Char) :
    fgets size ⟨buffer, line ++ '\n' :: rest, false⟩ =
      ⟨line ++ '\n' :: '\x00' :: buffer.drop (line.length + 2), rest, false⟩ := by
  have short : line.length < size - 1 := by
    have := fits.short
    omega
  simp [fgets, takeLine_line fits.unbroken short]

theorem fgets_end (large : 1 < size) (buffer : List Char) :
    fgets size ⟨buffer, [], false⟩ = ⟨buffer, [], true⟩ := by
  obtain ⟨n, rfl⟩ : ∃ n, size = n + 2 := ⟨size - 2, by omega⟩
  simp [fgets, takeLine]

/-- What a buffer holding the line `last` is handled as, on the lines still to be read: each
    of them, then the last line again, since the read that finds the end of the file leaves
    the buffer alone. -/
def handled : List Char → List (List Char) → List (List Char)
  | last, [] => [last]
  | _, line :: lines => line :: handled line lines

theorem handled_mem {last line : List Char} {lines : List (List Char)}
    (there : line ∈ handled last lines) : line ∈ last :: lines := by
  induction lines generalizing last with
  | nil => exact there
  | cons first lines ih =>
    rcases List.mem_cons.mp there with same | later
    · simp [same]
    · exact List.mem_cons_of_mem _ (ih later)

theorem turn_line {line : List Char} (lines : List (List Char)) (fits : Fits size line)
    (effect : State → List Char → State)
    (handles : ∀ s behind, handle s (line ++ '\n' :: '\x00' :: behind) = effect s line)
    (buffer : List Char) (s : State) :
    turn size handle (⟨buffer, text (line :: lines), false⟩, s) =
      (⟨line ++ '\n' :: '\x00' :: buffer.drop (line.length + 2), text lines, false⟩,
        effect s line) := by
  have split : text (line :: lines) = line ++ '\n' :: text lines := by simp [text]
  rw [turn, split, fgets_line fits]
  simp [handles]

theorem lines_handled {last : List Char} {lines : List (List Char)} (large : 1 < size)
    (fits : ∀ line ∈ lines, Fits size line) (effect : State → List Char → State)
    (handles : ∀ line ∈ last :: lines, ∀ s behind,
      handle s (line ++ '\n' :: '\x00' :: behind) = effect s line)
    (behind : List Char) (s : State) :
    ∃ buffer, WhileLoop.Returns running (turn size handle)
      (⟨last ++ '\n' :: '\x00' :: behind, text lines, false⟩, s)
      (⟨buffer, [], true⟩, (handled last lines).foldl effect s) := by
  induction lines generalizing last behind s with
  | nil =>
    have step : turn size handle (⟨last ++ '\n' :: '\x00' :: behind, text [], false⟩, s) =
        (⟨last ++ '\n' :: '\x00' :: behind, [], true⟩, effect s last) := by
      simp [turn, text, fgets_end large, handles last (by simp)]
    have stopped : WhileLoop.Returns running (turn size handle)
        (turn size handle (⟨last ++ '\n' :: '\x00' :: behind, text [], false⟩, s))
        (⟨last ++ '\n' :: '\x00' :: behind, [], true⟩, effect s last) := by
      rw [step]
      exact WhileLoop.returns_done rfl
    exact ⟨_, WhileLoop.returns_turn rfl stopped⟩
  | cons line lines ih =>
    have step := turn_line lines (fits line (by simp)) effect
      (handles line (by simp)) (last ++ '\n' :: '\x00' :: behind) s
    obtain ⟨buffer, returned⟩ := ih (by intro l there; exact fits l (by simp [there]))
      (by intro l there; exact handles l (List.mem_cons_of_mem _ there)) _ (effect s line)
    rw [← step] at returned
    exact ⟨buffer, WhileLoop.returns_turn rfl returned⟩

theorem first_lines_handled {first : List Char} {lines : List (List Char)} (large : 1 < size)
    (fits : ∀ line ∈ first :: lines, Fits size line) (effect : State → List Char → State)
    (handles : ∀ line ∈ first :: lines, ∀ s behind,
      handle s (line ++ '\n' :: '\x00' :: behind) = effect s line)
    (buffer : List Char) (s : State) :
    ∃ left, WhileLoop.Returns running (turn size handle)
      (⟨buffer, text (first :: lines), false⟩, s)
      (⟨left, [], true⟩, (first :: handled first lines).foldl effect s) := by
  have step := turn_line lines (fits first (by simp)) effect
    (handles first (by simp)) buffer s
  obtain ⟨left, returned⟩ := lines_handled large
    (by intro l there; exact fits l (List.mem_cons_of_mem _ there)) effect handles
    (buffer.drop (first.length + 2)) (effect s first)
  rw [← step] at returned
  exact ⟨left, WhileLoop.returns_turn rfl returned⟩

end TextLines
