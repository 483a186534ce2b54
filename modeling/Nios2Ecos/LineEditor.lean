import Mathlib.Logic.Function.Basic
import Nios2Ecos.Backspace
import Nios2Ecos.MacAddress

/- The bootloader's readLine with its buffer in memory, against a line edited with the
   backspace key. MacAddress.readLine is the same loop on the part of the buffer in use. -/
namespace LineEditor

/-- One call of getChar: what select returns, whether the descriptor is set, and the byte if
    read returns 1. -/
structure Poll where
  retval : Int
  isSet : Bool
  read : Option UInt8

def getChar (poll : Poll) : Option UInt8 :=
  if poll.retval ≠ 0 then
    if poll.isSet then poll.read else none
  else none

structure Editor where
  buffer : Nat → UInt8
  index : Nat
  stores : List Nat

inductive Ending where
  | returned
  | reset
  | waiting
  deriving DecidableEq

def store (e : Editor) (c : UInt8) : Editor :=
  { e with
    buffer := Function.update e.buffer e.index c
    stores := e.stores ++ [e.index] }

def readLine (maxLen : Nat) : Editor → List Poll → Ending × Editor
  | e, [] => (.waiting, e)
  | e, poll :: polls =>
    -- the result of getChar is not looked at
    let c := (getChar poll).getD 0
    if c = 0x03 then (.reset, e)
    else if c = 0x0A ∨ c = 0x0D then
      if e.index = 0 then (.reset, e) else (.returned, store e 0)
    else if c = 0x08 then
      readLine maxLen (if e.index > 0 then { e with index := e.index - 1 } else e) polls
    else if e.index ≥ maxLen - 1 then (.reset, e)
    else readLine maxLen { store e c with index := e.index + 1 } polls

def endingOf : MacAddress.ReadLine → Ending
  | .line _ => .returned
  | .reset => .reset
  | .waiting => .waiting

structure Holding (e : Editor) (held : List UInt8) : Prop where
  index : e.index = held.length
  content : ∀ i, (inside : i < held.length) → e.buffer i = held[i]

theorem holding_back {e : Editor} {held : List UInt8} (holds : Holding e held) :
    Holding (if e.index > 0 then { e with index := e.index - 1 } else e) held.dropLast := by
  obtain ⟨index, content⟩ := holds
  split
  · constructor
    · rw [List.length_dropLast, ← index]
    · intro i inside
      rw [List.getElem_dropLast]
      exact content i _
  · have empty : held = [] := by
      apply List.eq_nil_of_length_eq_zero
      omega
    subst empty
    exact ⟨index, content⟩

theorem holding_store {e : Editor} {held : List UInt8} (holds : Holding e held) (c : UInt8) :
    Holding { store e c with index := e.index + 1 } (held ++ [c]) := by
  obtain ⟨index, content⟩ := holds
  constructor
  · rw [List.length_append, ← index, List.length_singleton]
  · intro i inside
    show Function.update e.buffer e.index c i = (held ++ [c])[i]
    rw [List.length_append, List.length_singleton] at inside
    by_cases last : i = held.length
    · subst last
      have appended : (held ++ [c])[held.length] = c := List.getElem_concat_length rfl _
      rw [appended, ← index, Function.update_self]
    · rw [Function.update_of_ne (by omega), List.getElem_append_left (by omega)]
      exact content i _

theorem holding_nul {e : Editor} {held : List UInt8} (holds : Holding e held) :
    Holding (store e 0) held ∧ (store e 0).buffer held.length = 0 := by
  obtain ⟨index, content⟩ := holds
  refine ⟨⟨index, ?_⟩, ?_⟩
  · intro i inside
    show Function.update e.buffer e.index 0 i = held[i]
    rw [Function.update_of_ne (by omega)]
    exact content i inside
  · show Function.update e.buffer e.index 0 held.length = 0
    rw [← index, Function.update_self]

theorem read_line_refines {maxLen : Nat} (two : 2 ≤ maxLen) {e : Editor} {held : List UInt8}
    (holds : Holding e held) (short : held.length ≤ maxLen - 1)
    (inside : ∀ p, p ∈ e.stores → p < maxLen) (polls : List Poll) :
    (readLine maxLen e polls).1 =
        endingOf (MacAddress.readLine maxLen held (polls.map getChar)) ∧
      (∀ text, MacAddress.readLine maxLen held (polls.map getChar) = .line text →
        Holding (readLine maxLen e polls).2 text ∧
          (readLine maxLen e polls).2.buffer text.length = 0) ∧
      ∀ p, p ∈ (readLine maxLen e polls).2.stores → p < maxLen := by
  induction polls generalizing e held with
  | nil =>
    refine ⟨rfl, ?_, inside⟩
    intro text returned
    cases returned
  | cons poll polls ih =>
    have index := holds.index
    have stored : ∀ c p, p ∈ (store e c).stores → p < maxLen := by
      intro c p there
      rcases List.mem_append.mp there with earlier | last
      · exact inside p earlier
      · cases List.mem_singleton.mp last
        omega
    rw [List.map_cons, MacAddress.readLine, readLine]
    dsimp only
    generalize (getChar poll).getD 0 = c
    by_cases interrupt : c = 0x03
    · rw [if_pos interrupt, if_pos interrupt]
      refine ⟨rfl, ?_, inside⟩
      intro text returned
      cases returned
    · rw [if_neg interrupt, if_neg interrupt]
      by_cases enter : c = 0x0A ∨ c = 0x0D
      · rw [if_pos enter, if_pos enter, index]
        by_cases empty : held.length = 0
        · rw [if_pos empty, if_pos empty]
          refine ⟨rfl, ?_, inside⟩
          intro text returned
          cases returned
        · rw [if_neg empty, if_neg empty]
          refine ⟨rfl, ?_, stored 0⟩
          intro text returned
          cases returned
          exact holding_nul holds
      · rw [if_neg enter, if_neg enter]
        by_cases back : c = 0x08
        · rw [if_pos back, if_pos back]
          apply ih (holding_back holds)
          · rw [List.length_dropLast]
            omega
          · split
            · exact inside
            · exact inside
        · rw [if_neg back, if_neg back, index]
          by_cases full : maxLen - 1 ≤ held.length
          · rw [if_pos full, if_pos full]
            refine ⟨rfl, ?_, inside⟩
            intro text returned
            cases returned
          · rw [if_neg full, if_neg full, ← index]
            apply ih (holding_store holds c)
            · rw [List.length_append, List.length_singleton]
              omega
            · exact stored c

def backspace (c : UInt8) : Bool := c == 0x08

def keyOf (key : Option UInt8) : UInt8 := key.getD 0

def typed (keys : List (Option UInt8)) : List (Option UInt8) :=
  keys.takeWhile (fun key => !(keyOf key == 0x0A || keyOf key == 0x0D))

theorem read_line_edits {maxLen : Nat} {line text : List UInt8} {keys : List (Option UInt8)}
    (returned : MacAddress.readLine maxLen line keys = .line text) :
    text = Backspace.edit backspace line ((typed keys).map keyOf) ∧ text ≠ [] := by
  induction keys generalizing line with
  | nil => cases returned
  | cons key keys ih =>
    rw [MacAddress.readLine] at returned
    change (if keyOf key = 0x03 then _ else _) = _ at returned
    by_cases interrupt : keyOf key = 0x03
    · rw [if_pos interrupt] at returned
      cases returned
    · rw [if_neg interrupt] at returned
      by_cases enter : keyOf key = 0x0A ∨ keyOf key = 0x0D
      · have ends : typed (key :: keys) = [] := by
          apply List.takeWhile_cons_of_neg
          simp only [Bool.not_eq_true', Bool.or_eq_true, beq_iff_eq, Bool.not_eq_false]
          exact enter
        rw [show key.getD 0 = keyOf key from rfl, if_pos enter] at returned
        rw [ends]
        split at returned
        · cases returned
        · rename_i some_text
          cases returned
          refine ⟨rfl, ?_⟩
          intro empty
          exact some_text (by rw [empty]; rfl)
      · have more : typed (key :: keys) = key :: typed keys := by
          apply List.takeWhile_cons_of_pos
          simpa using enter
        rw [show key.getD 0 = keyOf key from rfl, if_neg enter] at returned
        rw [more, List.map_cons, Backspace.edit]
        by_cases back : keyOf key = 0x08
        · rw [if_pos back] at returned
          rw [if_pos (by rw [backspace, back]; rfl)]
          exact ih returned
        · rw [if_neg back] at returned
          rw [if_neg (by simpa [backspace] using back)]
          split at returned
          · cases returned
          · exact ih returned

def received (keys : List (Option UInt8)) : List UInt8 := keys.filterMap id

/-- The buffer is the string of the characters received, edited by the backspaces among them,
    and the index is its length. -/
structure Edited (e : Editor) (chars : List UInt8) : Prop where
  nonempty : Backspace.edit backspace [] chars ≠ []
  text : ∀ i, (inside : i < (Backspace.edit backspace [] chars).length) →
    e.buffer i = (Backspace.edit backspace [] chars)[i]
  noNul : 0 ∉ Backspace.edit backspace [] chars
  terminated : e.buffer (Backspace.edit backspace [] chars).length = 0
  length : e.index = (Backspace.edit backspace [] chars).length

/-- A received NUL, a failed read, and whatever was typed before one, is deleted again by
    backspaces; a failed read takes one like a character. -/
def NulsDeleted (keys : List (Option UInt8)) : Prop :=
  ∀ before key after, keys = before ++ key :: after → backspace (keyOf key) = false →
    keyOf key = 0 ∨ none ∈ after → Backspace.Deleted (fun k => backspace (keyOf k)) after

theorem kept_bytes (keys : List (Option UInt8)) :
    Backspace.edit backspace [] (keys.map keyOf) =
      (Backspace.kept (fun k => backspace (keyOf k)) keys).map keyOf := by
  rw [Backspace.edit_nil, Backspace.kept_map]
  rfl

theorem received_bytes (keys : List (Option UInt8)) :
    (Backspace.kept (fun k => backspace (keyOf k)) (keys.filter Option.isSome)).map keyOf =
      Backspace.edit backspace [] (received keys) := by
  have somes : keys.filter Option.isSome = (received keys).map some := by
    induction keys with
    | nil => rfl
    | cons key keys ih =>
      cases key with
      | none => exact ih
      | some c => exact congrArg (List.cons (some c)) ih
  rw [somes, Backspace.kept_map, List.map_map, Backspace.edit_nil]
  exact List.map_id _

theorem no_nul_iff (keys : List (Option UInt8)) :
    0 ∉ Backspace.edit backspace [] (keys.map keyOf) ↔
      ∀ before key after, keys = before ++ key :: after → backspace (keyOf key) = false →
        keyOf key = 0 → Backspace.Deleted (fun k => backspace (keyOf k)) after := by
  rw [kept_bytes]
  constructor
  · intro clean before key after split plain nul
    by_contra stays
    apply clean
    rw [← nul]
    apply List.mem_map_of_mem
    exact (Backspace.mem_kept_iff keys).mpr ⟨before, after, split, plain, stays⟩
  · intro deleted there
    obtain ⟨key, stays, nul⟩ := List.mem_map.mp there
    obtain ⟨before, after, split, plain, kept⟩ := (Backspace.mem_kept_iff keys).mp stays
    exact kept (deleted before key after split plain nul)

theorem back_received (k : Option UInt8) (back : backspace (keyOf k) = true) :
    k.isSome = true := by
  cases k with
  | none => cases back
  | some c => rfl

theorem deleted_wiped {keys : List (Option UInt8)} (deleted : NulsDeleted keys) :
    Backspace.Wiped (fun k => backspace (keyOf k)) Option.isSome keys := by
  rintro before key after split plain ⟨left, there, failed⟩
  apply deleted before key after split plain
  have none_left : left = none := by simpa using failed
  subst none_left
  rcases List.mem_cons.mp there with here | later
  · exact Or.inl (by rw [← here]; rfl)
  · exact Or.inr later

theorem same_line {keys : List (Option UInt8)} (deleted : NulsDeleted keys) :
    Backspace.edit backspace [] (keys.map keyOf) =
      Backspace.edit backspace [] (received keys) := by
  rw [← received_bytes, Backspace.kept_filter_of_wiped back_received (deleted_wiped deleted),
    kept_bytes]

theorem nuls_deleted_iff (keys : List (Option UInt8)) :
    NulsDeleted keys ↔
      0 ∉ Backspace.edit backspace [] (keys.map keyOf) ∧
        (Backspace.edit backspace [] (keys.map keyOf)).length =
          (Backspace.edit backspace [] (received keys)).length := by
  constructor
  · intro deleted
    refine ⟨(no_nul_iff keys).mpr ?_, congrArg List.length (same_line deleted)⟩
    intro before key after split plain nul
    exact deleted before key after split plain (Or.inl nul)
  · rintro ⟨clean, same⟩
    rw [kept_bytes, ← received_bytes, List.length_map, List.length_map] at same
    have wiped := Backspace.wiped_of_kept_length back_received same.symm
    intro before key after split plain cause
    rcases cause with nul | failed
    · exact (no_nul_iff keys).mp clean before key after split plain nul
    · exact wiped before key after split plain ⟨none, List.mem_cons_of_mem key failed, rfl⟩

theorem edited_iff {e : Editor} {keys : List (Option UInt8)}
    (holds : Holding e (Backspace.edit backspace [] (keys.map keyOf)))
    (terminated : e.buffer (Backspace.edit backspace [] (keys.map keyOf)).length = 0)
    (nonempty : Backspace.edit backspace [] (keys.map keyOf) ≠ []) :
    Edited e (received keys) ↔ NulsDeleted keys := by
  constructor
  · intro edited
    have same : (Backspace.edit backspace [] (keys.map keyOf)).length =
        (Backspace.edit backspace [] (received keys)).length := by
      rw [← holds.index, edited.length]
    have line : Backspace.edit backspace [] (keys.map keyOf) =
        Backspace.edit backspace [] (received keys) := by
      apply List.ext_getElem same
      intro i inside inside'
      rw [← holds.content i inside, edited.text i inside']
    rw [nuls_deleted_iff]
    refine ⟨?_, same⟩
    rw [line]
    exact edited.noNul
  · intro deleted
    obtain ⟨clean, -⟩ := (nuls_deleted_iff keys).mp deleted
    rw [same_line deleted] at holds terminated nonempty clean
    exact ⟨nonempty, holds.content, clean, terminated, holds.index⟩

/-- readLine keeps inside its buffer whatever is typed, and returns the edited line of the
    characters received exactly when all NULs are deleted again. -/
theorem read_line_correct_iff (maxLen : Nat) (two : 2 ≤ maxLen) (buffer : Nat → UInt8)
    (polls : List Poll) :
    (∀ p, p ∈ (readLine maxLen ⟨buffer, 0, []⟩ polls).2.stores → p < maxLen) ∧
      ((readLine maxLen ⟨buffer, 0, []⟩ polls).1 = .returned →
        (Edited (readLine maxLen ⟨buffer, 0, []⟩ polls).2
            (received (typed (polls.map getChar))) ↔
          NulsDeleted (typed (polls.map getChar)))) := by
  have start : Holding ⟨buffer, 0, []⟩ [] :=
    ⟨rfl, fun i inside => absurd inside (Nat.not_lt_zero i)⟩
  obtain ⟨ending, line, inside⟩ := read_line_refines two start (Nat.zero_le _)
    (fun p there => absurd there List.not_mem_nil) polls
  refine ⟨inside, ?_⟩
  intro returned
  rw [ending] at returned
  cases result : MacAddress.readLine maxLen [] (polls.map getChar) with
  | reset =>
    rw [result] at returned
    cases returned
  | waiting =>
    rw [result] at returned
    cases returned
  | line text =>
    obtain ⟨holds, terminated⟩ := line text result
    obtain ⟨edits, nonempty⟩ := read_line_edits result
    rw [edits] at holds terminated nonempty
    exact edited_iff holds terminated nonempty

def key (c : UInt8) : Poll := ⟨1, true, some c⟩

def failed : Poll := ⟨1, true, none⟩

/- "a", backspace, "b" and Enter. -/
theorem read_line_correct_b :
    2 ≤ 13 ∧ (Edited (readLine 13 ⟨fun _ => 0, 0, []⟩ [key 0x61, key 0x08, key 0x62, key 0x0D]).2
        (received (typed ([key 0x61, key 0x08, key 0x62, key 0x0D].map getChar))) ↔
      NulsDeleted (typed ([key 0x61, key 0x08, key 0x62, key 0x0D].map getChar))) :=
  ⟨by decide, (read_line_correct_iff 13 (by decide) (fun _ => 0) _).2 rfl⟩

/- A failed read and Enter: the string is empty and the index 1. -/
theorem failed_read_typed :
    ¬ ∀ maxLen buffer polls, 2 ≤ maxLen →
      (readLine maxLen ⟨buffer, 0, []⟩ polls).1 = .returned →
      Edited (readLine maxLen ⟨buffer, 0, []⟩ polls).2 (received (typed (polls.map getChar))) := by
  intro edits
  have edited := edits 13 (fun _ => 0) [failed, key 0x0D] (by decide) rfl
  exact edited.nonempty rfl

end LineEditor
