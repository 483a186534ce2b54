import Nios2Ecos.XyzModem

/- The circular buffer behind getCharTimeout: readpos = writepos means empty, and a read may
   advance writepos by all the room up to the end of the buffer. -/
namespace LineBuffer

def bufsize : Nat := 4096

structure Ring where
  readpos : Nat
  writepos : Nat
  buffer : Nat → UInt8

/-- What select and read do in one call: read returns no byte for an error or an end of
    file, and at most as many as there is room for. -/
structure Port where
  retval : Int
  isSet : Bool
  read : Nat → List UInt8
  within : ∀ room, (read room).length ≤ room

def remainder (ring : Ring) : Nat :=
  if ring.writepos < ring.readpos then ring.readpos - ring.writepos
  else bufsize - ring.writepos

def fill (buffer : Nat → UInt8) (start : Nat) (bytes : List UInt8) : Nat → UInt8 :=
  fun i => if start ≤ i then (bytes[i - start]?).getD (buffer i) else buffer i

def takeChar (ring : Ring) : Option UInt8 × Ring :=
  (some (ring.buffer ring.readpos), { ring with readpos := (ring.readpos + 1) % bufsize })

def getCharTimeout (port : Port) (ring : Ring) : Option UInt8 × Ring :=
  if ring.readpos = ring.writepos then
    if port.retval > 0 then
      if port.isSet then
        let bytes := port.read (remainder ring)
        if bytes = [] then (none, ring)
        else takeChar { ring with
          writepos := (ring.writepos + bytes.length) % bufsize
          buffer := fill ring.buffer ring.writepos bytes }
      else (none, ring)
    else (none, ring)
  else takeChar ring

def obtained (port : Port) (ring : Ring) : List UInt8 :=
  if ring.readpos = ring.writepos ∧ port.retval > 0 ∧ port.isSet then
    port.read (remainder ring)
  else []

structure Session where
  ring : Ring
  line : XyzModem.Line
  input : List UInt8

def call (s : Session) (port : Port) : Session where
  ring := (getCharTimeout port s.ring).2
  line := s.line ++ [(getCharTimeout port s.ring).1]
  input := s.input ++ obtained port s.ring

def session (buffer : Nat → UInt8) (ports : List Port) : Session :=
  ports.foldl call ⟨⟨0, 0, buffer⟩, [], []⟩

/-- The ring holds the bytes `pending`, and is never full between two calls. -/
structure Holds (ring : Ring) (pending : List UInt8) : Prop where
  readInside : ring.readpos < bufsize
  fewer : pending.length < bufsize
  writepos : ring.writepos = (ring.readpos + pending.length) % bufsize
  content : ∀ i, (inside : i < pending.length) →
    ring.buffer ((ring.readpos + i) % bufsize) = pending[i]

theorem write_inside {ring : Ring} {pending : List UInt8} (holds : Holds ring pending) :
    ring.writepos < bufsize := by
  rw [holds.writepos]
  exact Nat.mod_lt _ (by decide)

theorem empty_iff {ring : Ring} {pending : List UInt8} (holds : Holds ring pending) :
    ring.readpos = ring.writepos ↔ pending = [] := by
  have inside := holds.readInside
  have fewer := holds.fewer
  rw [holds.writepos, ← List.length_eq_zero_iff]
  unfold bufsize at *
  constructor
  · intro meet
    omega
  · intro none
    omega

theorem room_inside {ring : Ring} (holds : Holds ring []) :
    ring.writepos = ring.readpos ∧ ring.writepos + remainder ring = bufsize := by
  have meet := (empty_iff holds).mpr rfl
  have inside := write_inside holds
  rw [remainder, if_neg (by omega)]
  omega

theorem fill_inside (buffer : Nat → UInt8) (start : Nat) {bytes : List UInt8} {i : Nat}
    (inside : i < bytes.length) : fill buffer start bytes (start + i) = bytes[i] := by
  rw [fill, if_pos (Nat.le_add_right start i), Nat.add_sub_cancel_left,
    List.getElem?_eq_getElem inside, Option.getD_some]

theorem fill_beyond {buffer : Nat → UInt8} {start i : Nat} {bytes : List UInt8}
    (beyond : start + bytes.length ≤ i) : fill buffer start bytes i = buffer i := by
  unfold fill
  split
  · rw [List.getElem?_eq_none (by omega), Option.getD_none]
  · rfl

theorem take_char {ring : Ring} {c : UInt8} {rest : List UInt8} (holds : Holds ring (c :: rest)) :
    (takeChar ring).1 = some c ∧ Holds (takeChar ring).2 rest := by
  obtain ⟨inside, fewer, writepos, content⟩ := holds
  rw [List.length_cons] at fewer writepos
  constructor
  · have first := content 0 (Nat.zero_lt_succ _)
    rw [Nat.add_zero, Nat.mod_eq_of_lt inside, List.getElem_cons_zero] at first
    rw [takeChar, first]
  · constructor
    · exact Nat.mod_lt _ (by decide)
    · omega
    · show ring.writepos = ((ring.readpos + 1) % bufsize + rest.length) % bufsize
      rw [writepos, Nat.mod_add_mod]
      congr 1
      omega
    · intro i inside'
      have next := content (i + 1) (by rw [List.length_cons]; omega)
      rw [List.getElem_cons_succ] at next
      rw [← next]
      show ring.buffer (((ring.readpos + 1) % bufsize + i) % bufsize) = _
      rw [Nat.mod_add_mod]
      congr 2
      omega

/-- A read may fill the ring to its last byte: the call then takes the first one at once, so
    the meeting of the two positions is never seen. -/
theorem read_then_take {ring : Ring} (holds : Holds ring []) {c : UInt8} {rest : List UInt8}
    (room : (c :: rest).length ≤ remainder ring) :
    let filled : Ring := { ring with
      writepos := (ring.writepos + (c :: rest).length) % bufsize
      buffer := fill ring.buffer ring.writepos (c :: rest) }
    (takeChar filled).1 = some c ∧ Holds (takeChar filled).2 rest := by
  obtain ⟨meet, end_of_buffer⟩ := room_inside holds
  have inside := holds.readInside
  rw [List.length_cons] at room
  constructor
  · show some (fill ring.buffer ring.writepos (c :: rest) ring.readpos) = some c
    have first := @fill_inside ring.buffer ring.writepos (c :: rest) 0 (Nat.zero_lt_succ _)
    rw [Nat.add_zero, List.getElem_cons_zero, meet] at first
    rw [meet, first]
  · constructor
    · exact Nat.mod_lt _ (by decide)
    · omega
    · show (ring.writepos + (c :: rest).length) % bufsize =
        ((ring.readpos + 1) % bufsize + rest.length) % bufsize
      rw [Nat.mod_add_mod, meet, List.length_cons]
      congr 1
      omega
    · intro i inside'
      show fill ring.buffer ring.writepos (c :: rest)
        (((ring.readpos + 1) % bufsize + i) % bufsize) = rest[i]
      have place : ((ring.readpos + 1) % bufsize + i) % bufsize = ring.writepos + (i + 1) := by
        rw [Nat.mod_add_mod, Nat.mod_eq_of_lt (by omega)]
        omega
      rw [place, fill_inside _ _ (by rw [List.length_cons]; omega), List.getElem_cons_succ]

theorem get_char_step {ring : Ring} {pending : List UInt8} (port : Port)
    (holds : Holds ring pending) :
    ∃ pending', Holds (getCharTimeout port ring).2 pending' ∧
      pending ++ obtained port ring = (getCharTimeout port ring).1.toList ++ pending' ∧
      ((getCharTimeout port ring).1 = none → pending = [] ∧ obtained port ring = []) := by
  cases pending with
  | cons c rest =>
    have apart : ring.readpos ≠ ring.writepos := by
      intro meet
      cases (empty_iff holds).mp meet
    obtain ⟨first, holds'⟩ := take_char holds
    rw [getCharTimeout, if_neg apart, first, obtained, if_neg (fun asked => apart asked.1)]
    refine ⟨rest, holds', List.append_nil _, ?_⟩
    intro none
    cases none
  | nil =>
    have meet := (empty_iff holds).mpr rfl
    by_cases asked : port.retval > 0 ∧ port.isSet = true
    · have bytes : obtained port ring = port.read (remainder ring) := by
        rw [obtained, if_pos ⟨meet, asked⟩]
      rw [bytes, getCharTimeout, if_pos meet, if_pos asked.1, if_pos asked.2]
      cases read : port.read (remainder ring) with
      | nil => exact ⟨[], holds, rfl, fun _ => ⟨rfl, rfl⟩⟩
      | cons c rest =>
        have room := port.within (remainder ring)
        rw [read] at room
        obtain ⟨first, holds'⟩ := read_then_take holds room
        rw [if_neg (List.cons_ne_nil c rest), first]
        refine ⟨rest, holds', rfl, ?_⟩
        intro none
        cases none
    · have nothing : obtained port ring = [] := by
        rw [obtained, if_neg (fun both => asked both.2)]
      have idle : getCharTimeout port ring = (none, ring) := by
        rw [getCharTimeout, if_pos meet]
        by_cases ready : port.retval > 0
        · rw [if_pos ready, if_neg (fun set => asked ⟨ready, set⟩)]
        · rw [if_neg ready]
      rw [nothing, idle]
      exact ⟨[], holds, rfl, fun _ => ⟨rfl, rfl⟩⟩

theorem memory_beyond {ring : Ring} {pending : List UInt8} (port : Port)
    (holds : Holds ring pending) {i : Nat} (beyond : bufsize ≤ i) :
    (getCharTimeout port ring).2.buffer i = ring.buffer i := by
  unfold getCharTimeout
  split
  · rename_i meet
    split
    · split
      · dsimp only
        split
        · rfl
        · have empty := (empty_iff holds).mp meet
          subst empty
          obtain ⟨-, end_of_buffer⟩ := room_inside holds
          have room := port.within (remainder ring)
          exact fill_beyond (by omega)
      · rfl
    · rfl
  · rfl

structure Fifo (memory : Nat → UInt8) (s : Session) : Prop where
  inOrder : ∃ pending, s.input = s.line.filterMap id ++ pending ∧ Holds s.ring pending
  positions : s.ring.readpos < bufsize ∧ s.ring.writepos < bufsize
  readInside : s.ring.readpos = s.ring.writepos → s.ring.writepos + remainder s.ring ≤ bufsize
  memoryKept : ∀ i, bufsize ≤ i → s.ring.buffer i = memory i
  zeroWhenEmpty : ∀ port, (getCharTimeout port s.ring).1 = none →
    s.input = s.line.filterMap id ∧ obtained port s.ring = []

theorem fifo_of_holds {memory : Nat → UInt8} {s : Session} (pending : List UInt8)
    (input : s.input = s.line.filterMap id ++ pending) (holds : Holds s.ring pending)
    (kept : ∀ i, bufsize ≤ i → s.ring.buffer i = memory i) : Fifo memory s := by
  refine ⟨⟨pending, input, holds⟩, ⟨holds.readInside, write_inside holds⟩, ?_, kept, ?_⟩
  · intro meet
    have empty := (empty_iff holds).mp meet
    subst empty
    exact Nat.le_of_eq (room_inside holds).2
  · intro port zero
    obtain ⟨pending', -, -, nothing⟩ := get_char_step port holds
    obtain ⟨empty, unread⟩ := nothing zero
    rw [empty, List.append_nil] at input
    exact ⟨input, unread⟩

theorem call_fifo {memory : Nat → UInt8} {s : Session} (port : Port) (fifo : Fifo memory s) :
    Fifo memory (call s port) := by
  obtain ⟨pending, input, holds⟩ := fifo.inOrder
  obtain ⟨pending', holds', taken, -⟩ := get_char_step port holds
  apply fifo_of_holds pending' _ holds'
  · intro i beyond
    exact (memory_beyond port holds beyond).trans (fifo.memoryKept i beyond)
  · show s.input ++ obtained port s.ring =
      (s.line ++ [(getCharTimeout port s.ring).1]).filterMap id ++ pending'
    rw [input, List.append_assoc, taken, List.filterMap_append, List.append_assoc]
    cases (getCharTimeout port s.ring).1 with
    | none => rfl
    | some c => rfl

theorem line_is_input (memory : Nat → UInt8) (ports : List Port) :
    Fifo memory (session memory ports) := by
  have start : Fifo memory ⟨⟨0, 0, memory⟩, [], []⟩ := by
    have positive : 0 < bufsize := by decide
    apply fifo_of_holds [] rfl
    · exact ⟨positive, positive, rfl, fun i inside => absurd inside (Nat.not_lt_zero i)⟩
    · intro i _
      rfl
  unfold session
  generalize (⟨⟨0, 0, memory⟩, [], []⟩ : Session) = s at start ⊢
  induction ports generalizing s with
  | nil => exact start
  | cons port rest ih => exact ih (call s port) (call_fifo port start)

end LineBuffer
