import Mathlib.Data.BitVec
import Mathlib.Data.List.Nodup
import Mathlib.Data.List.TakeWhile
import Mathlib.Logic.Function.Basic
import Nios2Ecos.CyclicWindow

/- The receive side of if_oeth.c: one call of openeth_rxready over a ring of `n` =
   OETH_RXBD_NUM descriptors while the controller finishes no further frame. The flag
   `bad` is set once and stays set for the rest of the batch. -/
namespace OethReceive
open CyclicWindow

def rxBdEmpty : BitVec 32 := 0x8000
def rxBdIrq : BitVec 32 := 0x4000
def rxBdWrap : BitVec 32 := 0x2000
def rxBdMiss : BitVec 32 := 0x0080
def rxBdOverrun : BitVec 32 := 0x0040
def rxBdDribble : BitVec 32 := 0x0010
def rxBdToolong : BitVec 32 := 0x0008
def rxBdShort : BitVec 32 := 0x0004
def rxBdCrcerr : BitVec 32 := 0x0002
def rxBdLatecol : BitVec 32 := 0x0001

structure RxStats where
  rxPackets : Nat
  rxLengthErrors : Nat
  rxFrameErrors : Nat
  rxCrcErrors : Nat
  deriving DecidableEq

def RxStats.packet (st : RxStats) : RxStats := { st with rxPackets := st.rxPackets + 1 }
def RxStats.lengthError (st : RxStats) : RxStats :=
  { st with rxLengthErrors := st.rxLengthErrors + 1 }
def RxStats.frameError (st : RxStats) : RxStats :=
  { st with rxFrameErrors := st.rxFrameErrors + 1 }
def RxStats.crcError (st : RxStats) : RxStats := { st with rxCrcErrors := st.rxCrcErrors + 1 }

/-- The receive part of struct oeth_private, the descriptors, the memory at each
    descriptor's address, and the messages printed. -/
structure Rx where
  rxCur : Nat
  lenStatus : Nat → BitVec 32
  buffer : Nat → Nat → UInt8
  stats : RxStats
  said : List String

def Empty (status : BitVec 32) : Prop := status &&& rxBdEmpty ≠ 0

instance (status : BitVec 32) : Decidable (Empty status) := inferInstanceAs (Decidable (_ ≠ _))

/-- The shift is of an int and keeps the sign. -/
def packetLength (status : BitVec 32) : Int := (status.sshiftRight 16).toInt

structure Sg where
  null : Bool
  len : Int

/-- The copy loop of openeth_recv from position `pos` of the buffer with `pktLen` bytes
    left; the second part is `none` when the stack is out of mbufs. -/
def scatter (bytes : Nat → UInt8) : List Sg → Nat → Int → List (List UInt8) × Option Int
  | [], _, pktLen => ([], some pktLen)
  | sg :: rest, pos, pktLen =>
    if sg.null ∨ sg.len ≤ 0 then ([], none)
    else
      let len := if sg.len > pktLen then pktLen else sg.len
      let later := scatter bytes rest (pos + len.toNat) (pktLen - len)
      ((List.range len.toNat).map (fun o => bytes (pos + o)) :: later.1, later.2)

def recvCounted (rx : Rx) (left : Option Int) : Rx :=
  match left with
  | none => rx
  | some rest =>
    { rx with
      said := if rest > 0 then rx.said ++ ["oeth: sglist: not all data received\n"] else rx.said
      stats := rx.stats.packet }

def openethRecv (rx : Rx) (sgList : List Sg) : List (List UInt8) × Rx :=
  let read := scatter (rx.buffer rx.rxCur) sgList 0 (packetLength (rx.lenStatus rx.rxCur))
  (read.1, recvCounted rx read.2)

structure Handed where
  slot : Nat
  len : Int
  copied : List (List UInt8)
  deriving DecidableEq

structure Loop where
  rx : Rx
  bad : Bool
  handed : List Handed

def Loop.reject (l : Loop) (text : String) (count : RxStats → RxStats) : Loop :=
  { l with
    rx := { l.rx with said := l.rx.said ++ [text], stats := count l.rx.stats }
    bad := true }

def Loop.check (l : Loop) (status mask : BitVec 32) (text : String)
    (count : RxStats → RxStats) : Loop :=
  if status &&& mask ≠ 0 then l.reject text count else l

/-- The manual discard of short frames, which looks at the flag first. -/
def Loop.discard (l : Loop) (status : BitVec 32) : Loop :=
  if !l.bad ∧ packetLength status < 64 then
    l.reject "openeth: manual discard error\n" RxStats.crcError
  else l

def screen (l : Loop) (status : BitVec 32) : Loop :=
  let l := l.check status (rxBdToolong ||| rxBdShort) "openeth: length error\n"
    RxStats.lengthError
  let l := l.check status rxBdDribble "openeth: dribble error\n" RxStats.frameError
  let l := l.check status rxBdCrcerr "openeth: crc error\n" RxStats.crcError
  let l := l.check status rxBdOverrun
    ("openeth: overrun error. Length " ++ toString (packetLength status) ++ "\n")
    RxStats.crcError
  let l := l.check status rxBdLatecol "openeth: latecol error\n" RxStats.frameError
  let l := l.discard status
  l.check status rxBdMiss "openeth: miss error\n" RxStats.crcError

def handUp (stack : Nat → List Sg) (l : Loop) : Loop :=
  let i := l.rx.rxCur
  let read := openethRecv l.rx (stack i)
  { l with
    rx := read.2
    handed := l.handed ++ [⟨i, packetLength (l.rx.lenStatus i), read.1⟩] }

def returnedStatus (cur : Nat) : BitVec 32 :=
  rxBdEmpty ||| rxBdIrq ||| (if cur = 0 then rxBdWrap else 0)

def advance (n : Nat) (rx : Rx) : Rx :=
  let i := rx.rxCur
  let cur := if i + 1 ≥ n then 0 else i + 1
  { rx with
    rxCur := cur
    lenStatus := Function.update rx.lenStatus i (returnedStatus cur) }

def rxRound (n : Nat) (stack : Nat → List Sg) (l : Loop) : Loop :=
  let l := screen l (l.rx.lenStatus l.rx.rxCur)
  let l := if l.bad then l else handUp stack l
  { l with rx := advance n l.rx }

def rxLoop (n : Nat) (stack : Nat → List Sg) : Nat → Loop → Option Loop
  | 0, _ => none
  | fuel + 1, l =>
    if Empty (l.rx.lenStatus l.rx.rxCur) then some l
    else rxLoop n stack fuel (rxRound n stack l)

/-- The call, with rounds enough for a whole turn of the ring. -/
def openethRxready (n : Nat) (stack : Nat → List Sg) (rx : Rx) : Option Loop :=
  rxLoop n stack (n + 1) ⟨rx, false, []⟩

/- What is expected of a batch, in terms of the descriptors alone. -/

def frameLength (status : BitVec 32) : Nat := (status >>> 16).toNat

def errorFlags : List (BitVec 32) :=
  [rxBdToolong, rxBdShort, rxBdDribble, rxBdCrcerr, rxBdOverrun, rxBdLatecol, rxBdMiss]

def NoErrors (status : BitVec 32) : Prop := ∀ flag ∈ errorFlags, status &&& flag = 0

-- over the list, not over all the words
instance (status : BitVec 32) : Decidable (NoErrors status) := List.decidableBAll _ errorFlags

def Clean (status : BitVec 32) : Prop := NoErrors status ∧ 64 ≤ frameLength status

instance (status : BitVec 32) : Decidable (Clean status) := inferInstanceAs (Decidable (_ ∧ _))

def slots (n start d : Nat) : List Nat := (List.range d).map (fun e => (start + e) % n)

def batch (n : Nat) (rx : Rx) : List Nat :=
  (slots n rx.rxCur n).takeWhile (fun i => !decide (Empty (rx.lenStatus i)))

def expectedFrame (stack : Nat → List Sg) (rx : Rx) (i : Nat) : Handed where
  slot := i
  len := frameLength (rx.lenStatus i)
  copied := (scatter (rx.buffer i) (stack i) 0 (frameLength (rx.lenStatus i))).1

/-- What the source tests: the length as a signed number. -/
def Accepted (status : BitVec 32) : Prop := NoErrors status ∧ 64 ≤ packetLength status

instance (status : BitVec 32) : Decidable (Accepted status) :=
  inferInstanceAs (Decidable (_ ∧ _))

theorem packet_length_eq (status : BitVec 32) :
    packetLength status =
      if frameLength status < 2 ^ 15 then (frameLength status : Int)
      else (frameLength status : Int) - 2 ^ 16 := by
  have bound := status.isLt
  have field : frameLength status = status.toNat / 2 ^ 16 := by
    simp only [frameLength, BitVec.toNat_ushiftRight, Nat.shiftRight_eq_div_pow]
  have signed : packetLength status = status.toInt / (2 ^ 16 : Nat) := by
    simp only [packetLength, BitVec.toInt_sshiftRight, Int.shiftRight_eq_div_pow]
  rw [signed, field, BitVec.toInt_eq_toNat_cond]
  split <;> split <;> omega

theorem accepted_iff (status : BitVec 32) :
    Accepted status ↔ Clean status ∧ frameLength status < 2 ^ 15 := by
  have length := packet_length_eq status
  have bound : frameLength status < 2 ^ 16 := by
    have whole := status.isLt
    simp only [frameLength, BitVec.toNat_ushiftRight, Nat.shiftRight_eq_div_pow]
    omega
  constructor
  · rintro ⟨flags, long⟩
    split at length
    · exact ⟨⟨flags, by omega⟩, by assumption⟩
    · omega
  · rintro ⟨⟨flags, long⟩, short⟩
    rw [if_pos short] at length
    exact ⟨flags, by omega⟩

/- The checks of a round look at nothing but the flags and the length, and change only the
   flag, the counters and the messages. -/
structure Undisturbed (l l' : Loop) : Prop where
  rxCur : l'.rx.rxCur = l.rx.rxCur
  lenStatus : l'.rx.lenStatus = l.rx.lenStatus
  buffer : l'.rx.buffer = l.rx.buffer
  handed : l'.handed = l.handed

theorem Undisturbed.trans {l m k : Loop} (first : Undisturbed l m) (second : Undisturbed m k) :
    Undisturbed l k where
  rxCur := second.rxCur.trans first.rxCur
  lenStatus := second.lenStatus.trans first.lenStatus
  buffer := second.buffer.trans first.buffer
  handed := second.handed.trans first.handed

theorem reject_undisturbed (l : Loop) (text : String) (count : RxStats → RxStats) :
    Undisturbed l (l.reject text count) :=
  ⟨rfl, rfl, rfl, rfl⟩

theorem check_undisturbed (l : Loop) (status mask : BitVec 32) (text : String)
    (count : RxStats → RxStats) : Undisturbed l (l.check status mask text count) := by
  unfold Loop.check
  split
  · exact reject_undisturbed l text count
  · exact ⟨rfl, rfl, rfl, rfl⟩

theorem check_bad (l : Loop) (status mask : BitVec 32) (text : String)
    (count : RxStats → RxStats) :
    (l.check status mask text count).bad = (l.bad || decide (status &&& mask ≠ 0)) := by
  unfold Loop.check
  split
  · rename_i flagged
    simp only [Loop.reject, flagged, ne_eq, not_false_eq_true, decide_true, Bool.or_true]
  · rename_i clear
    simp only [clear, decide_false, Bool.or_false]

theorem discard_bad (l : Loop) (status : BitVec 32) :
    (l.discard status).bad = (l.bad || decide (packetLength status < 64)) := by
  unfold Loop.discard
  cases already : l.bad
  · by_cases short : packetLength status < 64
    · simp [short, Loop.reject]
    · simp [short, already]
  · simp [already]

theorem discard_undisturbed (l : Loop) (status : BitVec 32) :
    Undisturbed l (l.discard status) := by
  unfold Loop.discard
  split
  · exact reject_undisturbed l _ _
  · exact ⟨rfl, rfl, rfl, rfl⟩

theorem screen_undisturbed (l : Loop) (status : BitVec 32) : Undisturbed l (screen l status) := by
  unfold screen
  apply Undisturbed.trans _ (check_undisturbed _ _ _ _ _)
  apply Undisturbed.trans _ (discard_undisturbed _ _)
  apply Undisturbed.trans _ (check_undisturbed _ _ _ _ _)
  apply Undisturbed.trans _ (check_undisturbed _ _ _ _ _)
  apply Undisturbed.trans _ (check_undisturbed _ _ _ _ _)
  apply Undisturbed.trans _ (check_undisturbed _ _ _ _ _)
  exact check_undisturbed _ _ _ _ _

theorem and_or_zero (status a b : BitVec 32) :
    status &&& (a ||| b) = 0 ↔ status &&& a = 0 ∧ status &&& b = 0 := by
  rw [BitVec.and_or_distrib_left]
  exact BitVec.or_eq_zero_iff

theorem screen_bad (l : Loop) (status : BitVec 32) :
    (screen l status).bad = (l.bad || !decide (Accepted status)) := by
  unfold screen
  simp only [check_bad, discard_bad]
  cases l.bad
  · apply Bool.eq_iff_iff.mpr
    simp only [Bool.false_or, Bool.or_eq_true, decide_eq_true_eq, Bool.not_eq_true',
      decide_eq_false_iff_not, Accepted, NoErrors, errorFlags, List.forall_mem_cons, and_or_zero,
      List.not_mem_nil, false_imp_iff, implies_true, ne_eq, and_true, ← Int.not_lt]
    tauto
  · simp only [Bool.true_or]

@[simp] theorem recv_counted_cur (rx : Rx) (left : Option Int) :
    (recvCounted rx left).rxCur = rx.rxCur := by
  cases left <;> rfl

@[simp] theorem recv_counted_status (rx : Rx) (left : Option Int) :
    (recvCounted rx left).lenStatus = rx.lenStatus := by
  cases left <;> rfl

@[simp] theorem recv_counted_buffer (rx : Rx) (left : Option Int) :
    (recvCounted rx left).buffer = rx.buffer := by
  cases left <;> rfl

def takenFrame (stack : Nat → List Sg) (rx : Rx) (i : Nat) : Handed where
  slot := i
  len := packetLength (rx.lenStatus i)
  copied := (scatter (rx.buffer i) (stack i) 0 (packetLength (rx.lenStatus i))).1

structure RoundSpec (n : Nat) (stack : Nat → List Sg) (l l' : Loop) : Prop where
  rxCur : l'.rx.rxCur = next n l.rx.rxCur
  lenStatus : l'.rx.lenStatus =
    Function.update l.rx.lenStatus l.rx.rxCur (returnedStatus (next n l.rx.rxCur))
  buffer : l'.rx.buffer = l.rx.buffer
  bad : l'.bad = (l.bad || !decide (Accepted (l.rx.lenStatus l.rx.rxCur)))
  handed : l'.handed =
    if l'.bad then l.handed else l.handed ++ [takenFrame stack l.rx l.rx.rxCur]

theorem rx_round_spec (n : Nat) (stack : Nat → List Sg) (l : Loop) (inside : l.rx.rxCur < n) :
    RoundSpec n stack l (rxRound n stack l) := by
  have screened := screen_undisturbed l (l.rx.lenStatus l.rx.rxCur)
  have verdict := screen_bad l (l.rx.lenStatus l.rx.rxCur)
  unfold rxRound
  generalize screen l (l.rx.lenStatus l.rx.rxCur) = m at screened verdict
  dsimp only
  split
  · rename_i isBad
    constructor
    · simp only [advance, screened.rxCur, wrapped_eq_next inside]
    · simp only [advance, screened.rxCur, screened.lenStatus, wrapped_eq_next inside]
    · exact screened.buffer
    · exact verdict
    · simp only [isBad, ↓reduceIte, screened.handed]
  · rename_i isGood
    constructor
    · simp only [advance, handUp, openethRecv, recv_counted_cur, screened.rxCur, wrapped_eq_next inside]
    · simp only [advance, handUp, openethRecv, recv_counted_cur, recv_counted_status,
        screened.rxCur, screened.lenStatus, wrapped_eq_next inside]
    · simp only [advance, handUp, openethRecv, recv_counted_buffer, screened.buffer]
    · exact verdict
    · simp only [handUp, isGood, Bool.false_eq_true, ↓reduceIte, openethRecv, takenFrame,
        screened.handed, screened.rxCur, screened.lenStatus, screened.buffer]

theorem returned_empty (cur : Nat) : Empty (returnedStatus cur) := by
  unfold returnedStatus
  split <;> decide

section rounds
variable (n : Nat) (stack : Nat → List Sg) (rx : Rx)

structure Rounds (d : Nat) (l : Loop) : Prop where
  within : d ≤ n
  rxCur : l.rx.rxCur = (rx.rxCur + d) % n
  full : ∀ i ∈ slots n rx.rxCur d, ¬ Empty (rx.lenStatus i)
  returned : ∀ i ∈ slots n rx.rxCur d, l.rx.lenStatus i = returnedStatus (next n i)
  untouched : ∀ i, i ∉ slots n rx.rxCur d → l.rx.lenStatus i = rx.lenStatus i
  buffer : l.rx.buffer = rx.buffer
  bad : l.bad = !(slots n rx.rxCur d).all (fun i => decide (Accepted (rx.lenStatus i)))
  handed : l.handed = ((slots n rx.rxCur d).takeWhile
    (fun i => decide (Accepted (rx.lenStatus i)))).map (takenFrame stack rx)

end rounds

theorem slots_succ (n start d : Nat) :
    slots n start (d + 1) = slots n start d ++ [(start + d) % n] := by
  simp only [slots, List.range_succ, List.map_append, List.map_cons, List.map_nil]

theorem slots_fresh {n start d : Nat} (hs : start < n) (hd : d < n) :
    (start + d) % n ∉ slots n start d := by
  intro mem
  obtain ⟨e, less, same⟩ := List.mem_map.mp mem
  have small := List.mem_range.mp less
  have place := offset_add hs hd
  rw [← same, offset_add hs (Nat.lt_trans small hd)] at place
  omega

theorem mem_slots_all {n start i : Nat} (hs : start < n) (hi : i < n) :
    i ∈ slots n start n := by
  apply List.mem_map.mpr
  exact ⟨offset n start i, List.mem_range.mpr (offset_lt hs), add_offset hs hi⟩

theorem rounds_start {n : Nat} {stack : Nat → List Sg} {rx : Rx} (inside : rx.rxCur < n) :
    Rounds n stack rx 0 ⟨rx, false, []⟩ := by
  constructor
  · exact Nat.zero_le n
  · exact (Nat.mod_eq_of_lt inside).symm
  · intro i mem
    exact absurd mem List.not_mem_nil
  · intro i mem
    exact absurd mem List.not_mem_nil
  · intro i outside
    rfl
  · rfl
  · rfl
  · rfl

theorem take_while_snoc {α : Type} (p : α → Bool) (xs : List α) (x : α) :
    (xs ++ [x]).takeWhile p =
      if xs.all p && p x then xs.takeWhile p ++ [x] else xs.takeWhile p := by
  induction xs with
  | nil => cases h : p x <;> simp [h]
  | cons y ys ih =>
    cases h : p y
    · simp [h]
    · simp only [List.cons_append, List.takeWhile_cons, h, ↓reduceIte, ih, List.all_cons,
        Bool.true_and]
      split <;> rfl

theorem next_shift {n start d : Nat} : next n ((start + d) % n) = (start + (d + 1)) % n := by
  simp only [next, Nat.mod_add_mod, Nat.add_assoc]

theorem rounds_step {n d : Nat} {stack : Nat → List Sg} {rx : Rx} {l : Loop}
    (inside : rx.rxCur < n) (rounds : Rounds n stack rx d l) (more : d < n)
    (full : ¬ Empty (l.rx.lenStatus l.rx.rxCur)) :
    Rounds n stack rx (d + 1) (rxRound n stack l) := by
  have fresh := slots_fresh inside more
  have here : l.rx.rxCur < n := by
    rw [rounds.rxCur]
    exact Nat.mod_lt _ (by omega)
  have spec := rx_round_spec n stack l here
  have status : l.rx.lenStatus l.rx.rxCur = rx.lenStatus ((rx.rxCur + d) % n) := by
    rw [rounds.rxCur]
    exact rounds.untouched _ fresh
  generalize rxRound n stack l = l' at spec
  have nowBad : l'.bad = !(slots n rx.rxCur (d + 1)).all
      (fun i => decide (Accepted (rx.lenStatus i))) := by
    rw [spec.bad, rounds.bad, status, slots_succ]
    simp only [List.all_append, List.all_cons, List.all_nil, Bool.and_true, Bool.not_and]
  constructor
  · exact more
  · rw [spec.rxCur, rounds.rxCur]
    exact next_shift
  · intro i mem
    rw [slots_succ] at mem
    rcases List.mem_append.mp mem with early | last
    · exact rounds.full i early
    · rw [List.mem_singleton.mp last, ← status]
      exact full
  · intro i mem
    rw [slots_succ] at mem
    rw [spec.lenStatus]
    rcases List.mem_append.mp mem with early | last
    · have other : i ≠ l.rx.rxCur := by
        rintro rfl
        rw [rounds.rxCur] at early
        exact fresh early
      rw [Function.update_of_ne other]
      exact rounds.returned i early
    · have same : i = l.rx.rxCur := (List.mem_singleton.mp last).trans rounds.rxCur.symm
      rw [same, Function.update_self]
  · intro i outside
    rw [slots_succ] at outside
    have early : i ∉ slots n rx.rxCur d := fun mem =>
      outside (List.mem_append_left _ mem)
    have other : i ≠ l.rx.rxCur := by
      intro same
      apply outside
      rw [same, rounds.rxCur]
      exact List.mem_append_right _ (List.mem_singleton_self _)
    rw [spec.lenStatus, Function.update_of_ne other]
    exact rounds.untouched i early
  · exact spec.buffer.trans rounds.buffer
  · exact nowBad
  · have frame : takenFrame stack l.rx l.rx.rxCur =
        takenFrame stack rx ((rx.rxCur + d) % n) := by
      simp only [takenFrame, rounds.buffer, rounds.rxCur, rounds.untouched _ fresh]
    rw [spec.handed, nowBad, frame, rounds.handed, slots_succ, take_while_snoc]
    simp only [List.all_append, List.all_cons, List.all_nil, Bool.and_true]
    cases ((slots n rx.rxCur d).all fun i => decide (Accepted (rx.lenStatus i))) &&
      decide (Accepted (rx.lenStatus ((rx.rxCur + d) % n)))
    · rfl
    · simp only [Bool.not_true, Bool.false_eq_true, ↓reduceIte, List.map_append, List.map_cons,
        List.map_nil]

theorem whole_turn_empty {n : Nat} {stack : Nat → List Sg} {rx : Rx} {l : Loop}
    (inside : rx.rxCur < n) (rounds : Rounds n stack rx n l) :
    Empty (l.rx.lenStatus l.rx.rxCur) := by
  have back : l.rx.rxCur = rx.rxCur := by
    rw [rounds.rxCur, Nat.add_mod_right, Nat.mod_eq_of_lt inside]
  rw [back, rounds.returned _ (mem_slots_all inside inside)]
  exact returned_empty _

theorem rx_loop_ends {n : Nat} {stack : Nat → List Sg} {rx : Rx} (inside : rx.rxCur < n)
    (m d : Nat) (l : Loop) (room : d + m = n) (rounds : Rounds n stack rx d l) :
    ∃ d' l', rxLoop n stack (m + 1) l = some l' ∧ Rounds n stack rx d' l' ∧
      Empty (l'.rx.lenStatus l'.rx.rxCur) := by
  induction m generalizing d l with
  | zero =>
    have all : d = n := room
    subst all
    have stops := whole_turn_empty inside rounds
    exact ⟨d, l, if_pos stops, rounds, stops⟩
  | succ m ih =>
    by_cases stops : Empty (l.rx.lenStatus l.rx.rxCur)
    · exact ⟨d, l, if_pos stops, rounds, stops⟩
    · have later := rounds_step inside rounds (by omega) stops
      obtain ⟨d', l', ran, rest⟩ := ih (d + 1) (rxRound n stack l) (by omega) later
      refine ⟨d', l', ?_, rest⟩
      rw [rxLoop, if_neg stops]
      exact ran

theorem slots_cons (n start d : Nat) :
    slots n start (d + 1) = start % n :: slots n (start + 1) d := by
  simp only [slots, List.range_succ_eq_map, List.map_cons, List.map_map, Nat.add_zero]
  congr 1
  apply List.map_congr_left
  intro e mem
  simp only [Function.comp, Nat.succ_eq_add_one, Nat.add_assoc, Nat.add_comm 1 e]

theorem slots_split (n start d m : Nat) :
    slots n start (d + m) = slots n start d ++ slots n (start + d) m := by
  induction m with
  | zero => simp only [slots, Nat.add_zero, List.range_zero, List.map_nil, List.append_nil]
  | succ m ih =>
    rw [← Nat.add_assoc, slots_succ, ih, slots_succ n (start + d) m, List.append_assoc,
      Nat.add_assoc]

theorem rounds_batch {n d : Nat} {stack : Nat → List Sg} {rx : Rx} {l : Loop}
    (inside : rx.rxCur < n) (rounds : Rounds n stack rx d l)
    (stops : Empty (l.rx.lenStatus l.rx.rxCur)) : batch n rx = slots n rx.rxCur d := by
  have front : ∀ i ∈ slots n rx.rxCur d, (!decide (Empty (rx.lenStatus i))) = true := by
    intro i mem
    simpa using rounds.full i mem
  have whole : d + (n - d) = n := Nat.add_sub_cancel' rounds.within
  have split := slots_split n rx.rxCur d (n - d)
  rw [whole] at split
  rw [batch, split, List.takeWhile_append_of_pos front]
  cases left : n - d with
  | zero => exact List.append_nil _
  | succ m =>
    have fresh := slots_fresh inside (show d < n by omega)
    rw [rounds.rxCur, rounds.untouched _ fresh] at stops
    rw [slots_cons, List.takeWhile_cons_of_neg, List.append_nil]
    simpa using stops

/-- A prefix that stops at the first refusal holds every wanted element exactly when no
    wanted element is refused or comes after an unwanted one. -/
theorem take_while_eq_filter {α : Type} {wanted fits : α → Prop} [DecidablePred wanted]
    [DecidablePred fits] (xs : List α) :
    xs.takeWhile (fun x => decide (wanted x ∧ fits x)) = xs.filter (fun x => decide (wanted x)) ↔
      ∀ a x b, xs = a ++ x :: b → wanted x → fits x ∧ ∀ y ∈ a, wanted y := by
  induction xs with
  | nil => simp
  | cons y ys ih =>
    by_cases taken : wanted y ∧ fits y
    · rw [List.takeWhile_cons_of_pos (by simpa using taken),
        List.filter_cons_of_pos (by simpa using taken.1), List.cons_inj_right, ih]
      constructor
      · intro tail a x b split want
        cases a with
        | nil =>
          cases split
          exact ⟨taken.2, fun y mem => absurd mem List.not_mem_nil⟩
        | cons z zs =>
          cases split
          obtain ⟨fit, before⟩ := tail zs x b rfl want
          refine ⟨fit, ?_⟩
          intro w mem
          rcases List.mem_cons.mp mem with rfl | later
          · exact taken.1
          · exact before w later
      · intro whole a x b split want
        obtain ⟨fit, before⟩ := whole (y :: a) x b (by rw [split, List.cons_append]) want
        exact ⟨fit, fun w mem => before w (List.mem_cons_of_mem y mem)⟩
    · rw [List.takeWhile_cons_of_neg (by simpa using taken), eq_comm, List.filter_eq_nil_iff]
      constructor
      · intro none a x b split want
        have mem : x ∈ y :: ys := by
          rw [split]
          exact List.mem_append_right a List.mem_cons_self
        exact absurd (decide_eq_true want) (none x mem)
      · intro whole x mem want
        have isWanted := of_decide_eq_true want
        obtain ⟨a, b, split⟩ := List.append_of_mem mem
        obtain ⟨fit, before⟩ := whole a x b split isWanted
        cases a with
        | nil =>
          cases split
          exact taken ⟨isWanted, fit⟩
        | cons z zs =>
          cases split
          have first := before y List.mem_cons_self
          exact taken ⟨first, (whole [] y _ rfl first).1⟩

/-- What one call is to leave: the clean frames of the batch handed up in ring order, each
    with its own length and bytes, the batch given back, the rest untouched. -/
structure Received (n : Nat) (stack : Nat → List Sg) (rx : Rx) (l : Loop) : Prop where
  handed : l.handed =
    ((batch n rx).filter (fun i => decide (Clean (rx.lenStatus i)))).map (expectedFrame stack rx)
  returned : ∀ i ∈ batch n rx, l.rx.lenStatus i =
    rxBdEmpty ||| rxBdIrq ||| (if i + 1 = n then rxBdWrap else 0)
  untouched : ∀ i, i ∉ batch n rx → l.rx.lenStatus i = rx.lenStatus i
  rxCur : l.rx.rxCur = (rx.rxCur + (batch n rx).length) % n

theorem accepted_frame {stack : Nat → List Sg} {rx : Rx} {i : Nat}
    (accepted : Accepted (rx.lenStatus i)) : takenFrame stack rx i = expectedFrame stack rx i := by
  have short := ((accepted_iff _).mp accepted).2
  have length := packet_length_eq (rx.lenStatus i)
  rw [if_pos short] at length
  simp only [takenFrame, expectedFrame, length]

theorem expected_frame_injective (stack : Nat → List Sg) (rx : Rx) :
    Function.Injective (expectedFrame stack rx) := by
  intro i j same
  exact congrArg Handed.slot same

theorem batch_inside {n i : Nat} {rx : Rx} (inside : rx.rxCur < n) (mem : i ∈ batch n rx) :
    i < n := by
  obtain ⟨d, less, rfl⟩ := List.mem_map.mp ((List.takeWhile_prefix _).subset mem)
  exact Nat.mod_lt _ (by omega)

theorem returned_wrap {n i : Nat} (inside : i < n) :
    returnedStatus (next n i) =
      rxBdEmpty ||| rxBdIrq ||| (if i + 1 = n then rxBdWrap else 0) := by
  have last : next n i = 0 ↔ i + 1 = n := by
    rw [next_eq inside]
    split <;> omega
  unfold returnedStatus
  by_cases h : i + 1 = n
  · rw [if_pos h, if_pos (last.mpr h)]
  · rw [if_neg h, if_neg (fun zero => h (last.mp zero))]

/-- What one call does whatever the batch holds: everything is given back, and the frames
    before the first one that is not accepted go up. -/
theorem rxready_runs {n : Nat} (stack : Nat → List Sg) {rx : Rx} (inside : rx.rxCur < n) :
    ∃ l, openethRxready n stack rx = some l ∧
      l.handed = ((batch n rx).takeWhile (fun i => decide (Clean (rx.lenStatus i) ∧
        frameLength (rx.lenStatus i) < 2 ^ 15))).map (expectedFrame stack rx) ∧
      (∀ i ∈ batch n rx, l.rx.lenStatus i =
        rxBdEmpty ||| rxBdIrq ||| (if i + 1 = n then rxBdWrap else 0)) ∧
      (∀ i, i ∉ batch n rx → l.rx.lenStatus i = rx.lenStatus i) ∧
      l.rx.rxCur = (rx.rxCur + (batch n rx).length) % n := by
  obtain ⟨d, l, ran, rounds, stops⟩ :=
    rx_loop_ends inside n 0 ⟨rx, false, []⟩ (Nat.zero_add n)
      (rounds_start inside : Rounds n stack rx 0 ⟨rx, false, []⟩)
  have whole := rounds_batch inside rounds stops
  have members := fun i (mem : i ∈ batch n rx) => batch_inside inside mem
  rw [whole] at members ⊢
  refine ⟨l, ran, ?_, ?_, rounds.untouched, ?_⟩
  · simp only [rounds.handed, ← accepted_iff]
    apply List.map_congr_left
    intro i mem
    have accepted := List.mem_takeWhile_imp mem
    exact accepted_frame (of_decide_eq_true accepted)
  · intro i mem
    rw [rounds.returned i mem]
    exact returned_wrap (members i mem)
  · rw [rounds.rxCur, slots, List.length_map, List.length_range]

/-- The call leaves what it is to leave exactly when no clean frame of the batch comes after
    a frame that is not clean, and none is so long that its length reads as negative. -/
theorem rxready_received_iff (n : Nat) (stack : Nat → List Sg) (rx : Rx)
    (inside : rx.rxCur < n) :
    (∃ l, openethRxready n stack rx = some l ∧ Received n stack rx l) ↔
      ∀ a i b, batch n rx = a ++ i :: b → Clean (rx.lenStatus i) →
        frameLength (rx.lenStatus i) < 2 ^ 15 ∧ ∀ j ∈ a, Clean (rx.lenStatus j) := by
  obtain ⟨l, ran, handed, returned, untouched, rxCur⟩ := rxready_runs stack inside
  rw [← take_while_eq_filter (batch n rx)]
  constructor
  · rintro ⟨l', ran', received⟩
    rw [ran] at ran'
    cases ran'
    apply List.map_injective_iff.mpr (expected_frame_injective stack rx)
    exact handed.symm.trans received.handed
  · intro same
    exact ⟨l, ran, handed.trans (congrArg _ same), returned, untouched, rxCur⟩

def exampleRx (first second : BitVec 32) : Rx where
  rxCur := 0
  lenStatus := fun i => if i = 0 then first else second
  buffer := fun i _ => UInt8.ofNat i
  stats := ⟨0, 0, 0, 0⟩
  said := []

def cleanPair : Rx := exampleRx 0x400000#32 0x400000#32
def badThenGood : Rx := exampleRx 0x400002#32 0x400000#32

def exampleStack : Nat → List Sg := fun _ => [⟨false, 2⟩, ⟨false, 100⟩]

theorem clean_pair_received :
    0 < 2 ∧ ∃ l, openethRxready 2 exampleStack cleanPair = some l ∧
      Received 2 exampleStack cleanPair l := by
  refine ⟨by decide, ?_⟩
  apply (rxready_received_iff 2 exampleStack cleanPair (by decide)).mpr
  intro a i b split clean
  have good : ∀ j ∈ batch 2 cleanPair, frameLength (cleanPair.lenStatus j) < 2 ^ 15 ∧
      Clean (cleanPair.lenStatus j) := by
    decide +kernel
  rw [split] at good
  refine ⟨(good i (List.mem_append_right a List.mem_cons_self)).1, ?_⟩
  intro j mem
  exact (good j (List.mem_append_left _ mem)).2

theorem bad_frame_drops_next :
    ¬ ∀ n stack rx, 2 ≤ n → rx.rxCur < n →
      ∃ l, openethRxready n stack rx = some l ∧ Received n stack rx l := by
  intro all
  obtain ⟨l, ran, received⟩ := all 2 exampleStack badThenGood (by decide) (by decide)
  have none : (openethRxready 2 exampleStack badThenGood).any
      (fun l => l.handed.length == 0) = true := by
    decide +kernel
  have one : ((batch 2 badThenGood).filter (fun i =>
      decide (Clean (badThenGood.lenStatus i)))).length = 1 := by
    decide +kernel
  rw [ran, Option.any_some, received.handed, List.length_map, one] at none
  cases none

end OethReceive
