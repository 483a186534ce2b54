import Mathlib.Data.List.Basic
import Nios2Ecos.WhileLoop

/- The UART's DSR: characters are taken from the device into the buffers that the serial
   layer grants, until a status read finds none pending. -/
namespace Uart

structure RxChar where
  byte : UInt8
  pe : Bool
  fe : Bool
  deriving DecidableEq

structure Status where
  pe : Bool
  fe : Bool
  trdy : Bool
  rrdy : Bool
  dcts : Bool
  deriving DecidableEq

def Status.or (a b : Status) : Status :=
  ⟨a.pe || b.pe, a.fe || b.fe, a.trdy || b.trdy, a.rrdy || b.rrdy, a.dcts || b.dcts⟩

/-- The surroundings of one call. `arrivals` lists, for each status read, the characters that
    arrive before it, the ones already there among the first; `lines` gives TRDY and DCTS at
    each read; a request is refused, or granted a buffer of at least one byte. -/
structure Env where
  arrivals : List (List RxChar)
  lines : Nat → Bool × Bool
  replies : Nat → Option {size : Nat // 0 < size}

structure Device where
  reads : Nat
  pending : List RxChar

def statusRead (env : Env) (device : Device) : Status × Device :=
  let pending := device.pending ++ env.arrivals.getD device.reads []
  (⟨pending.head?.any RxChar.pe, pending.head?.any RxChar.fe, (env.lines device.reads).1,
    !pending.isEmpty, (env.lines device.reads).2⟩, ⟨device.reads + 1, pending⟩)

def rxdataRead (device : Device) : UInt8 × Device :=
  (device.pending.head?.elim 0 RxChar.byte, { device with pending := device.pending.tail })

/-- One data_rcv_req with what happened until the next: the reply, the characters read, the
    bytes put into the buffer with their positions, and the counts given to data_rcv_done. -/
structure Round where
  reply : Option Nat
  chars : List RxChar
  stored : List (UInt8 × Nat)
  dones : List Int
  deriving DecidableEq

def blank : Round := ⟨none, [], [], []⟩

inductive Phase where
  | request
  | receive
  | drop
  | xmit
  deriving DecidableEq

/-- The locals, the device, and the history: the finished rounds, the one in progress, and
    every status read. -/
structure Dsr where
  phase : Phase
  saveStatus : Status
  num : Int
  spaceAvail : Int
  space : Nat
  device : Device
  requests : Nat
  finished : List Round
  current : Round
  statuses : List Status

def dataRcvReq (env : Env) (s : Dsr) : Dsr :=
  match env.replies s.requests with
  | some granted =>
    { s with
      phase := .receive
      num := granted.val
      spaceAvail := granted.val
      space := 0
      requests := s.requests + 1
      current := ⟨some granted.val, [], [], []⟩ }
  | none =>
    { s with
      phase := .drop
      requests := s.requests + 1
      current := ⟨none, [], [], []⟩ }

def dataRcvDone (s : Dsr) : Dsr :=
  { s with current := { s.current with dones := s.current.dones ++ [s.num - s.spaceAvail] } }

def readStatus (env : Env) (s : Dsr) : Status × Dsr :=
  let (status, device) := statusRead env s.device
  (status, { s with
    saveStatus := s.saveStatus.or status
    device := device
    statuses := s.statuses ++ [status] })

def readData (s : Dsr) : UInt8 × Dsr :=
  let (data, device) := rxdataRead s.device
  (data, { s with
    device := device
    current := { s.current with chars := s.current.chars ++ s.device.pending.head?.toList } })

/-- One turn: a request, one pass of the loop over the granted space or its exit, or one pass
    of the loop that drops. -/
def turn (env : Env) (s : Dsr) : Dsr :=
  match s.phase with
  | .request => dataRcvReq env s
  | .receive =>
    if s.spaceAvail > 0 then
      let (status, s) := readStatus env s
      if status.rrdy then
        let (data, s) := readData s
        if status.pe || status.fe then s
        else
          { s with
            current := { s.current with stored := s.current.stored ++ [(data, s.space)] }
            space := s.space + 1
            spaceAvail := s.spaceAvail - 1 }
      else { dataRcvDone s with phase := .xmit }
    else
      let s := dataRcvDone s
      { s with phase := .request, finished := s.finished ++ [s.current], current := blank }
  | .drop =>
    let (status, s) := readStatus env s
    if status.rrdy then (readData s).2
    else { s with phase := .xmit }
  | .xmit => s

def running (s : Dsr) : Bool := decide (s.phase ≠ .xmit)

def start : Dsr where
  phase := .request
  saveStatus := ⟨false, false, false, false, false⟩
  num := 0
  spaceAvail := 0
  space := 0
  device := ⟨0, []⟩
  requests := 0
  finished := []
  current := blank
  statuses := []

def Dsrs (env : Env) (r : Dsr) : Prop := WhileLoop.Returns running (turn env) start r

def xmtChars (r : Dsr) : Nat := if r.saveStatus.trdy || r.saveStatus.dcts then 1 else 0

def rounds (r : Dsr) : List Round := r.finished ++ [r.current]

def accepted (chars : List RxChar) : List UInt8 :=
  (chars.filter (fun c => !(c.pe || c.fe))).map RxChar.byte

/-- A granted round stores its good characters from the start of the buffer and reports them
    once; a refused one stores and reports nothing. -/
def Accounted (round : Round) : Prop :=
  match round.reply with
  | some size => round.stored = (accepted round.chars).zipIdx ∧ round.stored.length ≤ size ∧
      round.dones = [(round.stored.length : Int)]
  | none => round.stored = [] ∧ round.dones = []

def Filled (round : Round) : Prop :=
  ∃ size, round.reply = some size ∧ round.stored = (accepted round.chars).zipIdx ∧
    round.stored.length = size ∧ round.dones = [(round.stored.length : Int)]

theorem accepted_append (first second : List RxChar) :
    accepted (first ++ second) = accepted first ++ accepted second := by
  unfold accepted
  rw [List.filter_append, List.map_append]

theorem accepted_good {c : RxChar} (good : (c.pe || c.fe) = false) : accepted [c] = [c.byte] := by
  unfold accepted
  rw [List.filter_cons_of_pos (by rw [good]; rfl)]
  rfl

theorem accepted_bad {c : RxChar} (bad : (c.pe || c.fe) = true) : accepted [c] = [] := by
  unfold accepted
  rw [List.filter_cons_of_neg (by rw [bad]; decide)]
  rfl

def waiting (env : Env) (s : Dsr) : List RxChar :=
  s.device.pending ++ env.arrivals.getD s.device.reads []

/-- The characters that status read `i` finds when each read before it has let one be taken. -/
def waitingAt (env : Env) (i : Nat) : List RxChar := (env.arrivals.take (i + 1)).flatten.drop i

def statusAt (env : Env) (i : Nat) : Status where
  pe := (waitingAt env i).head?.any RxChar.pe
  fe := (waitingAt env i).head?.any RxChar.fe
  trdy := (env.lines i).1
  rrdy := !(waitingAt env i).isEmpty
  dcts := (env.lines i).2

/-- The parts of the invariant that do not depend on the phase. -/
structure Ledger (env : Env) (s : Dsr) : Prop where
  taken : s.finished.flatMap Round.chars ++ s.current.chars ++ s.device.pending =
    (env.arrivals.take s.device.reads).flatten
  filled : ∀ round, round ∈ s.finished → Filled round
  trdySeen : s.saveStatus.trdy = (List.range s.device.reads).any (fun i => (env.lines i).1)
  dctsSeen : s.saveStatus.dcts = (List.range s.device.reads).any (fun i => (env.lines i).2)

theorem flatten_take_succ (lists : List (List RxChar)) (n : Nat) :
    (lists.take (n + 1)).flatten = (lists.take n).flatten ++ lists.getD n [] := by
  rw [List.take_add_one, List.flatten_append, List.getD_eq_getElem?_getD]
  cases lists[n]? with
  | none => rfl
  | some list => simp

theorem ledger_status {env : Env} {s : Dsr} (ledger : Ledger env s) :
    Ledger env (readStatus env s).2 := by
  constructor
  · show s.finished.flatMap Round.chars ++ s.current.chars ++ waiting env s =
      (env.arrivals.take (s.device.reads + 1)).flatten
    rw [flatten_take_succ, ← ledger.taken, waiting, List.append_assoc _ s.device.pending]
  · exact ledger.filled
  · show (s.saveStatus.trdy || (env.lines s.device.reads).1) =
      (List.range (s.device.reads + 1)).any (fun i => (env.lines i).1)
    rw [ledger.trdySeen, List.range_succ, List.any_append]
    simp
  · show (s.saveStatus.dcts || (env.lines s.device.reads).2) =
      (List.range (s.device.reads + 1)).any (fun i => (env.lines i).2)
    rw [ledger.dctsSeen, List.range_succ, List.any_append]
    simp

theorem ledger_data {env : Env} {s : Dsr} (ledger : Ledger env s) : Ledger env (readData s).2 := by
  constructor
  · show s.finished.flatMap Round.chars ++ (s.current.chars ++ s.device.pending.head?.toList) ++
      s.device.pending.tail = (env.arrivals.take s.device.reads).flatten
    rw [← ledger.taken]
    cases s.device.pending with
    | nil => simp
    | cons c rest => simp
  · exact ledger.filled
  · exact ledger.trdySeen
  · exact ledger.dctsSeen

def begun (s : Dsr) : List Round :=
  if s.phase = .request then s.finished else s.finished ++ [s.current]

theorem begun_replies (s : Dsr) {s' : Dsr} {replies : List (Option Nat)}
    (made : s'.phase ≠ .request) (same : s'.finished = s.finished) (reply : s'.current.reply = s.current.reply)
    (given : (s.finished ++ [s.current]).map Round.reply = replies) :
    (begun s').map Round.reply = replies := by
  rw [begun, if_neg made, same, ← given, List.map_append, List.map_append, List.map_singleton,
    List.map_singleton, reply]

def Progress (s : Dsr) : Prop :=
  match s.phase with
  | .request => s.current = blank
  | .receive => ∃ size : Nat, s.current.reply = some size ∧
      s.current.stored = (accepted s.current.chars).zipIdx ∧
      s.num = size ∧ s.space = s.current.stored.length ∧ s.space ≤ size ∧
      s.spaceAvail = size - s.space ∧ s.current.dones = []
  | .drop => s.current.reply = none ∧ s.current.stored = [] ∧ s.current.dones = []
  | .xmit => Accounted s.current ∧ s.device.pending = []

def Ready (s : Dsr) : Prop :=
  if s.phase = .xmit then
    ∃ front last, s.statuses = front ++ [last] ∧ (∀ st, st ∈ front → st.rrdy = true) ∧
      last.rrdy = false
  else ∀ st, st ∈ s.statuses → st.rrdy = true

structure Inv (env : Env) (s : Dsr) : Prop where
  ledger : Ledger env s
  replies : (begun s).map Round.reply =
    (List.range s.requests).map (fun i => (env.replies i).map Subtype.val)
  progress : Progress s
  ready : Ready s

theorem inv_start (env : Env) : Inv env start :=
  ⟨⟨rfl, by simp [start], rfl, rfl⟩, rfl, rfl, by simp [Ready, start]⟩

theorem status_rrdy (env : Env) (s : Dsr) :
    (readStatus env s).1.rrdy = !(waiting env s).isEmpty := rfl

/- The status just read is the last one exactly when it found nothing. -/

theorem ready_char {env : Env} {s s' : Dsr} {c : RxChar} {rest : List RxChar} (ready : Ready s)
    (running : s.phase ≠ .xmit) (found : waiting env s = c :: rest) (running' : s'.phase ≠ .xmit)
    (same : s'.statuses = s.statuses ++ [(readStatus env s).1]) : Ready s' := by
  rw [Ready, if_neg running] at ready
  rw [Ready, if_neg running', same]
  intro st there
  rcases List.mem_append.mp there with before | last
  · exact ready st before
  · cases List.mem_singleton.mp last
    rw [status_rrdy, found]
    rfl

theorem ready_idle {env : Env} {s s' : Dsr} (ready : Ready s) (running : s.phase ≠ .xmit)
    (found : waiting env s = []) (done : s'.phase = .xmit)
    (same : s'.statuses = s.statuses ++ [(readStatus env s).1]) : Ready s' := by
  rw [Ready, if_neg running] at ready
  rw [Ready, if_pos done]
  refine ⟨s.statuses, (readStatus env s).1, same, ready, ?_⟩
  rw [status_rrdy, found]
  rfl

theorem next_reply {env : Env} {s : Dsr} {round : Round}
    (answer : round.reply = (env.replies s.requests).map Subtype.val)
    (replies : s.finished.map Round.reply =
      (List.range s.requests).map (fun i => (env.replies i).map Subtype.val)) :
    (s.finished ++ [round]).map Round.reply =
      (List.range (s.requests + 1)).map (fun i => (env.replies i).map Subtype.val) := by
  rw [List.map_append, replies, List.range_succ, List.map_append, List.map_singleton,
    List.map_singleton, answer]

theorem inv_request {env : Env} {s : Dsr} (inv : Inv env s) (here : s.phase = .request) :
    Inv env (dataRcvReq env s) := by
  obtain ⟨ledger, replies, progress, ready⟩ := inv
  rw [Progress, here] at progress
  rw [begun, if_pos here] at replies
  rw [Ready, if_neg (by rw [here]; decide)] at ready
  have taken := ledger.taken
  rw [progress] at taken
  unfold dataRcvReq
  cases reply : env.replies s.requests with
  | some granted =>
    refine ⟨⟨taken, ledger.filled, ledger.trdySeen, ledger.dctsSeen⟩, ?_, ?_, ready⟩
    · apply next_reply _ replies
      rw [reply]
      rfl
    · exact ⟨granted.val, rfl, rfl, rfl, rfl, Nat.zero_le _, by simp, rfl⟩
  | none =>
    refine ⟨⟨taken, ledger.filled, ledger.trdySeen, ledger.dctsSeen⟩, ?_, ?_, ready⟩
    · apply next_reply _ replies
      rw [reply]
      rfl
    · exact ⟨rfl, rfl, rfl⟩

/- One turn of the receiving loop, by what its status read finds. -/

theorem turn_char {env : Env} {s : Dsr} {c : RxChar} {rest : List RxChar}
    (receiving : s.phase = .receive) (space : s.spaceAvail > 0)
    (found : waiting env s = c :: rest) :
    turn env s =
      let s' := (readData (readStatus env s).2).2
      if c.pe || c.fe then s'
      else
        { s' with
          current := { s'.current with stored := s'.current.stored ++ [(c.byte, s'.space)] }
          space := s'.space + 1
          spaceAvail := s'.spaceAvail - 1 } := by
  have ready : (readStatus env s).1.rrdy = true := by
    rw [status_rrdy, found]
    rfl
  have errors : ((readStatus env s).1.pe || (readStatus env s).1.fe) = (c.pe || c.fe) := by
    show ((waiting env s).head?.any RxChar.pe || (waiting env s).head?.any RxChar.fe) = _
    rw [found]
    rfl
  have data : (readData (readStatus env s).2).1 = c.byte := by
    show (waiting env s).head?.elim 0 RxChar.byte = _
    rw [found]
    rfl
  simp only [turn, receiving, if_pos space, ready, if_true, errors, data]

theorem turn_idle {env : Env} {s : Dsr} (receiving : s.phase = .receive) (space : s.spaceAvail > 0)
    (found : waiting env s = []) :
    turn env s = { dataRcvDone (readStatus env s).2 with phase := .xmit } := by
  have empty : (readStatus env s).1.rrdy = false := by
    rw [status_rrdy, found]
    rfl
  simp only [turn, receiving, if_pos space, empty, Bool.false_eq_true, if_false]

theorem turn_full {env : Env} {s : Dsr} (receiving : s.phase = .receive)
    (full : ¬ s.spaceAvail > 0) :
    turn env s = { dataRcvDone s with
      phase := .request
      finished := s.finished ++ [(dataRcvDone s).current]
      current := blank } := by
  simp only [turn, receiving, if_neg full]
  rfl

theorem turn_drop {env : Env} {s : Dsr} (dropping : s.phase = .drop) :
    turn env s =
      if (waiting env s).isEmpty then { (readStatus env s).2 with phase := .xmit }
      else (readData (readStatus env s).2).2 := by
  by_cases empty : (waiting env s).isEmpty = true
  · rw [if_pos empty]
    simp only [turn, dropping, status_rrdy, empty]
    rfl
  · rw [if_neg empty]
    have found : (waiting env s).isEmpty = false := by simpa using empty
    simp only [turn, dropping, status_rrdy, found]
    rfl

theorem inv_char {env : Env} {s : Dsr} {c : RxChar} {rest : List RxChar} (inv : Inv env s)
    (receiving : s.phase = .receive) (space : s.spaceAvail > 0)
    (found : waiting env s = c :: rest) : Inv env (turn env s) := by
  obtain ⟨ledger, replies, progress, ready⟩ := inv
  have running : s.phase ≠ .xmit := by
    rw [receiving]
    decide
  have ready' := @ready_char env s (readData (readStatus env s).2).2 c rest ready running found
    running rfl
  have ledger' := ledger_data (ledger_status ledger)
  rw [begun, if_neg (by rw [receiving]; decide)] at replies
  rw [Progress, receiving] at progress
  obtain ⟨size, reply, stored, num, position, within, avail, dones⟩ := progress
  have took : (readData (readStatus env s).2).2.current.chars = s.current.chars ++ [c] := by
    show s.current.chars ++ (waiting env s).head?.toList = _
    rw [found]
    rfl
  rw [turn_char receiving space found]
  dsimp only
  by_cases bad : (c.pe || c.fe) = true
  · rw [if_pos bad]
    refine ⟨ledger', ?_, ?_, ready'⟩
    · exact begun_replies s (show s.phase ≠ .request by rw [receiving]; decide) rfl rfl replies
    · rw [Progress, show (readData (readStatus env s).2).2.phase = .receive from receiving]
      refine ⟨size, reply, ?_, num, position, within, avail, dones⟩
      rw [took, accepted_append, accepted_bad bad, List.append_nil]
      exact stored
  · rw [if_neg bad]
    have good : (c.pe || c.fe) = false := by simpa using bad
    refine ⟨⟨ledger'.taken, ledger'.filled, ledger'.trdySeen, ledger'.dctsSeen⟩, ?_, ?_, ready'⟩
    · exact begun_replies s (show s.phase ≠ .request by rw [receiving]; decide) rfl rfl replies
    · rw [Progress, show (readData (readStatus env s).2).2.phase = .receive from receiving]
      have position' : s.space = (accepted s.current.chars).length := by
        rw [position, stored, List.length_zipIdx]
      refine ⟨size, reply, ?_, num, ?_, ?_, ?_, dones⟩
      · show s.current.stored ++ [(c.byte, s.space)] =
          (accepted (readData (readStatus env s).2).2.current.chars).zipIdx
        rw [took, accepted_append, accepted_good good, List.zipIdx_append, stored, position']
        simp
      · show s.space + 1 = (s.current.stored ++ [(c.byte, s.space)]).length
        rw [List.length_append, position, List.length_singleton]
      · show s.space + 1 ≤ size
        omega
      · show s.spaceAvail - 1 = size - ((s.space + 1 : Nat) : Int)
        omega

theorem done_reports {s : Dsr} {size : Nat} (num : s.num = size)
    (position : s.space = s.current.stored.length) (avail : s.spaceAvail = size - s.space)
    (dones : s.current.dones = []) :
    (dataRcvDone s).current.dones = [(s.current.stored.length : Int)] := by
  have count : s.num - s.spaceAvail = s.current.stored.length := by omega
  show s.current.dones ++ [s.num - s.spaceAvail] = _
  rw [dones, count, List.nil_append]

theorem inv_idle {env : Env} {s : Dsr} (inv : Inv env s) (receiving : s.phase = .receive)
    (space : s.spaceAvail > 0) (found : waiting env s = []) : Inv env (turn env s) := by
  obtain ⟨ledger, replies, progress, ready⟩ := inv
  have running : s.phase ≠ .xmit := by
    rw [receiving]
    decide
  have ledger' := ledger_status ledger
  rw [begun, if_neg (by rw [receiving]; decide)] at replies
  rw [Progress, receiving] at progress
  obtain ⟨size, reply, stored, num, position, within, avail, dones⟩ := progress
  rw [turn_idle receiving space found]
  refine ⟨⟨ledger'.taken, ledger'.filled, ledger'.trdySeen, ledger'.dctsSeen⟩, ?_, ?_, ?_⟩
  · exact begun_replies s (by dsimp only; decide) rfl rfl replies
  · refine ⟨?_, found⟩
    show Accounted { s.current with dones := s.current.dones ++ [s.num - s.spaceAvail] }
    rw [Accounted, reply]
    refine ⟨stored, ?_, done_reports num position avail dones⟩
    rw [← position]
    exact within
  · exact ready_idle ready running found rfl rfl

theorem inv_full {env : Env} {s : Dsr} (inv : Inv env s) (receiving : s.phase = .receive)
    (full : ¬ s.spaceAvail > 0) : Inv env (turn env s) := by
  obtain ⟨ledger, replies, progress, ready⟩ := inv
  rw [begun, if_neg (by rw [receiving]; decide)] at replies
  rw [Ready, if_neg (by rw [receiving]; decide)] at ready
  rw [Progress, receiving] at progress
  obtain ⟨size, reply, stored, num, position, within, avail, dones⟩ := progress
  rw [turn_full receiving full]
  refine ⟨⟨?_, ?_, ledger.trdySeen, ledger.dctsSeen⟩, ?_, rfl, ready⟩
  · show (s.finished ++ [(dataRcvDone s).current]).flatMap Round.chars ++ [] ++ s.device.pending =
      (env.arrivals.take s.device.reads).flatten
    rw [← ledger.taken, List.flatMap_append, List.append_nil]
    simp [dataRcvDone]
  · intro round there
    rcases List.mem_append.mp there with earlier | this
    · exact ledger.filled round earlier
    · cases List.mem_singleton.mp this
      refine ⟨size, reply, stored, ?_, done_reports num position avail dones⟩
      show s.current.stored.length = size
      omega
  · show (s.finished ++ [(dataRcvDone s).current]).map Round.reply =
      (List.range s.requests).map (fun i => (env.replies i).map Subtype.val)
    rw [← replies, List.map_append, List.map_append]
    rfl

theorem inv_drop {env : Env} {s : Dsr} (inv : Inv env s) (dropping : s.phase = .drop) :
    Inv env (turn env s) := by
  obtain ⟨ledger, replies, progress, ready⟩ := inv
  have running : s.phase ≠ .xmit := by
    rw [dropping]
    decide
  rw [begun, if_neg (by rw [dropping]; decide)] at replies
  rw [Progress, dropping] at progress
  obtain ⟨reply, stored, dones⟩ := progress
  rw [turn_drop dropping]
  cases found : waiting env s with
  | nil =>
    have ledger' := ledger_status ledger
    rw [List.isEmpty_nil, if_pos rfl]
    refine ⟨⟨ledger'.taken, ledger'.filled, ledger'.trdySeen, ledger'.dctsSeen⟩, ?_, ?_, ?_⟩
    · exact begun_replies s (by dsimp only; decide) rfl rfl replies
    · refine ⟨?_, found⟩
      show Accounted s.current
      rw [Accounted, reply]
      exact ⟨stored, dones⟩
    · exact ready_idle ready running found rfl rfl
  | cons c rest =>
    rw [List.isEmpty_cons, if_neg Bool.false_ne_true]
    refine ⟨ledger_data (ledger_status ledger), ?_, ?_, ?_⟩
    · exact begun_replies s (show s.phase ≠ .request by rw [dropping]; decide) rfl rfl replies
    · rw [Progress, show (readData (readStatus env s).2).2.phase = .drop from dropping]
      exact ⟨reply, stored, dones⟩
    · exact ready_char ready running found running rfl

theorem inv_turn {env : Env} {s : Dsr} (inv : Inv env s) : Inv env (turn env s) := by
  cases here : s.phase with
  | request =>
    have same : turn env s = dataRcvReq env s := by simp only [turn, here]
    rw [same]
    exact inv_request inv here
  | receive =>
    by_cases space : s.spaceAvail > 0
    · cases found : waiting env s with
      | nil => exact inv_idle inv here space found
      | cons c rest => exact inv_char inv here space found
    · exact inv_full inv here space
  | drop => exact inv_drop inv here
  | xmit =>
    have same : turn env s = s := by simp only [turn, here]
    rw [same]
    exact inv

structure Paced (env : Env) (s : Dsr) : Prop where
  read : s.statuses = (List.range s.device.reads).map (statusAt env)
  taken : s.phase ≠ .xmit →
    (s.finished.flatMap Round.chars ++ s.current.chars).length = s.device.reads

theorem waiting_at {env : Env} {s : Dsr} (ledger : Ledger env s) (paced : Paced env s)
    (running : s.phase ≠ .xmit) : waiting env s = waitingAt env s.device.reads := by
  rw [waitingAt, flatten_take_succ, ← ledger.taken, List.append_assoc,
    List.drop_left' (paced.taken running)]
  rfl

theorem read_logged {env : Env} {s s' : Dsr} (ledger : Ledger env s) (paced : Paced env s)
    (running : s.phase ≠ .xmit) (logged : s'.statuses = s.statuses ++ [(readStatus env s).1])
    (reads : s'.device.reads = s.device.reads + 1) :
    s'.statuses = (List.range s'.device.reads).map (statusAt env) := by
  have status : (readStatus env s).1 = statusAt env s.device.reads := by
    rw [statusAt, ← waiting_at ledger paced running]
    rfl
  rw [logged, reads, paced.read, status, List.range_succ, List.map_append, List.map_singleton]

theorem char_paced {env : Env} {s s' : Dsr} {c : RxChar} {rest : List RxChar}
    (ledger : Ledger env s) (paced : Paced env s) (running : s.phase ≠ .xmit)
    (found : waiting env s = c :: rest)
    (logged : s'.statuses = s.statuses ++ [(readStatus env s).1])
    (reads : s'.device.reads = s.device.reads + 1) (finished : s'.finished = s.finished)
    (chars : s'.current.chars = s.current.chars ++ (waiting env s).head?.toList) :
    Paced env s' := by
  refine ⟨read_logged ledger paced running logged reads, fun _ => ?_⟩
  have before := paced.taken running
  rw [finished, chars, found, reads, ← List.append_assoc, List.length_append, before]
  rfl

theorem paced_turn {env : Env} {s : Dsr} (inv : Inv env s) (paced : Paced env s) :
    Paced env (turn env s) := by
  obtain ⟨ledger, -, progress, -⟩ := inv
  cases here : s.phase with
  | request =>
    have before := paced.taken (by rw [here]; decide)
    rw [Progress, here] at progress
    rw [progress] at before
    simp only [turn, here, dataRcvReq]
    split
    · exact ⟨paced.read, fun _ => before⟩
    · exact ⟨paced.read, fun _ => before⟩
  | receive =>
    have running : s.phase ≠ .xmit := by
      rw [here]
      decide
    by_cases space : s.spaceAvail > 0
    · cases found : waiting env s with
      | nil =>
        rw [turn_idle here space found]
        exact ⟨read_logged ledger paced running rfl rfl, fun off => absurd rfl off⟩
      | cons c rest =>
        rw [turn_char here space found]
        dsimp only
        split
        · exact char_paced ledger paced running found rfl rfl rfl rfl
        · exact char_paced ledger paced running found rfl rfl rfl rfl
    · rw [turn_full here space]
      refine ⟨paced.read, fun _ => ?_⟩
      have before := paced.taken running
      simpa [dataRcvDone, blank] using before
  | drop =>
    have running : s.phase ≠ .xmit := by
      rw [here]
      decide
    rw [turn_drop here]
    cases found : waiting env s with
    | nil =>
      rw [List.isEmpty_nil, if_pos rfl]
      exact ⟨read_logged ledger paced running rfl rfl, fun off => absurd rfl off⟩
    | cons c rest =>
      rw [List.isEmpty_cons, if_neg Bool.false_ne_true]
      exact char_paced ledger paced running found rfl rfl rfl rfl
  | xmit =>
    have same : turn env s = s := by simp only [turn, here]
    rw [same]
    exact paced

def remaining (env : Env) (s : Dsr) : Nat :=
  s.device.pending.length + (env.arrivals.drop s.device.reads).flatten.length

/-- Every turn takes a character or comes closer to one. -/
def variant (env : Env) (s : Dsr) : Nat :=
  3 * remaining env s +
    match s.phase with
    | .request => 2
    | .receive => if s.spaceAvail > 0 then 1 else 3
    | .drop => 1
    | .xmit => 0

theorem flatten_drop_length (lists : List (List RxChar)) (n : Nat) :
    (lists.drop n).flatten.length =
      (lists.getD n []).length + (lists.drop (n + 1)).flatten.length := by
  rw [List.getD_eq_getElem?_getD]
  by_cases inside : n < lists.length
  · rw [List.drop_eq_getElem_cons inside, List.flatten_cons, List.length_append,
      List.getElem?_eq_getElem inside, Option.getD_some]
  · rw [List.drop_eq_nil_of_le (by omega), List.drop_eq_nil_of_le (by omega),
      List.getElem?_eq_none (by omega)]
    rfl

theorem remaining_status (env : Env) (s : Dsr) :
    remaining env (readStatus env s).2 = remaining env s := by
  show (waiting env s).length + (env.arrivals.drop (s.device.reads + 1)).flatten.length = _
  rw [remaining, flatten_drop_length env.arrivals s.device.reads, waiting, List.length_append,
    Nat.add_assoc]

theorem remaining_data {env : Env} {s : Dsr} {c : RxChar} {rest : List RxChar}
    (found : s.device.pending = c :: rest) :
    remaining env (readData s).2 + 1 = remaining env s := by
  show s.device.pending.tail.length + (env.arrivals.drop s.device.reads).flatten.length + 1 = _
  rw [remaining, found, List.tail_cons, List.length_cons]
  omega

theorem remaining_char {env : Env} {s : Dsr} {c : RxChar} {rest : List RxChar}
    (found : waiting env s = c :: rest) :
    remaining env (readData (readStatus env s).2).2 + 1 = remaining env s := by
  rw [← remaining_status env s]
  exact remaining_data found

/- One turn of each phase lowers the variant. -/

theorem request_lowers {env : Env} {s : Dsr} (here : s.phase = .request) :
    variant env (turn env s) < variant env s := by
  simp only [turn, here, dataRcvReq]
  cases env.replies s.requests with
  | some granted =>
    have positive : ((granted.val : Nat) : Int) > 0 := by
      have size := granted.property
      omega
    show 3 * remaining env s + (if ((granted.val : Nat) : Int) > 0 then 1 else 3) < variant env s
    rw [if_pos positive, variant, here]
    dsimp only
    omega
  | none =>
    show 3 * remaining env s + 1 < variant env s
    rw [variant, here]
    dsimp only
    omega

theorem char_lowers {env : Env} {s s' : Dsr} (before : variant env s = 3 * remaining env s + 1)
    (receiving : s'.phase = .receive) (fewer : remaining env s' + 1 = remaining env s) :
    variant env s' < variant env s := by
  rw [before, variant, receiving]
  dsimp only
  split
  · omega
  · omega

theorem receive_lowers {env : Env} {s : Dsr} (here : s.phase = .receive) :
    variant env (turn env s) < variant env s := by
  by_cases space : s.spaceAvail > 0
  · have before : variant env s = 3 * remaining env s + 1 := by
      rw [variant, here]
      dsimp only
      rw [if_pos space]
    cases found : waiting env s with
    | nil =>
      rw [turn_idle here space found, before]
      have same := remaining_status env s
      show 3 * remaining env (readStatus env s).2 + 0 < _
      omega
    | cons c rest =>
      rw [turn_char here space found]
      dsimp only
      split
      · exact char_lowers before here (remaining_char found)
      · exact char_lowers before here (remaining_char found)
  · rw [turn_full here space, variant, variant, here]
    dsimp only
    rw [if_neg space]
    show 3 * remaining env s + 2 < _
    omega

theorem drop_lowers {env : Env} {s : Dsr} (here : s.phase = .drop) :
    variant env (turn env s) < variant env s := by
  have before : variant env s = 3 * remaining env s + 1 := by
    rw [variant, here]
  rw [before, turn_drop here]
  cases found : waiting env s with
  | nil =>
    have same := remaining_status env s
    show 3 * remaining env (readStatus env s).2 + 0 < _
    omega
  | cons c rest =>
    have fewer := remaining_char found
    rw [List.isEmpty_cons, if_neg Bool.false_ne_true, variant,
      show (readData (readStatus env s).2).2.phase = .drop from here]
    dsimp only
    omega

theorem turn_lowers {env : Env} {s : Dsr} (on : running s = true) :
    variant env (turn env s) < variant env s := by
  cases here : s.phase with
  | request => exact request_lowers here
  | receive => exact receive_lowers here
  | drop => exact drop_lowers here
  | xmit => exact absurd here (of_decide_eq_true on)

structure Received (env : Env) (r : Dsr) : Prop where
  read : r.statuses = (List.range r.device.reads).map (statusAt env)
  taken : (rounds r).flatMap Round.chars = (env.arrivals.take r.device.reads).flatten
  replies : (rounds r).map Round.reply =
    (List.range r.requests).map (fun i => (env.replies i).map Subtype.val)
  accounted : ∀ round, round ∈ rounds r → Accounted round
  filled : ∀ round, round ∈ r.finished → Filled round
  stopped : ∃ front last, r.statuses = front ++ [last] ∧ (∀ st, st ∈ front → st.rrdy = true) ∧
    last.rrdy = false
  nothingPending : r.device.pending = []
  xmtChar : xmtChars r =
    if ∃ i, i < r.device.reads ∧ ((env.lines i).1 = true ∨ (env.lines i).2 = true) then 1 else 0

theorem filled_accounted {round : Round} (filled : Filled round) : Accounted round := by
  obtain ⟨size, reply, stored, full, dones⟩ := filled
  rw [Accounted, reply]
  exact ⟨stored, Nat.le_of_eq full, dones⟩

theorem inv_received {env : Env} {r : Dsr} (inv : Inv env r) (paced : Paced env r)
    (done : r.phase = .xmit) : Received env r := by
  obtain ⟨ledger, replies, progress, ready⟩ := inv
  rw [begun, if_neg (by rw [done]; decide)] at replies
  rw [Progress, done] at progress
  obtain ⟨accounted, empty⟩ := progress
  rw [Ready, if_pos done] at ready
  have taken := ledger.taken
  rw [empty, List.append_nil] at taken
  refine ⟨paced.read, ?_, replies, ?_, ledger.filled, ready, empty, ?_⟩
  · rw [rounds, List.flatMap_append, ← taken]
    simp
  · intro round there
    rcases List.mem_append.mp there with earlier | last
    · exact filled_accounted (ledger.filled round earlier)
    · cases List.mem_singleton.mp last
      exact accounted
  · have seen : (r.saveStatus.trdy || r.saveStatus.dcts) = true ↔
        ∃ i, i < r.device.reads ∧ ((env.lines i).1 = true ∨ (env.lines i).2 = true) := by
      rw [ledger.trdySeen, ledger.dctsSeen]
      simp only [Bool.or_eq_true, List.any_eq_true, List.mem_range, and_or_left, exists_or]
    simp only [xmtChars, seen]

/-- For all arrivals and replies the call returns, with every good character of a granted
    round in its buffer and reported once. -/
theorem uart_dsr_receives (env : Env) : ∃ r, Dsrs env r ∧ Received env r := by
  have started : Inv env start ∧ Paced env start := ⟨inv_start env, rfl, fun _ => rfl⟩
  have kept : ∀ s, Inv env s ∧ Paced env s → running s = true →
      Inv env (turn env s) ∧ Paced env (turn env s) := fun _ both _ =>
    ⟨inv_turn both.1, paced_turn both.1 both.2⟩
  obtain ⟨r, returns⟩ := WhileLoop.returns_variant (variant env) _ kept
    (fun _ _ on => turn_lowers on) started
  obtain ⟨⟨inv, paced⟩, off⟩ := WhileLoop.returns_invariant _ kept started returns
  have done : r.phase = .xmit := by simpa [running] using off
  exact ⟨r, returns, inv_received inv paced done⟩

end Uart
