import Nios2Ecos.EthDeliver

/- Whole frames at the receiver, one after the other. -/
namespace EthDeliverRun
open EthCrc EthReceive EthDeliver
open EthSend (nibbles)
open EthTransmit (latch)

variable {cfg : Config} {inp : Inputs} {sys : System} {earlier : List Received}
variable {bytes : List Byte} {nib : BitVec 4}

/- The end of a frame. -/

structure Ending (mac : State) (r : Reader) (earlier : List Received) (item : Received) :
    Prop where
  now : In .idle mac
  dly : mac.dlyCrcCnt = 0#4
  ifg : mac.iFGCounter = 0#5
  valid_d : mac.rxValid_d = true
  start_d : mac.rxStartFrm_d = false
  end_d : mac.rxEndFrm_d = true
  valid : mac.rxValid = false
  end_ : mac.rxEndFrm = false
  load : mac.loadRxStatus = true
  abort : mac.rxAbort = false
  bytes : r.bytes ++ [mac.rxData_d] = item.bytes
  aborted : r.aborted = item.aborted
  status : statusNow mac = item.status
  received : r.received = earlier

structure Last (cfg : Config) (mac : State) (r : Reader) (earlier : List Received)
    (item : Received) (count : Nat) : Prop where
  now : In .idle mac
  dly : mac.dlyCrcCnt = 0#4
  counts : Counts cfg mac count
  valid_d : mac.rxValid_d = false
  start_d : mac.rxStartFrm_d = false
  end_d : mac.rxEndFrm_d = false
  valid : mac.rxValid = true
  end_ : mac.rxEndFrm = true
  load : mac.loadRxStatus = true ∨
    mac.shortFrame = false ∧ mac.receivedPacketTooBig = false
  out : (record r mac).received = earlier ++ [item]

/-- Between the frames. -/
structure Resting (cfg : Config) (sys : System) (earlier : List Received) (count : Nat) :
    Prop where
  now : In .idle sys.mac
  clear : Clear sys.mac
  counts : Counts cfg sys.mac count
  received : sys.reader.received = earlier

variable {item : Received} {count : Nat}

theorem last_step (plain : cfg.dlyCrcEn = false)
    (last : Last cfg sys.mac sys.reader earlier item count) (wired : onWire inp = none) :
    Resting cfg (clock cfg sys inp) (earlier ++ [item]) (count + 1) := by
  have off : inp.mRxDV = false := by simpa [onWire] using wired
  have now := last.now
  have later : In (nextPhase cfg inp sys.mac .idle) (step cfg inp sys.mac) := in_step now
  have stays : nextPhase cfg inp sys.mac .idle = .idle := by simp [nextPhase, off]
  rw [stays] at later
  have no_data : stateData sys.mac = false := by simp [stateData, now.data0, now.data1]
  refine ⟨later, ?_, ?_, last.out⟩
  · constructor <;>
      simp [clock, step, generateRxValid, generateRxStartFrm, generateRxEndFrm, dribbleRxEndFrm,
        takeSample, no_data, now.data0, now.data1, last.dly, last.valid_d, last.start_d,
        last.end_d, last.end_, plain]
    · rcases last.load with load | clean
      · simp [load]
      · simp [clean.1]
    · rcases last.load with load | clean
      · simp [load]
      · simp [clean.2]
  · refine counts_step last.counts ?_ ?_
    · simp [now.idle]
    · simp [resetIFGCounter, now.sFD, now.drop]

theorem idle_stays (now : In .idle sys.mac) (off : inp.mRxDV = false) :
    In .idle (step cfg inp sys.mac) := by
  have later : In (nextPhase cfg inp sys.mac .idle) (step cfg inp sys.mac) := in_step now
  have stays : nextPhase cfg inp sys.mac .idle = .idle := by simp [nextPhase, off]
  rwa [stays] at later

theorem ending_step (plain : cfg.dlyCrcEn = false)
    (ending : Ending sys.mac sys.reader earlier item) (wired : onWire inp = none) :
    Last cfg (clock cfg sys inp).mac (clock cfg sys inp).reader earlier item 1 := by
  have off : inp.mRxDV = false := by simpa [onWire] using wired
  have now := ending.now
  have no_data : stateData sys.mac = false := by simp [stateData, now.data0, now.data1]
  have counts : Counts cfg sys.mac 0 := by
    intro _
    simp [ending.ifg]
  have valid : (step cfg inp sys.mac).rxValid = true := by simp [step, ending.valid_d]
  have start : (step cfg inp sys.mac).rxStartFrm = false := by simp [step, ending.start_d]
  have end_ : (step cfg inp sys.mac).rxEndFrm = true := by simp [step, ending.end_d]
  have abort : (step cfg inp sys.mac).rxAbort = false := by simp [step, no_data]
  have load : (step cfg inp sys.mac).loadRxStatus = false := by
    simp [step, takeSample, no_data, now.data0]
  have data : (step cfg inp sys.mac).rxData = sys.mac.rxData_d := rfl
  refine ⟨idle_stays now off, ?_, ?_, ?_, ?_, ?_, valid, end_, ?_, ?_⟩
  · simp [clock, step, ending.dly, plain]
  · refine counts_step counts ?_ ?_
    · simp [now.idle]
    · simp [resetIFGCounter, now.sFD, now.drop]
  · simp [clock, step, generateRxValid, now.data0]
  · simp [clock, step, generateRxStartFrm, now.data0]
  · simp [clock, step, generateRxEndFrm, now.data0]
  · simp [clock, step, takeSample, no_data, now.data0, ending.load]
  · have bytes := ending.bytes
    have aborted := ending.aborted
    have status := ending.status
    cases item
    simp only [clock, record, readBytes, readAborted, readStatus, valid, start, end_, abort, load,
      data, ending.valid, ending.end_, ending.abort, ending.load, ending.received]
    simp
    exact ⟨bytes, aborted, status⟩

theorem byteAt_end (bytes : List Byte) (some_byte : 1 ≤ bytes.length) :
    bytes.take (bytes.length - 1) ++ [byteAt bytes (bytes.length - 1)] = bytes := by
  rw [take_next bytes (by omega), Nat.sub_add_cancel some_byte, List.take_length]

theorem low_end (plain : cfg.dlyCrcEn = false) (within : Within cfg sys earlier bytes)
    (long : 8 ≤ bytes.length) (room : cfg.hugEn = true ∨ bytes.length ≤ cfg.maxFL.toNat)
    (wired : onWire inp = none) :
    Ending (clock cfg sys inp).mac (clock cfg sys inp).reader earlier
      (resultOf cfg bytes false) := by
  have off : inp.mRxDV = false := by simpa [onWire] using wired
  obtain ⟨low, pipe, address⟩ := within
  have now := low.now
  have later : In (nextPhase cfg inp sys.mac .data0) (step cfg inp sys.mac) := in_step now
  have to_idle : nextPhase cfg inp sys.mac .data0 = .idle := by simp [nextPhase, off]
  rw [to_idle] at later
  have data : stateData sys.mac = true := by simp [stateData, now.data0]
  have is7 : (sys.mac.byteCnt == 7#16) = false := by
    rw [count_eq low.byteCnt 7 (by decide), decide_eq_false_iff_not]
    omega
  have great : byteCntGreat2 sys.mac = true := by
    simp [byteCntGreat2, BitVec.ult, low.byteCnt]
    omega
  have not_big : cfg.hugEn = false → bytes.length ≤ cfg.maxFL.toNat := by
    intro plain_length
    rcases room with huge | fits
    · rw [huge] at plain_length
      cases plain_length
    · exact fits
  have valid : generateRxValid sys.mac = true := by
    rw [low_valid low, decide_eq_true (by omega)]
  have some_bytes : sys.mac.byteCnt ≠ 0#16 := by
    intro zero
    have value := low.byteCnt
    rw [zero] at value
    simp at value
    omega
  have started : decide (bytes.length = 1) = false := by
    simp
    omega
  refine ⟨later, ?_, ?_, ?_, ?_, ?_, ?_, ?_, ?_, ?_, ?_, ?_, ?_, ?_⟩
  · simp [clock, step, low.dly, plain]
  · simp [clock, step, resetIFGCounter, incrementIFGCounter, now.sFD, now.drop, now.idle,
      now.preamble, low.ifg]
  · exact valid
  · simp [clock, step, low_start low plain, started]
  · simp [clock, step, generateRxEndFrm, now.data0, off, great]
  · simp [clock, step, pipe.valid_d]
  · simp [clock, step, pipe.end_d, dribbleRxEndFrm, now.data1]
  · simp [clock, step, takeSample, data, off]
  · simp [clock, step, is7]
  · have bytes_now := pipe.out (by omega)
    have data_next : (step cfg inp sys.mac).rxData_d = byteAt bytes (bytes.length - 1) := by
      simp [step, valid, data, low.latched (by omega)]
    have joined := byteAt_end bytes (by omega)
    simp only [clock, record, bytes_now, data_next, joined, resultOf]
  · have aborted := address.out (by omega)
    simp [clock, record, aborted, resultOf, long]
  · simp [clock, statusNow, step, takeSample, latch, data, off, now.sFD, now.data0, now.data1,
      low.load, low.crc, low.dribble, some_bytes, byteCntOut, plain, resultOf, BitVec.ult,
      low.byteCnt]
    exact not_big
  · simp [clock, record, pipe.end_, pipe.received]

/-- A nibble too many ends the frame at once. -/
theorem high_end (plain : cfg.dlyCrcEn = false) (half : Half cfg sys earlier bytes nib)
    (long : 8 ≤ bytes.length) (room : cfg.hugEn = true ∨ bytes.length ≤ cfg.maxFL.toNat)
    (wired : onWire inp = none) :
    Last cfg (clock cfg sys inp).mac (clock cfg sys inp).reader earlier
      (resultOf cfg bytes true) 0 := by
  have off : inp.mRxDV = false := by simpa [onWire] using wired
  obtain ⟨high, pipe, address⟩ := half
  have now := high.now
  have later : In (nextPhase cfg inp sys.mac .data1) (step cfg inp sys.mac) := in_step now
  have to_idle : nextPhase cfg inp sys.mac .data1 = .idle := by simp [nextPhase, off]
  rw [to_idle] at later
  have data : stateData sys.mac = true := by simp [stateData, now.data1]
  have is7 : (sys.mac.byteCnt == 7#16) = false := by
    rw [count_eq high.byteCnt 7 (by decide), decide_eq_false_iff_not]
    omega
  have great : byteCntGreat2 sys.mac = true := by
    simp [byteCntGreat2, BitVec.ult, high.byteCnt]
    omega
  have not_big : cfg.hugEn = false → bytes.length ≤ cfg.maxFL.toNat := by
    intro plain_length
    rcases room with huge | fits
    · rw [huge] at plain_length
      cases plain_length
    · exact fits
  have not_one : bytes.length ≠ 1 := by omega
  have valid : (step cfg inp sys.mac).rxValid = true := by
    simp [step, pipe.valid_d]
    omega
  have start : (step cfg inp sys.mac).rxStartFrm = false := by
    simp [step, pipe.start_d, not_one]
  have end_ : (step cfg inp sys.mac).rxEndFrm = true := by
    simp [step, dribbleRxEndFrm, now.data1, off, great]
  have abort : (step cfg inp sys.mac).rxAbort = false := by simp [step, is7]
  have load : (step cfg inp sys.mac).loadRxStatus = true := by
    simp [step, takeSample, data, off]
  have byte : (step cfg inp sys.mac).rxData = byteAt bytes (bytes.length - 1) :=
    pipe.data_d (by omega)
  have status : statusNow (step cfg inp sys.mac) = (resultOf cfg bytes true).status := by
    simp [statusNow, step, takeSample, latch, data, off, now.sFD, now.data0, now.data1, high.load,
      high.error (by omega), byteCntOut, plain, resultOf, BitVec.ult, high.byteCnt]
    exact not_big
  refine ⟨later, ?_, ?_, ?_, ?_, ?_, valid, end_, .inl load, ?_⟩
  · simp [clock, step, high.dly, plain]
  · intro _
    simp [clock, step, resetIFGCounter, incrementIFGCounter, now.sFD, now.drop, now.idle,
      now.preamble, high.ifg]
  · simp [clock, step, generateRxValid, now.data0]
  · simp [clock, step, generateRxStartFrm, now.data0]
  · simp [clock, step, generateRxEndFrm, now.data0]
  · have bytes_now := pipe.out (by omega)
    have aborted : readAborted sys.reader sys.mac = !accepts cfg bytes := address.late long
    have joined := byteAt_end bytes (by omega)
    simp only [clock, record, readBytes, readAborted, readStatus, valid, start, end_, abort, load,
      byte, pipe.valid, pipe.end_, pipe.received, status]
    simp only [readAborted, pipe.valid, Bool.false_and, Bool.not_false, Bool.and_true] at aborted
    simp [bytes_now, joined, resultOf]
    exact aborted

/- The gap and the preamble. -/

theorem resting_step (plain : cfg.dlyCrcEn = false) (resting : Resting cfg sys earlier count)
    (wired : onWire inp = none) : Resting cfg (clock cfg sys inp) earlier (count + 1) := by
  have off : inp.mRxDV = false := by simpa [onWire] using wired
  have now := resting.now
  refine ⟨idle_stays now off, clear_step plain now.data0 now.data1 resting.clear, ?_, ?_⟩
  · refine counts_step resting.counts ?_ ?_
    · simp [now.idle]
    · simp [resetIFGCounter, now.sFD, now.drop]
  · exact (clear_record resting.clear).trans resting.received

theorem gap_run {n : Nat} {clocks : List Inputs} (plain : cfg.dlyCrcEn = false)
    (resting : Resting cfg sys earlier count)
    (wired : clocks.map onWire = List.replicate n none) :
    Resting cfg (clocks.foldl (clock cfg) sys) earlier (count + n) := by
  induction n generalizing sys count clocks with
  | zero =>
    have none_left : clocks = [] := List.map_eq_nil_iff.mp wired
    subst none_left
    exact resting
  | succ n ih =>
    rw [List.replicate_succ] at wired
    obtain ⟨inp, rest, rfl, wired_first, wired⟩ := List.map_eq_cons_iff.mp wired
    have later := ih (resting_step plain resting wired_first) wired
    rw [Nat.add_right_comm, Nat.add_assoc] at later
    exact later

structure Waiting (cfg : Config) (sys : System) (earlier : List Received) (count : Nat) :
    Prop where
  now : In .sFD sys.mac
  clear : Clear sys.mac
  counts : Counts cfg sys.mac count
  received : sys.reader.received = earlier

theorem first_five (plain : cfg.dlyCrcEn = false) (resting : Resting cfg sys earlier count)
    (listens : inp.transmitting = false) (wired : onWire inp = some 5#4) :
    Waiting cfg (clock cfg sys inp) earlier (count + 1) := by
  obtain ⟨on, five⟩ : inp.mRxDV = true ∧ inp.mRxD = 5#4 := by
    simpa [onWire] using wired
  have now := resting.now
  have later : In (nextPhase cfg inp sys.mac .idle) (step cfg inp sys.mac) := in_step now
  have to_sfd : nextPhase cfg inp sys.mac .idle = .sFD := by
    simp [nextPhase, on, listens, mRxDEq5, five]
  rw [to_sfd] at later
  refine ⟨later, clear_step plain now.data0 now.data1 resting.clear, ?_, ?_⟩
  · refine counts_step resting.counts ?_ ?_
    · simp [now.idle]
    · simp [resetIFGCounter, now.sFD, now.drop]
  · exact (clear_record resting.clear).trans resting.received

theorem waiting_step (plain : cfg.dlyCrcEn = false) (waiting : Waiting cfg sys earlier count)
    (wired : onWire inp = some 5#4) : Waiting cfg (clock cfg sys inp) earlier (count + 1) := by
  obtain ⟨on, five⟩ : inp.mRxDV = true ∧ inp.mRxD = 5#4 := by
    simpa [onWire] using wired
  have now := waiting.now
  have later : In (nextPhase cfg inp sys.mac .sFD) (step cfg inp sys.mac) := in_step now
  have stays : nextPhase cfg inp sys.mac .sFD = .sFD := by
    simp [nextPhase, on, mRxDEqD, five]
  rw [stays] at later
  refine ⟨later, clear_step plain now.data0 now.data1 waiting.clear, ?_, ?_⟩
  · refine counts_step waiting.counts ?_ ?_
    · simp [now.sFD]
    · simp [resetIFGCounter, now.drop, mRxDEqD, five]
  · exact (clear_record waiting.clear).trans waiting.received

theorem fives_run {n : Nat} {clocks : List Inputs} (plain : cfg.dlyCrcEn = false)
    (waiting : Waiting cfg sys earlier count)
    (wired : clocks.map onWire = List.replicate n (some 5#4)) :
    Waiting cfg (clocks.foldl (clock cfg) sys) earlier (count + n) := by
  induction n generalizing sys count clocks with
  | zero =>
    have none_left : clocks = [] := List.map_eq_nil_iff.mp wired
    subst none_left
    exact waiting
  | succ n ih =>
    rw [List.replicate_succ] at wired
    obtain ⟨inp, rest, rfl, wired_first, wired⟩ := List.map_eq_cons_iff.mp wired
    have later := ih (waiting_step plain waiting wired_first) wired
    rw [Nat.add_right_comm, Nat.add_assoc] at later
    exact later

theorem delimiter (plain : cfg.dlyCrcEn = false) (waiting : Waiting cfg sys earlier count)
    (long : cfg.r_IFG = true ∨ 24 ≤ count) (wired : onWire inp = some 0xD#4) :
    Within cfg (clock cfg sys inp) earlier [] := by
  obtain ⟨on, is_d⟩ : inp.mRxDV = true ∧ inp.mRxD = 0xD#4 := by
    simpa [onWire] using wired
  have now := waiting.now
  have enough : iFGCounterEq24 cfg sys.mac = true := by
    cases off : cfg.r_IFG with
    | true => simp [iFGCounterEq24, off]
    | false =>
      have count_long : 24 ≤ count := by
        rcases long with on | count_long
        · rw [on] at off
          cases off
        · exact count_long
      have value := waiting.counts off
      have is24 : sys.mac.iFGCounter = 0x18#5 := by
        apply BitVec.eq_of_toNat_eq
        rw [value]
        simp
        omega
      simp [iFGCounterEq24, is24]
  have later : In (nextPhase cfg inp sys.mac .sFD) (step cfg inp sys.mac) := in_step now
  have to_data0 : nextPhase cfg inp sys.mac .sFD = .data0 := by
    simp [nextPhase, on, mRxDEqD, is_d, enough]
  rw [to_data0] at later
  have clear : Clear (step cfg inp sys.mac) :=
    clear_step plain now.data0 now.data1 waiting.clear
  refine ⟨?_, ?_, ?_⟩
  · refine ⟨later, clear.dly, ?_, ?_, ?_, ?_, clear.load, clear.short, clear.big, ?_⟩
    · simp [clock, step, resetIFGCounter, now.sFD, on, mRxDEqD, is_d]
    · simp [clock, step, resetByteCounter, now.sFD, on, mRxDEqD, is_d]
    · simp [clock, step, crcStep, initialize_Crc, now.sFD, nibbles, crcRun]
    · intro one
      simp at one
    · simp [clock, step, latch, now.sFD]
  · refine ⟨?_, clear.valid_d, clear.start_d, clear.end_d, ?_, ?_, clear.end_, ?_, ?_, ?_, ?_⟩
    · simp [clock, step, now.data0]
    · exact clear.valid
    · exact clear.start
    · intro two
      simp at two
    · intro two
      simp at two
    · intro two
      simp at two
    · exact (clear_record waiting.clear).trans waiting.received
  · refine ⟨clear.hashGood, ?_, ?_, ?_, ?_, ?_, ?_⟩
    · intro two
      simp at two
    · intro _
      exact clear.multicast
    · intro _
      exact clear.multicastOK
    · intro three
      simp at three
    · exact clear.abort
    · intro two
      simp at two

theorem framed_parts (f : Sending) {n : Nat} (fives : f.fives = n + 1) :
    framed f = some 5#4 :: (List.replicate n (some 5#4) ++ some 0xD#4 ::
      ((nibbles f.bytes).map some ++
        (f.dribble.toList.map some ++ List.replicate f.gap none))) := by
  simp [framed, fives, List.replicate_succ]

/-- The end of a frame and the gap behind it. -/
theorem end_run {f : Sending} {clocks : List Inputs} (plain : cfg.dlyCrcEn = false)
    (within : Within cfg sys earlier f.bytes) (long : 8 ≤ f.bytes.length)
    (room : cfg.hugEn = true ∨ f.bytes.length + f.dribble.toList.length ≤ cfg.maxFL.toNat)
    (gap : 3 ≤ f.gap)
    (wired : clocks.map onWire = f.dribble.toList.map some ++ List.replicate f.gap none) :
    Resting cfg (clocks.foldl (clock cfg) sys) (earlier ++ [result cfg f]) (f.gap - 1) := by
  obtain ⟨n, gap_eq⟩ : ∃ n, f.gap = n + 3 := ⟨f.gap - 3, by omega⟩
  have three : List.replicate f.gap (none : Option (BitVec 4)) =
      none :: none :: none :: List.replicate n none := by
    rw [gap_eq]
    rfl
  rw [three] at wired
  have fits : cfg.hugEn = true ∨ f.bytes.length ≤ cfg.maxFL.toNat := by
    rcases room with huge | less
    · exact .inl huge
    · exact .inr (by omega)
  cases extra : f.dribble with
  | none =>
    rw [extra] at wired
    obtain ⟨first, _, rfl, wired_first, wired⟩ := List.map_eq_cons_iff.mp wired
    obtain ⟨second, _, rfl, wired_second, wired⟩ := List.map_eq_cons_iff.mp wired
    obtain ⟨third, rest, rfl, wired_third, wired⟩ := List.map_eq_cons_iff.mp wired
    have ending := low_end plain within long fits wired_first
    have last := ending_step plain ending wired_second
    have resting := last_step plain last wired_third
    have later := gap_run plain resting wired
    have count : 1 + 1 + n = f.gap - 1 := by omega
    rw [count] at later
    rw [result, extra]
    exact later
  | some nib =>
    rw [extra] at wired room
    obtain ⟨dribble, _, rfl, wired_dribble, wired⟩ := List.map_eq_cons_iff.mp wired
    obtain ⟨first, _, rfl, wired_first, wired⟩ := List.map_eq_cons_iff.mp wired
    obtain ⟨second, _, rfl, wired_second, wired⟩ := List.map_eq_cons_iff.mp wired
    obtain ⟨third, rest, rfl, wired_third, wired⟩ := List.map_eq_cons_iff.mp wired
    have room_here : cfg.hugEn = true ∨ f.bytes.length < cfg.maxFL.toNat := by
      rcases room with huge | less
      · exact .inl huge
      · exact .inr less
    have half := half_clock plain within room_here wired_dribble
    have last := high_end plain half long fits wired_first
    have resting := last_step plain last wired_second
    have later := gap_run plain (resting_step plain resting wired_third) wired
    have count : 0 + 1 + 1 + n = f.gap - 1 := by omega
    rw [count] at later
    rw [result, extra]
    exact later

theorem frame_run {f : Sending} {frames : List Sending} {clocks : List Inputs}
    (plain : cfg.dlyCrcEn = false) (resting : Resting cfg sys earlier count)
    (spaced : Spaced cfg count (f :: frames))
    (listens : ∀ inp ∈ clocks, inp.transmitting = false)
    (wired : clocks.map onWire = framed f) :
    Resting cfg (clocks.foldl (clock cfg) sys) (earlier ++ [result cfg f]) (f.gap - 1) := by
  obtain ⟨enough, some_five, long, small, room, gap, _⟩ := spaced
  obtain ⟨n, fives⟩ : ∃ n, f.fives = n + 1 := ⟨f.fives - 1, by omega⟩
  rw [framed_parts f fives] at wired
  obtain ⟨first, _, rfl, wired_first, wired⟩ := List.map_eq_cons_iff.mp wired
  obtain ⟨preamble, _, rfl, wired_fives, wired⟩ := List.map_eq_append_iff.mp wired
  obtain ⟨sfd, _, rfl, wired_sfd, wired⟩ := List.map_eq_cons_iff.mp wired
  obtain ⟨data, rest, rfl, wired_data, wired⟩ := List.map_eq_append_iff.mp wired
  have waiting := first_five plain resting (listens first List.mem_cons_self) wired_first
  have waiting := fives_run plain waiting wired_fives
  have within := delimiter plain waiting (by
    rcases enough with on | count_long
    · exact .inl on
    · exact .inr (by omega)) wired_sfd
  have within := bytes_run f.bytes plain within (by
    rcases room with huge | less
    · exact .inl huge
    · exact .inr (by simp; omega)) (by simp; omega) wired_data
  have resting := end_run plain within long room gap wired
  simpa using resting

theorem frames_run {frames : List Sending} {clocks : List Inputs} (plain : cfg.dlyCrcEn = false)
    (resting : Resting cfg sys earlier count) (spaced : Spaced cfg count frames)
    (listens : ∀ inp ∈ clocks, inp.transmitting = false)
    (wired : clocks.map onWire = frames.flatMap framed) :
    (clocks.foldl (clock cfg) sys).reader.received = earlier ++ frames.map (result cfg) := by
  induction frames generalizing sys earlier count clocks with
  | nil =>
    have none_left : clocks = [] := List.map_eq_nil_iff.mp wired
    subst none_left
    simpa using resting.received
  | cons f frames ih =>
    rw [List.flatMap_cons] at wired
    obtain ⟨here, later, rfl, wired_here, wired⟩ := List.map_eq_append_iff.mp wired
    have listens_here : ∀ inp ∈ here, inp.transmitting = false :=
      fun inp member => listens inp (List.mem_append_left _ member)
    have listens_later : ∀ inp ∈ later, inp.transmitting = false :=
      fun inp member => listens inp (List.mem_append_right _ member)
    have resting' := frame_run plain resting spaced listens_here wired_here
    have rest := ih resting' spaced.2.2.2.2.2.2 listens_later wired
    rw [List.foldl_append, rest, List.map_cons, List.append_assoc]
    rfl

theorem resting_start (plain : cfg.dlyCrcEn = false) (wired : onWire inp = none) :
    Resting cfg (clock cfg start inp) [] 0 := by
  have off : inp.mRxDV = false := by simpa [onWire] using wired
  have later : In (nextPhase cfg inp reset .drop) (step cfg inp reset) := in_step in_reset
  have to_idle : nextPhase cfg inp reset .drop = .idle := by simp [nextPhase, off]
  rw [to_idle] at later
  refine ⟨later, ?_, ?_, rfl⟩
  · apply clear_step plain rfl rfl
    constructor <;> rfl
  · intro _
    simp [clock, start, step, resetIFGCounter, reset]

theorem frames_received {gap : Nat} {frames : List Sending} (plain : cfg.dlyCrcEn = false)
    (idle : 0 < gap) (spaced : Spaced cfg (gap - 1) frames) (clocks : List Inputs)
    (listens : ∀ inp ∈ clocks, inp.transmitting = false)
    (wired : clocks.map onWire = stream gap frames) :
    (runs cfg clocks).reader.received = frames.map (result cfg) := by
  obtain ⟨n, rfl⟩ : ∃ n, gap = n + 1 := ⟨gap - 1, by omega⟩
  rw [stream, List.replicate_succ] at wired
  obtain ⟨first, _, rfl, wired_first, wired⟩ := List.map_eq_cons_iff.mp wired
  obtain ⟨between, rest, rfl, wired_gap, wired⟩ := List.map_eq_append_iff.mp wired
  have resting := gap_run plain (resting_start plain wired_first) wired_gap
  rw [Nat.zero_add] at resting
  have listens_rest : ∀ inp ∈ rest, inp.transmitting = false :=
    fun inp member => listens inp (List.mem_cons_of_mem _ (List.mem_append_right _ member))
  have all := frames_run plain resting spaced listens_rest wired
  rw [List.nil_append] at all
  rw [runs, List.foldl_cons, List.foldl_append]
  exact all

end EthDeliverRun
