import Nios2Ecos.EthSend

/- A frame on its way out of the transmitter. -/
namespace EthSendFrame
open EthCrc EthTransmit EthSend

variable {cfg : Config} {env : Env} {mac : State} {host : Host}
variable {done : List (Nat × List Byte)} {gap : Nat}


theorem host_holds (env : Env) (calm : Calm mac) (send : host.txState = .send)
    (not_done : mac.txDone = false) (no_ack : txAck mac host = false) :
    hostStep env mac host =
      { host with flop := if mac.txUsedData then !host.flop else host.flop } := by
  have no_status : txStatValid mac host = false := by
    simp [txStatValid, calm.retry, calm.abort, not_done]
  simp [hostStep, send, no_ack, no_status]

theorem host_waits (env : Env) (calm : Calm mac) (wait : host.txState = .wait)
    (flop : host.flop = false) (not_done : mac.txDone = false) (used : mac.txUsedData = false)
    (valid : host.txStatValidR = false) : hostStep env mac host = host := by
  have no_status : txStatValid mac host = false := by
    simp [txStatValid, calm.retry, calm.abort, not_done]
  cases host
  simp_all [hostStep]

theorem not_big (small : maxFrame cfg mac = false) :
    tooBig cfg (inputs env mac host) mac = false := by
  simp [tooBig, small]

/-- What does not end a frame keeps it under way. -/
theorem busy_step {f : List Byte} (quiet : Quiet cfg (inputs env mac host))
    (busy : Busy mac host done f) (no_defer : mac.stateDefer = false)
    (big : tooBig cfg (inputs env mac host) mac = false)
    (no_done : startTxDone cfg (inputs env mac host) mac = false) {host' : Host}
    (taken : host'.taken = host.taken) (valid : host'.txStatValidR = false)
    (asks : txStartFrm host' = true → txStartFrm host = true) :
    Busy (step cfg (inputs env mac host) mac) host' done f := by
  refine ⟨taken.trans busy.taken, valid, ?_, ?_, ?_, ?_⟩
  · simp [step, latch, no_done, busy.done]
  · intro later
    have now : (inputs env mac host).txStartFrm = true := asks later
    simp [step, latch, now, busy.latched (asks later)]
  · simp [step, packetFinishedD, no_done, big, quiet_underRun quiet, lateCollision,
      maxCollisionOccured, quiet_jam quiet, excessiveDeferOccured, no_defer]
  · simp [step, busy.finished]

theorem nib_eq15 {s : State} {j : Nat} (nib : s.nibCnt.toNat = j) (less : j ≤ 15) :
    nibCntEq15 s = decide (j = 15) := by
  have low_bits : (s.nibCnt.setWidth 4).toNat = j := by
    rw [BitVec.toNat_setWidth, nib]
    omega
  by_cases last : j = 15
  · have same : s.nibCnt.setWidth 4 = 15#4 := BitVec.eq_of_toNat_eq (low_bits.trans last)
    simp [nibCntEq15, same, last]
  · have other : s.nibCnt.setWidth 4 ≠ 15#4 := by
      intro same
      rw [same] at low_bits
      exact last low_bits.symm
    simp [nibCntEq15, other, last]

theorem moved_preamble {j : Nat} {f : List Byte} (quiet : Quiet cfg (inputs env mac host))
    (plain : cfg.dlyCrcEn = false) (calm : Calm mac) (now : In .preamble mac)
    (busy : Busy mac host done f) (send : host.txState = .send) (queue : host.queue = f)
    (flop : host.flop = false) (used : mac.txUsedData = false) (first : host.first = true)
    (nib : mac.nibCnt.toNat = j) (less : j ≤ 15) (byte : mac.byteCnt = 0#16)
    (long : cfg.iPGT.toNat + 3 ≤ gap) (some_data : f ≠ []) :
    Moved cfg env mac host done gap (List.replicate j 5#4) true := by
  have big : tooBig cfg (inputs env mac host) mac = false := by
    simp [tooBig, now.data0, now.fCS]
  have no_done : startTxDone cfg (inputs env mac host) mac = false := by
    simp [startTxDone, now.data1, now.fCS]
  have deferred : excessiveDeferOccured cfg (inputs env mac host) mac = false := by
    simp [excessiveDeferOccured, now.defer]
  have later : In (nextPhase cfg (inputs env mac host) mac .preamble)
      (step cfg (inputs env mac host) mac) := in_step now
  have is15 := nib_eq15 nib less
  have host_stays := host_holds env calm send busy.done
    (by simp [txAck, used])
  have finished' : (step cfg (inputs env mac host) mac).packetFinished = false := by
    simp [step, packetFinishedD, no_done, big, quiet_underRun quiet, lateCollision,
      maxCollisionOccured, quiet_jam quiet, deferred]
  have busy' : Busy (step cfg (inputs env mac host) mac) (hostStep env mac host) done f := by
    rw [host_stays]
    exact busy_step quiet busy now.defer big no_done rfl busy.valid fun asks => asks
  have byte' : (step cfg (inputs env mac host) mac).byteCnt = 0#16 := by
    simp [step, resetByteCnt, incrementByteCnt, startBackoff, now.idle, now.jam, now.data1,
      now.backOff, now.pAD, now.fCS, byte]
  have crc' : (step cfg (inputs env mac host) mac).crc = 0xFFFFFFFF#32 := by
    simp [step, crcStep, initializeCrc, now.preamble]
  have on : (step cfg (inputs env mac host) mac).mTxEn = true := by
    simp [step, now.preamble]
  refine ⟨calm_step quiet plain calm big deferred, done, gap, ?_⟩
  by_cases last : j = 15
  · have to_data : nextPhase cfg (inputs env mac host) mac .preamble = .data0 := by
      simp [nextPhase, is15, last, quiet_collision quiet]
    rw [to_data] at later
    have sfd : (step cfg (inputs env mac host) mac).mTxD = 0xD#4 := by
      simp [step, mTxDD, now.data0, now.data1, now.fCS, now.jam, now.preamble, is15, last]
    have stage : Stage cfg (step cfg (inputs env mac host) mac) (hostStep env mac host) done gap
        (preamble ++ nibbles []) true := by
      refine .data0 later busy' ?_ ?_ some_data ?_ ?_ ?_ long
      · rw [host_stays]
        exact send
      · rw [host_stays]
        exact queue
      · rw [host_stays]
        simp [used, flop]
      · simp [step, startData0, quiet_collision quiet, now.preamble, is15, last]
      · refine ⟨?_, ?_, crc'⟩
        · simp [step, resetNibCnt, now.preamble, is15, last, nibbles]
        · simp [byte', nibbles]
    refine ⟨_, true, stage, ?_⟩
    rw [on, sfd, last]
    exact .sends rfl
  · have stays : nextPhase cfg (inputs env mac host) mac .preamble = .preamble := by
      simp [nextPhase, is15, last]
    rw [stays] at later
    have five : (step cfg (inputs env mac host) mac).mTxD = 5#4 := by
      simp [step, mTxDD, now.data0, now.data1, now.fCS, now.jam, now.preamble, is15, last]
    have adds : (step cfg (inputs env mac host) mac).nibCnt = mac.nibCnt + 1#16 := by
      simp [step, resetNibCnt, incrementNibCnt, startDefer, startIPG, startFCS, now.defer,
        now.preamble, now.jam, now.idle, now.iPG, now.data1, now.pAD, now.backOff, no_done, big,
        quiet_jam quiet, is15, last]
    refine ⟨List.replicate (j + 1) 5#4, true,
      .preamble later busy' ?_ ?_ ?_ ?_ ?_ ?_ (by omega) byte' crc' long, ?_⟩
    · rw [host_stays]
      exact send
    · rw [host_stays]
      exact queue
    · rw [host_stays]
      exact first
    · rw [host_stays]
      simp [used, flop]
    · simp [step, startData0, startData1, now.preamble, now.data0, now.data1, is15, last]
    · rw [adds, BitVec.toNat_add, BitVec.toNat_ofNat, nib]
      omega
    · rw [on, five, List.replicate_succ']
      exact .sends rfl

theorem done_set {f : List Byte} (busy : Busy mac host done f)
    (over_now : startTxDone cfg (inputs env mac host) mac = true) :
    (step cfg (inputs env mac host) mac).txDone = true := by
  have set_ : latch (txStartFrm host && !mac.statusLatch) true mac.txDone = true := by
    cases asks : txStartFrm host with
    | false => rfl
    | true => simp [latch, busy.latched asks]
  rw [← set_, ← over_now]
  rfl

theorem frame_calm (quiet : Quiet cfg (inputs env mac host)) (plain : cfg.dlyCrcEn = false)
    (calm : Calm mac)
    (no_defer : mac.stateDefer = false) (big : maxFrame cfg mac = false) :
    Calm (step cfg (inputs env mac host) mac) := by
  refine calm_step quiet plain calm (not_big big) ?_
  simp [excessiveDeferOccured, no_defer]

theorem not_max {f : List Byte} {n : Nat} (fits : Fits cfg f) (byte : mac.byteCnt.toNat = n)
    (less : n < paddedLength cfg f + 4) : maxFrame cfg mac = false ∧ byteCntMax mac = false := by
  have counters := fits.counters
  constructor
  · rcases fits.limit with huge | limit
    · simp [maxFrame, huge]
    · have other : mac.byteCnt ≠ cfg.maxFL := by
        intro same
        rw [same] at byte
        omega
      simp [maxFrame, other]
  · have other : mac.byteCnt ≠ 0xFFFF#16 := by
      intro same
      have value : mac.byteCnt.toNat = 0xFFFF := congrArg BitVec.toNat same
      omega
    simp [byteCntMax, other]

theorem min_fl {n : Nat} (long : 4 < cfg.minFL.toNat) (nib : mac.nibCnt.toNat = n) :
    nibbleMinFl cfg mac = decide (2 * (cfg.minFL.toNat - 4) ≤ n + 1) := by
  have bound := cfg.minFL.isLt
  have limit : ((cfg.minFL.setWidth 32 - 4#32) <<< 1 - 1#32).toNat =
      2 * (cfg.minFL.toNat - 4) - 1 := by
    rw [BitVec.toNat_sub_of_le, BitVec.toNat_shiftLeft, BitVec.toNat_sub_of_le]
    · simp only [BitVec.toNat_setWidth, BitVec.toNat_ofNat, Nat.shiftLeft_eq]
      omega
    · simp only [BitVec.le_def, BitVec.toNat_setWidth, BitVec.toNat_ofNat]
      omega
    · rw [BitVec.le_def, BitVec.toNat_shiftLeft, BitVec.toNat_sub_of_le]
      · simp only [BitVec.toNat_setWidth, BitVec.toNat_ofNat, Nat.shiftLeft_eq]
        omega
      · simp only [BitVec.le_def, BitVec.toNat_setWidth, BitVec.toNat_ofNat]
        omega
  have count : (mac.nibCnt.setWidth 32).toNat = n := by
    rw [BitVec.toNat_setWidth, nib]
    have := mac.nibCnt.isLt
    omega
  rw [nibbleMinFl, BitVec.ule, limit, count, decide_eq_decide]
  omega

theorem crcRun_snoc (crc : BitVec 32) (sent : List (BitVec 4)) (nibble : BitVec 4) :
    crcRun crc (sent ++ [nibble]) = crcStep (crcRun crc sent) (dataCrc nibble) true false :=
  List.foldl_append

theorem counted_step {sent : List (BitVec 4)} {nibble : BitVec 4} {inp : Inputs}
    (counted : Counted mac sent) (room : sent.length + 1 < 2 ^ 16)
    (nib : (step cfg inp mac).nibCnt = mac.nibCnt + 1#16)
    (byte : (step cfg inp mac).byteCnt =
      if sent.length % 2 = 1 then mac.byteCnt + 1#16 else mac.byteCnt)
    (crc : (step cfg inp mac).crc = crcStep mac.crc (dataCrc nibble) true false) :
    Counted (step cfg inp mac) (sent ++ [nibble]) := by
  have length : (sent ++ [nibble]).length = sent.length + 1 := by simp
  refine ⟨?_, ?_, ?_⟩
  · rw [nib, BitVec.toNat_add, counted.nib, length, BitVec.toNat_ofNat]
    omega
  · rw [byte, length]
    split_ifs with odd
    · rw [BitVec.toNat_add, counted.byte, BitVec.toNat_ofNat]
      omega
    · rw [counted.byte]
      omega
  · rw [crc, counted.crc, crcRun_snoc]

theorem nibbles_length (bytes : List Byte) : (nibbles bytes).length = 2 * bytes.length := by
  induction bytes with
  | nil => rfl
  | cons byte bytes ih =>
    rw [nibbles, List.flatMap_cons, List.length_append, ← nibbles, ih]
    simp
    omega

theorem nibbles_snoc (bytes : List Byte) (byte : Byte) :
    nibbles (bytes ++ [byte]) = nibbles bytes ++ [low byte] ++ [(byte >>> 4).setWidth 4] := by
  simp [nibbles, low]

theorem padded_ge (cfg : Config) (f : List Byte) : f.length ≤ paddedLength cfg f := by
  unfold paddedLength
  split_ifs
  · exact Nat.le_max_left _ _
  · exact Nat.le_refl _

theorem moved_data0 {sent queue : List Byte} (quiet : Quiet cfg (inputs env mac host))
    (plain : cfg.dlyCrcEn = false) (calm : Calm mac) (now : In .data0 mac)
    (busy : Busy mac host done (sent ++ queue)) (send : host.txState = .send)
    (rest : host.queue = queue) (more : queue ≠ []) (flop : host.flop = false)
    (used : mac.txUsedData = true) (counted : Counted mac (nibbles sent))
    (long : cfg.iPGT.toNat + 3 ≤ gap) (fits : Fits cfg (sent ++ queue)) :
    Moved cfg env mac host done gap (preamble ++ nibbles sent) true := by
  obtain ⟨byte, queue, rfl⟩ := List.exists_cons_of_ne_nil more
  have padded := padded_ge cfg (sent ++ byte :: queue)
  have counters := fits.counters
  rw [List.length_append, List.length_cons] at padded
  have length := nibbles_length sent
  obtain ⟨big, _⟩ := not_max fits counted.byte (by omega)
  have no_done : startTxDone cfg (inputs env mac host) mac = false := by
    simp [startTxDone, now.fCS, now.data1]
  have later : In (nextPhase cfg (inputs env mac host) mac .data0)
      (step cfg (inputs env mac host) mac) := in_step now
  have to_data1 : nextPhase cfg (inputs env mac host) mac .data0 = .data1 := by
    simp [nextPhase, quiet_collision quiet, quiet.under, big]
  rw [to_data1] at later
  have offers : (inputs env mac host).txData = byte := by simp [inputs, rest]
  have host_stays := host_holds env calm send busy.done (by simp [txAck, flop])
  have counted' : Counted (step cfg (inputs env mac host) mac) (nibbles sent ++ [low byte]) := by
    refine counted_step counted (by omega) ?_ ?_ ?_
    · simp [step, resetNibCnt, incrementNibCnt, startDefer, startIPG, startFCS, now.defer,
        now.preamble, now.jam, now.idle, now.iPG, now.data0, now.data1, now.pAD, now.backOff,
        no_done, tooBig, big, quiet_jam quiet]
    · have even : (nibbles sent).length % 2 ≠ 1 := by omega
      simp [step, resetByteCnt, incrementByteCnt, startBackoff, now.idle, now.jam, now.data1,
        now.backOff, now.pAD, now.fCS, busy.finishedQ, even]
    · simp [step, dataNibble, initializeCrc, now.data0, now.idle, now.preamble, now.fCS, calm.dly,
        offers, low]
  have busy' : Busy (step cfg (inputs env mac host) mac) (hostStep env mac host) done
      (sent ++ byte :: queue) := by
    rw [host_stays]
    exact busy_step quiet busy now.defer (not_big big) no_done rfl busy.valid fun asks => asks
  refine ⟨frame_calm quiet plain calm now.defer big, done, gap,
    preamble ++ nibbles sent ++ [low byte], true, ?_, ?_⟩
  · refine .data1 later busy' ?_ ?_ ?_ ?_ counted' long
    · rw [host_stays]
      exact send
    · rw [host_stays]
      exact rest
    · rw [host_stays]
      simp [used, flop]
    · simp [step, startData1, quiet_collision quiet, quiet.under, now.data0, big]
  · have on : (step cfg (inputs env mac host) mac).mTxEn = true := by
      simp [step, now.data0]
    have data : (step cfg (inputs env mac host) mac).mTxD = low byte := by
      simp [step, mTxDD, now.data0, offers, low]
    rw [on, data]
    exact .sends rfl

theorem host_advances (env : Env) {byte : Byte} {queue : List Byte} (calm : Calm mac)
    (send : host.txState = .send) (rest : host.queue = byte :: queue) (flop : host.flop = true)
    (used : mac.txUsedData = true) (not_done : mac.txDone = false) :
    hostStep env mac host =
      { host with
        txState := if queue = [] then .wait else .send
        queue := queue
        first := false
        flop := false } := by
  have no_status : txStatValid mac host = false := by
    simp [txStatValid, calm.retry, calm.abort, not_done]
  have ack : txAck mac host = true := by simp [txAck, used, flop]
  simp [hostStep, send, rest, ack, no_status, used, flop]

/-- The check sum is still to be sent as a whole. -/
theorem fcs_begins {f : List Byte} {host' : Host} (crcEn : cfg.crcEn = true)
    {mac' : State} (later : In .fCS mac') (busy : Busy mac' host' done f)
    (wait : host'.txState = .wait) (flop : host'.flop = false) (used : mac'.txUsedData = false)
    (nib : mac'.nibCnt = 0#16) (byte : mac'.byteCnt.toNat = paddedLength cfg f)
    (crc : mac'.crc = crcRun 0xFFFFFFFF#32 (body cfg f)) (long : cfg.iPGT.toNat + 3 ≤ gap) :
    Stage cfg mac' host' done gap (preamble ++ body cfg f) true := by
  have stage : Stage cfg mac' host' done gap (preamble ++ body cfg f ++ []) true := by
    refine .fCS later busy wait flop used crcEn ?_ rfl (by decide) ?_ ?_ long
    · rw [nib]
      rfl
    · simpa using byte
    · rw [crc]
      rfl
  simpa using stage

theorem data1_clock (env : Env) {sent queue : List Byte} {byte : Byte}
    (calm : Calm mac) (now : In .data1 mac)
    (busy : Busy mac host done (sent ++ byte :: queue)) (send : host.txState = .send)
    (rest : host.queue = byte :: queue) (counted : Counted mac (nibbles sent ++ [low byte]))
    (fits : Fits cfg (sent ++ byte :: queue)) :
    (inputs env mac host).txEndFrm = decide (queue = []) ∧
      (step cfg (inputs env mac host) mac).mTxEn = true ∧
      (step cfg (inputs env mac host) mac).mTxD = (byte >>> 4).setWidth 4 ∧
      maxFrame cfg mac = false ∧
      mac.byteCnt.toNat = sent.length ∧
      (step cfg (inputs env mac host) mac).byteCnt = mac.byteCnt + 1#16 ∧
      (step cfg (inputs env mac host) mac).crc =
        crcStep mac.crc (dataCrc ((byte >>> 4).setWidth 4)) true false := by
  have padded := padded_ge cfg (sent ++ byte :: queue)
  rw [List.length_append, List.length_cons] at padded
  have bytes : mac.byteCnt.toNat = sent.length := by
    rw [counted.byte, List.length_append, nibbles_length, List.length_singleton]
    omega
  obtain ⟨big, not_most⟩ := not_max fits bytes (by omega)
  have offers : (inputs env mac host).txData = byte := by simp [inputs, rest]
  refine ⟨?_, ?_, ?_, big, bytes, ?_, ?_⟩
  · cases queue <;> simp [inputs, send, rest]
  · simp [step, now.data1]
  · simp [step, mTxDD, now.data0, now.data1, offers]
  · simp [step, resetByteCnt, incrementByteCnt, startBackoff, now.idle, now.jam, now.data1,
      busy.finishedQ, not_most]
  · simp [step, dataNibble, initializeCrc, now.data0, now.data1, now.idle, now.preamble, now.fCS,
      calm.dly, offers]

theorem moved_data1_next {sent queue : List Byte} {byte next : Byte}
    (quiet : Quiet cfg (inputs env mac host))
    (plain : cfg.dlyCrcEn = false) (calm : Calm mac) (now : In .data1 mac)
    (busy : Busy mac host done (sent ++ byte :: next :: queue)) (send : host.txState = .send)
    (rest : host.queue = byte :: next :: queue) (flop : host.flop = true)
    (used : mac.txUsedData = true) (counted : Counted mac (nibbles sent ++ [low byte]))
    (long : cfg.iPGT.toNat + 3 ≤ gap) (fits : Fits cfg (sent ++ byte :: next :: queue)) :
    Moved cfg env mac host done gap (preamble ++ nibbles sent ++ [low byte]) true := by
  obtain ⟨ends, on, data, big, _, byte', crc'⟩ :=
    data1_clock env calm now busy send rest counted fits
  have later : In (nextPhase cfg (inputs env mac host) mac .data1)
      (step cfg (inputs env mac host) mac) := in_step now
  have to_data0 : nextPhase cfg (inputs env mac host) mac .data1 = .data0 := by
    simp [nextPhase, quiet_collision quiet, ends]
  rw [to_data0] at later
  have host_moves := host_advances env calm send rest flop used busy.done
  have no_done : startTxDone cfg (inputs env mac host) mac = false := by
    simp [startTxDone, now.fCS, ends]
  have parts := nibbles_snoc sent byte
  have counted' : Counted (step cfg (inputs env mac host) mac) (nibbles (sent ++ [byte])) := by
    have length : (nibbles sent ++ [low byte]).length = 2 * sent.length + 1 := by
      simp [nibbles_length]
    have padded := padded_ge cfg (sent ++ byte :: next :: queue)
    have counters := fits.counters
    rw [List.length_append, List.length_cons, List.length_cons] at padded
    rw [parts]
    refine counted_step counted (by omega) ?_ ?_ crc'
    · simp [step, resetNibCnt, incrementNibCnt, startDefer, startIPG, startFCS, now.defer,
        now.preamble, now.jam, now.idle, now.iPG, now.data0, now.data1, now.pAD, now.backOff,
        no_done, tooBig, big, quiet_jam quiet, ends]
    · rw [byte', if_pos (by omega)]
  have busy' : Busy (step cfg (inputs env mac host) mac) (hostStep env mac host) done
      ((sent ++ [byte]) ++ next :: queue) := by
    rw [host_moves, List.append_assoc]
    exact busy_step quiet busy now.defer (not_big big) no_done rfl busy.valid (by simp [txStartFrm])
  refine ⟨frame_calm quiet plain calm now.defer big, done, gap,
    preamble ++ nibbles (sent ++ [byte]), true, ?_, ?_⟩
  · refine .data0 later busy' ?_ ?_ (List.cons_ne_nil _ _) ?_ ?_ counted' long
    · rw [host_moves]
      simp
    · rw [host_moves]
    · rw [host_moves]
    · simp [step, startData0, quiet_collision quiet, now.data1, ends]
  · rw [on, data, parts, ← List.append_assoc, ← List.append_assoc]
    exact .sends rfl

theorem moved_data1_last {sent : List Byte} {byte : Byte} (quiet : Quiet cfg (inputs env mac host))
    (plain : cfg.dlyCrcEn = false) (calm : Calm mac) (now : In .data1 mac)
    (busy : Busy mac host done (sent ++ [byte])) (send : host.txState = .send)
    (rest : host.queue = [byte]) (flop : host.flop = true) (used : mac.txUsedData = true)
    (counted : Counted mac (nibbles sent ++ [low byte])) (long : cfg.iPGT.toNat + 3 ≤ gap)
    (fits : Fits cfg (sent ++ [byte])) :
    Moved cfg env mac host done gap (preamble ++ nibbles sent ++ [low byte]) true := by
  obtain ⟨ends, on, data, big, bytes, byte', crc'⟩ :=
    data1_clock env calm now busy send rest counted fits
  have later : In (nextPhase cfg (inputs env mac host) mac .data1)
      (step cfg (inputs env mac host) mac) := in_step now
  have counters := fits.counters
  have padded := padded_ge cfg (sent ++ [byte])
  have f_length : (sent ++ [byte]).length = sent.length + 1 := by simp
  have length : (nibbles sent ++ [low byte]).length = 2 * sent.length + 1 := by
    simp [nibbles_length]
  have parts := nibbles_snoc sent byte
  have host_moves := host_advances env calm send rest flop used busy.done
  have wait : (hostStep env mac host).txState = .wait := by
    rw [host_moves]
    rfl
  have flop' : (hostStep env mac host).flop = false := by
    rw [host_moves]
  have used' : (step cfg (inputs env mac host) mac).txUsedData = false := by
    simp [step, startData0, startData1, now.data0, now.preamble, ends]
  have goes_on : startTxDone cfg (inputs env mac host) mac = false →
      Busy (step cfg (inputs env mac host) mac) (hostStep env mac host) done (sent ++ [byte]) := by
    intro no_done
    rw [host_moves]
    exact busy_step quiet busy now.defer (not_big big) no_done rfl busy.valid (by simp [txStartFrm])
  have calm' : Calm (step cfg (inputs env mac host) mac) :=
    frame_calm quiet plain calm now.defer big
  by_cases short : sent.length + 1 < paddedLength cfg (sent ++ [byte])
  · have pad : cfg.pad = true := by
      cases flag : cfg.pad with
      | true => rfl
      | false => simp [paddedLength, flag] at short
    obtain ⟨min_long, _⟩ := fits.padding pad
    rw [paddedLength, if_pos pad, f_length] at short
    have below : nibbleMinFl cfg mac = false := by
      rw [min_fl min_long (counted.nib.trans length), decide_eq_false_iff_not]
      omega
    have to_pad : nextPhase cfg (inputs env mac host) mac .data1 = .pAD := by
      simp [nextPhase, quiet_collision quiet, ends, pad, below]
    rw [to_pad] at later
    have no_done : startTxDone cfg (inputs env mac host) mac = false := by
      simp [startTxDone, now.fCS, pad, below]
    have counted' : Counted (step cfg (inputs env mac host) mac)
        (nibbles (sent ++ [byte]) ++ List.replicate 0 0#4) := by
      rw [List.replicate_zero, List.append_nil, parts]
      refine counted_step counted (by omega) ?_ ?_ crc'
      · simp [step, resetNibCnt, incrementNibCnt, startDefer, startIPG, startFCS, now.defer,
          now.preamble, now.jam, now.idle, now.iPG, now.data0, now.data1, now.pAD, now.backOff,
          no_done, tooBig, big, quiet_jam quiet, pad, below]
      · rw [byte', if_pos (by omega)]
    refine ⟨calm', done, gap, preamble ++ nibbles (sent ++ [byte]) ++ List.replicate 0 0#4, true,
      ?_, ?_⟩
    · refine .pAD later (goes_on no_done) wait flop' used' ?_ counted' long
      rw [paddedLength, if_pos pad, f_length]
      omega
    · rw [on, data, List.replicate_zero, List.append_nil, parts, ← List.append_assoc,
        ← List.append_assoc]
      exact .sends rfl
  · have long_enough : paddedLength cfg (sent ++ [byte]) = sent.length + 1 := by omega
    have whole : body cfg (sent ++ [byte]) =
        nibbles sent ++ [low byte] ++ [(byte >>> 4).setWidth 4] := by
      rw [body, long_enough, f_length, Nat.sub_self, Nat.mul_zero, List.replicate_zero,
        List.append_nil, parts]
    have enough : cfg.pad = true → nibbleMinFl cfg mac = true := by
      intro pad
      obtain ⟨min_long, _⟩ := fits.padding pad
      rw [paddedLength, if_pos pad, f_length] at long_enough
      rw [min_fl min_long (counted.nib.trans length), decide_eq_true_eq]
      omega
    have no_pad : (!cfg.pad || cfg.pad && nibbleMinFl cfg mac) = true := by
      cases pad : cfg.pad with
      | true => simp [enough pad]
      | false => rfl
    have skips : (cfg.pad && !nibbleMinFl cfg mac) = false := by
      cases pad : cfg.pad with
      | true => simp [enough pad]
      | false => rfl
    cases crcEn : cfg.crcEn with
    | true =>
      have to_fcs : nextPhase cfg (inputs env mac host) mac .data1 = .fCS := by
        simp [nextPhase, quiet_collision quiet, ends, skips, crcEn]
      rw [to_fcs] at later
      have no_done : startTxDone cfg (inputs env mac host) mac = false := by
        simp [startTxDone, now.fCS, crcEn]
      have begins : startFCS cfg (inputs env mac host) mac = true := by
        simp [startFCS, quiet_collision quiet, now.data1, ends, no_pad, crcEn]
      refine ⟨calm', done, gap, preamble ++ body cfg (sent ++ [byte]), true, ?_, ?_⟩
      · refine fcs_begins crcEn later (goes_on no_done) wait flop' used' ?_ ?_ ?_ long
        · simp [step, resetNibCnt, begins]
        · rw [byte', BitVec.toNat_add, bytes, BitVec.toNat_ofNat, long_enough]
          omega
        · rw [crc', counted.crc, whole, crcRun_snoc _ (nibbles sent ++ [low byte])]
      · rw [on, data, whole, ← List.append_assoc, ← List.append_assoc]
        exact .sends rfl
    | false =>
      have to_defer : nextPhase cfg (inputs env mac host) mac .data1 = .defer := by
        simp [nextPhase, quiet_collision quiet, ends, skips, crcEn]
      rw [to_defer] at later
      have over_now : startTxDone cfg (inputs env mac host) mac = true := by
        simp [startTxDone, quiet_collision quiet, now.data1, ends, no_pad, crcEn]
      refine ⟨calm', done ++ [(gap, sent ++ [byte])], 0, [], false,
        .defer later ⟨flop', used', ?_, ?_, ?_⟩ ?_, ?_⟩
      · rw [wait, host_moves]
        simpa using busy.taken
      · rw [wait]
        intro other
        cases other
      · intro _
        exact done_set busy over_now
      · simp [step, resetNibCnt, startDefer, over_now]
      · rw [on, data]
        refine .ends rfl busy.taken wait ?_
        rw [checked, whole, crcEn]
        simp

theorem moved_data1 {sent queue : List Byte} {byte : Byte} (quiet : Quiet cfg (inputs env mac host))
    (plain : cfg.dlyCrcEn = false) (calm : Calm mac) (now : In .data1 mac)
    (busy : Busy mac host done (sent ++ byte :: queue)) (send : host.txState = .send)
    (rest : host.queue = byte :: queue) (flop : host.flop = true) (used : mac.txUsedData = true)
    (counted : Counted mac (nibbles sent ++ [low byte])) (long : cfg.iPGT.toNat + 3 ≤ gap)
    (fits : Fits cfg (sent ++ byte :: queue)) :
    Moved cfg env mac host done gap (preamble ++ nibbles sent ++ [low byte]) true := by
  cases queue with
  | nil => exact moved_data1_last quiet plain calm now busy send rest flop used counted long fits
  | cons next queue =>
    exact moved_data1_next quiet plain calm now busy send rest flop used counted long fits

theorem odd_bit {nib : BitVec 16} {n : Nat} (value : nib.toNat = n) :
    nib[0] = decide (n % 2 = 1) := by
  rw [← BitVec.getLsbD_eq_getElem, BitVec.getLsbD, Nat.testBit_zero, value]

theorem moved_pAD {m : Nat} {f : List Byte} (quiet : Quiet cfg (inputs env mac host))
    (plain : cfg.dlyCrcEn = false) (calm : Calm mac) (now : In .pAD mac)
    (busy : Busy mac host done f) (wait : host.txState = .wait) (flop : host.flop = false)
    (used : mac.txUsedData = false) (less : f.length + m / 2 < paddedLength cfg f)
    (counted : Counted mac (nibbles f ++ List.replicate m 0#4))
    (long : cfg.iPGT.toNat + 3 ≤ gap) (fits : Fits cfg f) :
    Moved cfg env mac host done gap (preamble ++ nibbles f ++ List.replicate m 0#4) true := by
  have pad : cfg.pad = true := by
    cases flag : cfg.pad with
    | true => rfl
    | false =>
      simp [paddedLength, flag] at less
  obtain ⟨min_long, crc_or_long⟩ := fits.padding pad
  have counters := fits.counters
  have padded : paddedLength cfg f = max f.length (cfg.minFL.toNat - 4) := by
    rw [paddedLength, if_pos pad]
  have crcEn : cfg.crcEn = true := by
    rcases crc_or_long with crcEn | enough
    · exact crcEn
    · omega
  have length : (nibbles f ++ List.replicate m 0#4).length = 2 * f.length + m := by
    simp [nibbles_length]
  have bytes : mac.byteCnt.toNat = f.length + m / 2 := by
    rw [counted.byte, length]
    omega
  obtain ⟨big, not_most⟩ := not_max fits bytes (by omega)
  have no_done : startTxDone cfg (inputs env mac host) mac = false := by
    simp [startTxDone, now.fCS, now.data1]
  have later : In (nextPhase cfg (inputs env mac host) mac .pAD)
      (step cfg (inputs env mac host) mac) := in_step now
  have host_stays := host_waits env calm wait flop busy.done used busy.valid
  have on : (step cfg (inputs env mac host) mac).mTxEn = true := by
    simp [step, now.pAD]
  have data : (step cfg (inputs env mac host) mac).mTxD = 0#4 := by
    simp [step, mTxDD, now.data0, now.data1, now.fCS, now.jam, now.preamble]
  have used' : (step cfg (inputs env mac host) mac).txUsedData = false := by
    simp [step, startData0, startData1, now.data0, now.data1, now.preamble]
  have byte' : (step cfg (inputs env mac host) mac).byteCnt =
      if m % 2 = 1 then mac.byteCnt + 1#16 else mac.byteCnt := by
    have odd : mac.nibCnt[0] = decide (m % 2 = 1) := by
      rw [odd_bit (counted.nib.trans length), decide_eq_decide]
      omega
    simp [step, resetByteCnt, incrementByteCnt, startBackoff, now.idle, now.jam, now.data1,
      now.backOff, now.pAD, busy.finishedQ, not_most, odd]
  have crc' : (step cfg (inputs env mac host) mac).crc =
      crcStep mac.crc (dataCrc 0#4) true false := by
    simp [step, dataNibble, initializeCrc, now.data0, now.data1, now.idle, now.preamble, now.fCS,
      calm.dly]
  have busy' : Busy (step cfg (inputs env mac host) mac) (hostStep env mac host) done f := by
    rw [host_stays]
    exact busy_step quiet busy now.defer (not_big big) no_done rfl busy.valid fun asks => asks
  have flag := min_fl min_long (counted.nib.trans length)
  refine ⟨frame_calm quiet plain calm now.defer big, done, gap, ?_⟩
  by_cases last : f.length + (m + 1) / 2 < paddedLength cfg f
  · have below : nibbleMinFl cfg mac = false := by
      rw [flag, decide_eq_false_iff_not]
      omega
    have stays : nextPhase cfg (inputs env mac host) mac .pAD = .pAD := by
      simp [nextPhase, quiet_collision quiet, below]
    rw [stays] at later
    have counted' : Counted (step cfg (inputs env mac host) mac)
        (nibbles f ++ List.replicate (m + 1) 0#4) := by
      rw [List.replicate_succ', ← List.append_assoc]
      refine counted_step counted (by omega) ?_ ?_ crc'
      · simp [step, resetNibCnt, incrementNibCnt, startDefer, startIPG, startFCS, now.defer,
          now.preamble, now.jam, now.idle, now.iPG, now.data1, now.pAD, now.backOff, no_done,
          tooBig, big, quiet_jam quiet, below]
      · rw [byte', length]
        have parity : (2 * f.length + m) % 2 = m % 2 := by omega
        rw [parity]
    refine ⟨preamble ++ nibbles f ++ List.replicate (m + 1) 0#4, true, ?_, ?_⟩
    · refine .pAD later busy' ?_ ?_ used' last counted' long
      · rw [host_stays]
        exact wait
      · rw [host_stays]
        exact flop
    · rw [on, data, List.replicate_succ', ← List.append_assoc]
      exact .sends rfl
  · have above : nibbleMinFl cfg mac = true := by
      rw [flag, decide_eq_true_eq]
      omega
    have to_fcs : nextPhase cfg (inputs env mac host) mac .pAD = .fCS := by
      simp [nextPhase, quiet_collision quiet, above, crcEn]
    rw [to_fcs] at later
    have begins : startFCS cfg (inputs env mac host) mac = true := by
      simp [startFCS, quiet_collision quiet, now.pAD, above, crcEn]
    have all : 2 * (paddedLength cfg f - f.length) = m + 1 := by omega
    have whole : body cfg f = nibbles f ++ List.replicate m 0#4 ++ [0#4] := by
      rw [body, all, List.replicate_succ', ← List.append_assoc]
    refine ⟨preamble ++ body cfg f, true, ?_, ?_⟩
    · refine fcs_begins crcEn later busy' ?_ ?_ used' ?_ ?_ ?_ long
      · rw [host_stays]
        exact wait
      · rw [host_stays]
        exact flop
      · simp [step, resetNibCnt, begins]
      · rw [byte', if_pos (by omega), BitVec.toNat_add, bytes, BitVec.toNat_ofNat]
        omega
      · rw [crc', counted.crc, whole, crcRun_snoc]
    · rw [on, data, whole, ← List.append_assoc, ← List.append_assoc]
      exact .sends rfl

theorem nib_eq7 {s : State} {j : Nat} (nib : s.nibCnt.toNat = j) (less : j < 8) :
    nibCntEq7 s = decide (j = 7) := by
  have low_bits : (s.nibCnt.setWidth 3).toNat = j := by
    rw [BitVec.toNat_setWidth, nib]
    omega
  have value := @BitVec.toNat_inj 3 (s.nibCnt.setWidth 3) 7#3
  rw [low_bits] at value
  rw [nibCntEq7, beq_eq_decide, decide_eq_decide]
  exact value.symm

theorem moved_fCS {j : Nat} {f : List Byte} {sent : List (BitVec 4)}
    (quiet : Quiet cfg (inputs env mac host))
    (plain : cfg.dlyCrcEn = false) (calm : Calm mac) (now : In .fCS mac)
    (busy : Busy mac host done f) (wait : host.txState = .wait) (flop : host.flop = false)
    (used : mac.txUsedData = false) (crcEn : cfg.crcEn = true) (nib : mac.nibCnt.toNat = j)
    (length : sent.length = j) (less : j < 8)
    (byte : mac.byteCnt.toNat = paddedLength cfg f + j / 2)
    (crc : sent ++ fcs mac.crc (8 - j) = fcs (crcRun 0xFFFFFFFF#32 (body cfg f)) 8)
    (long : cfg.iPGT.toNat + 3 ≤ gap) (fits : Fits cfg f) :
    Moved cfg env mac host done gap (preamble ++ body cfg f ++ sent) true := by
  have counters := fits.counters
  obtain ⟨big, not_most⟩ := not_max fits byte (by omega)
  have is7 := nib_eq7 nib less
  have later : In (nextPhase cfg (inputs env mac host) mac .fCS)
      (step cfg (inputs env mac host) mac) := in_step now
  have host_stays := host_waits env calm wait flop busy.done used busy.valid
  have on : (step cfg (inputs env mac host) mac).mTxEn = true := by
    simp [step, now.fCS]
  have data : (step cfg (inputs env mac host) mac).mTxD = fcsNibble mac.crc := by
    simp [step, mTxDD, now.data0, now.data1, now.fCS]
  have used' : (step cfg (inputs env mac host) mac).txUsedData = false := by
    simp [step, startData0, startData1, now.data0, now.data1, now.preamble]
  have grows : (sent ++ [fcsNibble mac.crc]) ++ fcs (crcNext mac.crc 0#4 false) (7 - j) =
      fcs (crcRun 0xFFFFFFFF#32 (body cfg f)) 8 := by
    have rest : 8 - j = (7 - j) + 1 := by omega
    rw [← crc, rest, fcs, List.append_assoc]
    rfl
  refine ⟨frame_calm quiet plain calm now.defer big, ?_⟩
  by_cases last : j = 7
  · have to_defer : nextPhase cfg (inputs env mac host) mac .fCS = .defer := by
      simp [nextPhase, quiet_collision quiet, is7, last]
    rw [to_defer] at later
    have over_now : startTxDone cfg (inputs env mac host) mac = true := by
      simp [startTxDone, quiet_collision quiet, now.fCS, is7, last]
    refine ⟨done ++ [(gap, f)], 0, [], false, .defer later ⟨?_, used', ?_, ?_, ?_⟩ ?_, ?_⟩
    · rw [host_stays]
      exact flop
    · rw [host_stays, wait]
      simpa using busy.taken
    · rw [host_stays, wait]
      intro other
      cases other
    · intro _
      exact done_set busy over_now
    · simp [step, resetNibCnt, startDefer, over_now]
    · rw [on, data]
      refine .ends rfl busy.taken ?_ ?_
      · rw [host_stays]
        exact wait
      · rw [checked, if_pos crcEn, ← grows, last]
        simp [fcs]
  · have stays : nextPhase cfg (inputs env mac host) mac .fCS = .fCS := by
      simp [nextPhase, quiet_collision quiet, is7, last, big]
    rw [stays] at later
    have no_done : startTxDone cfg (inputs env mac host) mac = false := by
      simp [startTxDone, now.data1, is7, last]
    have adds : (step cfg (inputs env mac host) mac).nibCnt = mac.nibCnt + 1#16 := by
      simp [step, resetNibCnt, incrementNibCnt, startDefer, startIPG, startFCS, now.defer,
        now.preamble, now.jam, now.idle, now.iPG, now.data1, now.pAD, now.fCS, now.backOff,
        no_done, tooBig, big, quiet_jam quiet]
    have byte' : (step cfg (inputs env mac host) mac).byteCnt =
        if j % 2 = 1 then mac.byteCnt + 1#16 else mac.byteCnt := by
      simp [step, resetByteCnt, incrementByteCnt, startBackoff, now.idle, now.jam, now.data1,
        now.backOff, now.pAD, now.fCS, busy.finishedQ, not_most, odd_bit nib]
    have crc' : (step cfg (inputs env mac host) mac).crc = crcNext mac.crc 0#4 false := by
      simp [step, dataNibble, initializeCrc, crcStep, crcNext_disabled, now.data0, now.data1,
        now.idle, now.preamble, now.fCS, calm.dly]
    refine ⟨done, gap, preamble ++ body cfg f ++ (sent ++ [fcsNibble mac.crc]), true, ?_, ?_⟩
    · refine .fCS (j := j + 1) later ?_ ?_ ?_ used' crcEn ?_ ?_ (by omega) ?_ ?_ long
      · rw [host_stays]
        exact busy_step quiet busy now.defer (not_big big) no_done rfl busy.valid fun asks => asks
      · rw [host_stays]
        exact wait
      · rw [host_stays]
        exact flop
      · rw [adds, BitVec.toNat_add, nib, BitVec.toNat_ofNat]
        omega
      · simp [length]
      · rw [byte']
        split_ifs with odd
        · rw [BitVec.toNat_add, byte, BitVec.toNat_ofNat]
          omega
        · rw [byte]
          omega
      · have rest : 8 - (j + 1) = 7 - j := by omega
        rw [crc', rest]
        exact grows
    · rw [on, data, ← List.append_assoc]
      exact .sends rfl

theorem taken_fits {f : List Byte} (busy : Busy mac host done f)
    (fits : ∀ f ∈ host.taken, Fits cfg f) : Fits cfg f := by
  apply fits
  rw [busy.taken]
  exact List.mem_append_right _ (List.mem_singleton_self f)

theorem moved (env : Env) {part : List (BitVec 4)} {begun : Bool} (fullD : cfg.fullD = true)
    (words : host.txState = .send → env.dffEmpty = false)
    (plain : cfg.dlyCrcEn = false) (calm : Calm mac)
    (stage : Stage cfg mac host done gap part begun) (fits : ∀ f ∈ host.taken, Fits cfg f) :
    Moved cfg env mac host done gap part begun := by
  have quiet : Quiet cfg (inputs env mac host) := quiet_inputs fullD words
  cases stage with
  | defer now between nib => exact moved_defer quiet plain calm now between nib
  | iPG now between rule1 finished nib => exact moved_iPG quiet plain calm now between rule1 nib
  | idle now between finished long =>
    exact moved_idle quiet plain calm now between finished long
  | preamble now busy send queue first flop used nib less byte crc long =>
    have some_data := List.ne_nil_of_length_pos (taken_fits busy fits).some_data
    exact moved_preamble quiet plain calm now busy send queue flop used first nib less byte long
      some_data
  | data0 now busy send rest more flop used counted long =>
    exact moved_data0 quiet plain calm now busy send rest more flop used counted long
      (taken_fits busy fits)
  | data1 now busy send rest flop used counted long =>
    exact moved_data1 quiet plain calm now busy send rest flop used counted long
      (taken_fits busy fits)
  | pAD now busy wait flop used less counted long =>
    exact moved_pAD quiet plain calm now busy wait flop used less counted long
      (taken_fits busy fits)
  | fCS now busy wait flop used crcEn nib length less byte crc long =>
    exact moved_fCS quiet plain calm now busy wait flop used crcEn nib length less byte crc long
      (taken_fits busy fits)

end EthSendFrame
