import Nios2Ecos.EthSendRun
import Nios2Ecos.EthDeliverRun

/- The MAC in loop-back: what the transmitter puts out goes into the receiver, and the frames come
   back as they were sent. -/
namespace EthLoopback
open EthCrc EthSend
open EthTransmit (State)
open EthDeliver (Received Sending Spaced framed onWire resultOf result byteAt)

structure Filter where
  r_IFG : Bool
  mAC : BitVec 48
  r_Bro : Bool
  r_Pro : Bool
  r_HASH0 : BitVec 32
  r_HASH1 : BitVec 32
  passAll : Bool

def rxConfig (cfg : EthTransmit.Config) (filter : Filter) : EthReceive.Config where
  r_IFG := filter.r_IFG
  hugEn := cfg.hugEn
  dlyCrcEn := cfg.dlyCrcEn
  minFL := cfg.minFL
  maxFL := cfg.maxFL
  mAC := filter.mAC
  r_Bro := filter.r_Bro
  r_Pro := filter.r_Pro
  r_HASH0 := filter.r_HASH0
  r_HASH1 := filter.r_HASH1
  passAll := filter.passAll

structure Loop where
  tx : System
  rx : EthDeliver.System

/-- What the multiplexers of the top level give to the receiver. In full duplex it never sees
    itself transmitting. -/
def rxInputs (mac : State) (controlFrmAddressOK : Bool) : EthReceive.Inputs where
  mRxDV := mac.mTxEn
  mRxD := mac.mTxD
  transmitting := false
  controlFrmAddressOK := controlFrmAddressOK

def clock (cfg : EthTransmit.Config) (filter : Filter) (loop : Loop) (env : Env × Bool) : Loop where
  tx := EthSend.clock cfg loop.tx env.1
  rx := EthDeliver.clock (rxConfig cfg filter) loop.rx (rxInputs loop.tx.mac env.2)

def runs (cfg : EthTransmit.Config) (filter : Filter) (frames : List (List Byte))
    (clocks : List (Env × Bool)) : Loop :=
  clocks.foldl (clock cfg filter) ⟨EthSend.start frames, EthDeliver.start⟩

/- The bytes of a frame on the wire. -/

def fcsBytes : List (BitVec 4) → List Byte
  | low :: high :: rest => (high ++ low) :: fcsBytes rest
  | _ => []

def wireBytes (cfg : EthTransmit.Config) (f : List Byte) : List Byte :=
  f ++ List.replicate (paddedLength cfg f - f.length) 0#8 ++
    if cfg.crcEn then fcsBytes (fcs (crcRun 0xFFFFFFFF#32 (body cfg f)) 8) else []

variable {cfg : EthTransmit.Config} {filter : Filter} {f : List Byte} {frames : List (List Byte)}

theorem nibbles_append (first second : List Byte) :
    nibbles (first ++ second) = nibbles first ++ nibbles second :=
  List.flatMap_append

theorem nibbles_fcsBytes (crc : BitVec 32) : nibbles (fcsBytes (fcs crc 8)) = fcs crc 8 := by
  have pair (low high : BitVec 4) (rest : List (BitVec 4)) :
      nibbles (fcsBytes (low :: high :: rest)) = low :: high :: nibbles (fcsBytes rest) := by
    have joined := EthDeliver.nibbles_joined [] low high
    rw [fcsBytes, ← List.singleton_append, nibbles_append]
    rw [List.nil_append] at joined
    rw [joined]
    rfl
  simp only [fcs, pair]
  rfl

theorem nibbles_zeros (n : Nat) :
    nibbles (List.replicate n 0#8) = List.replicate (2 * n) 0#4 := by
  induction n with
  | zero => rfl
  | succ n ih =>
    rw [List.replicate_succ, ← List.singleton_append, nibbles_append, ih, Nat.mul_succ]
    rfl

theorem nibbles_wireBytes (cfg : EthTransmit.Config) (f : List Byte) :
    nibbles (wireBytes cfg f) = checked cfg f := by
  rw [wireBytes, nibbles_append, nibbles_append, nibbles_zeros, checked, body]
  split_ifs
  · rw [nibbles_fcsBytes]
  · rfl

theorem wireBytes_length (crcEn : cfg.crcEn = true) :
    (wireBytes cfg f).length = paddedLength cfg f + 4 := by
  have padded := EthSendFrame.padded_ge cfg f
  have nibble_count := congrArg List.length (nibbles_wireBytes cfg f)
  rw [EthDeliver.nibbles_length, checked, if_pos crcEn, List.length_append, fcs_length, body,
    List.length_append, EthDeliver.nibbles_length, List.length_replicate] at nibble_count
  omega

theorem wire_good (crcEn : cfg.crcEn = true) :
    crcError (crcRun 0xFFFFFFFF#32 (nibbles (wireBytes cfg f))) = false := by
  rw [nibbles_wireBytes, checked, if_pos crcEn]
  exact (check_iff (fcs_length _ 8)).mpr rfl

/- The stream of the transmitter as the receiver sees it. -/

def asWire (out : Bool × BitVec 4) : Option (BitVec 4) := if out.1 then some out.2 else none

/-- The gap before the first frame, and the last one. -/
def firstGap : List (Nat × List Byte) → Nat → Nat
  | [], last => last
  | p :: _, _ => p.1

def sendings (cfg : EthTransmit.Config) : List (Nat × List Byte) → Nat → List Sending
  | [], _ => []
  | p :: done, last => ⟨15, wireBytes cfg p.2, none, firstGap done last⟩ :: sendings cfg done last

theorem as_stream (done : List (Nat × List Byte)) (last : Nat) :
    (wire cfg done ++ List.replicate last (false, 0#4)).map asWire =
      EthDeliver.stream (firstGap done last) (sendings cfg done last) := by
  induction done with
  | nil => simp [wire, EthDeliver.stream, firstGap, sendings, asWire]
  | cons p done ih =>
    have first : wire cfg (p :: done) = List.replicate p.1 (false, 0#4) ++
        (preamble ++ checked cfg p.2).map (true, ·) ++ wire cfg done := by
      simp [wire]
    have data (nibs : List (BitVec 4)) : (nibs.map (true, ·)).map asWire = nibs.map some := by
      simp [asWire, Function.comp_def]
    rw [first, List.append_assoc, List.append_assoc, List.map_append, List.map_append, ih, data]
    have gap : (List.replicate p.1 (false, 0#4)).map asWire =
        (List.replicate p.1 none : List (Option (BitVec 4))) := by
      simp [asWire]
    rw [gap, EthDeliver.stream, EthDeliver.stream, firstGap, sendings, List.flatMap_cons, framed,
      nibbles_wireBytes]
    simp [preamble]

theorem loop_tx (clocks : List (Env × Bool)) :
    (runs cfg filter frames clocks).tx = EthSend.runs cfg frames (clocks.map Prod.fst) := by
  induction clocks using List.reverseRecOn with
  | nil => rfl
  | append_singleton clocks env ih =>
    rw [runs, List.foldl_append, List.map_append, EthSend.runs, List.foldl_append]
    have before : (clocks.foldl (clock cfg filter) ⟨EthSend.start frames, EthDeliver.start⟩).tx =
        (clocks.map Prod.fst).foldl (EthSend.clock cfg) (EthSend.start frames) := ih
    rw [← before]
    rfl

/-- The receiver is a clock behind. -/
theorem loop_rx (cfg : EthTransmit.Config) (filter : Filter) (frames : List (List Byte))
    (clocks : List (Env × Bool)) : ∃ ins,
    (runs cfg filter frames clocks).rx = EthDeliver.runs (rxConfig cfg filter) ins ∧
      (∀ inp ∈ ins, inp.transmitting = false) ∧
      ins.map onWire ++ [asWire ((runs cfg filter frames clocks).tx.mac.mTxEn,
        (runs cfg filter frames clocks).tx.mac.mTxD)] =
        none :: (runs cfg filter frames clocks).tx.stream.map asWire := by
  induction clocks using List.reverseRecOn with
  | nil => exact ⟨[], rfl, by simp, rfl⟩
  | append_singleton clocks env ih =>
    obtain ⟨ins, rx, listens, wired⟩ := ih
    have next : runs cfg filter frames (clocks ++ [env]) =
        clock cfg filter (runs cfg filter frames clocks) env := by
      rw [runs, List.foldl_append]
      rfl
    refine ⟨ins ++ [rxInputs (runs cfg filter frames clocks).tx.mac env.2], ?_, ?_, ?_⟩
    · rw [next, EthDeliver.runs, List.foldl_append]
      have before : (runs cfg filter frames clocks).rx =
          ins.foldl (EthDeliver.clock (rxConfig cfg filter)) EthDeliver.start := rx
      rw [← before]
      rfl
    · intro inp member
      rcases List.mem_append.mp member with earlier | last
      · exact listens inp earlier
      · rw [List.mem_singleton.mp last]
        rfl
    · rw [next, List.map_append]
      have sees : [rxInputs (runs cfg filter frames clocks).tx.mac env.2].map onWire =
          [asWire ((runs cfg filter frames clocks).tx.mac.mTxEn,
            (runs cfg filter frames clocks).tx.mac.mTxD)] := rfl
      have grown : (clock cfg filter (runs cfg filter frames clocks) env).tx.stream =
          (runs cfg filter frames clocks).tx.stream ++
            [((clock cfg filter (runs cfg filter frames clocks) env).tx.mac.mTxEn,
              (clock cfg filter (runs cfg filter frames clocks) env).tx.mac.mTxD)] := rfl
      rw [sees, wired, grown, List.map_append]
      rfl

theorem spaced_sendings {done : List (Nat × List Byte)} {last count : Nat}
    (crcEn : cfg.crcEn = true) (gap : filter.r_IFG = true ∨ 7 ≤ cfg.iPGT.toNat)
    (fits : ∀ p ∈ done, Fits cfg p.2 ∧ 4 ≤ paddedLength cfg p.2)
    (gaps : ∀ p ∈ done, cfg.iPGT.toNat + 3 ≤ p.1) (long : 3 ≤ last)
    (counted : firstGap done last ≤ count + 1) :
    Spaced (rxConfig cfg filter) count (sendings cfg done last) := by
  induction done generalizing count with
  | nil => trivial
  | cons p done ih =>
    obtain ⟨fit, four⟩ := fits p List.mem_cons_self
    have counters := fit.counters
    have gap_here := gaps p List.mem_cons_self
    have gaps' : ∀ p ∈ done, cfg.iPGT.toNat + 3 ≤ p.1 :=
      fun p member => gaps p (List.mem_cons_of_mem _ member)
    have gap_next : 3 ≤ firstGap done last := by
      cases done with
      | nil => exact long
      | cons q done =>
        have long_next := gaps' q List.mem_cons_self
        rw [firstGap]
        omega
    have length := wireBytes_length (f := p.2) crcEn
    rw [firstGap] at counted
    refine ⟨?_, Nat.succ_pos 14, ?_, ?_, ?_, gap_next, ?_⟩
    · rcases gap with on | seven
      · exact .inl on
      · refine .inr ?_
        simp only
        omega
    · simp only [length]
      omega
    · simp only [length, Option.toList_none, List.length_nil]
      omega
    · rcases fit.limit with huge | limit
      · exact .inl huge
      · refine .inr ?_
        simp only [length, Option.toList_none, List.length_nil, rxConfig]
        omega
    · apply ih
      · exact fun p member => fits p (List.mem_cons_of_mem _ member)
      · exact gaps'
      · simp only
        omega

theorem sendings_results (done : List (Nat × List Byte)) (last : Nat) :
    (sendings cfg done last).map (result (rxConfig cfg filter)) =
      (done.map Prod.snd).map fun f =>
        resultOf (rxConfig cfg filter) (wireBytes cfg f) false := by
  induction done with
  | nil => rfl
  | cons p done ih =>
    rw [sendings, List.map_cons, ih]
    rfl

def returned (cfg : EthTransmit.Config) (filter : Filter) (f : List Byte) : Received where
  bytes := wireBytes cfg f
  aborted := !EthDeliver.accepts (rxConfig cfg filter) (wireBytes cfg f)
  status := ⟨false, paddedLength cfg f + 4 < cfg.minFL.toNat, false, false⟩

theorem loop_back (fullD : cfg.fullD = true) (plain : cfg.dlyCrcEn = false)
    (crcEn : cfg.crcEn = true) (gap : filter.r_IFG = true ∨ 7 ≤ cfg.iPGT.toNat)
    (fits : ∀ f ∈ frames, Fits cfg f ∧ 4 ≤ paddedLength cfg f) {clocks : List (Env × Bool)}
    (fed : Fed cfg (EthSend.start frames) (clocks.map Prod.fst))
    (ready : ∀ env ∈ clocks, env.1.txStart = true ∧ env.1.txStatAck = true)
    (enough : (frames.map fun f => cfg.iPGT.toNat + 22 + (checked cfg f).length).sum + 4 ≤
      clocks.length) :
    (runs cfg filter frames clocks).rx.reader.received = frames.map (returned cfg filter) := by
  have ready' : ∀ env ∈ clocks.map Prod.fst, env.txStart = true ∧ env.txStatAck = true := by
    intro env member
    obtain ⟨both, inside, rfl⟩ := List.mem_map.mp member
    exact ready both inside
  obtain ⟨done, last, all, gaps, rest, stream⟩ := EthSendRun.all_sent fullD plain
    (fun f member => (fits f member).1) fed ready' 4 (by simpa using enough)
  obtain ⟨ins, rx, listens, wired⟩ := loop_rx cfg filter frames clocks
  obtain ⟨n, rfl⟩ : ∃ n, last = n + 1 := ⟨last - 1, by omega⟩
  have fits' : ∀ p ∈ done, Fits cfg p.2 ∧ 4 ≤ paddedLength cfg p.2 := by
    intro p member
    apply fits
    rw [← all]
    exact List.mem_map_of_mem member
  have spaced : Spaced (rxConfig cfg filter) (firstGap done n + 1 - 1) (sendings cfg done n) :=
    spaced_sendings crcEn gap fits' gaps (by omega) (by omega)
  -- the receiver has not seen the last clock of the gap
  have seen : ins.map onWire =
      EthDeliver.stream (firstGap done n + 1) (sendings cfg done n) := by
    rw [loop_tx, stream, List.replicate_succ', ← List.append_assoc, List.map_append,
      as_stream] at wired
    have apart := List.append_inj_left' (wired.trans (List.cons_append ..).symm) rfl
    rw [apart, EthDeliver.stream, EthDeliver.stream, List.replicate_succ, List.cons_append]
  rw [rx, EthDeliverRun.frames_received plain (Nat.succ_pos _) spaced ins listens seen,
    sendings_results, all]
  apply List.map_congr_left
  intro f _
  rw [resultOf, returned, wire_good crcEn, wireBytes_length crcEn]
  rfl

def station : Filter := ⟨false, 0x001122334455#48, false, false, 0#32, 0#32, false⟩

def toStation : List Byte := [0x00#8, 0x11#8, 0x22#8, 0x33#8, 0x44#8, 0x55#8, 0xAB#8]

theorem one_frame_returns :
    (runs EthSendRun.fullDuplex station [toStation]
      (List.replicate 180 (EthSendRun.ready, false))).rx.reader.received =
      [toStation].map (returned EthSendRun.fullDuplex station) :=
  loop_back rfl rfl rfl (.inr (by decide))
    (by
      intro f member
      rw [List.mem_singleton.mp member]
      refine ⟨?_, by decide⟩
      constructor <;> decide)
    (by
      rw [List.map_replicate]
      exact EthSendRun.ready_fed _ _ 180)
    (by
      intro env member
      rw [List.eq_of_mem_replicate member]
      exact ⟨rfl, rfl⟩)
    (by decide +kernel)

/- Noise on the line. -/

/-- A frame of which some nibbles next to each other may arrive as others. -/
structure Noisy (cfg : EthTransmit.Config) where
  frame : List Byte
  before : List (BitVec 4)
  sent : List (BitVec 4)
  got : List (BitVec 4)
  after : List (BitVec 4)
  bytes : List Byte
  whole : nibbles (wireBytes cfg frame) = before ++ sent ++ after
  taken : nibbles bytes = before ++ got ++ after
  lengths : got.length = sent.length
  short : sent.length ≤ 8

theorem noise_error (crcEn : cfg.crcEn = true) (noisy : Noisy cfg) :
    crcError (crcRun 0xFFFFFFFF#32 (nibbles noisy.bytes)) = decide (noisy.got ≠ noisy.sent) := by
  have good := wire_good (f := noisy.frame) crcEn
  rw [noisy.whole] at good
  rw [noisy.taken]
  by_cases same : noisy.got = noisy.sent
  · rw [same, good]
    simp
  · rw [burst_seen noisy.lengths.symm noisy.short (Ne.symm same) good]
    simp [same]

def arrives (p : Noisy cfg × Nat × Nat) : Sending := ⟨p.2.1, p.1.bytes, none, p.2.2⟩

theorem noise_reported {rx : EthReceive.Config} {gap : Nat} (plain : rx.dlyCrcEn = false)
    (crcEn : cfg.crcEn = true) (idle : 0 < gap) (noisy : List (Noisy cfg × Nat × Nat))
    (spaced : Spaced rx (gap - 1) (noisy.map arrives)) (clocks : List EthReceive.Inputs)
    (listens : ∀ inp ∈ clocks, inp.transmitting = false)
    (wired : clocks.map onWire = EthDeliver.stream gap (noisy.map arrives)) :
    (EthDeliver.runs rx clocks).reader.received.map (fun r => r.status.crcError) =
      noisy.map fun p => decide (p.1.got ≠ p.1.sent) := by
  rw [EthDeliverRun.frames_received plain idle spaced clocks listens wired, List.map_map,
    List.map_map]
  apply List.map_congr_left
  intro p _
  exact noise_error crcEn p.1

def firstWrong : Noisy EthSendRun.fullDuplex where
  frame := toStation
  before := []
  sent := [0x0#4]
  got := [0x8#4]
  after := (nibbles (wireBytes EthSendRun.fullDuplex toStation)).tail
  bytes := 0x08#8 :: (wireBytes EthSendRun.fullDuplex toStation).tail
  whole := by decide +kernel
  taken := by decide +kernel
  lengths := rfl
  short := by decide

theorem first_wrong_reported :
    (EthDeliver.runs (rxConfig EthSendRun.fullDuplex station)
        ((EthDeliver.stream 12 ([(firstWrong, 15, 12)].map arrives)).map
          EthDeliver.fromWire)).reader.received.map (fun r => r.status.crcError) =
      [(firstWrong, 15, 12)].map fun p => decide (p.1.got ≠ p.1.sent) :=
  noise_reported rfl rfl (by decide) [(firstWrong, 15, 12)]
    (by
      refine ⟨.inr (by decide), by decide, ?_, ?_, .inr ?_, by decide, trivial⟩
      · decide +kernel
      · decide +kernel
      · decide +kernel)
    _ (EthDeliver.fromWire_listens _) (EthDeliver.onWire_fromWire _)

end EthLoopback
