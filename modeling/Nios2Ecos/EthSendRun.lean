import Nios2Ecos.EthSendFrame

/- What the transmitter puts on the MII in a whole run of a DMA whose FIFO keeps up, whatever its
   other clocks. -/
namespace EthSendRun
open EthCrc EthTransmit EthSend EthSendFrame

variable {cfg : Config} {env : Env} {mac mac' : State} {host host' : Host} {sys : System}
variable {done done' : List (Nat × List Byte)} {gap gap' : Nat} {part part' : List (BitVec 4)}
variable {begun begun' : Bool} {out : Bool × BitVec 4} {f : List Byte} {frames : List (List Byte)}

theorem wire_snoc (cfg : Config) (done : List (Nat × List Byte)) (gap : Nat) (f : List Byte) :
    wire cfg (done ++ [(gap, f)]) = line cfg done gap (preamble ++ checked cfg f) := by
  simp [wire, line]

theorem line_change
    (change : Change cfg host host' out done gap part begun done' gap' part' begun') :
    line cfg done' gap' part' = line cfg done gap part ++ [out] := by
  cases change with
  | waits nothing soon =>
    rw [nothing]
    simp [line, List.replicate_succ']
  | starts nothing =>
    rw [nothing]
    simp [line, List.replicate_succ']
  | sends puts =>
    rw [puts]
    simp [line]
  | @ends part f nibble puts taken wait whole =>
    have closed : line cfg (done ++ [(gap, f)]) 0 [] = wire cfg (done ++ [(gap, f)]) := by
      simp [line]
    rw [closed, wire_snoc, ← whole, puts]
    simp [line]

theorem done_grows
    (change : Change cfg host host' out done gap part begun done' gap' part' begun') :
    done <+: done' := by
  cases change with
  | waits => exact List.prefix_refl done
  | starts => exact List.prefix_refl done
  | sends => exact List.prefix_refl done
  | ends => exact List.prefix_append done _

theorem body_eq (cfg : Config) (sent queue : List Byte) : ∃ padding,
    checked cfg (sent ++ queue) = nibbles sent ++ (nibbles queue ++ padding) := by
  refine ⟨(checked cfg (sent ++ queue)).drop (nibbles (sent ++ queue)).length, ?_⟩
  have split : nibbles (sent ++ queue) = nibbles sent ++ nibbles queue := List.flatMap_append
  rw [checked, body, List.append_assoc, List.drop_left, split, List.append_assoc]

theorem under_way (stage : Stage cfg mac host done gap part true) :
    cfg.iPGT.toNat + 3 ≤ gap ∧ ∃ f rest, host.taken = done.map Prod.snd ++ [f] ∧ rest ≠ [] ∧
      part ++ rest = preamble ++ checked cfg f := by
  cases stage with
  | @preamble gap j f now busy send queue first flop used nib less byte crc long =>
    refine ⟨long, f, List.replicate (15 - j) 5#4 ++ [0xD#4] ++ checked cfg f, busy.taken, ?_, ?_⟩
    · simp
    · have fives : List.replicate 15 5#4 =
          List.replicate j 5#4 ++ List.replicate (15 - j) 5#4 := by
        rw [← List.replicate_add, Nat.add_sub_cancel' less]
      rw [preamble, fives, List.append_assoc, List.append_assoc, List.append_assoc]
  | @data0 gap sent queue now busy send rest more flop used counted long =>
    obtain ⟨padding, whole⟩ := body_eq cfg sent queue
    refine ⟨long, sent ++ queue, nibbles queue ++ padding, busy.taken, ?_, ?_⟩
    · obtain ⟨byte, queue, rfl⟩ := List.exists_cons_of_ne_nil more
      simp [nibbles]
    · rw [whole, List.append_assoc]
  | @data1 gap sent queue byte now busy send rest flop used counted long =>
    obtain ⟨padding, whole⟩ := body_eq cfg sent (byte :: queue)
    refine ⟨long, sent ++ byte :: queue, (byte >>> 4).setWidth 4 :: (nibbles queue ++ padding),
      busy.taken, List.cons_ne_nil _ _, ?_⟩
    rw [whole]
    simp [nibbles, low]
  | @pAD gap m f now busy wait flop used less counted long =>
    obtain ⟨more, all⟩ : ∃ more, 2 * (paddedLength cfg f - f.length) = m + (more + 1) :=
      ⟨2 * (paddedLength cfg f - f.length) - m - 1, by omega⟩
    refine ⟨long, f, List.replicate (more + 1) 0#4 ++ (checked cfg f).drop (body cfg f).length,
      busy.taken, ?_, ?_⟩
    · simp [List.replicate_succ]
    · have split : body cfg f =
          nibbles f ++ List.replicate m 0#4 ++ List.replicate (more + 1) 0#4 := by
        rw [body, all, List.replicate_add, List.append_assoc]
      rw [checked, List.drop_left, split]
      simp only [List.append_assoc]
  | @fCS gap j f sent now busy wait flop used crcEn nib length less byte crc long =>
    refine ⟨long, f, fcs mac.crc (8 - j), busy.taken, ?_, ?_⟩
    · apply List.ne_nil_of_length_pos
      rw [fcs_length]
      omega
    · rw [checked, if_pos crcEn, ← crc]
      simp

theorem between_frames (stage : Stage cfg mac host done gap part false) : part = [] ∧
    (host.taken = done.map Prod.snd ∨
      host.txState = .send ∧ ∃ f, host.taken = done.map Prod.snd ++ [f]) := by
  have some_or_none (between : Between mac host done) : host.taken = done.map Prod.snd ∨
      host.txState = .send ∧ ∃ f, host.taken = done.map Prod.snd ++ [f] := by
    have taken := between.taken
    split_ifs at taken with send
    · exact .inr ⟨send, host.queue, taken⟩
    · exact .inl (by simpa using taken)
  cases stage with
  | defer now between => exact ⟨rfl, some_or_none between⟩
  | iPG now between => exact ⟨rfl, some_or_none between⟩
  | idle now between => exact ⟨rfl, some_or_none between⟩

theorem offered_at_hand (stage : Stage cfg mac host done gap part begun)
    (send : host.txState = .send) : ∃ f, host.taken = done.map Prod.snd ++ [f] := by
  have offers (between : Between mac host done) :
      ∃ f, host.taken = done.map Prod.snd ++ [f] :=
    ⟨host.queue, by rw [between.taken, if_pos send]⟩
  cases begun with
  | true =>
    obtain ⟨_, f, _, taken, _⟩ := under_way stage
    exact ⟨f, taken⟩
  | false =>
    cases stage with
    | defer now between => exact offers between
    | iPG now between => exact offers between
    | idle now between => exact offers between

/-- What holds in every run. -/
structure Sent (cfg : Config) (frames : List (List Byte)) (sys : System)
    (done : List (Nat × List Byte)) (gap : Nat) (part : List (BitVec 4)) (begun : Bool) :
    Prop where
  calm : Calm sys.mac
  stage : Stage cfg sys.mac sys.host done gap part begun
  stream : sys.stream = line cfg done gap part
  gaps : ∀ p ∈ done, cfg.iPGT.toNat + 3 ≤ p.1
  conserved : sys.host.taken ++ sys.host.backlog = frames

theorem sent_start (cfg : Config) (frames : List (List Byte)) :
    Sent cfg frames (start frames) [] 0 [] false := by
  refine ⟨⟨rfl, rfl, rfl⟩, .defer in_reset ⟨rfl, rfl, rfl, ?_, ?_⟩ rfl, rfl, ?_, rfl⟩
  · intro other
    cases other
  · intro other
    cases other
  · intro p member
    cases member

theorem host_conserves (env : Env) (mac : State) (host : Host) :
    (hostStep env mac host).taken ++ (hostStep env mac host).backlog =
      host.taken ++ host.backlog := by
  cases state : host.txState with
  | idle =>
    cases backlog : host.backlog with
    | nil => simp [hostStep, state, backlog]
    | cons f rest => cases ready : env.txStart <;> simp [hostStep, state, backlog, ready]
  | send => simp [hostStep, state]
  | wait => simp [hostStep, state]

theorem host_taken (env : Env) (mac : State) (host : Host) :
    host.taken <+: (hostStep env mac host).taken := by
  cases state : host.txState with
  | idle =>
    cases backlog : host.backlog with
    | nil => simp [hostStep, state, backlog]
    | cons f rest => cases ready : env.txStart <;> simp [hostStep, state, backlog, ready]
  | send => simp [hostStep, state]
  | wait => simp [hostStep, state]

theorem sent_clock (fullD : cfg.fullD = true) (plain : cfg.dlyCrcEn = false)
    (fits : ∀ f ∈ frames, Fits cfg f) (sent : Sent cfg frames sys done gap part begun)
    (words : sys.host.txState = .send → env.dffEmpty = false) : ∃ out done' gap' part' begun',
      Sent cfg frames (clock cfg sys env) done' gap' part' begun' ∧
      Change cfg sys.host (clock cfg sys env).host out done gap part begun done' gap' part'
        begun' := by
  have taken_fit : ∀ f ∈ sys.host.taken, Fits cfg f := by
    intro f member
    apply fits
    rw [← sent.conserved]
    exact List.mem_append_left _ member
  obtain ⟨calm, done', gap', part', begun', stage, change⟩ :=
    moved env fullD words plain sent.calm sent.stage taken_fit
  refine ⟨_, done', gap', part', begun', ⟨calm, stage, ?_, ?_, ?_⟩, change⟩
  · rw [line_change change, ← sent.stream]
    rfl
  · intro p member
    cases change with
    | waits => exact sent.gaps p member
    | starts => exact sent.gaps p member
    | sends => exact sent.gaps p member
    | ends =>
      rcases List.mem_append.mp member with earlier | last
      · exact sent.gaps p earlier
      · rw [List.mem_singleton.mp last]
        exact (under_way sent.stage).1
  · rw [← sent.conserved]
    exact host_conserves env sys.mac sys.host

theorem sent_clocks (fullD : cfg.fullD = true) (plain : cfg.dlyCrcEn = false)
    (fits : ∀ f ∈ frames, Fits cfg f) (sent : Sent cfg frames sys done gap part begun)
    {clocks : List Env} (fed : Fed cfg sys clocks) : ∃ done' gap' part' begun',
      Sent cfg frames (clocks.foldl (clock cfg) sys) done' gap' part' begun' ∧
      done <+: done' := by
  induction clocks generalizing sys done gap part begun with
  | nil => exact ⟨done, gap, part, begun, sent, List.prefix_refl done⟩
  | cons env clocks ih =>
    obtain ⟨words, fed'⟩ := fed_cons fed
    obtain ⟨_, _, _, _, _, sent', change⟩ := sent_clock fullD plain fits sent words
    obtain ⟨done', gap', part', begun', last, grown⟩ := ih sent' fed'
    exact ⟨done', gap', part', begun', last, (done_grows change).trans grown⟩

theorem done_of_frames (sent : Sent cfg frames sys done gap part begun) :
    done.map Prod.snd <+: frames := by
  have of_taken : sys.host.taken <+: frames := ⟨sys.host.backlog, sent.conserved⟩
  cases begun with
  | false =>
    rcases (between_frames sent.stage).2 with none | ⟨_, f, one⟩
    · exact none ▸ of_taken
    · exact (one ▸ List.prefix_append _ _ : done.map Prod.snd <+: _).trans of_taken
  | true =>
    obtain ⟨_, f, _, taken, _⟩ := under_way sent.stage
    exact (taken ▸ List.prefix_append _ _ : done.map Prod.snd <+: _).trans of_taken

theorem frames_on_wire (fullD : cfg.fullD = true) (plain : cfg.dlyCrcEn = false)
    (fits : ∀ f ∈ frames, Fits cfg f) {clocks : List Env}
    (fed : Fed cfg (start frames) clocks) : ∃ done gap part,
      (runs cfg frames clocks).stream =
        wire cfg done ++ List.replicate gap (false, 0#4) ++ part.map (true, ·) ∧
      (∀ p ∈ done, cfg.iPGT.toNat + 3 ≤ p.1) ∧ done.map Prod.snd <+: frames ∧
      (part = [] ∨ cfg.iPGT.toNat + 3 ≤ gap ∧
        ∃ f, done.map Prod.snd ++ [f] <+: frames ∧ part <+: preamble ++ checked cfg f) := by
  obtain ⟨done, gap, part, begun, sent, _⟩ :=
    sent_clocks fullD plain fits (sent_start cfg frames) fed
  refine ⟨done, gap, part, sent.stream, sent.gaps, done_of_frames sent, ?_⟩
  cases begun with
  | false => exact .inl (between_frames sent.stage).1
  | true =>
    obtain ⟨long, f, rest, taken, _, whole⟩ := under_way sent.stage
    have of_taken : (runs cfg frames clocks).host.taken <+: frames :=
      ⟨(runs cfg frames clocks).host.backlog, sent.conserved⟩
    exact .inr ⟨long, f, taken ▸ of_taken, rest, whole⟩

/-- The registers after a reset, but in full duplex. -/
def fullDuplex : Config := { padOnly with crcEn := true }

def ready : Env := ⟨true, false, true, false, false, false, false⟩

theorem ready_fed (cfg : Config) (sys : System) (n : Nat) :
    Fed cfg sys (List.replicate n ready) := by
  apply fed_always
  intro env member
  rw [List.eq_of_mem_replicate member]
  rfl

theorem one_byte_fits : ∀ f ∈ [[0x12#8]], Fits fullDuplex f := by
  intro f member
  rw [List.mem_singleton.mp member]
  constructor <;> decide

theorem one_frame_on_wire : ∃ done gap part,
    (runs fullDuplex [[0x12#8]] (List.replicate 90 ready)).stream =
      wire fullDuplex done ++ List.replicate gap (false, 0#4) ++ part.map (true, ·) ∧
    (∀ p ∈ done, fullDuplex.iPGT.toNat + 3 ≤ p.1) ∧ done.map Prod.snd <+: [[0x12#8]] ∧
    (part = [] ∨ fullDuplex.iPGT.toNat + 3 ≤ gap ∧
      ∃ f, done.map Prod.snd ++ [f] <+: [[0x12#8]] ∧ part <+: preamble ++ checked fullDuplex f) :=
  frames_on_wire rfl rfl one_byte_fits (ready_fed _ _ 90)

/- How long it takes. -/

def clocksLeft (cfg : Config) (f : List Byte) (gap : Nat) (part : List (BitVec 4)) :
    Bool → Nat
  | true => 16 + (checked cfg f).length - part.length
  | false => max 1 (cfg.iPGT.toNat + 3 - gap) + 16 + (checked cfg f).length

theorem some_left (stage : Stage cfg mac host done gap part begun)
    (taken : host.taken = done.map Prod.snd ++ [f]) : 0 < clocksLeft cfg f gap part begun := by
  cases begun with
  | false =>
    rw [clocksLeft]
    omega
  | true =>
    obtain ⟨_, other, rest, taken', more, whole⟩ := under_way stage
    rw [taken'] at taken
    have same : other = f := by simpa using taken
    have lengths := congrArg List.length whole
    have some_rest := List.length_pos_of_ne_nil more
    rw [same, List.length_append, List.length_append] at lengths
    have sixteen : preamble.length = 16 := rfl
    rw [clocksLeft]
    omega

theorem nearer (change : Change cfg host host' out done gap part begun done' gap' part' begun')
    (stage : Stage cfg mac host done gap part begun)
    (stage' : Stage cfg mac' host' done' gap' part' begun') (kept : host.taken <+: host'.taken)
    (taken : host.taken = done.map Prod.snd ++ [f]) :
    (∃ gap, done' = done ++ [(gap, f)]) ∨ done' = done ∧
      host'.taken = done.map Prod.snd ++ [f] ∧
      clocksLeft cfg f gap' part' begun' < clocksLeft cfg f gap part begun := by
  have left := some_left stage taken
  -- the frame taken is still the last one
  have still {g : List Byte} (now : host'.taken = done.map Prod.snd ++ [g]) :
      host'.taken = done.map Prod.snd ++ [f] := by
    rw [taken, now] at kept
    have same := kept.eq_of_length (by simp)
    rw [now, same]
  cases change with
  | waits nothing soon =>
    obtain ⟨_, here⟩ := between_frames stage
    obtain ⟨_, there⟩ := between_frames stage'
    rcases here with none | ⟨send, _⟩
    · rw [none] at taken
      simp at taken
    rcases there with none | ⟨_, g, one⟩
    · rw [taken, none] at kept
      have lengths := kept.length_le
      simp at lengths
    · have short := soon send
      refine .inr ⟨rfl, still one, ?_⟩
      simp only [clocksLeft]
      omega
  | starts nothing =>
    obtain ⟨_, g, _, taken', _⟩ := under_way stage'
    refine .inr ⟨rfl, still taken', ?_⟩
    simp only [clocksLeft, List.length_nil]
    omega
  | sends puts =>
    obtain ⟨_, g, _, taken', _⟩ := under_way stage'
    refine .inr ⟨rfl, still taken', ?_⟩
    simp only [clocksLeft, List.length_append, List.length_singleton] at left ⊢
    omega
  | ends puts taken' wait whole =>
    rw [taken'] at taken
    refine .inl ⟨gap, ?_⟩
    simpa using taken

theorem owed_sent (fullD : cfg.fullD = true) (plain : cfg.dlyCrcEn = false)
    (fits : ∀ f ∈ frames, Fits cfg f) (sent : Sent cfg frames sys done gap part begun)
    (taken : sys.host.taken = done.map Prod.snd ++ [f]) {clocks : List Env}
    (fed : Fed cfg sys clocks) (enough : clocksLeft cfg f gap part begun ≤ clocks.length) :
    ∃ done' gap' part' begun' gap'',
      Sent cfg frames (clocks.foldl (clock cfg) sys) done' gap' part' begun' ∧
      done ++ [(gap'', f)] <+: done' := by
  induction clocks generalizing sys gap part begun with
  | nil =>
    have left := some_left sent.stage taken
    rw [List.length_nil] at enough
    omega
  | cons env clocks ih =>
    obtain ⟨words, fed'⟩ := fed_cons fed
    obtain ⟨_, done', gap', part', begun', sent', change⟩ :=
      sent_clock fullD plain fits sent words
    have kept : sys.host.taken <+: (clock cfg sys env).host.taken :=
      host_taken env sys.mac sys.host
    rcases nearer change sent.stage sent'.stage kept taken with ⟨long, ended⟩ | ⟨same, still, less⟩
    · obtain ⟨done'', gap'', part'', begun'', last, grown⟩ :=
        sent_clocks fullD plain fits sent' fed'
      exact ⟨done'', gap'', part'', begun'', long, last, ended ▸ grown⟩
    · subst same
      rw [List.length_cons] at enough
      exact ih sent' still fed' (by omega)

theorem clocksLeft_le (cfg : Config) (f : List Byte) (gap : Nat) (part : List (BitVec 4))
    (begun : Bool) :
    clocksLeft cfg f gap part begun ≤ cfg.iPGT.toNat + 19 + (checked cfg f).length := by
  cases begun <;> simp only [clocksLeft] <;> omega

theorem offered_sent {earlier : List (List Byte)} (fullD : cfg.fullD = true)
    (plain : cfg.dlyCrcEn = false) (fits : ∀ f ∈ frames, Fits cfg f) {before after : List Env}
    (fed : Fed cfg (start frames) (before ++ after))
    (send : (runs cfg frames before).host.txState = .send)
    (taken : (runs cfg frames before).host.taken = earlier ++ [f])
    (enough : cfg.iPGT.toNat + 19 + (checked cfg f).length ≤ after.length) :
    ∃ done gap rest, done.map Prod.snd = earlier ∧
      (runs cfg frames (before ++ after)).stream = wire cfg (done ++ [(gap, f)]) ++ rest := by
  obtain ⟨fed_before, fed_after⟩ := fed_append fed
  obtain ⟨done, gap, part, begun, sent, _⟩ :=
    sent_clocks fullD plain fits (sent_start cfg frames) fed_before
  obtain ⟨g, at_hand⟩ := offered_at_hand sent.stage send
  have both : earlier ++ [f] = done.map Prod.snd ++ [g] := taken.symm.trans at_hand
  obtain ⟨earlier_eq, last⟩ := List.append_inj' both rfl
  have same : f = g := by simpa using last
  subst same
  obtain ⟨done', gap', part', begun', long, last, rest, grown⟩ := owed_sent fullD plain fits sent
    at_hand fed_after ((clocksLeft_le cfg f gap part begun).trans enough)
  refine ⟨done, long, wire cfg rest ++ List.replicate gap' (false, 0#4) ++
    part'.map (true, ·), earlier_eq.symm, ?_⟩
  have stream := last.stream
  have run : (runs cfg frames (before ++ after)) =
      after.foldl (clock cfg) (before.foldl (clock cfg) (start frames)) := List.foldl_append
  rw [run, stream, line, ← grown]
  simp [wire]

theorem one_frame_sent : ∃ done gap rest, done.map Prod.snd = [] ∧
    (runs fullDuplex [[0x12#8]] (List.replicate 3 ready ++ List.replicate 170 ready)).stream =
      wire fullDuplex (done ++ [(gap, [0x12#8])]) ++ rest :=
  offered_sent rfl rfl one_byte_fits (ready_fed _ _ (3 + 170))
    (by decide +kernel) (by decide +kernel) (by decide +kernel)

/- A DMA that is always ready sends all the frames. -/

/-- The clocks until the DMA could take the next frame. -/
inductive Waits (cfg : Config) (host : Host) (done : List (Nat × List Byte)) (gap : Nat)
    (part : List (BitVec 4)) (begun : Bool) : Nat → Prop where
  | atHand {f : List Byte} (taken : host.taken = done.map Prod.snd ++ [f]) :
      Waits cfg host done gap part begun (clocksLeft cfg f gap part begun + 2)
  | status (taken : host.taken = done.map Prod.snd) (wait : host.txState = .wait) :
      Waits cfg host done gap part begun (if host.txStatValidR then 1 else 2)
  | rests (taken : host.taken = done.map Prod.snd) (idle : host.txState = .idle) :
      Waits cfg host done gap part begun 0

def cost (cfg : Config) (backlog : List (List Byte)) : Nat :=
  (backlog.map fun f => cfg.iPGT.toNat + 22 + (checked cfg f).length).sum

theorem end_status (stage : Stage cfg mac host done gap part begun)
    (taken : host.taken = done.map Prod.snd) (wait : host.txState = .wait) :
    mac.txDone = true := by
  cases begun with
  | true =>
    obtain ⟨_, f, _, other, _⟩ := under_way stage
    rw [taken] at other
    simp at other
  | false =>
    cases stage with
    | defer now between => exact between.status wait
    | iPG now between => exact between.status wait
    | idle now between => exact between.status wait

/-- A clock that does not end a frame leaves the list of those that are out. -/
theorem same_done (change : Change cfg host host' out done gap part begun done' gap' part' begun')
    (taken : host.taken = done.map Prod.snd) : done' = done := by
  cases change with
  | waits => rfl
  | starts => rfl
  | sends => rfl
  | ends puts other =>
    rw [taken] at other
    simp at other

theorem ended_waits (change : Change cfg host host' out done gap part begun done' gap' part' begun')
    (stage' : Stage cfg mac' host' done' gap' part' begun') {long : Nat}
    (ended : done' = done ++ [(long, f)]) :
    host'.txState = .wait ∧ host'.taken = done'.map Prod.snd := by
  cases change with
  | waits => simp at ended
  | starts => simp at ended
  | sends => simp at ended
  | ends puts taken wait whole =>
    refine ⟨wait, ?_⟩
    rcases (between_frames stage').2 with none | ⟨send, _⟩
    · exact none
    · rw [wait] at send
      cases send

theorem waits_step {n : Nat} (stage : Stage cfg mac host done gap part begun)
    (waits : Waits cfg host done gap part begun n) (ready : env.txStart = true)
    (ack : env.txStatAck = true)
    (change : Change cfg host (hostStep env mac host) out done gap part begun done' gap' part'
      begun')
    (stage' : Stage cfg mac' (hostStep env mac host) done' gap' part' begun') :
    n = 0 ∧ host.backlog = [] ∨ ∃ n',
      Waits cfg (hostStep env mac host) done' gap' part' begun' n' ∧
      n' + cost cfg (hostStep env mac host).backlog < n + cost cfg host.backlog := by
  have conserved := host_conserves env mac host
  cases waits with
  | @atHand f taken =>
    have left := some_left stage taken
    rcases nearer change stage stage' (host_taken env mac host) taken with
      ⟨long, ended⟩ | ⟨same, still, less⟩
    · obtain ⟨wait, taken'⟩ := ended_waits change stage' ended
      refine .inr ⟨_, .status taken' wait, ?_⟩
      have kept : (hostStep env mac host).taken = host.taken := by
        rw [taken', taken, ended]
        simp
      rw [kept] at conserved
      rw [List.append_cancel_left conserved]
      split_ifs <;> omega
    · subst same
      refine .inr ⟨_, .atHand still, ?_⟩
      rw [taken, still] at conserved
      rw [List.append_cancel_left conserved]
      omega
  | status taken wait =>
    have same := same_done change taken
    have is_done := end_status stage taken wait
    have reported : txStatValid mac host = true := by
      simp [txStatValid, txStartFrm, wait, is_done]
    subst same
    cases valid : host.txStatValidR with
    | true =>
      have next : hostStep env mac host =
          { host with txState := .idle, flop := false, txStatValidR := true } := by
        simp [hostStep, wait, ack, valid, reported]
      refine .inr ⟨0, .rests ?_ ?_, ?_⟩
      · rw [next]
        exact taken
      · rw [next]
      · rw [next]
        simp
    | false =>
      have next : hostStep env mac host =
          { host with txState := .wait, flop := false, txStatValidR := true } := by
        simp [hostStep, wait, valid, reported]
      have later : Waits cfg (hostStep env mac host) done' gap' part' begun'
          (if (hostStep env mac host).txStatValidR then 1 else 2) := by
        refine .status ?_ ?_
        · rw [next]
          exact taken
        · rw [next]
      rw [next] at later ⊢
      exact .inr ⟨1, later, by simp⟩
  | rests taken idle =>
    cases backlog : host.backlog with
    | nil => exact .inl ⟨rfl, rfl⟩
    | cons f rest =>
      have same := same_done change taken
      have next_taken : (hostStep env mac host).taken = host.taken ++ [f] := by
        simp [hostStep, idle, backlog, ready]
      have next_backlog : (hostStep env mac host).backlog = rest := by
        simp [hostStep, idle, backlog, ready]
      subst same
      rw [taken] at next_taken
      have bound := clocksLeft_le cfg f gap' part' begun'
      refine .inr ⟨_, .atHand next_taken, ?_⟩
      rw [next_backlog, cost, cost, List.map_cons, List.sum_cons]
      omega

theorem all_done (sent : Sent cfg frames sys done gap part begun)
    (waits : Waits cfg sys.host done gap part begun 0) (empty : sys.host.backlog = []) :
    done.map Prod.snd = frames := by
  have conserved := sent.conserved
  rw [empty, List.append_nil] at conserved
  generalize left : 0 = n at waits
  cases waits with
  | atHand => omega
  | status => split_ifs at left
  | rests taken idle => exact taken.symm.trans conserved

theorem cost_zero (cfg : Config) {backlog : List (List Byte)} (free : cost cfg backlog = 0) :
    backlog = [] := by
  cases backlog with
  | nil => rfl
  | cons f backlog =>
    rw [cost, List.map_cons, List.sum_cons] at free
    omega

theorem nothing_more (fullD : cfg.fullD = true) (plain : cfg.dlyCrcEn = false)
    (fits : ∀ f ∈ frames, Fits cfg f) (sent : Sent cfg frames sys done gap part begun)
    (waits : Waits cfg sys.host done gap part begun 0) (empty : sys.host.backlog = [])
    {clocks : List Env} (fed : Fed cfg sys clocks) : ∃ done' gap' part' begun',
      Sent cfg frames (clocks.foldl (clock cfg) sys) done' gap' part' begun' ∧
      done'.map Prod.snd = frames := by
  obtain ⟨done', gap', part', begun', last, grown⟩ := sent_clocks fullD plain fits sent fed
  have before := all_done sent waits empty
  have after := done_of_frames last
  have longer := (grown.map Prod.snd).length_le
  rw [before] at longer
  exact ⟨done', gap', part', begun', last, after.eq_of_length_le longer⟩

theorem all_out {n : Nat} (fullD : cfg.fullD = true) (plain : cfg.dlyCrcEn = false)
    (fits : ∀ f ∈ frames, Fits cfg f) (sent : Sent cfg frames sys done gap part begun)
    (waits : Waits cfg sys.host done gap part begun n) {clocks : List Env}
    (fed : Fed cfg sys clocks)
    (ready : ∀ env ∈ clocks, env.txStart = true ∧ env.txStatAck = true)
    (enough : n + cost cfg sys.host.backlog ≤ clocks.length) : ∃ done' gap' part' begun',
      Sent cfg frames (clocks.foldl (clock cfg) sys) done' gap' part' begun' ∧
      done'.map Prod.snd = frames := by
  induction clocks generalizing sys done gap part begun n with
  | nil =>
    rw [List.length_nil] at enough
    have none : n = 0 := by omega
    subst none
    exact nothing_more fullD plain fits sent waits (cost_zero cfg (by omega)) fed
  | cons env clocks ih =>
    obtain ⟨start, ack⟩ := ready env List.mem_cons_self
    have ready' : ∀ env ∈ clocks, env.txStart = true ∧ env.txStatAck = true :=
      fun env member => ready env (List.mem_cons_of_mem _ member)
    obtain ⟨words, fed'⟩ := fed_cons fed
    obtain ⟨_, done', gap', part', begun', sent', change⟩ :=
      sent_clock fullD plain fits sent words
    rcases waits_step sent.stage waits start ack change sent'.stage with
      ⟨none, empty⟩ | ⟨n', waits', less⟩
    · subst none
      exact nothing_more fullD plain fits sent waits empty fed
    · rw [List.length_cons] at enough
      have host_next : (clock cfg sys env).host = hostStep env sys.mac sys.host := rfl
      exact ih sent' waits' fed' ready' (by rw [host_next]; omega)

theorem only_gap (fullD : cfg.fullD = true) (plain : cfg.dlyCrcEn = false)
    (fits : ∀ f ∈ frames, Fits cfg f) (sent : Sent cfg frames sys done gap part begun)
    (all : done.map Prod.snd = frames) {clocks : List Env} (fed : Fed cfg sys clocks) :
    Sent cfg frames (clocks.foldl (clock cfg) sys) done (gap + clocks.length) [] false := by
  have between {sys : System} {gap : Nat} {part : List (BitVec 4)} {begun : Bool}
      (sent : Sent cfg frames sys done gap part begun) : part = [] ∧ begun = false := by
    cases begun with
    | false => exact ⟨(between_frames sent.stage).1, rfl⟩
    | true =>
      obtain ⟨_, f, _, taken, _⟩ := under_way sent.stage
      have conserved := congrArg List.length sent.conserved
      rw [taken, all] at conserved
      simp at conserved
  obtain ⟨rfl, rfl⟩ := between sent
  induction clocks generalizing sys gap with
  | nil => exact sent
  | cons env clocks ih =>
    obtain ⟨words, fed'⟩ := fed_cons fed
    obtain ⟨_, done', gap', part', begun', sent', change⟩ :=
      sent_clock fullD plain fits sent words
    cases change with
    | waits nothing soon =>
      have later := ih fed' sent'
      rw [List.length_cons, Nat.add_comm clocks.length 1, ← Nat.add_assoc]
      exact later
    | starts nothing =>
      obtain ⟨_, other⟩ := between sent'
      cases other

theorem all_sent (fullD : cfg.fullD = true) (plain : cfg.dlyCrcEn = false)
    (fits : ∀ f ∈ frames, Fits cfg f) {clocks : List Env}
    (fed : Fed cfg (start frames) clocks)
    (ready : ∀ env ∈ clocks, env.txStart = true ∧ env.txStatAck = true) (rest : Nat)
    (enough : (frames.map fun f => cfg.iPGT.toNat + 22 + (checked cfg f).length).sum + rest ≤
      clocks.length) :
    ∃ done gap, done.map Prod.snd = frames ∧ (∀ p ∈ done, cfg.iPGT.toNat + 3 ≤ p.1) ∧
      rest ≤ gap ∧
      (runs cfg frames clocks).stream = wire cfg done ++ List.replicate gap (false, 0#4) := by
  have waits : Waits cfg (start frames).host [] 0 [] false 0 := .rests rfl rfl
  have long : cost cfg frames ≤ (clocks.take (clocks.length - rest)).length := by
    rw [List.length_take, cost]
    omega
  rw [← List.take_append_drop (clocks.length - rest) clocks] at fed
  obtain ⟨fed_first, fed_last⟩ := fed_append fed
  obtain ⟨done, gap, part, begun, sent, all⟩ :=
    all_out fullD plain fits (sent_start cfg frames) waits fed_first
      (fun env member => ready env (List.mem_of_mem_take member)) (by
      rw [Nat.zero_add]
      exact long)
  have last := only_gap fullD plain fits sent all fed_last
  rw [← List.foldl_append, List.take_append_drop] at last
  have stream := last.stream
  rw [line, List.map_nil, List.append_nil] at stream
  refine ⟨done, _, all, last.gaps, ?_, stream⟩
  rw [List.length_drop]
  omega

end EthSendRun
