import Mathlib.Data.BitVec

/- The JTAG UART's DSR against a serial layer that may refuse: the counts and the buffer
   come back through output variables that a refusal leaves as they were. -/
namespace JtagUart

structure Layout where
  controlRi : BitVec 32
  controlWi : BitVec 32
  controlWspaceMsk : BitVec 32
  controlWspaceOfst : Nat
  dataDataMsk : BitVec 32
  dataDataOfst : Nat
  dataRavailMsk : BitVec 32
  dataRavailOfst : Nat

/-- The replies of data_xmt_req, with the bytes it grants, and of data_rcv_req, with the
    size it grants; `none` refuses. -/
structure SerialLayer where
  dataXmtReq : Int → Option (List UInt8)
  dataRcvReq : Int → Option Nat
  xmtWithin : ∀ space granted, dataXmtReq space = some granted → (granted.length : Int) ≤ space
  rcvWithin : ∀ chars granted, dataRcvReq chars = some granted → (granted : Int) ≤ chars

/-- The locals chars_avail and fifo, the pointer as the bytes behind it. -/
structure Locals where
  charsAvail : Int
  fifo : Nat → UInt8

inductive Event where
  | wrote (byte : UInt8)
  | xmtDone (count : Int)
  | rcvChar (byte : UInt8)
  | stored (position : Nat) (byte : UInt8)
  | rcvDone (count : Int)
  deriving DecidableEq

def lowByte (word : BitVec 32) : UInt8 := UInt8.ofBitVec (BitVec.setWidth 8 word)

variable (layout : Layout)

def spaceAvail (control : BitVec 32) : Int :=
  ((control &&& layout.controlWspaceMsk) >>> layout.controlWspaceOfst).toInt

def charOf (data : BitVec 32) : UInt8 :=
  lowByte ((data &&& layout.dataDataMsk) >>> layout.dataDataOfst)

def fifoLevel (data : BitVec 32) : Int :=
  ((data &&& layout.dataRavailMsk) >>> layout.dataRavailOfst).toInt

def dataXmtReq (layer : SerialLayer) (space : Int) (locals : Locals) : Locals :=
  match layer.dataXmtReq space with
  | some granted => ⟨granted.length, fun i => granted.getD i 0⟩
  | none => locals

def writeIrq (layer : SerialLayer) (control : BitVec 32) (locals : Locals) : List Event :=
  if control &&& layout.controlWi ≠ 0 then
    let locals := dataXmtReq layer (spaceAvail layout control) locals
    (List.range locals.charsAvail.toNat).map (fun i => .wrote (locals.fifo i)) ++
      [.xmtDone locals.charsAvail]
  else []

def readRest (flowControlHw : Bool) (layer : SerialLayer) (data : Nat → BitVec 32)
    (charsAvail : Int) : List Event :=
  if flowControlHw then
    match layer.dataRcvReq charsAvail with
    | some granted =>
      (List.range granted).map (fun i => .stored i (lowByte (data (i + 1)))) ++ [.rcvDone granted]
    | none => [.rcvDone charsAvail]
  else (List.range charsAvail.toNat).map (fun i => .rcvChar (charOf layout (data (i + 1))))

def readIrq (flowControlHw : Bool) (layer : SerialLayer) (control : BitVec 32)
    (data : Nat → BitVec 32) : List Event :=
  if control &&& layout.controlRi ≠ 0 then
    .rcvChar (charOf layout (data 0)) ::
      (if fifoLevel layout (data 0) ≠ 0 then
        readRest layout flowControlHw layer data (fifoLevel layout (data 0))
      else [])
  else []

/-- altera_avalon_jtag_uart_DSR, with or without CYGOPT_IO_SERIAL_FLOW_CONTROL_HW; `locals`
    is what the uninitialised variables hold on entry. -/
def dsr (flowControlHw : Bool) (layer : SerialLayer) (control : BitVec 32)
    (data : Nat → BitVec 32) (locals : Locals) : List Event :=
  writeIrq layout layer control locals ++ readIrq layout flowControlHw layer control data

def written (trace : List Event) : List UInt8 :=
  trace.filterMap fun | .wrote byte => some byte | _ => none

def storedBytes (trace : List Event) : List (Nat × UInt8) :=
  trace.filterMap fun | .stored position byte => some (position, byte) | _ => none

def xmtDones (trace : List Event) : List Int :=
  trace.filterMap fun | .xmtDone count => some count | _ => none

def rcvDones (trace : List Event) : List Int :=
  trace.filterMap fun | .rcvDone count => some count | _ => none

def grantedXmt (layer : SerialLayer) (control : BitVec 32) : List UInt8 :=
  if control &&& layout.controlWi ≠ 0 then
    (layer.dataXmtReq (spaceAvail layout control)).getD []
  else []

def XmtRefused (layer : SerialLayer) (control : BitVec 32) : Prop :=
  control &&& layout.controlWi ≠ 0 ∧ layer.dataXmtReq (spaceAvail layout control) = none

def RcvRefused (flowControlHw : Bool) (layer : SerialLayer) (control : BitVec 32)
    (data : Nat → BitVec 32) : Prop :=
  flowControlHw = true ∧ control &&& layout.controlRi ≠ 0 ∧ fifoLevel layout (data 0) ≠ 0 ∧
    layer.dataRcvReq (fifoLevel layout (data 0)) = none

structure Accounts (flowControlHw : Bool) (layer : SerialLayer) (control : BitVec 32)
    (data : Nat → BitVec 32) (trace : List Event) : Prop where
  writesGranted : written trace = grantedXmt layout layer control
  room : (written trace).length ≤ (spaceAvail layout control).toNat
  xmtCounts : ∀ c, c ∈ xmtDones trace → c = (written trace).length
  rcvCounts : ∀ c, c ∈ rcvDones trace → c = (storedBytes trace).length
  inside : ∀ granted, layer.dataRcvReq (fifoLevel layout (data 0)) = some granted →
    (storedBytes trace).length ≤ granted
  inOrder : storedBytes trace = (List.range (storedBytes trace).length).map
    (fun i => (i, lowByte (data (i + 1))))
  xmtRefused : XmtRefused layout layer control →
    written trace = [] ∧ ∀ c, c ∈ xmtDones trace → c = 0
  rcvRefused : RcvRefused layout flowControlHw layer control data →
    storedBytes trace = [] ∧ ∀ c, c ∈ rcvDones trace → c = 0

theorem written_append (first second : List Event) :
    written (first ++ second) = written first ++ written second := List.filterMap_append

theorem stored_append (first second : List Event) :
    storedBytes (first ++ second) = storedBytes first ++ storedBytes second :=
  List.filterMap_append

theorem xmtDones_append (first second : List Event) :
    xmtDones (first ++ second) = xmtDones first ++ xmtDones second := List.filterMap_append

theorem rcvDones_append (first second : List Event) :
    rcvDones (first ++ second) = rcvDones first ++ rcvDones second := List.filterMap_append

variable {layout}

/- The two halves of the call keep to their own kinds of event. -/

theorem writeIrq_written (layer : SerialLayer) (control : BitVec 32) (locals : Locals)
    (pending : control &&& layout.controlWi ≠ 0) :
    written (writeIrq layout layer control locals) =
      (List.range (dataXmtReq layer (spaceAvail layout control) locals).charsAvail.toNat).map
        (dataXmtReq layer (spaceAvail layout control) locals).fifo := by
  rw [writeIrq, if_pos pending]
  simp [written]

theorem writeIrq_dones (layer : SerialLayer) (control : BitVec 32) (locals : Locals)
    (pending : control &&& layout.controlWi ≠ 0) :
    xmtDones (writeIrq layout layer control locals) =
      [(dataXmtReq layer (spaceAvail layout control) locals).charsAvail] := by
  rw [writeIrq, if_pos pending]
  simp [xmtDones]

theorem writeIrq_receives_nothing (layer : SerialLayer) (control : BitVec 32) (locals : Locals) :
    storedBytes (writeIrq layout layer control locals) = [] ∧
      rcvDones (writeIrq layout layer control locals) = [] := by
  unfold writeIrq
  split
  · constructor
    · simp [storedBytes]
    · simp [rcvDones]
  · exact ⟨rfl, rfl⟩

theorem readIrq_writes_nothing (flowControlHw : Bool) (layer : SerialLayer) (control : BitVec 32)
    (data : Nat → BitVec 32) :
    written (readIrq layout flowControlHw layer control data) = [] ∧
      xmtDones (readIrq layout flowControlHw layer control data) = [] := by
  have rest : ∀ level, written (readRest layout flowControlHw layer data level) = [] ∧
      xmtDones (readRest layout flowControlHw layer data level) = [] := by
    intro level
    unfold readRest
    split
    · split
      · constructor
        · simp [written]
        · simp [xmtDones]
      · exact ⟨rfl, rfl⟩
    · constructor
      · simp [written]
      · simp [xmtDones]
  unfold readIrq
  split
  · split
    · exact rest _
    · exact ⟨rfl, rfl⟩
  · exact ⟨rfl, rfl⟩

theorem readRest_granted (layer : SerialLayer) (data : Nat → BitVec 32) {level : Int}
    {granted : Nat} (grants : layer.dataRcvReq level = some granted) :
    storedBytes (readRest layout true layer data level) =
        (List.range granted).map (fun i => (i, lowByte (data (i + 1)))) ∧
      rcvDones (readRest layout true layer data level) = [(granted : Int)] := by
  unfold readRest
  rw [if_pos rfl, grants]
  constructor
  · simp [storedBytes]
  · simp [rcvDones]

theorem readRest_polled (layer : SerialLayer) (data : Nat → BitVec 32) (level : Int) :
    storedBytes (readRest layout false layer data level) = [] ∧
      rcvDones (readRest layout false layer data level) = [] := by
  unfold readRest
  rw [if_neg Bool.false_ne_true]
  constructor
  · simp [storedBytes]
  · simp [rcvDones]

/-- All three ways the receive half can end: nothing is stored and reported, a granted
    request is reported in full, or a refused one is reported with the level. -/
theorem readIrq_cases (flowControlHw : Bool) (layer : SerialLayer) (control : BitVec 32)
    (data : Nat → BitVec 32) :
    (storedBytes (readIrq layout flowControlHw layer control data) = [] ∧
        rcvDones (readIrq layout flowControlHw layer control data) = [] ∧
        ¬ RcvRefused layout flowControlHw layer control data) ∨
      (∃ granted, layer.dataRcvReq (fifoLevel layout (data 0)) = some granted ∧
        storedBytes (readIrq layout flowControlHw layer control data) =
          (List.range granted).map (fun i => (i, lowByte (data (i + 1)))) ∧
        rcvDones (readIrq layout flowControlHw layer control data) = [(granted : Int)]) ∨
      (RcvRefused layout flowControlHw layer control data ∧
        storedBytes (readIrq layout flowControlHw layer control data) = [] ∧
        rcvDones (readIrq layout flowControlHw layer control data) =
          [fifoLevel layout (data 0)]) := by
  unfold readIrq
  by_cases pending : control &&& layout.controlRi ≠ 0
  · rw [if_pos pending]
    by_cases more : fifoLevel layout (data 0) ≠ 0
    · rw [if_pos more]
      cases flowControlHw with
      | false =>
        obtain ⟨stored, dones⟩ := readRest_polled layer data
          (fifoLevel layout (data 0))
        refine Or.inl ⟨stored, dones, ?_⟩
        rintro ⟨hw, -⟩
        cases hw
      | true =>
        cases reply : layer.dataRcvReq (fifoLevel layout (data 0)) with
        | some granted =>
          obtain ⟨stored, dones⟩ := readRest_granted layer data reply
          exact Or.inr (Or.inl ⟨granted, rfl, stored, dones⟩)
        | none =>
          refine Or.inr (Or.inr ⟨⟨rfl, pending, more, reply⟩, ?_, ?_⟩)
          · simp [readRest, reply, storedBytes]
          · simp [readRest, reply, rcvDones]
    · rw [if_neg more]
      refine Or.inl ⟨rfl, rfl, ?_⟩
      rintro ⟨-, -, level, -⟩
      exact more level
  · rw [if_neg pending]
    refine Or.inl ⟨rfl, rfl, ?_⟩
    rintro ⟨-, asked, -⟩
    exact pending asked

theorem write_refused {layer : SerialLayer} {control : BitVec 32} (locals : Locals)
    (refused : XmtRefused layout layer control) :
    written (writeIrq layout layer control locals) =
        (List.range locals.charsAvail.toNat).map locals.fifo ∧
      xmtDones (writeIrq layout layer control locals) = [locals.charsAvail] ∧
      grantedXmt layout layer control = [] := by
  obtain ⟨pending, reply⟩ := refused
  have unset : dataXmtReq layer (spaceAvail layout control) locals = locals := by
    rw [dataXmtReq, reply]
  rw [writeIrq_written layer control locals pending, writeIrq_dones layer control locals pending,
    unset, grantedXmt, if_pos pending, reply]
  exact ⟨rfl, rfl, rfl⟩

theorem write_granted {layer : SerialLayer} {control : BitVec 32} (locals : Locals)
    (answered : ¬ XmtRefused layout layer control) :
    written (writeIrq layout layer control locals) = grantedXmt layout layer control ∧
      (∀ c, c ∈ xmtDones (writeIrq layout layer control locals) →
        c = (grantedXmt layout layer control).length) ∧
      (grantedXmt layout layer control).length ≤ (spaceAvail layout control).toNat := by
  by_cases pending : control &&& layout.controlWi ≠ 0
  · cases reply : layer.dataXmtReq (spaceAvail layout control) with
    | none => exact absurd ⟨pending, reply⟩ answered
    | some granted =>
      have set : dataXmtReq layer (spaceAvail layout control) locals =
          ⟨granted.length, fun i => granted.getD i 0⟩ := by
        rw [dataXmtReq, reply]
      have bytes : grantedXmt layout layer control = granted := by
        rw [grantedXmt, if_pos pending, reply, Option.getD_some]
      have within := layer.xmtWithin _ _ reply
      rw [bytes, writeIrq_written layer control locals pending,
        writeIrq_dones layer control locals pending, set]
      refine ⟨?_, ?_, by omega⟩
      · apply List.ext_getElem
        · simp
        · intro i _ inside
          simp [inside]
      · intro c there
        exact List.mem_singleton.mp there
  · have nothing : writeIrq layout layer control locals = [] := by
      rw [writeIrq, if_neg pending]
    have noGrant : grantedXmt layout layer control = [] := by
      rw [grantedXmt, if_neg pending]
    rw [nothing, noGrant]
    refine ⟨rfl, ?_, Nat.zero_le _⟩
    intro c there
    cases there

theorem write_accounts {layer : SerialLayer} {control : BitVec 32} {locals : Locals}
    (unset : XmtRefused layout layer control → locals.charsAvail = 0) :
    written (writeIrq layout layer control locals) = grantedXmt layout layer control ∧
      (∀ c, c ∈ xmtDones (writeIrq layout layer control locals) →
        c = (grantedXmt layout layer control).length) ∧
      (grantedXmt layout layer control).length ≤ (spaceAvail layout control).toNat := by
  by_cases refused : XmtRefused layout layer control
  · obtain ⟨bytes, reported, none_granted⟩ := write_refused locals refused
    rw [bytes, reported, none_granted, unset refused]
    refine ⟨rfl, ?_, Nat.zero_le _⟩
    intro c there
    exact List.mem_singleton.mp there
  · exact write_granted locals refused

theorem read_accounts {flowControlHw : Bool} {layer : SerialLayer} {control : BitVec 32}
    {data : Nat → BitVec 32} (answered : ¬ RcvRefused layout flowControlHw layer control data) :
    ∃ granted, storedBytes (readIrq layout flowControlHw layer control data) =
        (List.range granted).map (fun i => (i, lowByte (data (i + 1)))) ∧
      (∀ c, c ∈ rcvDones (readIrq layout flowControlHw layer control data) →
        c = (granted : Int)) ∧
      ∀ size, layer.dataRcvReq (fifoLevel layout (data 0)) = some size → granted ≤ size := by
  rcases readIrq_cases flowControlHw layer control data with
    ⟨stored, reported, -⟩ | ⟨granted, grants, stored, reported⟩ | ⟨refused, -⟩
  · refine ⟨0, stored, ?_, fun _ _ => Nat.zero_le _⟩
    intro c there
    rw [reported] at there
    cases there
  · refine ⟨granted, stored, ?_, ?_⟩
    · intro c there
      rw [reported] at there
      exact List.mem_singleton.mp there
    · intro size same
      rw [grants] at same
      cases same
      exact Nat.le_refl _
  · exact absurd refused answered

theorem dsr_halves (flowControlHw : Bool) (layer : SerialLayer) (control : BitVec 32)
    (data : Nat → BitVec 32) (locals : Locals) :
    written (dsr layout flowControlHw layer control data locals) =
        written (writeIrq layout layer control locals) ∧
      xmtDones (dsr layout flowControlHw layer control data locals) =
        xmtDones (writeIrq layout layer control locals) ∧
      storedBytes (dsr layout flowControlHw layer control data locals) =
        storedBytes (readIrq layout flowControlHw layer control data) ∧
      rcvDones (dsr layout flowControlHw layer control data locals) =
        rcvDones (readIrq layout flowControlHw layer control data) := by
  obtain ⟨noStore, noReport⟩ := writeIrq_receives_nothing layer control locals
  obtain ⟨noWrite, noDone⟩ := readIrq_writes_nothing flowControlHw layer control data
  refine ⟨?_, ?_, ?_, ?_⟩
  · rw [dsr, written_append, noWrite, List.append_nil]
  · rw [dsr, xmtDones_append, noDone, List.append_nil]
  · rw [dsr, stored_append, noStore, List.nil_append]
  · rw [dsr, rcvDones_append, noReport, List.nil_append]

/-- The call keeps its accounts exactly when a refused write request finds chars_avail zero
    by chance and no read request is refused. -/
theorem dsr_accounts_iff (layout : Layout) (flowControlHw : Bool) (layer : SerialLayer)
    (control : BitVec 32) (data : Nat → BitVec 32) (locals : Locals) :
    Accounts layout flowControlHw layer control data
        (dsr layout flowControlHw layer control data locals) ↔
      (XmtRefused layout layer control → locals.charsAvail = 0) ∧
        ¬ RcvRefused layout flowControlHw layer control data := by
  obtain ⟨writes, dones, stores, reports⟩ := @dsr_halves layout flowControlHw layer control
    data locals
  constructor
  · intro accounts
    constructor
    · intro refused
      obtain ⟨-, zero⟩ := accounts.xmtRefused refused
      obtain ⟨-, reported, -⟩ := write_refused locals refused
      apply zero
      rw [dones, reported]
      exact List.mem_singleton_self _
    · intro refused
      obtain ⟨-, zero⟩ := accounts.rcvRefused refused
      rcases readIrq_cases flowControlHw layer control data with
        ⟨-, -, answered⟩ | ⟨granted, grants, -⟩ | ⟨-, -, reported⟩
      · exact answered refused
      · rw [refused.2.2.2] at grants
        cases grants
      · apply refused.2.2.1
        apply zero
        rw [reports, reported]
        exact List.mem_singleton_self _
  · rintro ⟨unset, answered⟩
    obtain ⟨bytes, counts, space⟩ := write_accounts unset
    obtain ⟨granted, stored, reported, within⟩ := read_accounts answered
    have length : (storedBytes (readIrq layout flowControlHw layer control data)).length =
        granted := by
      rw [stored, List.length_map, List.length_range]
    refine ⟨?_, ?_, ?_, ?_, ?_, ?_, ?_, ?_⟩
    · rw [writes, bytes]
    · rw [writes, bytes]
      exact space
    · rw [writes, dones, bytes]
      exact counts
    · rw [stores, reports, length]
      exact reported
    · rw [stores, length]
      exact within
    · rw [stores, length, stored]
    · intro refused
      obtain ⟨-, -, none_granted⟩ := write_refused locals refused
      rw [none_granted] at bytes counts
      rw [writes, dones]
      exact ⟨bytes, counts⟩
    · intro refused
      exact absurd refused answered

def deviceLayout : Layout where
  controlRi := 0x100
  controlWi := 0x200
  controlWspaceMsk := 0xFFFF0000
  controlWspaceOfst := 16
  dataDataMsk := 0xFF
  dataDataOfst := 0
  dataRavailMsk := 0xFFFF0000
  dataRavailOfst := 16

def granting (pending : List UInt8) (room : Nat) : SerialLayer where
  dataXmtReq space := if 0 < space then some (pending.take space.toNat) else none
  dataRcvReq chars := if 0 < chars then some (min chars.toNat room) else none
  xmtWithin := by
    intro space granted given
    split_ifs at given with positive
    cases given
    rw [List.length_take]
    omega
  rcvWithin := by
    intro chars granted given
    split_ifs at given with positive
    cases given
    omega

/- Two bytes go out, and three characters wait behind the first but there is room for two. -/
example : dsr deviceLayout true (granting [0x41, 0x42] 2) 0x00400300 (fun _ => 0x00038043)
    ⟨0, fun _ => 0⟩ = [.wrote 0x41, .wrote 0x42, .xmtDone 2, .rcvChar 0x43, .stored 0 0x43,
      .stored 1 0x43, .rcvDone 2] := by
  decide

def refusing : SerialLayer where
  dataXmtReq _ := none
  dataRcvReq _ := none
  xmtWithin := by simp
  rcvWithin := by simp

/- Three characters wait behind the first and the request for them is refused; then a write
   request is refused with 2 left in chars_avail. -/
theorem refusals_misreported :
    ¬ Accounts deviceLayout true refusing 0x100 (fun _ => 0x00038041)
        (dsr deviceLayout true refusing 0x100 (fun _ => 0x00038041) ⟨0, fun _ => 0⟩) ∧
      ¬ Accounts deviceLayout false refusing 0x00400200 (fun _ => 0)
        (dsr deviceLayout false refusing 0x00400200 (fun _ => 0) ⟨2, fun _ => 0⟩) := by
  constructor
  · intro accounts
    obtain ⟨-, zero⟩ := accounts.rcvRefused ⟨rfl, by decide, by decide, rfl⟩
    exact absurd (zero 3 (by decide)) (by decide)
  · intro accounts
    obtain ⟨-, zero⟩ := accounts.xmtRefused ⟨by decide, rfl⟩
    exact absurd (zero 2 (by decide)) (by decide)

end JtagUart
