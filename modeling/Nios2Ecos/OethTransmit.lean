import Mathlib.Data.List.GetD
import Nios2Ecos.CyclicWindow
import Nios2Ecos.SlotTable
import Nios2Ecos.Runs

/- The transmit side of if_oeth.c: a ring of `n` = OETH_TXBD_NUM buffer descriptors
   shared with the controller. openeth_deliver is taken step by step, so that the
   controller may finish a frame at any point and the tx_done callback may send. -/
namespace OethTransmit
open CyclicWindow

def txBdReady : BitVec 32 := 0x8000
def txBdIrq : BitVec 32 := 0x4000
def txBdWrap : BitVec 32 := 0x2000
def txBdPad : BitVec 32 := 0x1000
def txBdCrc : BitVec 32 := 0x0800
def txBdUnderrun : BitVec 32 := 0x0100
def txBdRetry : BitVec 32 := 0x00F0
def txBdRetlim : BitVec 32 := 0x0008
def txBdLatecol : BitVec 32 := 0x0004
def txBdDefer : BitVec 32 := 0x0002
def txBdCarrier : BitVec 32 := 0x0001
def txBdStats : BitVec 32 :=
  txBdUnderrun ||| txBdRetry ||| txBdRetlim ||| txBdLatecol ||| txBdDefer ||| txBdCarrier

def moderRxen : BitVec 32 := 1
def moderTxen : BitVec 32 := 2

def ethZlen : Int := 60
def txBuffSize : Int := 1520

def roundUpBufSize (line a : Nat) : Nat := (a + line - 1) / line * line

/-- txbuff: the rows of the descriptors one behind the other, and what lies behind them. -/
structure TxBuff where
  line : Nat
  positive : 0 < line
  bytes : Nat → UInt8

def TxBuff.rowSize (b : TxBuff) : Nat := roundUpBufSize b.line txBuffSize.toNat

def TxBuff.addr (b : TxBuff) (i : Nat) : Nat := i * b.rowSize

def TxBuff.row (b : TxBuff) (i : Nat) : List UInt8 :=
  (List.range b.rowSize).map fun j => b.bytes (b.addr i + j)

def memcpy (toAddr : Nat) (data : List UInt8) (mem : Nat → UInt8) : Nat → UInt8 :=
  fun a => if toAddr ≤ a then data.getD (a - toAddr) (mem a) else mem a

def copySgList : Nat → List (List UInt8) → (Nat → UInt8) → Nat → UInt8
  | _, [], mem => mem
  | toAddr, sg :: rest, mem => copySgList (toAddr + sg.length) rest (memcpy toAddr sg mem)

structure TxStats where
  packets : Nat
  collisions : Nat
  errors : Nat
  windowErrors : Nat
  abortedErrors : Nat
  fifoErrors : Nat
  carrierErrors : Nat

/-- The transmit part of struct oeth_private, the descriptors and their buffers, and the
    messages printed. -/
structure Tx where
  txNext : Nat
  txLast : Nat
  txFull : Bool
  txKeys : Nat → Nat
  lenStatus : Nat → BitVec 32
  txbuff : TxBuff
  moder : BitVec 32
  active : Bool
  stats : TxStats
  said : List String

def Tx.say (tx : Tx) (text : String) : Tx := { tx with said := tx.said ++ [text] }

def Tx.setKey (tx : Tx) (i key : Nat) : Tx :=
  { tx with txKeys := Function.update tx.txKeys i key }

def Ready (status : BitVec 32) : Prop := status &&& txBdReady ≠ 0
def Wrap (status : BitVec 32) : Prop := status &&& txBdWrap ≠ 0

instance (status : BitVec 32) : Decidable (Ready status) := inferInstanceAs (Decidable (_ ≠ _))
instance (status : BitVec 32) : Decidable (Wrap status) := inferInstanceAs (Decidable (_ ≠ _))

def openethStop (n : Nat) (tx : Tx) : Tx :=
  { tx with
    moder := tx.moder &&& ~~~(moderRxen ||| moderTxen)
    lenStatus := fun i => if i < n then tx.lenStatus i &&& ~~~(txBdStats ||| txBdReady)
      else tx.lenStatus i
    txKeys := fun i => if i < n then 0 else tx.txKeys i
    active := false }

def openethStart (n : Nat) (tx : Tx) : Tx :=
  let tx := if tx.active then openethStop n tx else tx
  { tx with
    active := true, txNext := 0, txLast := 0, txFull := false
    moder := tx.moder ||| (moderRxen ||| (if 1 < n then moderTxen else 0)) }

def openethCanSend (tx : Tx) : Bool := !tx.txFull

def clearedStatus (totalLen : Int) (status : BitVec 32) : BitVec 32 :=
  if totalLen ≤ ethZlen then (status &&& ~~~txBdStats) ||| txBdPad
  else (status &&& ~~~txBdStats) &&& ~~~txBdPad

def readyStatus (totalLen : Int) (status : BitVec 32) : BitVec 32 :=
  ((clearedStatus totalLen status &&& 0xFFFF#32) ||| (BitVec.ofInt 32 totalLen <<< 16)) |||
    (txBdReady ||| txBdIrq ||| txBdCrc)

def enqueue (n : Nat) (tx : Tx) (totalLen : Int) (sgList : List (List UInt8)) : Tx :=
  let i := tx.txNext
  let following := if i + 1 ≥ n then 0 else i + 1
  { tx with
    txbuff := { tx.txbuff with
      bytes := copySgList (tx.txbuff.addr i) sgList tx.txbuff.bytes }
    lenStatus := Function.update tx.lenStatus i (readyStatus totalLen (tx.lenStatus i))
    txNext := following
    txFull := if following = tx.txLast then true else tx.txFull
    -- with a single descriptor the transmitter is switched off and on again
    moder := if n = 1 then (tx.moder &&& ~~~moderTxen) ||| moderTxen else tx.moder
    said := if (sgList.flatten.length : Int) ≠ totalLen then
        tx.said ++ ["openeth: packet length wrong!.\n"]
      else tx.said }

def refuse (tx : Tx) (totalLen : Int) : Tx :=
  let i := tx.txNext
  Tx.say { tx with
    lenStatus := Function.update tx.lenStatus i (clearedStatus totalLen (tx.lenStatus i)) }
    "openeth: tx frame too long!.\n"

def openethSend (n : Nat) (tx : Tx) (totalLen : Int) (sgList : List (List UInt8)) (key : Nat) :
    Tx :=
  let i := tx.txNext
  let tx := tx.setKey i key
  if Ready (tx.lenStatus i) then tx.say "openeth: tx counter mismatch!.\n"
  else if tx.txFull then tx.say "openeth: tx queue full!.\n"
  else if totalLen > txBuffSize then refuse tx totalLen
  else enqueue n tx totalLen sgList

def countErrors (status : BitVec 32) (st : TxStats) : TxStats where
  packets := st.packets + 1
  collisions := st.collisions + ((status >>> 4) &&& 0xF).toNat
  errors := st.errors +
    if status &&& (txBdLatecol ||| txBdRetlim ||| txBdUnderrun) ≠ 0 then 1 else 0
  windowErrors := st.windowErrors + if status &&& txBdLatecol ≠ 0 then 1 else 0
  abortedErrors := st.abortedErrors + if status &&& txBdRetlim ≠ 0 then 1 else 0
  fifoErrors := st.fifoErrors + if status &&& txBdUnderrun ≠ 0 then 1 else 0
  carrierErrors := st.carrierErrors + if status &&& txBdCarrier ≠ 0 then 1 else 0

def reclaimStops (tx : Tx) : Prop :=
  Ready (tx.lenStatus tx.txLast) ∨ (tx.txLast = tx.txNext ∧ tx.txFull = false)

instance (tx : Tx) : Decidable (reclaimStops tx) := inferInstanceAs (Decidable (_ ∨ _))

def reclaimOne (n : Nat) (tx : Tx) : Tx :=
  { tx with
    stats := countErrors (tx.lenStatus tx.txLast) tx.stats
    txFull := false, txLast := next n tx.txLast }

/-- Where openeth_deliver is. `reclaim` counts the rounds of oeth_tx, `callback i` is
    inside tx_done for the key of slot `i`. -/
inductive Pc where
  | idle
  | reclaim (advances : Nat)
  | scan (i : Nat)
  | callback (i : Nat)
  deriving DecidableEq, Repr

/-- The driver with its history: the keys sent and reported, the key and the bytes of the frame
    last put into each descriptor, and for each slot the key that was due when the running
    openeth_deliver began. -/
structure State where
  tx : Tx
  pc : Pc
  sent : List Nat
  reported : List Nat
  frame : Nat → Nat
  payload : Nat → List UInt8
  due : Nat → Nat

inductive Action where
  | send (totalLen : Int) (sgList : List (List UInt8)) (key : Nat)
  | complete (i : Nat) (outcome : BitVec 32)
  | deliver
  | proceed
  | callbackReturns

def Accepts (tx : Tx) (totalLen : Int) : Prop :=
  ¬ Ready (tx.lenStatus tx.txNext) ∧ tx.txFull = false ∧ totalLen ≤ txBuffSize

instance (tx : Tx) (totalLen : Int) : Decidable (Accepts tx totalLen) :=
  inferInstanceAs (Decidable (_ ∧ _))

def Pc.maySend : Pc → Bool
  | .idle => true
  | .callback _ => true
  | _ => false

/-- The controller clears READY and leaves its status flags. -/
def completedStatus (outcome status : BitVec 32) : BitVec 32 :=
  (status &&& ~~~(txBdReady ||| txBdStats)) ||| (outcome &&& txBdStats)

def sendStep (n : Nat) (s : State) (totalLen : Int) (sgList : List (List UInt8)) (key : Nat) :
    State :=
  { s with
    tx := openethSend n s.tx totalLen sgList key
    sent := s.sent ++ [key]
    frame := if Accepts s.tx totalLen then Function.update s.frame s.tx.txNext key else s.frame
    payload :=
      if Accepts s.tx totalLen then Function.update s.payload s.tx.txNext sgList.flatten
      else s.payload }

def completeStep (s : State) (i : Nat) (outcome : BitVec 32) : State :=
  { s with tx := { s.tx with
      lenStatus := Function.update s.tx.lenStatus i
        (completedStatus outcome (s.tx.lenStatus i)) } }

def deliverStep (s : State) : State :=
  { s with
    pc := .reclaim 0
    due := fun i => if Ready (s.tx.lenStatus i) then 0 else s.tx.txKeys i }

/-- The slot is cleared first and tx_done is called after. -/
def reportStep (s : State) (i : Nat) : State :=
  { s with
    tx := s.tx.setKey i 0
    reported := s.reported ++ [s.tx.txKeys i]
    pc := .callback i }

def scanStep (s : State) (i : Nat) : State :=
  if s.tx.txKeys i ≠ 0 ∧ ¬ Ready (s.tx.lenStatus i) then reportStep s i
  else { s with pc := .scan (i + 1) }

def proceedStep (n : Nat) (s : State) : Option State :=
  match s.pc with
  | .reclaim a =>
    if reclaimStops s.tx then some { s with pc := .scan 0 }
    else some { s with tx := reclaimOne n s.tx, pc := .reclaim (a + 1) }
  | .scan i => if i < n then some (scanStep s i) else some { s with pc := .idle }
  | _ => none

/-- The caller asks openeth_can_send first and never uses a key twice. -/
def step (n : Nat) (s : State) : Action → Option State
  | .send totalLen sgList key =>
    if s.pc.maySend ∧ openethCanSend s.tx ∧ key ≠ 0 ∧ key ∉ s.sent then
      some (sendStep n s totalLen sgList key)
    else none
  | .complete i outcome =>
    if i < n ∧ Ready (s.tx.lenStatus i) then some (completeStep s i outcome) else none
  | .deliver => if s.pc = .idle then some (deliverStep s) else none
  | .proceed => proceedStep n s
  | .callbackReturns =>
    match s.pc with
    | .callback i => some { s with pc := .scan (i + 1) }
    | _ => none

structure IdleRing (n : Nat) (tx : Tx) : Prop where
  notReady : ∀ i, i < n → ¬ Ready (tx.lenStatus i)
  noKeys : ∀ i, i < n → tx.txKeys i = 0
  wraps : ∀ i, i < n → (Wrap (tx.lenStatus i) ↔ i + 1 = n)

def moderIfg : BitVec 32 := 0x40
def moderFulld : BitVec 32 := 0x400
def moderCrcen : BitVec 32 := 0x2000
def moderHugen : BitVec 32 := 0x4000
def moderPad : BitVec 32 := 0x8000

def initStatus (n i : Nat) : BitVec 32 :=
  (txBdPad ||| txBdCrc ||| txBdIrq) ||| (if i + 1 = n then txBdWrap else 0)

def openethDeviceInit (n : Nat) (txbuff : TxBuff) : Tx where
  txNext := 0
  txLast := 0
  txFull := false
  txKeys := fun _ => 0
  lenStatus := initStatus n
  txbuff := txbuff
  moder := moderHugen ||| moderPad ||| moderIfg ||| moderCrcen ||| moderFulld
  active := false
  stats := ⟨0, 0, 0, 0, 0, 0, 0⟩
  said := []

def started (n : Nat) (tx : Tx) : State where
  tx := openethStart n tx
  pc := .idle
  sent := []
  reported := []
  frame := fun _ => 0
  payload := fun _ => []
  due := fun _ => 0

/- Bits of a descriptor: READY is bit 15 and WRAP is bit 13. -/
theorem ready_iff (status : BitVec 32) : Ready status ↔ status.getLsbD 15 = true := by
  have bit : txBdReady = BitVec.twoPow 32 15 := by decide
  unfold Ready
  rw [bit, BitVec.and_twoPow]
  cases status.getLsbD 15 <;> decide

theorem wrap_iff (status : BitVec 32) : Wrap status ↔ status.getLsbD 13 = true := by
  have bit : txBdWrap = BitVec.twoPow 32 13 := by decide
  unfold Wrap
  rw [bit, BitVec.and_twoPow]
  cases status.getLsbD 13 <;> decide

theorem stats_low (b : Nat) (high : b = 13 ∨ b = 15) : txBdStats.getLsbD b = false := by
  rcases high with rfl | rfl <;> decide

theorem cleared_status_bit (totalLen : Int) (status : BitVec 32) (b : Nat)
    (high : b = 13 ∨ b = 15) :
    (clearedStatus totalLen status).getLsbD b = status.getLsbD b := by
  have inside : b < 32 := by omega
  have pad : txBdPad.getLsbD b = false := by rcases high with rfl | rfl <;> decide
  have stats := stats_low b high
  unfold clearedStatus
  split
  · simp only [BitVec.getLsbD_or, BitVec.getLsbD_and, BitVec.getLsbD_not, stats, pad, inside]
    cases status.getLsbD b <;> decide
  · simp only [BitVec.getLsbD_and, BitVec.getLsbD_not, stats, pad, inside]
    cases status.getLsbD b <;> decide

theorem cleared_status_ready (totalLen : Int) (status : BitVec 32) :
    Ready (clearedStatus totalLen status) ↔ Ready status := by
  rw [ready_iff, ready_iff, cleared_status_bit totalLen status 15 (Or.inr rfl)]

theorem cleared_status_wrap (totalLen : Int) (status : BitVec 32) :
    Wrap (clearedStatus totalLen status) ↔ Wrap status := by
  rw [wrap_iff, wrap_iff, cleared_status_bit totalLen status 13 (Or.inl rfl)]

theorem ready_status_ready (totalLen : Int) (status : BitVec 32) :
    Ready (readyStatus totalLen status) := by
  have bit : (txBdReady ||| txBdIrq ||| txBdCrc).getLsbD 15 = true := by decide
  rw [ready_iff]
  unfold readyStatus
  rw [BitVec.getLsbD_or, bit, Bool.or_true]

theorem ready_status_wrap (totalLen : Int) (status : BitVec 32) :
    Wrap (readyStatus totalLen status) ↔ Wrap status := by
  have flags : (txBdReady ||| txBdIrq ||| txBdCrc).getLsbD 13 = false := by decide
  have low : (0xFFFF#32).getLsbD 13 = true := by decide
  rw [wrap_iff, wrap_iff]
  unfold readyStatus
  rw [BitVec.getLsbD_or, BitVec.getLsbD_or, BitVec.getLsbD_and, flags, low,
    cleared_status_bit totalLen status 13 (Or.inl rfl)]
  simp

theorem completed_status_bit (outcome status : BitVec 32) :
    ¬ Ready (completedStatus outcome status) ∧
    (Wrap (completedStatus outcome status) ↔ Wrap status) := by
  have ready : (txBdReady ||| txBdStats).getLsbD 15 = true := by decide
  have wrap : (txBdReady ||| txBdStats).getLsbD 13 = false := by decide
  rw [ready_iff, wrap_iff, wrap_iff]
  unfold completedStatus
  simp only [BitVec.getLsbD_or, BitVec.getLsbD_and, BitVec.getLsbD_not, ready, wrap,
    stats_low 15 (Or.inr rfl), stats_low 13 (Or.inl rfl)]
  simp

/- Rows of txbuff. -/

theorem row_size_ge (b : TxBuff) : txBuffSize.toNat ≤ b.rowSize := by
  have up := Nat.lt_div_mul_add (a := txBuffSize.toNat + b.line - 1) b.positive
  have positive := b.positive
  unfold TxBuff.rowSize roundUpBufSize
  omega

theorem copy_sg_list (toAddr : Nat) (sgList : List (List UInt8)) (mem : Nat → UInt8) (a : Nat) :
    copySgList toAddr sgList mem a =
      if toAddr ≤ a then sgList.flatten.getD (a - toAddr) (mem a) else mem a := by
  induction sgList generalizing toAddr mem with
  | nil => simp [copySgList]
  | cons sg rest ih =>
    rw [copySgList, ih, List.flatten_cons]
    unfold memcpy
    by_cases from_start : toAddr ≤ a
    · rw [if_pos from_start]
      by_cases later : toAddr + sg.length ≤ a
      · have past : sg.length ≤ a - toAddr := by omega
        rw [if_pos later, if_pos from_start, List.getD_append_right _ _ _ _ past,
          List.getD_eq_default _ _ past, Nat.sub_add_eq]
      · rw [if_neg later, if_pos from_start, List.getD_append _ _ _ _ (by omega)]
    · rw [if_neg (by omega), if_neg from_start, if_neg from_start]

theorem copy_other_row {b : TxBuff} {i j : Nat} {sgList : List (List UInt8)}
    (fits : sgList.flatten.length ≤ b.rowSize) (other : j ≠ i) :
    TxBuff.row { b with bytes := copySgList (b.addr i) sgList b.bytes } j = b.row j := by
  apply List.map_congr_left
  intro k inside
  have small : k < b.rowSize := List.mem_range.mp inside
  show copySgList (b.addr i) sgList b.bytes (b.addr j + k) = b.bytes (b.addr j + k)
  rw [copy_sg_list]
  split
  · rename_i behind
    apply List.getD_eq_default
    -- row j is behind row i
    have after : i < j := by
      by_contra before
      have rows := Nat.mul_le_mul_right b.rowSize (show j + 1 ≤ i by omega)
      rw [Nat.succ_mul] at rows
      unfold TxBuff.addr at behind
      omega
    have rows := Nat.mul_le_mul_right b.rowSize (show i + 1 ≤ j from after)
    rw [Nat.succ_mul] at rows
    unfold TxBuff.addr
    omega
  · rfl

theorem copy_own_row {b : TxBuff} {i : Nat} {sgList : List (List UInt8)}
    (fits : sgList.flatten.length ≤ b.rowSize) :
    sgList.flatten <+: TxBuff.row { b with bytes := copySgList (b.addr i) sgList b.bytes } i := by
  rw [List.prefix_iff_eq_take]
  apply List.ext_getElem?
  intro k
  rw [List.getElem?_take]
  by_cases inside : k < sgList.flatten.length
  · have row : (TxBuff.row { b with bytes := copySgList (b.addr i) sgList b.bytes } i)[k]? =
        some (copySgList (b.addr i) sgList b.bytes (b.addr i + k)) := by
      rw [TxBuff.row, List.getElem?_map, List.getElem?_range (by
        show k < b.rowSize
        omega)]
      rfl
    rw [if_pos inside, row, copy_sg_list, if_pos (Nat.le_add_right _ _), Nat.add_sub_cancel_left,
      List.getD_eq_getElem _ _ inside, List.getElem?_eq_getElem inside]
  · rw [if_neg inside, List.getElem?_eq_none (by omega)]

theorem init_idle (n : Nat) (txbuff : TxBuff) : IdleRing n (openethDeviceInit n txbuff) := by
  constructor
  · intro i inside
    simp only [openethDeviceInit, initStatus]
    split <;> decide
  · intro i inside
    rfl
  · intro i inside
    simp only [openethDeviceInit, initStatus]
    split
    · rename_i last
      exact iff_of_true (by decide) last
    · rename_i inner
      exact iff_of_false (by decide) inner

theorem stop_idle (n : Nat) (tx : Tx)
    (wraps : ∀ i, i < n → (Wrap (tx.lenStatus i) ↔ i + 1 = n)) :
    IdleRing n (openethStop n tx) := by
  have ready : (txBdStats ||| txBdReady).getLsbD 15 = true := by decide
  have wrap : (txBdStats ||| txBdReady).getLsbD 13 = false := by decide
  constructor
  · intro i inside
    simp only [openethStop, inside, ↓reduceIte, ready_iff, BitVec.getLsbD_and,
      BitVec.getLsbD_not, ready]
    simp
  · intro i inside
    simp only [openethStop, inside, ↓reduceIte]
  · intro i inside
    rw [← wraps i inside]
    simp only [openethStop, inside, ↓reduceIte, wrap_iff, BitVec.getLsbD_and,
      BitVec.getLsbD_not, wrap]
    simp

theorem start_idle (n : Nat) (tx : Tx) (h : IdleRing n tx) : IdleRing n (openethStart n tx) := by
  unfold openethStart
  split
  · have stopped := stop_idle n tx h.wraps
    exact ⟨stopped.notReady, stopped.noKeys, stopped.wraps⟩
  · exact ⟨h.notReady, h.noKeys, h.wraps⟩

/-- Everything a step can do, with what had to hold for it. -/
inductive Stepped (n : Nat) (s : State) : Action → State → Prop where
  | send (totalLen : Int) (sgList : List (List UInt8)) (key : Nat)
      (may : s.pc.maySend = true) (room : s.tx.txFull = false) (nonzero : key ≠ 0)
      (fresh : key ∉ s.sent) :
      Stepped n s (.send totalLen sgList key) (sendStep n s totalLen sgList key)
  | complete (i : Nat) (outcome : BitVec 32) (inside : i < n)
      (ready : Ready (s.tx.lenStatus i)) :
      Stepped n s (.complete i outcome) (completeStep s i outcome)
  | deliver (idle : s.pc = .idle) : Stepped n s .deliver (deliverStep s)
  | reclaimEnds (a : Nat) (here : s.pc = .reclaim a) (stops : reclaimStops s.tx) :
      Stepped n s .proceed { s with pc := .scan 0 }
  | reclaims (a : Nat) (here : s.pc = .reclaim a) (goesOn : ¬ reclaimStops s.tx) :
      Stepped n s .proceed { s with tx := reclaimOne n s.tx, pc := .reclaim (a + 1) }
  | reports (i : Nat) (here : s.pc = .scan i) (inside : i < n) (used : s.tx.txKeys i ≠ 0)
      (done : ¬ Ready (s.tx.lenStatus i)) : Stepped n s .proceed (reportStep s i)
  | skips (i : Nat) (here : s.pc = .scan i) (inside : i < n)
      (nothing : s.tx.txKeys i = 0 ∨ Ready (s.tx.lenStatus i)) :
      Stepped n s .proceed { s with pc := .scan (i + 1) }
  | scanEnds (i : Nat) (here : s.pc = .scan i) (outside : n ≤ i) :
      Stepped n s .proceed { s with pc := .idle }
  | callbackReturns (i : Nat) (here : s.pc = .callback i) :
      Stepped n s .callbackReturns { s with pc := .scan (i + 1) }

theorem proceed_stepped {n : Nat} {s s' : State} (h : proceedStep n s = some s') :
    Stepped n s .proceed s' := by
  unfold proceedStep at h
  split at h
  · rename_i a here
    split at h
    · rename_i stops
      cases h
      exact Stepped.reclaimEnds a here stops
    · rename_i goesOn
      cases h
      exact Stepped.reclaims a here goesOn
  · rename_i i here
    split at h
    · rename_i inside
      cases h
      unfold scanStep
      split
      · rename_i found
        exact Stepped.reports i here inside found.1 found.2
      · rename_i absent
        apply Stepped.skips i here inside
        by_cases zero : s.tx.txKeys i = 0
        · exact Or.inl zero
        · exact Or.inr (by_contra fun idle => absent ⟨zero, idle⟩)
    · rename_i outside
      cases h
      exact Stepped.scanEnds i here (Nat.le_of_not_lt outside)
  · cases h

theorem step_stepped {n : Nat} {s s' : State} {a : Action} (h : step n s a = some s') :
    Stepped n s a s' := by
  cases a with
  | send totalLen sgList key =>
    simp only [step, Option.ite_none_right_eq_some, Option.some.injEq] at h
    obtain ⟨⟨may, room, nonzero, fresh⟩, rfl⟩ := h
    have notFull : s.tx.txFull = false := by simpa [openethCanSend] using room
    exact Stepped.send totalLen sgList key may notFull nonzero fresh
  | complete i outcome =>
    simp only [step, Option.ite_none_right_eq_some, Option.some.injEq] at h
    obtain ⟨⟨inside, ready⟩, rfl⟩ := h
    exact Stepped.complete i outcome inside ready
  | deliver =>
    simp only [step, Option.ite_none_right_eq_some, Option.some.injEq] at h
    obtain ⟨idle, rfl⟩ := h
    exact Stepped.deliver idle
  | proceed => exact proceed_stepped h
  | callbackReturns =>
    simp only [step] at h
    split at h
    · rename_i i here
      cases h
      exact Stepped.callbackReturns i here
    · cases h

theorem send_accepted (n : Nat) {tx : Tx} {totalLen : Int} (sgList : List (List UInt8))
    (key : Nat) (accepts : Accepts tx totalLen) :
    openethSend n tx totalLen sgList key =
      enqueue n (tx.setKey tx.txNext key) totalLen sgList := by
  obtain ⟨free, room, fits⟩ := accepts
  have notLong : ¬ totalLen > txBuffSize := by omega
  simp only [openethSend, Tx.setKey, free, room, notLong, ↓reduceIte, Bool.false_eq_true]

theorem send_refused (n : Nat) {tx : Tx} {totalLen : Int} (sgList : List (List UInt8))
    (key : Nat) (free : ¬ Ready (tx.lenStatus tx.txNext)) (room : tx.txFull = false)
    (refused : ¬ Accepts tx totalLen) :
    openethSend n tx totalLen sgList key = refuse (tx.setKey tx.txNext key) totalLen := by
  have long : totalLen > txBuffSize := by
    by_contra fits
    exact refused ⟨free, room, by omega⟩
  simp only [openethSend, Tx.setKey, free, room, long, ↓reduceIte, Bool.false_eq_true]

end OethTransmit
