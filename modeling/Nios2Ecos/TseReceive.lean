import Mathlib.Data.BitVec
import Mathlib.Logic.Function.Basic
import Nios2Ecos.Runs
import Nios2Ecos.TseTransmit

/- The receive side of if_tse.c: the chain of descriptors that tse_start and tse_deliver
   build, the scan of tse_deliver with the tse_recv calls the upper layer makes inside it,
   and the DMA that completes descriptors between two deliveries. -/
namespace TseReceive
open TseTransmit (controlOwnedByHw controlGenerateEop controlWriteFixedAddress)

def bufferSize : Nat := 1528 + 16 + 8
def controlReadFixedAddress : BitVec 8 := 0x02

structure Descriptor where
  readAddr : BitVec 32
  writeAddr : BitVec 32
  next : BitVec 32
  bytesToTransfer : BitVec 16
  readBurst : BitVec 8
  writeBurst : BitVec 8
  actualBytesTransferred : BitVec 16
  status : BitVec 8
  control : BitVec 8
  deriving DecidableEq

def Owned (d : Descriptor) : Prop := d.control &&& controlOwnedByHw ≠ 0

instance (d : Descriptor) : Decidable (Owned d) := inferInstanceAs (Decidable (_ ≠ _))

structure Config where
  rxBuffer : BitVec 32
  descriptorBase : BitVec 32

def descAddr (base : BitVec 32) (i : Nat) : BitVec 32 := base + BitVec.ofNat 32 (32 * i)

def bufferAddr (cfg : Config) (i : Nat) : BitVec 32 := cfg.rxBuffer + BitVec.ofNat 32 (i * bufferSize)

/-- The descriptor memory, by index from descriptor_base. The transmit descriptors follow
    the first BUFFER_NO. -/
abbrev Descriptors := Nat → Descriptor

def clearedDescriptor : Descriptor := ⟨0, 0, 0, 0, 0, 0, 0, 0, 0⟩

/-- tse_init clears 256 words of the descriptor memory, 8 for each descriptor. -/
def tseInit (descs : Descriptors) : Descriptors :=
  fun i => if i < 256 / 8 then clearedDescriptor else descs i

def constructDescriptor (base : BitVec 32) (descs : Descriptors) (i next : Nat)
    (readAddr writeAddr : BitVec 32) (lengthOrEop : BitVec 16)
    (generateEop readFixed writeFixedOrSop : Bool) (atlanticChannel : BitVec 8) : Descriptors :=
  -- the next descriptor stops the controller before this one is handed to it
  let unowned := Function.update descs next
    { descs next with control := (descs next).control &&& ~~~controlOwnedByHw }
  Function.update unowned i
    { readAddr := readAddr
      writeAddr := writeAddr
      next := descAddr base next
      bytesToTransfer := lengthOrEop
      readBurst := 0
      writeBurst := 0
      actualBytesTransferred := 0
      status := 0
      control := controlOwnedByHw |||
        (if generateEop then controlGenerateEop else 0) |||
        (if readFixed then controlReadFixedAddress else 0) |||
        (if writeFixedOrSop then controlWriteFixedAddress else 0) |||
        (if atlanticChannel = 0 then (0 : BitVec 8) else (atlanticChannel &&& 0x0F) <<< 3) }

def constructStreamToMemDesc (base : BitVec 32) (descs : Descriptors) (i next : Nat)
    (writeAddr : BitVec 32) (lengthOrEop : BitVec 16) (writeFixed : Bool) : Descriptors :=
  constructDescriptor base descs i next 0 writeAddr lengthOrEop false false writeFixed 0

def constructChain (cfg : Config) (base : BitVec 32) (n : Nat) (descs : Descriptors) :
    Descriptors :=
  (List.range (n - 1)).foldl (fun descs i =>
    constructStreamToMemDesc base descs i (i + 1) (bufferAddr cfg i) 0 false) descs

structure Sg where
  buf : BitVec 32
  len : Int
  deriving DecidableEq

structure Copy where
  toAddr : BitVec 32
  fromAddr : BitVec 32
  bytes : List UInt8
  deriving DecidableEq

/-- Bit 31 of an address selects the uncached alias of the same memory. -/
def uncached (addr : BitVec 32) : BitVec 32 := addr + 0x80000000

def physical (addr : BitVec 32) : BitVec 32 := addr &&& 0x7fffffff

def bytesFrom (memory : BitVec 32 → UInt8) (addr : BitVec 32) (len : Nat) : List UInt8 :=
  (List.range len).map (fun j => memory (physical (addr + BitVec.ofNat 32 j)))

def copySgList (memory : BitVec 32 → UInt8) : BitVec 32 → List Sg → List Copy
  | _, [] => []
  | fromAddr, sg :: rest =>
    if sg.buf = 0 ∨ sg.len ≤ 0 then []  -- out of mbufs
    else ⟨sg.buf, fromAddr, bytesFrom memory fromAddr sg.len.toNat⟩ ::
      copySgList memory (fromAddr + BitVec.ofInt 32 sg.len) rest

structure Rx where
  descs : Descriptors
  rxCurrentIndex : Nat
  bytesReceived : BitVec 32

def setDescriptor (rx : Rx) (i : Nat) (d : Descriptor) : Rx :=
  { rx with descs := Function.update rx.descs i d }

def tseRecv (cfg : Config) (memory : BitVec 32 → UInt8) (rx : Rx) (sgList : List Sg) :
    Rx × List Copy :=
  let fromAddr := uncached (bufferAddr cfg rx.rxCurrentIndex + 2)
  let d := rx.descs rx.rxCurrentIndex
  (setDescriptor rx rx.rxCurrentIndex { d with control := d.control ||| controlOwnedByHw },
    copySgList memory fromAddr sgList)

structure Handed where
  length : Int
  recvs : List (List Copy)
  deriving DecidableEq

def upperRecv (cfg : Config) (memory : BitVec 32 → UInt8) : Rx → List (List Sg) →
    Rx × List (List Copy)
  | rx, [] => (rx, [])
  | rx, sgList :: rest =>
    let (rx', copies) := tseRecv cfg memory rx sgList
    let (rx'', more) := upperRecv cfg memory rx' rest
    (rx'', copies :: more)

/-- The branch of tse_deliver for a completed descriptor. `replies j` lists the tse_recv
    calls that the upper layer makes in its j-th recv. -/
def deliverOne (cfg : Config) (memory : BitVec 32 → UInt8) (replies : Nat → List (List Sg))
    (rx : Rx) (handed : List Handed) : Rx × List Handed :=
  let bytesReceived :=
    BitVec.setWidth 32 (rx.descs rx.rxCurrentIndex).actualBytesTransferred - 2
  let rx := { rx with bytesReceived := bytesReceived }
  let (rx, handed) :=
    if bytesReceived.toInt > 0 then
      let (rx', recvs) := upperRecv cfg memory rx (replies handed.length)
      (rx', handed ++ [⟨bytesReceived.toInt, recvs⟩])
    else (rx, handed)
  (setDescriptor rx rx.rxCurrentIndex
    { rx.descs rx.rxCurrentIndex with status := 0, actualBytesTransferred := 0 }, handed)

def deliverScan (cfg : Config) (memory : BitVec 32 → UInt8) (replies : Nat → List (List Sg)) :
    Nat → Rx → List Handed → Rx × List Handed
  | 0, rx, handed => (rx, handed)
  | left + 1, rx, handed =>
    if (rx.descs rx.rxCurrentIndex).control = 0 then
      let (rx, handed) := deliverOne cfg memory replies rx handed
      deliverScan cfg memory replies left
        { rx with rxCurrentIndex := rx.rxCurrentIndex + 1 } handed
    else ({ rx with rxCurrentIndex := 0 }, handed)

def tseDeliver (cfg : Config) (n : Nat) (memory : BitVec 32 → UInt8)
    (replies : Nat → List (List Sg)) (rx : Rx) : Rx × List Handed :=
  let (rx, handed) := deliverScan cfg memory replies n { rx with rxCurrentIndex := 0 } []
  ({ rx with descs := constructChain cfg cfg.descriptorBase n rx.descs }, handed)

/-- The driver, the packet memory, and how many descriptors the DMA has completed since
    the chain was built. -/
structure State where
  rx : Rx
  memory : BitVec 32 → UInt8
  completed : Nat

inductive Action where
  /-- The DMA completes its next descriptor, with any count and status, and leaves any
      bytes in the packet memory. -/
  | complete (count : BitVec 16) (status : BitVec 8) (memory : BitVec 32 → UInt8)
  | deliver (replies : Nat → List (List Sg))

def completeDescriptor (d : Descriptor) (count : BitVec 16) (status : BitVec 8) : Descriptor :=
  { d with
    actualBytesTransferred := count
    status := status
    control := d.control &&& ~~~controlOwnedByHw }

def step (cfg : Config) (n : Nat) (s : State) : Action → Option State
  | .complete count status memory =>
    if Owned (s.rx.descs s.completed) then
      some { s with
        rx := setDescriptor s.rx s.completed
          (completeDescriptor (s.rx.descs s.completed) count status)
        memory := memory
        completed := s.completed + 1 }
    else none
  | .deliver replies =>
    some { s with
      rx := (tseDeliver cfg n s.memory replies s.rx).1
      completed := 0 }

/-- tse_init and tse_start, on descriptor memory with any contents. The chain is built through
    the uncached alias of the memory. -/
def tseStart (cfg : Config) (n : Nat) (descs : Descriptors) (memory : BitVec 32 → UInt8) :
    State where
  rx := ⟨constructChain cfg (uncached cfg.descriptorBase) n (tseInit descs), 0, 0⟩
  memory := memory
  completed := 0

def armed (cfg : Config) (base : BitVec 32) (i : Nat) : Descriptor where
  readAddr := 0
  writeAddr := bufferAddr cfg i
  next := descAddr base (i + 1)
  bytesToTransfer := 0
  readBurst := 0
  writeBurst := 0
  actualBytesTransferred := 0
  status := 0
  control := controlOwnedByHw

def withdrawn (d : Descriptor) : Descriptor :=
  { d with control := d.control &&& ~~~controlOwnedByHw }

theorem construct_stream (cfg : Config) (base : BitVec 32) (descs : Descriptors) (i : Nat) :
    constructStreamToMemDesc base descs i (i + 1) (bufferAddr cfg i) 0 false =
      Function.update (Function.update descs (i + 1) (withdrawn (descs (i + 1)))) i
        (armed cfg base i) := by
  have control : controlOwnedByHw ||| 0 ||| 0 ||| 0 ||| 0 = controlOwnedByHw := by decide
  simp only [constructStreamToMemDesc, constructDescriptor, armed, withdrawn,
    Bool.false_eq_true, if_false, if_true, control]

theorem construct_turns (cfg : Config) (base : BitVec 32) (descs : Descriptors) (m i : Nat) :
    (List.range m).foldl (fun descs i =>
        constructStreamToMemDesc base descs i (i + 1) (bufferAddr cfg i) 0 false) descs i =
      if i < m then armed cfg base i
      else if i = m ∧ 0 < m then withdrawn (descs i) else descs i := by
  induction m generalizing i with
  | zero => simp
  | succ m ih =>
    rw [List.range_succ, List.foldl_append, List.foldl_cons, List.foldl_nil, construct_stream]
    by_cases here : i = m
    · subst here
      rw [Function.update_self, if_pos (Nat.lt_succ_self i)]
    · rw [Function.update_of_ne here]
      by_cases follower : i = m + 1
      · subst follower
        rw [Function.update_self, ih, if_neg (by omega), if_neg (by omega), if_neg (by omega),
          if_pos (by omega)]
      · rw [Function.update_of_ne follower, ih]
        by_cases below : i < m
        · rw [if_pos below, if_pos (by omega)]
        · rw [if_neg below, if_neg (by omega), if_neg (by omega), if_neg (by omega)]

theorem chain_armed {cfg : Config} {base : BitVec 32} {n i : Nat} (descs : Descriptors)
    (inside : i < n - 1) : constructChain cfg base n descs i = armed cfg base i := by
  rw [constructChain, construct_turns, if_pos inside]

theorem chain_last {cfg : Config} {base : BitVec 32} {n : Nat} (descs : Descriptors)
    (two : 2 ≤ n) : constructChain cfg base n descs (n - 1) = withdrawn (descs (n - 1)) := by
  rw [constructChain, construct_turns, if_neg (Nat.lt_irrefl _), if_pos (by omega)]

theorem chain_beyond {cfg : Config} {base : BitVec 32} {n i : Nat} (descs : Descriptors)
    (two : 2 ≤ n) (beyond : n ≤ i) : constructChain cfg base n descs i = descs i := by
  rw [constructChain, construct_turns, if_neg (by omega), if_neg (by omega)]

/-- The scan would take the descriptor for a completed one that holds a frame. -/
def Stale (d : Descriptor) : Prop := d.control = 0 ∧ 2 < d.actualBytesTransferred.toNat

instance (d : Descriptor) : Decidable (Stale d) := inferInstanceAs (Decidable (_ ∧ _))

/-- A chain, linked through `base`, whose first `k` descriptors the DMA has completed. -/
structure Chain (cfg : Config) (base : BitVec 32) (n k : Nat) (descs : Descriptors) : Prop where
  short : k ≤ n - 1
  completed : ∀ i, i < k → (descs i).control = 0 ∧ (descs i).writeAddr = bufferAddr cfg i ∧
    (descs i).next = descAddr base (i + 1)
  pending : ∀ i, k ≤ i → i < n - 1 → descs i = armed cfg base i
  last : ¬ Owned (descs (n - 1))

theorem armed_owned (cfg : Config) (base : BitVec 32) (i : Nat) : Owned (armed cfg base i) := by
  show controlOwnedByHw &&& controlOwnedByHw ≠ 0
  decide

theorem withdrawn_not_owned (d : Descriptor) : ¬ Owned (withdrawn d) := by
  have masked : ~~~controlOwnedByHw &&& controlOwnedByHw = 0 := by decide
  intro owned
  apply owned
  simp only [withdrawn, BitVec.and_assoc, masked]
  exact BitVec.and_zero

theorem withdrawn_of_not_owned {d : Descriptor} (free : ¬ Owned d) : withdrawn d = d := by
  have split : d.control =
      (d.control &&& controlOwnedByHw) ||| (d.control &&& ~~~controlOwnedByHw) := by
    rw [← BitVec.and_or_distrib_left]
    have all : controlOwnedByHw ||| ~~~controlOwnedByHw = BitVec.allOnes 8 := by decide
    rw [all, BitVec.and_allOnes]
  have unowned : d.control &&& controlOwnedByHw = 0 := by
    by_contra owned
    exact free owned
  rw [unowned] at split
  have kept : d.control &&& ~~~controlOwnedByHw = d.control :=
    (split.trans BitVec.zero_or).symm
  rw [withdrawn, kept]

theorem construct_chain (cfg : Config) (base : BitVec 32) {n : Nat} (descs : Descriptors)
    (two : 2 ≤ n) : Chain cfg base n 0 (constructChain cfg base n descs) := by
  constructor
  · exact Nat.zero_le _
  · intro i below
    exact absurd below (Nat.not_lt_zero i)
  · intro i _ inside
    exact chain_armed descs inside
  · rw [chain_last descs two]
    exact withdrawn_not_owned _

/- The DMA completes one more. -/
theorem complete_chain {cfg : Config} {base : BitVec 32} {n k : Nat} {descs : Descriptors}
    (chain : Chain cfg base n k descs) (owned : Owned (descs k)) (count : BitVec 16)
    (status : BitVec 8) :
    k < n - 1 ∧ Chain cfg base n (k + 1)
      (Function.update descs k (completeDescriptor (descs k) count status)) := by
  have inside : k < n - 1 := by
    apply Nat.lt_of_le_of_ne chain.short
    rintro rfl
    exact chain.last owned
  refine ⟨inside, ?_, ?_, ?_, ?_⟩
  · exact inside
  · intro i below
    by_cases here : i = k
    · subst here
      rw [Function.update_self, chain.pending i (Nat.le_refl i) inside]
      refine ⟨?_, rfl, rfl⟩
      show controlOwnedByHw &&& ~~~controlOwnedByHw = 0
      decide
    · rw [Function.update_of_ne here]
      exact chain.completed i (by omega)
  · intro i from_k inside'
    rw [Function.update_of_ne (by omega)]
    exact chain.pending i (by omega) inside'
  · rw [Function.update_of_ne (by omega)]
    exact chain.last

def frameOf (memory : BitVec 32 → UInt8) (replies : Nat → List (List Sg)) (d : Descriptor)
    (j : Nat) : Handed where
  length := d.actualBytesTransferred.toNat - 2
  recvs := (replies j).map (copySgList memory (uncached (d.writeAddr + 2)))

def framesOf (memory : BitVec 32 → UInt8) (replies : Nat → List (List Sg)) (descs : Descriptors)
    (indices : List Nat) (seen : Nat) : List Handed :=
  ((indices.filter (fun i => 2 < (descs i).actualBytesTransferred.toNat)).zipIdx seen).map
    (fun (i, j) => frameOf memory replies (descs i) j)

@[simp] theorem frames_nil (memory : BitVec 32 → UInt8) (replies : Nat → List (List Sg))
    (descs : Descriptors) (seen : Nat) : framesOf memory replies descs [] seen = [] := rfl

theorem frames_cons (memory : BitVec 32 → UInt8) (replies : Nat → List (List Sg))
    (descs : Descriptors) (i : Nat) (rest : List Nat) (seen : Nat) :
    framesOf memory replies descs (i :: rest) seen =
      if 2 < (descs i).actualBytesTransferred.toNat then
        frameOf memory replies (descs i) seen :: framesOf memory replies descs rest (seen + 1)
      else framesOf memory replies descs rest seen := by
  unfold framesOf
  by_cases frame : 2 < (descs i).actualBytesTransferred.toNat
  · simp [frame]
  · simp [frame]

theorem frames_congr {memory : BitVec 32 → UInt8} {replies : Nat → List (List Sg)}
    {descs descs' : Descriptors} {indices : List Nat}
    (same : ∀ i, i ∈ indices → descs i = descs' i) (seen : Nat) :
    framesOf memory replies descs indices seen = framesOf memory replies descs' indices seen := by
  induction indices generalizing seen with
  | nil => rfl
  | cons i rest ih =>
    have later : ∀ j, j ∈ rest → descs j = descs' j := by
      intro j there
      exact same j (List.mem_cons_of_mem i there)
    rw [frames_cons, frames_cons, same i List.mem_cons_self, ih later, ih later]

theorem bytesReceived_toInt (count : BitVec 16) :
    (BitVec.setWidth 32 count - 2).toInt = count.toNat - 2 := by
  have small := count.isLt
  have wide : (BitVec.setWidth 32 count).toNat = count.toNat := by
    rw [BitVec.toNat_setWidth]
    omega
  rw [BitVec.toInt_sub, BitVec.toInt_eq_toNat_of_lt (by omega), wide]
  have two : (2 : BitVec 32).toInt = 2 := by decide
  rw [two]
  exact Int.bmod_eq_of_le (by omega) (by omega)

theorem upperRecv_spec (cfg : Config) (memory : BitVec 32 → UInt8) (rx : Rx)
    (sgLists : List (List Sg)) :
    (upperRecv cfg memory rx sgLists).2 = sgLists.map
        (copySgList memory (uncached (bufferAddr cfg rx.rxCurrentIndex + 2))) ∧
      (upperRecv cfg memory rx sgLists).1.rxCurrentIndex = rx.rxCurrentIndex ∧
      ∀ i, i ≠ rx.rxCurrentIndex → (upperRecv cfg memory rx sgLists).1.descs i = rx.descs i := by
  induction sgLists generalizing rx with
  | nil => exact ⟨rfl, rfl, fun _ _ => rfl⟩
  | cons sgList rest ih =>
    obtain ⟨copies, index, others⟩ := ih (tseRecv cfg memory rx sgList).1
    refine ⟨?_, index, ?_⟩
    · show _ :: (upperRecv cfg memory (tseRecv cfg memory rx sgList).1 rest).2 = _
      rw [copies]
      rfl
    · intro i other
      show (upperRecv cfg memory (tseRecv cfg memory rx sgList).1 rest).1.descs i = _
      rw [others i other]
      exact Function.update_of_ne other _ _

theorem received_positive (count : BitVec 16) :
    (BitVec.setWidth 32 count - 2).toInt > 0 ↔ 2 < count.toNat := by
  rw [bytesReceived_toInt]
  omega

theorem deliverOne_short {cfg : Config} {memory : BitVec 32 → UInt8}
    {replies : Nat → List (List Sg)} {rx : Rx} {handed : List Handed}
    (short : ¬ 2 < (rx.descs rx.rxCurrentIndex).actualBytesTransferred.toNat) :
    (deliverOne cfg memory replies rx handed).2 = handed ∧
      (deliverOne cfg memory replies rx handed).1.rxCurrentIndex = rx.rxCurrentIndex ∧
      (deliverOne cfg memory replies rx handed).1.descs = Function.update rx.descs
        rx.rxCurrentIndex { rx.descs rx.rxCurrentIndex with
          status := 0, actualBytesTransferred := 0 } := by
  unfold deliverOne
  simp only [received_positive, if_neg short]
  exact ⟨trivial, rfl, rfl⟩

theorem deliverOne_spec (cfg : Config) (memory : BitVec 32 → UInt8)
    (replies : Nat → List (List Sg)) (rx : Rx) (handed : List Handed)
    (buffer : (rx.descs rx.rxCurrentIndex).writeAddr = bufferAddr cfg rx.rxCurrentIndex) :
    (deliverOne cfg memory replies rx handed).2 =
        handed ++ framesOf memory replies rx.descs [rx.rxCurrentIndex] handed.length ∧
      (deliverOne cfg memory replies rx handed).1.rxCurrentIndex = rx.rxCurrentIndex ∧
      ∀ i, i ≠ rx.rxCurrentIndex →
        (deliverOne cfg memory replies rx handed).1.descs i = rx.descs i := by
  obtain ⟨copies, index, others⟩ := upperRecv_spec cfg memory
    { rx with bytesReceived :=
        BitVec.setWidth 32 (rx.descs rx.rxCurrentIndex).actualBytesTransferred - 2 }
    (replies handed.length)
  by_cases frame : 2 < (rx.descs rx.rxCurrentIndex).actualBytesTransferred.toNat
  · unfold deliverOne
    simp only [received_positive, if_pos frame]
    refine ⟨?_, index, ?_⟩
    · rw [frames_cons, if_pos frame, frames_nil, frameOf, buffer, copies, bytesReceived_toInt]
    · intro i other
      simp only [setDescriptor, index]
      rw [Function.update_of_ne other]
      exact others i other
  · obtain ⟨hands, kept, descs⟩ := @deliverOne_short cfg memory replies rx handed frame
    refine ⟨?_, kept, ?_⟩
    · rw [hands, frames_cons, if_neg frame, frames_nil, List.append_nil]
    · intro i other
      rw [descs, Function.update_of_ne other]

theorem scan_turn {cfg : Config} {memory : BitVec 32 → UInt8} {replies : Nat → List (List Sg)}
    {rx : Rx} (left : Nat) (handed : List Handed)
    (free : (rx.descs rx.rxCurrentIndex).control = 0) :
    deliverScan cfg memory replies (left + 1) rx handed =
      deliverScan cfg memory replies left
        { (deliverOne cfg memory replies rx handed).1 with
          rxCurrentIndex := (deliverOne cfg memory replies rx handed).1.rxCurrentIndex + 1 }
        (deliverOne cfg memory replies rx handed).2 := by
  rw [deliverScan, if_pos free]

theorem scan_completed {cfg : Config} (memory : BitVec 32 → UInt8)
    (replies : Nat → List (List Sg)) (left d : Nat) (rx : Rx) (handed : List Handed)
    (completed : ∀ i, rx.rxCurrentIndex ≤ i → i < rx.rxCurrentIndex + d →
      (rx.descs i).control = 0 ∧ (rx.descs i).writeAddr = bufferAddr cfg i) :
    ∃ rx' : Rx, deliverScan cfg memory replies (d + left) rx handed =
        deliverScan cfg memory replies left rx' (handed ++
          framesOf memory replies rx.descs (List.range' rx.rxCurrentIndex d) handed.length) ∧
      rx'.rxCurrentIndex = rx.rxCurrentIndex + d ∧
      ∀ i, rx.rxCurrentIndex + d ≤ i → rx'.descs i = rx.descs i := by
  induction d generalizing rx handed with
  | zero =>
    refine ⟨rx, ?_, rfl, fun _ _ => rfl⟩
    rw [Nat.zero_add, List.range'_zero, frames_nil, List.append_nil]
  | succ d ih =>
    obtain ⟨here, buffer⟩ := completed rx.rxCurrentIndex (Nat.le_refl _) (by omega)
    obtain ⟨hands, index, others⟩ := deliverOne_spec cfg memory replies rx handed buffer
    have turn := @scan_turn cfg memory replies rx (d + left) handed here
    rw [index, hands, show d + left + 1 = d + 1 + left by omega] at turn
    obtain ⟨rx', rest, index', others'⟩ := ih
      { (deliverOne cfg memory replies rx handed).1 with rxCurrentIndex := rx.rxCurrentIndex + 1 }
      (handed ++ framesOf memory replies rx.descs [rx.rxCurrentIndex] handed.length) (by
        intro i after before
        dsimp only at after before ⊢
        rw [others i (by omega)]
        exact completed i (by omega) (by omega))
    refine ⟨rx', ?_, ?_, ?_⟩
    · rw [turn, rest]
      have same : ∀ i, i ∈ List.range' (rx.rxCurrentIndex + 1) d →
          (deliverOne cfg memory replies rx handed).1.descs i = rx.descs i := by
        intro i there
        obtain ⟨after, -⟩ := List.mem_range'_1.mp there
        exact others i (by omega)
      dsimp only
      rw [frames_congr same, List.range'_succ, frames_cons, frames_cons, frames_nil]
      by_cases frame : 2 < (rx.descs rx.rxCurrentIndex).actualBytesTransferred.toNat
      · simp [frame]
      · simp [frame]
    · rw [index']
      dsimp only
      omega
    · intro i after
      rw [others' i (by dsimp only; omega)]
      exact others i (by omega)

theorem scan_chain {cfg : Config} {base : BitVec 32} {n k : Nat}
    (memory : BitVec 32 → UInt8) (replies : Nat → List (List Sg)) {rx : Rx} (two : 2 ≤ n)
    (chain : Chain cfg base n k rx.descs) :
    ∃ rx' : Rx, deliverScan cfg memory replies n { rx with rxCurrentIndex := 0 } [] =
        deliverScan cfg memory replies (n - k) rx'
          (framesOf memory replies rx.descs (List.range k) 0) ∧
      rx'.rxCurrentIndex = k ∧ ∀ i, k ≤ i → rx'.descs i = rx.descs i := by
  have short := chain.short
  obtain ⟨rx', scan, index, others⟩ := scan_completed memory replies
    (n - k) k { rx with rxCurrentIndex := 0 } [] (by
      intro i _ before
      dsimp only at before ⊢
      obtain ⟨done, buffer, -⟩ := chain.completed i (by omega)
      exact ⟨done, buffer⟩)
  dsimp only at scan index others
  rw [show k + (n - k) = n by omega, List.nil_append, List.length_nil,
    ← List.range_eq_range'] at scan
  rw [Nat.zero_add] at index others
  exact ⟨rx', scan, index, others⟩

theorem not_owned_control {d d' : Descriptor} (same : d'.control = d.control)
    (free : ¬ Owned d) : ¬ Owned d' := by
  unfold Owned at free ⊢
  rw [same]
  exact free

/- From a chain with nothing stale at its end, the scan hands up exactly the frames of the
   completed descriptors, and leaves the last one free and with nothing in it. -/
theorem deliverScan_frames {cfg : Config} {base : BitVec 32} {n k : Nat}
    (memory : BitVec 32 → UInt8) (replies : Nat → List (List Sg)) {rx : Rx} (two : 2 ≤ n)
    (chain : Chain cfg base n k rx.descs)
    (fresh : ¬ Stale (rx.descs (n - 1))) :
    ∃ rx' : Rx, deliverScan cfg memory replies n { rx with rxCurrentIndex := 0 } [] =
        (rx', framesOf memory replies rx.descs (List.range k) 0) ∧
      ¬ Owned (rx'.descs (n - 1)) ∧ ¬ Stale (rx'.descs (n - 1)) ∧
      ∀ i, n ≤ i → rx'.descs i = rx.descs i := by
  have short := chain.short
  obtain ⟨rx', scan, index, others⟩ := scan_chain memory replies two chain
  have last := others (n - 1) short
  rw [scan]
  obtain ⟨left, more⟩ : ∃ left, n - k = left + 1 := ⟨n - k - 1, by omega⟩
  rw [more]
  by_cases stop : (rx'.descs k).control = 0
  · -- only the last descriptor is free of the hardware and not completed
    have full : k = n - 1 := by
      by_contra pending
      have owned : (armed cfg base k).control = controlOwnedByHw := rfl
      rw [others k (Nat.le_refl k), chain.pending k (Nat.le_refl k) (by omega), owned] at stop
      exact absurd stop (by decide)
    subst full
    have none_left : left = 0 := by omega
    subst none_left
    rw [← index] at stop
    rw [scan_turn 0 _ stop, deliverScan]
    have small : ¬ 2 < (rx'.descs rx'.rxCurrentIndex).actualBytesTransferred.toNat := by
      intro frame
      rw [index, last] at stop frame
      exact fresh ⟨stop, frame⟩
    obtain ⟨hands, -, left_descs⟩ := deliverOne_short small
    rw [index] at left_descs
    rw [hands]
    refine ⟨_, rfl, ?_, ?_, ?_⟩
    · dsimp only
      rw [left_descs, Function.update_self]
      apply not_owned_control _ chain.last
      dsimp only
      rw [last]
    · dsimp only
      rw [left_descs, Function.update_self]
      intro stale
      have empty : ¬ 2 < (0 : BitVec 16).toNat := by decide
      exact empty stale.2
    · intro i beyond
      dsimp only
      rw [left_descs, Function.update_of_ne (by omega)]
      exact others i (by omega)
  · rw [deliverScan, index, if_neg stop]
    refine ⟨_, rfl, ?_, ?_, ?_⟩
    · dsimp only
      rw [last]
      exact chain.last
    · dsimp only
      rw [last]
      exact fresh
    · intro i beyond
      exact others i (by omega)

/- A stale last descriptor behind a full chain is handed up as well. -/
theorem deliverScan_stale {cfg : Config} {base : BitVec 32} {n : Nat} (memory : BitVec 32 → UInt8)
    (replies : Nat → List (List Sg)) {rx : Rx} (two : 2 ≤ n)
    (chain : Chain cfg base n (n - 1) rx.descs) (stale : Stale (rx.descs (n - 1))) :
    (deliverScan cfg memory replies n { rx with rxCurrentIndex := 0 } []).2.length =
      (framesOf memory replies rx.descs (List.range (n - 1)) 0).length + 1 := by
  obtain ⟨rx', scan, index, others⟩ := scan_chain memory replies two chain
  have last := others (n - 1) (Nat.le_refl _)
  rw [← last, ← index] at stale
  have frame := stale.2
  rw [scan, show n - (n - 1) = 0 + 1 by omega, scan_turn 0 _ stale.1, deliverScan]
  unfold deliverOne
  simp only [received_positive, if_pos frame]
  exact List.length_append

theorem physical_uncached (addr : BitVec 32) : physical (uncached addr) = physical addr := by
  have low : ∀ a : BitVec 32, (physical a).toNat = a.toNat % 2 ^ 31 := by
    intro a
    exact Nat.and_two_pow_sub_one_eq_mod a.toNat 31
  apply BitVec.eq_of_toNat_eq
  rw [low, low, uncached, BitVec.toNat_add]
  have high : (0x80000000 : BitVec 32).toNat = 2 ^ 31 := by decide
  rw [high]
  omega

theorem uncached_add (addr offset : BitVec 32) :
    uncached addr + offset = uncached (addr + offset) := by
  unfold uncached
  rw [BitVec.add_assoc, BitVec.add_comm 0x80000000, ← BitVec.add_assoc]

theorem bytesFrom_uncached (memory : BitVec 32 → UInt8) (addr : BitVec 32) (len : Nat) :
    bytesFrom memory (uncached addr) len = bytesFrom memory addr len := by
  unfold bytesFrom
  apply List.map_congr_left
  intro j _
  rw [uncached_add, physical_uncached]

theorem bytesFrom_add (memory : BitVec 32 → UInt8) (addr : BitVec 32) (first second : Nat) :
    bytesFrom memory addr (first + second) =
      bytesFrom memory addr first ++ bytesFrom memory (addr + BitVec.ofNat 32 first) second := by
  unfold bytesFrom
  rw [List.range_add, List.map_append, List.map_map]
  congr 1
  apply List.map_congr_left
  intro j _
  simp only [Function.comp_apply, BitVec.ofNat_add, BitVec.add_assoc]

def room (sgList : List Sg) : Nat :=
  ((sgList.takeWhile (fun sg => decide (sg.buf ≠ 0 ∧ 0 < sg.len))).map (fun sg => sg.len.toNat)).sum

/- tse_recv copies one contiguous stretch of the memory. -/
theorem copies_contiguous (memory : BitVec 32 → UInt8) (addr : BitVec 32) (sgList : List Sg) :
    (copySgList memory addr sgList).flatMap Copy.bytes = bytesFrom memory addr (room sgList) := by
  induction sgList generalizing addr with
  | nil => rfl
  | cons sg rest ih =>
    unfold copySgList
    by_cases unusable : sg.buf = 0 ∨ sg.len ≤ 0
    · have stops : ¬ (sg.buf ≠ 0 ∧ 0 < sg.len) := by
        rintro ⟨present, positive⟩
        rcases unusable with null | empty
        · exact present null
        · omega
      rw [if_pos unusable, room, List.takeWhile_cons_of_neg (by simpa using stops)]
      rfl
    · have usable : sg.buf ≠ 0 ∧ 0 < sg.len := by
        constructor
        · intro null
          exact unusable (Or.inl null)
        · by_contra empty
          exact unusable (Or.inr (by omega))
      have length : BitVec.ofInt 32 sg.len = BitVec.ofNat 32 sg.len.toNat := by
        conv_lhs => rw [← Int.toNat_of_nonneg (Int.le_of_lt usable.2)]
        exact BitVec.ofInt_natCast 32 _
      have longer : room (sg :: rest) = sg.len.toNat + room rest := by
        rw [room, List.takeWhile_cons_of_pos (by simpa using usable)]
        rfl
      rw [if_neg unusable, List.flatMap_cons, ih, longer, bytesFrom_add, length]

def DescBase (cfg : Config) (base : BitVec 32) : Prop :=
  base = cfg.descriptorBase ∨ base = uncached cfg.descriptorBase

/-- One delivery, from a chain of which the DMA has completed the first descriptors. -/
structure Delivery (cfg : Config) (n : Nat) (s : State) (replies : Nat → List (List Sg))
    (result : Rx × List Handed) : Prop where
  before : ∃ base, DescBase cfg base ∧ Chain cfg base n s.completed s.rx.descs
  frames : result.2 = framesOf s.memory replies s.rx.descs (List.range s.completed) 0
  contents : ∀ i, i < s.completed → ∀ sgList,
    (copySgList s.memory (uncached ((s.rx.descs i).writeAddr + 2)) sgList).flatMap Copy.bytes =
      bytesFrom s.memory (bufferAddr cfg i + 2) (room sgList)
  after : Chain cfg cfg.descriptorBase n 0 result.1.descs
  transmitKept : ∀ i, n ≤ i → result.1.descs i = s.rx.descs i

def AllDeliver (cfg : Config) (n : Nat) (descs : Descriptors) (memory : BitVec 32 → UInt8) : Prop :=
  ∀ actions s, Runs.exec (step cfg n) (tseStart cfg n descs memory) actions = some s →
    ∀ replies, Delivery cfg n s replies (tseDeliver cfg n s.memory replies s.rx)

structure Inv (cfg : Config) (n : Nat) (s : State) : Prop where
  chain : ∃ base, DescBase cfg base ∧ Chain cfg base n s.completed s.rx.descs
  fresh : ¬ Stale (s.rx.descs (n - 1))

theorem inv_delivery {cfg : Config} {n : Nat} {s : State} (two : 2 ≤ n) (inv : Inv cfg n s)
    (replies : Nat → List (List Sg)) :
    Delivery cfg n s replies (tseDeliver cfg n s.memory replies s.rx) ∧
      ¬ Stale ((tseDeliver cfg n s.memory replies s.rx).1.descs (n - 1)) := by
  obtain ⟨base, linked, chain⟩ := inv.chain
  obtain ⟨rx', scan, free, fresh, beyond⟩ :=
    deliverScan_frames s.memory replies two chain inv.fresh
  unfold tseDeliver
  rw [scan]
  refine ⟨⟨inv.chain, rfl, ?_, construct_chain cfg _ rx'.descs two, ?_⟩, ?_⟩
  · intro i done sgList
    obtain ⟨-, buffer, -⟩ := chain.completed i done
    rw [copies_contiguous, bytesFrom_uncached, buffer]
  · intro i outside
    exact (chain_beyond rx'.descs two outside).trans (beyond i outside)
  · dsimp only
    rw [chain_last rx'.descs two, withdrawn_of_not_owned free]
    exact fresh

theorem inv_step {cfg : Config} {n : Nat} (two : 2 ≤ n) (s : State) (a : Action) (s' : State)
    (inv : Inv cfg n s) (stepped : step cfg n s a = some s') : Inv cfg n s' := by
  cases a with
  | complete count status memory =>
    simp only [step, Option.ite_none_right_eq_some, Option.some.injEq] at stepped
    obtain ⟨owned, rfl⟩ := stepped
    obtain ⟨base, linked, before⟩ := inv.chain
    obtain ⟨inside, chain⟩ := complete_chain before owned count status
    refine ⟨⟨base, linked, chain⟩, ?_⟩
    dsimp only [setDescriptor]
    rw [Function.update_of_ne (by omega)]
    exact inv.fresh
  | deliver replies =>
    cases stepped
    obtain ⟨delivery, fresh⟩ := inv_delivery two inv replies
    exact ⟨⟨cfg.descriptorBase, .inl rfl, delivery.after⟩, fresh⟩

theorem started_last (cfg : Config) {n : Nat} (descs : Descriptors)
    (memory : BitVec 32 → UInt8) (two : 2 ≤ n) :
    (tseStart cfg n descs memory).rx.descs (n - 1) =
      withdrawn (if n ≤ 32 then clearedDescriptor else descs (n - 1)) := by
  have inside : n - 1 < 256 / 8 ↔ n ≤ 32 := by omega
  show constructChain cfg _ n (tseInit descs) (n - 1) = _
  rw [chain_last _ two]
  simp only [tseInit, inside]

theorem filled (cfg : Config) {n : Nat} (descs : Descriptors) (memory : BitVec 32 → UInt8)
    (two : 2 ≤ n) (m : Nat) (short : m ≤ n - 1) :
    ∃ s, Runs.exec (step cfg n) (tseStart cfg n descs memory)
        (List.replicate m (.complete 0 0 memory)) = some s ∧
      s.completed = m ∧ Chain cfg (uncached cfg.descriptorBase) n m s.rx.descs ∧
      s.rx.descs (n - 1) = (tseStart cfg n descs memory).rx.descs (n - 1) := by
  induction m with
  | zero => exact ⟨_, rfl, rfl, construct_chain cfg _ _ two, rfl⟩
  | succ m ih =>
    obtain ⟨s, ran, count, chain, last⟩ := ih (by omega)
    have owned : Owned (s.rx.descs m) := by
      rw [chain.pending m (Nat.le_refl m) (by omega)]
      exact armed_owned cfg _ m
    obtain ⟨-, chain'⟩ := complete_chain chain owned 0 0
    have stepped : step cfg n s (.complete 0 0 memory) = some { s with
        rx := setDescriptor s.rx m (completeDescriptor (s.rx.descs m) 0 0)
        memory := memory
        completed := m + 1 } := by
      rw [step, count, if_pos owned]
    refine ⟨{ s with
        rx := setDescriptor s.rx m (completeDescriptor (s.rx.descs m) 0 0)
        memory := memory
        completed := m + 1 }, ?_, rfl, chain', ?_⟩
    · rw [List.replicate_succ', Runs.exec_append ran, Runs.exec, stepped]
      rfl
    · dsimp only [setDescriptor]
      rw [Function.update_of_ne (by omega)]
      exact last

/- A last descriptor that is not clear is handed up once the chain has been full. -/
theorem stale_delivered (cfg : Config) {n : Nat} (descs : Descriptors)
    (memory : BitVec 32 → UInt8) (two : 2 ≤ n)
    (stale : Stale ((tseStart cfg n descs memory).rx.descs (n - 1))) :
    ¬ AllDeliver cfg n descs memory := by
  intro all
  obtain ⟨s, ran, count, chain, last⟩ := filled cfg descs memory two (n - 1) (Nat.le_refl _)
  have frames := (all _ s ran (fun _ => [])).frames
  rw [← last] at stale
  have longer := deliverScan_stale s.memory (fun _ => []) two chain stale
  have same := congrArg List.length frames
  rw [count] at same
  exact absurd (longer.symm.trans same) (by omega)

/-- tse_init clears 32 descriptors. The receive chain behaves as meant on every run exactly
    when the last of its descriptors is among them, or held nothing that looks like a frame. -/
theorem tse_delivers_iff (cfg : Config) (n : Nat) (descs : Descriptors)
    (memory : BitVec 32 → UInt8) (two : 2 ≤ n) :
    AllDeliver cfg n descs memory ↔ n ≤ 32 ∨ ¬ Stale (withdrawn (descs (n - 1))) := by
  have last := started_last cfg descs memory two
  constructor
  · intro all
    by_contra neither
    obtain ⟨large, stale⟩ := not_or.mp neither
    rw [if_neg large] at last
    apply stale_delivered cfg descs memory two _ all
    rw [last]
    exact not_not.mp stale
  · intro clear actions s ran replies
    have fresh : ¬ Stale ((tseStart cfg n descs memory).rx.descs (n - 1)) := by
      rw [last]
      split
      · decide
      · rename_i large
        rcases clear with small | fresh
        · exact absurd small large
        · exact fresh
    have inv : Inv cfg n s :=
      Runs.invariant_run (inv_step two) ⟨⟨_, .inr rfl, construct_chain cfg _ _ two⟩, fresh⟩ ran
    exact (inv_delivery two inv replies).1

theorem tse_delivers_iff_two :
    AllDeliver ⟨0x01000000, 0x02000000⟩ 2 (fun _ => clearedDescriptor) (fun _ => 0) :=
  (tse_delivers_iff _ 2 _ _ (by decide)).mpr (Or.inl (by decide))

theorem leftover_delivered :
    ¬ ∀ cfg n descs memory, 2 ≤ n → AllDeliver cfg n descs memory := by
  intro all
  have two : 2 ≤ 33 := by decide
  let leftover : Descriptor := { clearedDescriptor with actualBytesTransferred := 100 }
  let cfg : Config := ⟨0x01000000, 0x02000000⟩
  apply stale_delivered cfg (fun _ => leftover) (fun _ => 0) two _ (all cfg 33 _ _ two)
  rw [started_last cfg _ _ two, if_neg (by decide)]
  decide

end TseReceive
