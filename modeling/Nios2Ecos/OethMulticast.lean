import Mathlib.Algebra.Order.Ring.Nat
import Nios2Ecos.MarkedTable
import Nios2Ecos.MulticastAddress

/- The multicast filter of the OpenCores MAC, and how openeth_ioctl sets it. -/
namespace OethMulticast
open MarkedTable MulticastAddress

structure Oeth where
  promisc : Bool
  multicastAll : Bool
  moder : BitVec 32
  hashAddr0 : BitVec 32
  hashAddr1 : BitVec 32

def moderIam : BitVec 32 := 0x10
def moderPro : BitVec 32 := 0x20

def Oeth.filter (oi : Oeth) : BitVec 64 := oi.hashAddr1 ++ oi.hashAddr0

def calcCrc (_ : MacAddress) : Nat :=
  let result := 0
  result &&& 0x3f

/-- The body of the loop, for a group address. -/
def addHash (hashB : Nat) (oi : Oeth) : Oeth :=
  if 32 ≤ hashB then { oi with hashAddr1 := oi.hashAddr1 ||| 1 <<< (hashB - 32) }
  else { oi with hashAddr0 := oi.hashAddr0 ||| 1 <<< hashB }

def addAll (mcl : List MacAddress) (oi : Oeth) : Oeth :=
  mcl.foldl (fun oi addr => if GroupAddress addr then addHash (calcCrc addr) oi else oi) oi

def oethSetMulticastList (mcl : Option (List MacAddress)) (oi : Oeth) : Oeth :=
  if oi.promisc then { oi with moder := oi.moder ||| moderPro }
  else
    let oi := { oi with moder := oi.moder &&& ~~~moderPro }
    if oi.multicastAll then { oi with hashAddr0 := 0xffffffff, hashAddr1 := 0xffffffff }
    else
      match mcl with
      | none => oi
      | some list =>
        if list.length = 0 then oi
        else
          let oi := { oi with moder := oi.moder ||| moderIam }
          let oi := { oi with hashAddr0 := 0 }
          -- the source clears the same register again
          let oi := { oi with hashAddr0 := 0 }
          addAll list oi

inductive Request
  | setMcList (list : List MacAddress)
  | setMcAll

def openethIoctl : Request → Oeth → Oeth
  | .setMcList list, oi => oethSetMulticastList (some list) { oi with multicastAll := false }
  | .setMcAll, oi => oethSetMulticastList none { oi with multicastAll := true }

def FilterExact (list : List MacAddress) (oi : Oeth) : Prop :=
  ∀ k, k < 64 → (oi.filter.getLsbD k = true ↔ ∃ a ∈ list, GroupAddress a ∧ calcCrc a = k)

/-- What ETH_DRV_SET_MC_LIST does not clear is clear already. -/
def LeftClear (list : List MacAddress) (oi : Oeth) : Prop :=
  oi.hashAddr1 = 0 ∧ (list = [] → oi.hashAddr0 = 0)

section
variable {oi : Oeth} {list : List MacAddress}

theorem filter_bit (k : Nat) : oi.filter.getLsbD k =
    if k < 32 then oi.hashAddr0.getLsbD k else oi.hashAddr1.getLsbD (k - 32) := by
  rw [Oeth.filter, BitVec.getLsbD_append]

theorem shifted_bit {n j : Nat} (small : n < 32) :
    (1 <<< n : BitVec 32).getLsbD j = decide (n = j) := by
  change (BitVec.twoPow 32 n).getLsbD j = decide (n = j)
  rw [BitVec.getLsbD_twoPow]
  simp [small]

theorem add_hash_bit {hashB : Nat} (small : hashB < 64) :
    (addHash hashB oi).filter.getLsbD = Function.update oi.filter.getLsbD hashB true := by
  funext k
  rw [filter_bit, Function.update_apply, filter_bit]
  unfold addHash
  by_cases high : 32 ≤ hashB
  · rw [if_pos high]
    simp only [BitVec.getLsbD_or]
    rw [shifted_bit (by omega)]
    by_cases low : k < 32
    · rw [if_pos low, if_pos low, if_neg (by omega)]
    · rw [if_neg low, if_neg low]
      by_cases same : k = hashB
      · simp [same]
      · have other : ¬ hashB - 32 = k - 32 := by omega
        simp [same, other]
  · rw [if_neg high]
    simp only [BitVec.getLsbD_or]
    rw [shifted_bit (by omega)]
    by_cases low : k < 32
    · rw [if_pos low, if_pos low]
      by_cases same : k = hashB
      · simp [same]
      · simp [same, Ne.symm same]
    · rw [if_neg low, if_neg low, if_neg (by omega)]

theorem crc_small (a : MacAddress) : calcCrc a < 32 := by
  unfold calcCrc
  decide

theorem add_all_bits : (addAll list oi).filter.getLsbD =
    markAll GroupAddress calcCrc true list oi.filter.getLsbD := by
  refine (List.foldl_hom (fun oi : Oeth => oi.filter.getLsbD) ?_).symm
  intro oi a
  split
  · rw [add_hash_bit (Nat.lt_trans (crc_small a) (by decide))]
  · rfl

theorem set_list_bits (off : oi.promisc = false) :
    (openethIoctl (.setMcList list) oi).filter.getLsbD =
      markAll GroupAddress calcCrc true list
        (if list = [] then oi.filter.getLsbD
          else { oi with hashAddr0 := 0 : Oeth }.filter.getLsbD) := by
  cases list with
  | nil =>
    rw [if_pos rfl]
    simp only [openethIoctl, oethSetMulticastList, off]
    rfl
  | cons a list =>
    rw [if_neg (by simp)]
    simp only [openethIoctl, oethSetMulticastList, off]
    exact add_all_bits

theorem upper_unmarked {k : Nat} (high : 32 ≤ k) : ¬ Marks GroupAddress calcCrc list k := by
  rintro ⟨a, -, -, hash⟩
  have small := crc_small a
  omega

theorem set_list_exact (off : oi.promisc = false) (clear : LeftClear list oi) :
    FilterExact list (openethIoctl (.setMcList list) oi) := by
  intro k _
  rw [set_list_bits off]
  by_cases marked : Marks GroupAddress calcCrc list k
  · rw [mark_all_marked marked]
    exact iff_of_true rfl marked
  · have blank : (if list = [] then oi.filter.getLsbD
        else { oi with hashAddr0 := 0 : Oeth }.filter.getLsbD) k = false := by
      split
      · rename_i empty
        rw [filter_bit, clear.1, clear.2 empty]
        simp
      · rw [filter_bit, clear.1]
        simp
    rw [mark_all_other marked, blank]
    exact iff_of_false Bool.false_ne_true marked

theorem set_list_left_clear (off : oi.promisc = false)
    (right : FilterExact list (openethIoctl (.setMcList list) oi)) : LeftClear list oi := by
  constructor
  · apply BitVec.eq_of_getLsbD_eq
    intro i small
    have unmarked : ¬ Marks GroupAddress calcCrc list (i + 32) := upper_unmarked (by omega)
    have bit := mt (right (i + 32) (by omega)).mp unmarked
    rw [set_list_bits off, mark_all_other unmarked] at bit
    have upper : (if list = [] then oi.filter.getLsbD
        else { oi with hashAddr0 := 0 : Oeth }.filter.getLsbD) (i + 32) =
        oi.hashAddr1.getLsbD i := by
      split <;> rw [filter_bit, if_neg (by omega), Nat.add_sub_cancel]
    rw [upper] at bit
    simpa using bit
  · rintro rfl
    apply BitVec.eq_of_getLsbD_eq
    intro i small
    have unmarked : ¬ Marks GroupAddress calcCrc [] i := by
      rintro ⟨a, mem, -⟩
      cases mem
    have bit := mt (right i (by omega)).mp unmarked
    rw [set_list_bits off, mark_all_other unmarked, if_pos rfl, filter_bit, if_pos small] at bit
    simpa using bit

end

/-- The filter is right exactly when nothing was left to clear, and then it depends only on
    which addresses the list has. -/
theorem filter_exact_iff (oi : Oeth) (list : List MacAddress) (off : oi.promisc = false) :
    (FilterExact list (openethIoctl (.setMcList list) oi) ↔ LeftClear list oi) ∧
    ∀ oi' list', oi'.promisc = false → LeftClear list oi → LeftClear list' oi' →
      (∀ a, a ∈ list' ↔ a ∈ list) →
      (openethIoctl (.setMcList list') oi').filter = (openethIoctl (.setMcList list) oi).filter := by
  constructor
  · exact ⟨set_list_left_clear off, set_list_exact off⟩
  · intro oi' list' off' clear clear' same
    apply BitVec.eq_of_getLsbD_eq
    intro k small
    have here := set_list_exact off clear k small
    have there := set_list_exact off' clear' k small
    simp only [same] at there
    exact Bool.eq_iff_iff.mpr (there.trans here.symm)

def fresh : Oeth := ⟨false, false, 0, 0, 0⟩

def allHosts : MacAddress := fun octet =>
  if octet.val = 0 then 1 else if octet.val = 2 then 0x5e else if octet.val = 5 then 1 else 0

theorem filter_exact_fresh :
    FilterExact [allHosts] (openethIoctl (.setMcList [allHosts]) fresh) :=
  (filter_exact_iff fresh [allHosts] rfl).1.mpr ⟨rfl, fun _ => rfl⟩

theorem all_stays_open :
    ¬ FilterExact [allHosts] (openethIoctl (.setMcList [allHosts]) (openethIoctl .setMcAll fresh)) := by
  intro right
  have bit := (right 63 (by decide)).mp (by decide +kernel)
  obtain ⟨a, -, -, hash⟩ := bit
  have small := crc_small a
  omega

end OethMulticast
