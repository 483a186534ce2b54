import Nios2Ecos.EthDeliverRun
import Nios2Ecos.OethMulticast

/- The hash filter of the receiver as the driver sets it. -/
namespace EthGroups
open EthCrc EthReceive EthDeliver
open EthSend (nibbles)
open OethMulticast (Oeth LeftClear openethIoctl)
open MulticastAddress

def programmed (base : Config) (oi : Oeth) : Config :=
  { base with
    r_HASH0 := oi.hashAddr0
    r_HASH1 := oi.hashAddr1
    r_Pro := oi.moder.getLsbD 5
    r_Bro := oi.moder.getLsbD 3 }

def addressHash (f : List Byte) : BitVec 6 :=
  (crcRun 0xFFFFFFFF#32 (nibbles (f.take 6))).extractLsb' 26 6

variable {base : Config} {oi : Oeth} {list : List MacAddress} {f : List Byte}

theorem hashBit_filter (base : Config) (oi : Oeth) (hash : BitVec 6) :
    hashBit (programmed base oi) hash = oi.filter.getLsbD hash.toNat := by
  have small := hash.isLt
  have upper : hash.getLsbD 5 = decide (32 ≤ hash.toNat) := by
    rw [BitVec.getLsbD, Nat.testBit_eq_decide_div_mod_eq, decide_eq_decide]
    omega
  have number : (hash.extractLsb' 3 2).toNat = hash.toNat / 8 % 4 := by
    rw [BitVec.extractLsb'_toNat, Nat.shiftRight_eq_div_pow]
  have place : (hash.setWidth 3).toNat = hash.toNat % 8 := BitVec.toNat_setWidth 3 hash
  have bit (table : BitVec 32) :
      ((table >>> (8 * (hash.toNat / 8 % 4))).setWidth 8).getLsbD (hash.toNat % 8) =
        table.getLsbD (hash.toNat % 32) := by
    have whole : 8 * (hash.toNat / 8 % 4) + hash.toNat % 8 = hash.toNat % 32 := by omega
    have inside : hash.toNat % 8 < 8 := by omega
    rw [BitVec.getLsbD_setWidth, BitVec.getLsbD_ushiftRight, whole, decide_eq_true inside,
      Bool.true_and]
  rw [hashBit, OethMulticast.filter_bit, upper, number, place, bit]
  by_cases high : 32 ≤ hash.toNat
  · have rest : hash.toNat % 32 = hash.toNat - 32 := by omega
    rw [decide_eq_true high, if_pos rfl, if_neg (by omega), rest]
    rfl
  · have same : hash.toNat % 32 = hash.toNat := by omega
    rw [decide_eq_false high, if_neg (by decide), if_pos (by omega), same]
    rfl

/-- The driver's hash is always zero, so all the groups share one bit. -/
theorem group_bit (base : Config) (off : oi.promisc = false) (clear : LeftClear list oi) (hash : BitVec 6) :
    hashBit (programmed base (openethIoctl (.setMcList list) oi)) hash = true ↔
      (∃ addr ∈ list, GroupAddress addr) ∧ hash = 0#6 := by
  rw [hashBit_filter, OethMulticast.set_list_exact off clear hash.toNat hash.isLt]
  constructor
  · rintro ⟨addr, member, group, same⟩
    refine ⟨⟨addr, member, group⟩, ?_⟩
    apply BitVec.eq_of_toNat_eq
    rw [← same]
    rfl
  · rintro ⟨⟨addr, member, group⟩, rfl⟩
    exact ⟨addr, member, group, rfl⟩

theorem addAll_moder (list : List MacAddress) (oi : Oeth) :
    (OethMulticast.addAll list oi).moder = oi.moder := by
  induction list generalizing oi with
  | nil => rfl
  | cons addr list ih =>
    rw [OethMulticast.addAll, List.foldl_cons, ← OethMulticast.addAll, ih]
    split_ifs
    · unfold OethMulticast.addHash
      split_ifs <;> rfl
    · rfl

theorem not_promiscuous (base : Config) (off : oi.promisc = false) :
    (programmed base (openethIoctl (.setMcList list) oi)).r_Pro = false := by
  have cleared : (oi.moder &&& ~~~OethMulticast.moderPro).getLsbD 5 = false := by
    rw [BitVec.getLsbD_and]
    have bit : (~~~OethMulticast.moderPro).getLsbD 5 = false := by decide
    rw [bit, Bool.and_false]
  have kept : ((oi.moder &&& ~~~OethMulticast.moderPro) ||| OethMulticast.moderIam).getLsbD 5 =
      false := by
    rw [BitVec.getLsbD_or, cleared]
    decide
  rw [programmed]
  cases list with
  | nil =>
    simp only [openethIoctl, OethMulticast.oethSetMulticastList, off]
    exact cleared
  | cons addr list =>
    simp only [openethIoctl, OethMulticast.oethSetMulticastList, off]
    exact (congrArg (BitVec.getLsbD · 5) (addAll_moder (addr :: list) _)).trans kept

theorem spaced_programmed (oi : Oeth) {count : Nat} {frames : List Sending}
    (spaced : Spaced base count frames) : Spaced (programmed base oi) count frames := by
  induction frames generalizing count with
  | nil => trivial
  | cons f frames ih =>
    obtain ⟨enough, fives, long, small, room, gap, rest⟩ := spaced
    exact ⟨enough, fives, long, small, room, gap, ih rest⟩

structure ToGroup (base : Config) (f : List Byte) : Prop where
  group : (byteAt f 0).getLsbD 0 = true
  not_all : allOnes f 6 = false
  station : (mACByte base 0).getLsbD 0 = false

theorem not_station (toGroup : ToGroup base f) (oi : Oeth) :
    matched (programmed base oi) f 6 = false := by
  have first : (byteAt f 0 == mACByte (programmed base oi) 0) = false := by
    apply beq_false_of_ne
    intro same
    have bit := toGroup.group
    rw [same] at bit
    exact Bool.false_ne_true (toGroup.station.symm.trans bit)
  simp [matched, List.range_succ, first]

theorem group_accepted (off : oi.promisc = false) (clear : LeftClear list oi)
    (toGroup : ToGroup base f) :
    accepts (programmed base (openethIoctl (.setMcList list) oi)) f = true ↔
      (∃ addr ∈ list, GroupAddress addr) ∧ addressHash f = 0#6 := by
  rw [← group_bit base off clear (addressHash f), accepts, not_station toGroup, toGroup.not_all,
    not_promiscuous base off, hashed, toGroup.group]
  simp [addressHash]

def heard (base : Config) (oi : Oeth) (list : List MacAddress) (clocks : List Inputs) :
    List Received :=
  (runs (programmed base (openethIoctl (.setMcList list) oi)) clocks).reader.received

theorem groups_received {gap : Nat} {frames : List Sending} (plain : base.dlyCrcEn = false)
    (off : oi.promisc = false) (clear : LeftClear list oi) (idle : 0 < gap)
    (spaced : Spaced base (gap - 1) frames) (toGroups : ∀ s ∈ frames, ToGroup base s.bytes)
    (clocks : List Inputs) (listens : ∀ inp ∈ clocks, inp.transmitting = false)
    (wired : clocks.map onWire = stream gap frames) :
    (heard base oi list clocks).map Received.bytes = frames.map Sending.bytes ∧
      ∀ r ∈ heard base oi list clocks, (r.aborted = false ↔
        (∃ addr ∈ list, GroupAddress addr) ∧ addressHash r.bytes = 0#6) := by
  have spaced' : Spaced (programmed base (openethIoctl (.setMcList list) oi)) (gap - 1) frames :=
    spaced_programmed _ spaced
  have plain' : (programmed base (openethIoctl (.setMcList list) oi)).dlyCrcEn = false := plain
  have all : heard base oi list clocks = frames.map (result _) :=
    EthDeliverRun.frames_received plain' idle spaced' clocks listens wired
  rw [all]
  refine ⟨?_, ?_⟩
  · rw [List.map_map]
    rfl
  · intro r member
    obtain ⟨s, inside, rfl⟩ := List.mem_map.mp member
    have accepted := group_accepted off clear (toGroups s inside)
    rw [result, resultOf, Bool.not_eq_false']
    exact accepted

def afterReset : Config := ⟨false, false, false, 0x40#16, 0x600#16, 0#48, false, false, 0, 0, false⟩

def toAllHosts : List Byte := [0x01#8, 0#8, 0x5E#8, 0#8, 0#8, 0x01#8, 0x55#8, 0x55#8]

/-- The driver has joined this group, and still its frames do not come in. -/
theorem all_hosts_not_heard :
    (heard afterReset OethMulticast.fresh [OethMulticast.allHosts]
        ((stream 12 [⟨15, toAllHosts, none, 12⟩]).map fromWire)).map Received.bytes =
      [⟨15, toAllHosts, none, 12⟩].map Sending.bytes ∧
    ∀ r ∈ heard afterReset OethMulticast.fresh [OethMulticast.allHosts]
        ((stream 12 [⟨15, toAllHosts, none, 12⟩]).map fromWire), (r.aborted = false ↔
      (∃ addr ∈ [OethMulticast.allHosts], GroupAddress addr) ∧ addressHash r.bytes = 0#6) :=
  groups_received rfl rfl ⟨rfl, fun _ => rfl⟩ (by decide)
    (by
      refine ⟨.inr (by decide), by decide, ?_, ?_, .inr ?_, by decide, trivial⟩
      · decide
      · decide
      · decide)
    (by
      intro s member
      rw [List.mem_singleton.mp member]
      constructor <;> decide)
    _ (fromWire_listens _) (onWire_fromWire _)

example : addressHash toAllHosts = 31#6 := by decide +kernel

end EthGroups
