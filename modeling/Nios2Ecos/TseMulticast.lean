import Mathlib.Algebra.Order.Ring.Nat
import Mathlib.Data.Fintype.Pi
import Nios2Ecos.MarkedTable
import Nios2Ecos.MulticastAddress

/- The multicast filter of the Triple Speed Ethernet MAC, and how tse_control sets it. -/
namespace TseMulticast
open MarkedTable MulticastAddress

abbrev Registers := Nat → BitVec 32

/-- IOWR_32DIRECT: `offset` counts bytes, and a word access ignores its two lowest bits. -/
def iowr32Direct (mac : Registers) (offset : Nat) (data : BitVec 32) : Registers :=
  Function.update mac (offset / 4) data

def iowrHashTable (mac : Registers) (offset : Nat) (data : BitVec 32) : Registers :=
  iowr32Direct mac (0x100 + offset) data

def entry (mac : Registers) (h : Nat) : BitVec 32 := mac ((0x100 + 4 * h) / 4)

/-- The inner loop; `octet` is a char, which is signed. -/
def xorBit (octet : BitVec 8) : BitVec 32 :=
  (List.range 8).foldl
    (fun x bitshift => x ^^^ ((octet.signExtend 32).sshiftRight bitshift &&& 1)) 0

def hash (addr : MacAddress) : BitVec 32 :=
  Fin.foldr 6 (fun octet h => h <<< 1 ||| xorBit (addr octet)) 0

def tseSetHashTable (list : List MacAddress) (mac : Registers) : Registers :=
  list.foldl
    (fun mac addr => if GroupAddress addr then iowrHashTable mac (hash addr).toNat 1 else mac) mac

def fill (data : BitVec 32) (mac : Registers) : Registers :=
  (List.range 64).foldl (fun mac hashLoop => iowrHashTable mac hashLoop data) mac

inductive Request
  | setMcList (list : List MacAddress)
  | setMcAll

def tseControl : Request → Registers → Registers
  | .setMcList list, mac => tseSetHashTable list (fill 0 mac)
  | .setMcAll, mac => fill 1 mac

def parity (octet : BitVec 8) : Bool := (List.range 8).countP octet.getLsbD % 2 = 1

def HashesTo (addr : MacAddress) (h : Nat) : Prop :=
  h < 64 ∧ ∀ k : Fin 6, h.testBit k = parity (addr k)

theorem xor_bit_parity : ∀ octet, xorBit octet = if parity octet then 1 else 0 := by decide +kernel

def joined (bit : Fin 6 → BitVec 32) : BitVec 32 :=
  Fin.foldr 6 (fun octet h => h <<< 1 ||| bit octet) 0

theorem joined_bits : ∀ p : Fin 6 → Bool, (joined fun k => if p k then 1 else 0).toNat < 64 ∧
    ∀ k : Fin 6, (joined fun k => if p k then 1 else 0).toNat.testBit k = p k := by
  decide +kernel

theorem hash_parity (addr : MacAddress) : HashesTo addr (hash addr).toNat := by
  have bits := joined_bits (fun k => parity (addr k))
  simp only [← xor_bit_parity] at bits
  exact bits

theorem hashes_to_iff {addr : MacAddress} {h : Nat} : HashesTo addr h ↔ (hash addr).toNat = h := by
  constructor
  · rintro ⟨small, bits⟩
    obtain ⟨bound, own⟩ := hash_parity addr
    apply Nat.eq_of_testBit_eq
    intro k
    by_cases inside : k < 6
    · rw [own ⟨k, inside⟩, bits ⟨k, inside⟩]
    · have large : 2 ^ 6 ≤ 2 ^ k := Nat.pow_le_pow_right (by decide) (by omega)
      rw [Nat.testBit_lt_two_pow (by omega), Nat.testBit_lt_two_pow (by omega)]
  · rintro rfl
    exact hash_parity addr

def Wanted (list : List MacAddress) (h : Nat) : Prop :=
  ∃ a ∈ list, GroupAddress a ∧ HashesTo a h

def EntryCorrect (list : List MacAddress) (mac : Registers) (h : Nat) : Prop :=
  (Wanted list h → entry mac h = 1) ∧ (¬ Wanted list h → entry mac h = 0)

structure FilterCorrect (list : List MacAddress) (mac : Registers) : Prop where
  entries : ∀ h, h < 64 → EntryCorrect list (tseControl (.setMcList list) mac) h
  indices : ∀ a ∈ list, (hash a).toNat < 64
  others : tseControl (.setMcList (list.filter (fun a => GroupAddress a))) mac =
    tseControl (.setMcList list) mac
  members : ∀ list' : List MacAddress, (∀ a, a ∈ list' ↔ a ∈ list) →
    tseControl (.setMcList list') mac = tseControl (.setMcList list) mac

def slot (h : Nat) : Nat := (0x100 + h) / 4

section
variable {list : List MacAddress} {mac : Registers} {h : Nat}

theorem fill_table (data : BitVec 32) : fill data mac =
    markAll (fun _ => True) slot data (List.range 64) mac := by
  simp only [markAll, if_true]
  rfl

/-- Only the first quarter of the table is reached. -/
theorem slot_marked : Marks (fun _ => True) slot (List.range 64) (slot (4 * h)) ↔ h < 16 := by
  constructor
  · rintro ⟨k, mem, -, same⟩
    have small := List.mem_range.mp mem
    unfold slot at same
    omega
  · intro small
    exact ⟨4 * h, List.mem_range.mpr (by omega), trivial, rfl⟩

theorem wanted_slot : Marks GroupAddress (fun a => slot (hash a).toNat) list (slot (4 * h)) ↔
    ∃ j, j / 4 = h ∧ Wanted list j := by
  constructor
  · rintro ⟨a, mem, group, same⟩
    change slot (hash a).toNat = slot (4 * h) at same
    unfold slot at same
    exact ⟨(hash a).toNat, by omega, a, mem, group, hash_parity a⟩
  · rintro ⟨j, rfl, a, mem, group, hashes⟩
    refine ⟨a, mem, group, ?_⟩
    change slot (hash a).toNat = slot (4 * (j / 4))
    rw [hashes_to_iff.mp hashes]
    unfold slot
    omega

theorem wanted_small (wanted : Wanted list h) : h < 64 := by
  obtain ⟨a, -, -, small, -⟩ := wanted
  exact small

theorem entry_after (list : List MacAddress) (mac : Registers) (quarter : h < 16) :
    ((∃ j, j / 4 = h ∧ Wanted list j) → entry (tseControl (.setMcList list) mac) h = 1) ∧
    ((¬ ∃ j, j / 4 = h ∧ Wanted list j) → entry (tseControl (.setMcList list) mac) h = 0) := by
  constructor
  · intro wanted
    exact mark_all_marked (wanted_slot.mpr wanted)
  · intro unwanted
    have kept : entry (tseControl (.setMcList list) mac) h = fill 0 mac (slot (4 * h)) :=
      mark_all_other (fun marked => unwanted (wanted_slot.mp marked))
    rw [kept, fill_table, mark_all_marked (slot_marked.mpr quarter)]

theorem entry_untouched (behind : 16 ≤ h) :
    entry (tseControl (.setMcList list) mac) h = entry mac h := by
  have unwanted : ¬ ∃ j, j / 4 = h ∧ Wanted list j := by
    rintro ⟨j, quotient, wanted⟩
    have small := wanted_small wanted
    omega
  have kept : entry (tseControl (.setMcList list) mac) h = fill 0 mac (slot (4 * h)) :=
    mark_all_other (fun marked => unwanted (wanted_slot.mp marked))
  rw [kept, fill_table, mark_all_other (fun marked => by have := slot_marked.mp marked; omega)]
  rfl

end

/-- The part of the table that is not written happens to be right, and hashes that share an
    entry with the one of a quarter of them do not get in each other's way. -/
def HappensToFit (list : List MacAddress) (mac : Registers) : Prop :=
  (∀ h, 16 ≤ h → h < 64 → EntryCorrect list mac h) ∧
    ∀ h, h < 16 → (Wanted list h ↔ ∃ j, j / 4 = h ∧ Wanted list j)

theorem filter_correct_iff (list : List MacAddress) (mac : Registers) :
    FilterCorrect list mac ↔ HappensToFit list mac := by
  constructor
  · intro correct
    refine ⟨?_, ?_⟩
    · intro h behind small
      have exact_ := correct.entries h small
      rwa [EntryCorrect, entry_untouched behind] at exact_
    · intro h quarter
      obtain ⟨one, zero⟩ := correct.entries h (by omega)
      obtain ⟨set, clear⟩ := entry_after list mac quarter
      constructor
      · intro wanted
        by_contra unwanted
        have both := (one wanted).symm.trans (clear unwanted)
        exact absurd both (by decide)
      · intro wanted
        by_contra unwanted
        have both := (set wanted).symm.trans (zero unwanted)
        exact absurd both (by decide)
  · rintro ⟨behind, quarter⟩
    constructor
    · intro h small
      by_cases first : h < 16
      · obtain ⟨set, clear⟩ := entry_after list mac first
        exact ⟨fun wanted => set ((quarter h first).mp wanted),
          fun unwanted => clear (fun wanted => unwanted ((quarter h first).mpr wanted))⟩
      · have kept := behind h (by omega) small
        rwa [EntryCorrect, entry_untouched (by omega)]
    · intro a _
      exact (hash_parity a).1
    · apply mark_all_congr
      intro k
      simp only [Marks, List.mem_filter, decide_eq_true_eq, and_assoc, and_self_left]
    · intro list' same
      apply mark_all_congr
      intro k
      simp only [Marks, same]

def hashFour : MacAddress := fun octet =>
  if octet.val = 0 then 3 else if octet.val = 2 then 1 else 0

theorem hash_four_sets_entry_one : ¬ FilterCorrect [hashFour] (fun _ => 0) := by
  intro correct
  have hashes : (hash hashFour).toNat = 4 := by decide +kernel
  have wanted : Wanted [hashFour] 4 :=
    ⟨hashFour, List.mem_cons_self, by decide, hashes_to_iff.mpr hashes⟩
  have set := (correct.entries 4 (by decide)).1 wanted
  exact absurd set (by decide +kernel)

end TseMulticast
