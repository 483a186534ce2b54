import Mathlib.Data.List.TakeWhile
import Nios2Ecos.FirmwareUtil

/- The MAC address from the bootloader's prompt through the flash to the Ethernet
   controller. -/
namespace MacAddress
open NorFlash FirmwareUtil

inductive ReadLine
  | line (buffer : List UInt8)
  | reset
  | waiting
deriving DecidableEq, Repr

/-- `buffer` is the part of the buffer below `index`. A key that could not be read counts
    as 0, which is a character like any other. -/
def readLine (maxLen : Nat) : List UInt8 → List (Option UInt8) → ReadLine
  | _, [] => .waiting
  | buffer, key :: keys =>
    let c := key.getD 0
    if c = 0x03 then .reset
    else if c = 0x0A ∨ c = 0x0D then
      if buffer.length = 0 then .reset else .line buffer
    else if c = 0x08 then readLine maxLen buffer.dropLast keys
    else if maxLen - 1 ≤ buffer.length then .reset
    else readLine maxLen (buffer ++ [c]) keys

def cString (buffer : List UInt8) : List UInt8 := buffer.takeWhile (· ≠ 0)

def toupper (c : UInt8) : UInt8 := if 0x61 ≤ c ∧ c ≤ 0x7A then c - 0x20 else c

def hexValue (ch : UInt8) : Option UInt8 :=
  let c := toupper ch
  if 0x30 ≤ c ∧ c ≤ 0x39 then some (c - 0x30)
  else if 0x41 ≤ c ∧ c ≤ 0x46 then some (c - 0x41 + 10)
  else none

def transformFrom : Nat → List UInt8 → List UInt8 → Option (List UInt8)
  | _, [], mac => some mac
  | i, ch :: chs, mac =>
    match hexValue ch with
    | none => none
    | some val =>
      transformFrom (i + 1) chs
        (mac.modify (i / 2) (· + val <<< UInt8.ofNat (4 * ((i + 1) % 2))))

def transformMacAddress (buffer : List UInt8) : Option (List UInt8) :=
  if (cString buffer).length ≠ 12 then none
  else transformFrom 0 (cString buffer) (List.replicate 6 0)

inductive Ending
  | returned
  | reset
  | waiting
deriving DecidableEq, Repr

def macAddrLen : Nat := 6

def programMac (env : Env) (macAddr : Nat) (uiMac : List UInt8) (w : World) : Ending × World :=
  let erased := flashErase env macAddr macAddrLen w
  if erased.1 ≠ 0 then (.reset, erased.2)
  else
    let programmed := flashProgram env macAddr uiMac erased.2
    if programmed.1 ≠ 0 then (.reset, programmed.2) else (.returned, programmed.2)

def storeMac (env : Env) (macAddr : Nat) (uiMac : List UInt8) (w : World) : Ending × World :=
  let unlocked := if env.blockLocking then flashUnlock env macAddr macAddrLen w else (0, w)
  if unlocked.1 ≠ 0 then (.reset, unlocked.2) else programMac env macAddr uiMac unlocked.2

def changeMac (env : Env) (macAddr : Nat) (keys : List (Option UInt8)) (w : World) :
    Ending × World :=
  match readLine 13 [] keys with
  | .waiting => (.waiting, w)
  | .reset => (.reset, w)
  | .line buffer =>
    match transformMacAddress buffer with
    | none => (.reset, w)
    | some uiMac => storeMac env macAddr uiMac w

def macBytes (macAddr : Nat) (flash : Content) : List UInt8 :=
  (List.range macAddrLen).map fun i => flash (macAddr + i)

def hasMacAddress (macAddr : Nat) (flash : Content) : Bool :=
  (macBytes macAddr flash).foldl (· &&& ·) 0xFF ≠ 0xFF

structure OethRegs where
  macAddr1 : BitVec 32
  macAddr0 : BitVec 32
deriving DecidableEq, Repr

def gotMac (macaddr : List UInt8) : Bool :=
  macaddr.any (· ≠ 0xFF) && macaddr.any (· ≠ 0x00)

def saveMac (macaddr : List UInt8) : OethRegs :=
  let byte (i : Nat) : BitVec 32 := ((macaddr.getD i 0).toBitVec).setWidth 32
  ⟨byte 0 <<< 8 ||| byte 1, byte 2 <<< 24 ||| byte 3 <<< 16 ||| byte 4 <<< 8 ||| byte 5⟩

/-- The address part of `openeth_device_init`. -/
def openethDeviceInit (macstart : Nat) (flash : Content) : Option OethRegs :=
  let macaddr := macBytes macstart flash
  if gotMac macaddr then some (saveMac macaddr) else none

def ethGetMacAddress (regs : OethRegs) : List UInt8 :=
  let addr (m : BitVec 32) (shift : Nat) : UInt8 := ⟨((m >>> shift) &&& 0xff).setWidth 8⟩
  [addr regs.macAddr1 8, addr regs.macAddr1 0, addr regs.macAddr0 24, addr regs.macAddr0 16,
    addr regs.macAddr0 8, addr regs.macAddr0 0]

def TwelveDigits (text : List UInt8) : Prop :=
  text.length = 12 ∧ ∀ ch ∈ text, (hexValue ch).isSome

def pairs : List UInt8 → List UInt8
  | a :: b :: rest => ((hexValue a).getD 0 * 16 + (hexValue b).getD 0) :: pairs rest
  | _ => []

theorem hex_nonzero {ch : UInt8} (digit : (hexValue ch).isSome) : ch ≠ 0 := by
  intro zero
  subst zero
  revert digit
  decide

theorem hex_small {ch val : UInt8} (digit : hexValue ch = some val) : val.toNat < 16 := by
  unfold hexValue at digit
  simp only [UInt8.le_iff_toNat_le] at digit
  split at digit
  · rename_i range
    cases digit
    have low := UInt8.toNat_sub_of_le _ _ (UInt8.le_iff_toNat_le.mpr range.1)
    simp only [UInt8.reduceToNat] at *
    omega
  · split at digit
    · rename_i range
      cases digit
      have low := UInt8.toNat_sub_of_le _ _ (UInt8.le_iff_toNat_le.mpr range.1)
      rw [UInt8.toNat_add]
      simp only [UInt8.reduceToNat] at *
      omega
    · cases digit

theorem high_nibble (val : UInt8) : val <<< 4 = val * 16 := by
  apply UInt8.toNat_inj.mp
  rw [UInt8.toNat_shiftLeft, UInt8.toNat_mul, Nat.shiftLeft_eq]
  rfl

theorem modify_next (done : List UInt8) (b : UInt8) (rest : List UInt8) (f : UInt8 → UInt8) :
    (done ++ b :: rest).modify done.length f = done ++ f b :: rest := by
  induction done with
  | nil => rfl
  | cons d done ih =>
    rw [List.cons_append, List.length_cons, List.modify_succ_cons, ih, List.cons_append]

theorem transform_pairs (k : Nat) (text done : List UInt8) (length : text.length = 2 * k)
    (digits : ∀ ch ∈ text, (hexValue ch).isSome) :
    transformFrom (2 * done.length) text (done ++ List.replicate k 0) =
      some (done ++ pairs text) := by
  induction k generalizing text done with
  | zero =>
    rw [List.eq_nil_of_length_eq_zero length]
    simp [transformFrom, pairs]
  | succ k ih =>
    match text, length with
    | a :: b :: rest, length =>
      obtain ⟨va, ha⟩ := Option.isSome_iff_exists.mp (digits a (by simp))
      obtain ⟨vb, hb⟩ := Option.isSome_iff_exists.mp (digits b (by simp))
      have odd : (2 * done.length + 1) / 2 = done.length := by omega
      have even : 2 * done.length / 2 = done.length := by omega
      have first : (2 * done.length + 1) % 2 = 1 := by omega
      have second : (2 * done.length + 1 + 1) % 2 = 0 := by omega
      have byte : (0 : UInt8) + va <<< UInt8.ofNat (4 * 1) + vb <<< UInt8.ofNat (4 * 0) =
          va * 16 + vb := by
        rw [show va <<< UInt8.ofNat (4 * 1) = va * 16 from high_nibble va, UInt8.zero_add]
        congr 1
        apply UInt8.toNat_inj.mp
        rw [UInt8.toNat_shiftLeft]
        exact Nat.mod_eq_of_lt vb.toNat_lt
      have rest_done := ih rest (done ++ [va * 16 + vb])
        (by simp only [List.length_cons] at length; omega)
        (fun ch mem => digits ch (by simp [mem]))
      rw [List.length_append, List.append_assoc, List.append_assoc] at rest_done
      simp only [transformFrom, ha, hb, odd, even, first, second, List.replicate_succ,
        modify_next, pairs, Option.getD_some, byte]
      exact rest_done

theorem transform_digits {i : Nat} {text mac r : List UInt8}
    (h : transformFrom i text mac = some r) : ∀ ch ∈ text, (hexValue ch).isSome := by
  induction text generalizing i mac with
  | nil => simp
  | cons c cs ih =>
    rw [transformFrom] at h
    split at h
    · cases h
    · rename_i val digit
      intro ch mem
      rcases List.mem_cons.mp mem with rfl | later
      · rw [digit]
        rfl
      · exact ih h ch later

theorem c_string_whole {text : List UInt8} (nonzero : ∀ ch ∈ text, ch ≠ 0) :
    cString text = text :=
  List.takeWhile_eq_self_iff.mpr fun ch mem => by simpa using nonzero ch mem

theorem transform_mac_address (text : List UInt8) (short : text.length ≤ 12) :
    (TwelveDigits text → transformMacAddress text = some (pairs text)) ∧
      (¬ TwelveDigits text → transformMacAddress text = none) := by
  constructor
  · intro ⟨length, digits⟩
    have whole := c_string_whole fun ch mem => hex_nonzero (digits ch mem)
    rw [transformMacAddress, whole, if_neg (by simp [length])]
    exact transform_pairs 6 text [] length digits
  · intro other
    rw [transformMacAddress]
    split
    · rfl
    · rename_i length
      rw [not_not] at length
      -- twelve characters in front of the NUL are all there are
      have whole : cString text = text := by
        have front := List.takeWhile_prefix (p := (· ≠ (0 : UInt8))) (l := text)
        exact front.eq_of_length_le (by show text.length ≤ (cString text).length; omega)
      rw [whole] at length ⊢
      by_contra found
      obtain ⟨r, transformed⟩ := Option.ne_none_iff_exists'.mp found
      exact other ⟨length, transform_digits transformed⟩

theorem read_line_length {maxLen : Nat} {buffer text : List UInt8} {keys : List (Option UInt8)}
    (short : buffer.length ≤ maxLen - 1) (h : readLine maxLen buffer keys = .line text) :
    text.length ≤ maxLen - 1 := by
  induction keys generalizing buffer with
  | nil => cases h
  | cons key keys ih =>
    rw [readLine] at h
    split at h
    · cases h
    · split at h
      · split at h
        · cases h
        · cases h
          exact short
      · split at h
        · exact ih (by rw [List.length_dropLast]; omega) h
        · split at h
          · cases h
          · exact ih (by rw [List.length_append, List.length_singleton]; omega) h

theorem masked_bit (m : BitVec 32) (k : Nat) {i : Nat} (small : i < 8) :
    (((m >>> k) &&& (0xff : BitVec 32)).setWidth 8).getLsbD i = m.getLsbD (k + i) := by
  have low : (0xff : BitVec 32).getLsbD i = true := by
    revert i
    decide
  rw [BitVec.getLsbD_setWidth, BitVec.getLsbD_and, BitVec.getLsbD_ushiftRight, low]
  simp [small]

theorem placed_here (a : BitVec 8) {k i : Nat} (inside : k + i < 32) :
    (a.setWidth 32 <<< k).getLsbD (k + i) = a.getLsbD i := by
  have small : i < 32 := by omega
  rw [BitVec.getLsbD_shiftLeft, BitVec.getLsbD_setWidth, Nat.add_sub_cancel_left]
  simp [inside, small]

theorem placed_elsewhere (a : BitVec 8) {k j : Nat} (outside : j < k ∨ k + 8 ≤ j) :
    (a.setWidth 32 <<< k).getLsbD j = false := by
  rw [BitVec.getLsbD_shiftLeft, BitVec.getLsbD_setWidth]
  rcases outside with below | above
  · simp [below]
  · rw [BitVec.getLsbD_of_ge a _ (by omega)]
    simp

theorem packed_bytes (a b c d : BitVec 8) :
    let m := a.setWidth 32 <<< 24 ||| b.setWidth 32 <<< 16 ||| c.setWidth 32 <<< 8 ||| d.setWidth 32
    ((m >>> 24) &&& (0xff : BitVec 32)).setWidth 8 = a ∧ ((m >>> 16) &&& (0xff : BitVec 32)).setWidth 8 = b ∧
      ((m >>> 8) &&& (0xff : BitVec 32)).setWidth 8 = c ∧ ((m >>> 0) &&& (0xff : BitVec 32)).setWidth 8 = d := by
  have unshifted : d.setWidth 32 = d.setWidth 32 <<< 0 := (BitVec.shiftLeft_zero _).symm
  rw [unshifted]
  refine ⟨?_, ?_, ?_, ?_⟩
  all_goals
    apply BitVec.eq_of_getLsbD_eq
    intro i small
    simp only [masked_bit _ _ small, BitVec.getLsbD_or]
  · rw [placed_here a (by omega), placed_elsewhere b (by omega), placed_elsewhere c (by omega),
      placed_elsewhere d (by omega), Bool.or_false, Bool.or_false, Bool.or_false]
  · rw [placed_elsewhere a (by omega), placed_here b (by omega), placed_elsewhere c (by omega),
      placed_elsewhere d (by omega), Bool.false_or, Bool.or_false, Bool.or_false]
  · rw [placed_elsewhere a (by omega), placed_elsewhere b (by omega), placed_here c (by omega),
      placed_elsewhere d (by omega), Bool.false_or, Bool.false_or, Bool.or_false]
  · rw [placed_elsewhere a (by omega), placed_elsewhere b (by omega),
      placed_elsewhere c (by omega), placed_here d (by omega), Bool.false_or, Bool.false_or,
      Bool.false_or]

theorem get_saved (b0 b1 b2 b3 b4 b5 : UInt8) :
    ethGetMacAddress (saveMac [b0, b1, b2, b3, b4, b5]) = [b0, b1, b2, b3, b4, b5] := by
  obtain ⟨-, -, h0, h1⟩ := packed_bytes 0 0 b0.toBitVec b1.toBitVec
  obtain ⟨h2, h3, h4, h5⟩ := packed_bytes b2.toBitVec b3.toBitVec b4.toBitVec b5.toBitVec
  have nothing : (0 : BitVec 8).setWidth 32 <<< 24 ||| (0 : BitVec 8).setWidth 32 <<< 16 =
      0#32 := rfl
  simp only [nothing, BitVec.zero_or] at h0 h1
  simp only [saveMac, ethGetMacAddress, List.getD_cons_zero, List.getD_cons_succ]
  rw [h0, h1, h2, h3, h4, h5]

theorem and_full {a b : UInt8} : a &&& b = 0xFF ↔ a = 0xFF ∧ b = 0xFF := by
  simp only [← UInt8.toBitVec_inj, UInt8.toBitVec_and]
  exact BitVec.and_eq_allOnes_iff

theorem fold_full (bytes : List UInt8) (acc : UInt8) :
    bytes.foldl (· &&& ·) acc = 0xFF ↔ acc = 0xFF ∧ ∀ b ∈ bytes, b = 0xFF := by
  induction bytes generalizing acc with
  | nil => simp
  | cons b bs ih => rw [List.foldl_cons, ih, and_full, List.forall_mem_cons, and_assoc]

theorem has_mac_address (macAddr : Nat) (flash : Content) :
    hasMacAddress macAddr flash = true ↔ ¬ ∀ b ∈ macBytes macAddr flash, b = 0xFF := by
  simp [hasMacAddress, fold_full]

theorem got_mac (macaddr : List UInt8) :
    gotMac macaddr = true ↔ ¬ (∀ b ∈ macaddr, b = 0xFF) ∧ ¬ ∀ b ∈ macaddr, b = 0 := by
  simp [gotMac]

theorem pair_nat {x y : UInt8} (hx : x.toNat < 16) (hy : y.toNat < 16) :
    (x * 16 + y).toNat = x.toNat * 16 + y.toNat := by
  rw [UInt8.toNat_add, UInt8.toNat_mul, show (16 : UInt8).toNat = 16 from rfl,
    Nat.mod_eq_of_lt (show x.toNat * 16 < 2 ^ 8 by omega), Nat.mod_eq_of_lt (by omega)]

theorem pair_value {x y v : UInt8} (hx : x.toNat < 16) (hy : y.toNat < 16) (hv : v.toNat < 16) :
    x * 16 + y = v * 16 + v ↔ x = v ∧ y = v := by
  constructor
  · intro same
    have sum := congrArg UInt8.toNat same
    rw [pair_nat hx hy, pair_nat hv hv] at sum
    exact ⟨UInt8.toNat_inj.mp (by omega), UInt8.toNat_inj.mp (by omega)⟩
  · rintro ⟨rfl, rfl⟩
    rfl

theorem pairs_all {v : UInt8} (hv : v.toNat < 16) {k : Nat} {text : List UInt8}
    (length : text.length = 2 * k) (digits : ∀ ch ∈ text, (hexValue ch).isSome) :
    (∀ b ∈ pairs text, b = v * 16 + v) ↔ ∀ ch ∈ text, hexValue ch = some v := by
  induction k generalizing text with
  | zero =>
    rw [List.eq_nil_of_length_eq_zero length]
    simp [pairs]
  | succ k ih =>
    match text, length with
    | a :: b :: rest, length =>
      obtain ⟨va, ha⟩ := Option.isSome_iff_exists.mp (digits a (by simp))
      obtain ⟨vb, hb⟩ := Option.isSome_iff_exists.mp (digits b (by simp))
      have short : rest.length = 2 * k := by
        simp only [List.length_cons] at length
        omega
      have tail := ih short (fun ch mem => digits ch (by simp [mem]))
      simp only [pairs, List.forall_mem_cons, ha, hb, Option.getD_some,
        pair_value (hex_small ha) (hex_small hb) hv, tail, Option.some.injEq, and_assoc]

theorem pairs_length {k : Nat} {text : List UInt8} (length : text.length = 2 * k) :
    (pairs text).length = k := by
  induction k generalizing text with
  | zero =>
    rw [List.eq_nil_of_length_eq_zero length]
    rfl
  | succ k ih =>
    match text, length with
    | a :: b :: rest, length =>
      rw [pairs, List.length_cons, ih (by simp only [List.length_cons] at length; omega)]

set_option maxRecDepth 10000 in
theorem hex_cases : ∀ n < 256,
    (hexValue (UInt8.ofNat n) = some 15 ↔ UInt8.ofNat n = 0x46 ∨ UInt8.ofNat n = 0x66) ∧
      (hexValue (UInt8.ofNat n) = some 0 ↔ UInt8.ofNat n = 0x30) := by
  decide

theorem hex_fifteen (ch : UInt8) : hexValue ch = some 15 ↔ ch = 0x46 ∨ ch = 0x66 := by
  have known := (hex_cases ch.toNat ch.toNat_lt).1
  rwa [UInt8.ofNat_toNat] at known

theorem hex_zero (ch : UInt8) : hexValue ch = some 0 ↔ ch = 0x30 := by
  have known := (hex_cases ch.toNat ch.toNat_lt).2
  rwa [UInt8.ofNat_toNat] at known

def ProgramWorks (env : Env) (t : Nat) : Prop := env.erase t = 0 ∧ env.program (t + 1) = 0

def FlashWorks (env : Env) (w : World) : Prop :=
  if env.blockLocking then env.unlock w.log.length = 0 ∧ ProgramWorks env (w.log.length + 1)
  else ProgramWorks env w.log.length

section
variable (env : Env) {macAddr : Nat} {uiMac : List UInt8} (w : World)
  (inFlash : env.geometry.base ≤ macAddr) (length : uiMac.length = macAddrLen)
include inFlash length

theorem stored_bytes (flash : Content) :
    macBytes macAddr (program macAddr uiMac (erase env.geometry macAddr macAddrLen flash)) =
      uiMac := by
  apply List.ext_getElem
  · simp [macBytes, length]
  · intro i here there
    rw [length] at there
    have erased : env.geometry.Overlaps macAddr macAddrLen (macAddr + i) :=
      overlaps_of_mem env.geometry inFlash (by omega) (by omega)
    simp only [macBytes, List.getElem_map, List.getElem_range, program, erase, if_pos erased,
      if_pos (Nat.le_add_right macAddr i), Nat.add_sub_cancel_left, erased_and]
    exact List.getD_eq_getElem _ _ _

theorem program_mac :
    (ProgramWorks env w.log.length → ∃ w', programMac env macAddr uiMac w = (.returned, w') ∧
        macBytes macAddr w'.flash = uiMac) ∧
      (¬ ProgramWorks env w.log.length →
        ∃ w', programMac env macAddr uiMac w = (.reset, w')) := by
  have later : (flashErase env macAddr macAddrLen w).2.log.length = w.log.length + 1 := by
    simp [flashErase, World.emit]
  unfold programMac ProgramWorks
  by_cases erased : env.erase w.log.length = 0
  · have kept : (flashErase env macAddr macAddrLen w).2.flash =
        erase env.geometry macAddr macAddrLen w.flash := by
      simp [flashErase, erased]
    rw [if_neg (show ¬ (flashErase env macAddr macAddrLen w).1 ≠ 0 from not_not.mpr erased)]
    by_cases programmed : env.program (w.log.length + 1) = 0
    · refine ⟨fun _ => ⟨_, if_neg ?_, ?_⟩, fun fails => absurd ⟨erased, programmed⟩ fails⟩
      · simp only [flashProgram, later, programmed, ne_eq, not_true_eq_false, not_false_eq_true]
      · simp only [flashProgram, later, programmed, if_true, kept]
        exact stored_bytes env inFlash length w.flash
    · refine ⟨fun works => absurd works.2 programmed, fun _ => ⟨_, if_pos ?_⟩⟩
      simp only [flashProgram, later, ne_eq, programmed, not_false_eq_true]
  · rw [if_pos (show (flashErase env macAddr macAddrLen w).1 ≠ 0 from erased)]
    exact ⟨fun works => absurd works.1 erased, fun _ => ⟨_, rfl⟩⟩

theorem store_mac :
    (FlashWorks env w → ∃ w', storeMac env macAddr uiMac w = (.returned, w') ∧
        macBytes macAddr w'.flash = uiMac) ∧
      (¬ FlashWorks env w → ∃ w', storeMac env macAddr uiMac w = (.reset, w')) := by
  unfold storeMac FlashWorks
  by_cases locking : env.blockLocking = true
  · simp only [locking, if_true]
    have after := program_mac env (flashUnlock env macAddr macAddrLen w).2 inFlash length
    have later : (flashUnlock env macAddr macAddrLen w).2.log.length = w.log.length + 1 := by
      simp [flashUnlock, World.emit]
    rw [later] at after
    by_cases unlocked : env.unlock w.log.length = 0
    · rw [if_neg (show ¬ (flashUnlock env macAddr macAddrLen w).1 ≠ 0 from not_not.mpr unlocked)]
      simpa only [unlocked, true_and] using after
    · rw [if_pos (show (flashUnlock env macAddr macAddrLen w).1 ≠ 0 from unlocked)]
      exact ⟨fun works => absurd works.1 unlocked, fun _ => ⟨_, rfl⟩⟩
  · simp only [locking]
    exact program_mac env w inFlash length

end

/-- The four places that handle the address agree on it. The driver's `macstart` is the
    bootloader's `macAddr`. -/
structure PipelineAgrees (env : Env) (macAddr : Nat) (keys : List (Option UInt8)) (w : World) :
    Prop where
  reaches : (changeMac env macAddr keys w).2.log ≠ w.log →
    ∃ text, readLine 13 [] keys = .line text ∧ TwelveDigits text
  stored : (changeMac env macAddr keys w).1 = .returned →
    ∃ text, readLine 13 [] keys = .line text ∧
      hasMacAddress macAddr (changeMac env macAddr keys w).2.flash = true ∧
      ∃ regs, openethDeviceInit macAddr (changeMac env macAddr keys w).2.flash = some regs ∧
        ethGetMacAddress regs = pairs text
  refused : ∀ text, readLine 13 [] keys = .line text → ¬ TwelveDigits text →
    changeMac env macAddr keys w = (.reset, w)

def UnsetPattern (text : List UInt8) : Prop :=
  text.length = 12 ∧ ((∀ ch ∈ text, ch = 0x46 ∨ ch = 0x66) ∨ ∀ ch ∈ text, ch = 0x30)

theorem unset_digits {text : List UInt8} (unset : UnsetPattern text) : TwelveDigits text := by
  refine ⟨unset.1, ?_⟩
  intro ch mem
  rcases unset.2 with full | zero
  · rw [(hex_fifteen ch).mpr (full ch mem)]
    rfl
  · rw [(hex_zero ch).mpr (zero ch mem)]
    rfl

/-- The driver takes the pairs of twelve digits for an address unless they are a pattern of
    an address that is not set. -/
theorem got_pairs {text : List UInt8} (digits : TwelveDigits text) :
    gotMac (pairs text) = true ↔ ¬ UnsetPattern text := by
  have full := pairs_all (v := 15) (by decide) (k := 6) digits.1 digits.2
  have zero := pairs_all (v := 0) (by decide) (k := 6) digits.1 digits.2
  have bytes : (15 : UInt8) * 16 + 15 = 0xFF ∧ (0 : UInt8) * 16 + 0 = 0 := by decide
  simp only [bytes.1, bytes.2, hex_fifteen, hex_zero] at full zero
  rw [got_mac, full, zero, UnsetPattern, ← not_or]
  simp only [digits.1, true_and]

theorem change_mac_line (env : Env) (macAddr : Nat) (w : World) {keys : List (Option UInt8)}
    {text : List UInt8} (line : readLine 13 [] keys = .line text) :
    (TwelveDigits text → changeMac env macAddr keys w = storeMac env macAddr (pairs text) w) ∧
      (¬ TwelveDigits text → changeMac env macAddr keys w = (.reset, w)) := by
  have known := transform_mac_address text (read_line_length (by decide) line)
  unfold changeMac
  rw [line]
  constructor
  · intro digits
    simp only [known.1 digits]
  · intro other
    simp only [known.2 other]

theorem init_stored {macAddr : Nat} {flash : Content} {bytes : List UInt8}
    (stored : macBytes macAddr flash = bytes) :
    (∃ regs, openethDeviceInit macAddr flash = some regs ∧ ethGetMacAddress regs = bytes) ↔
      gotMac bytes = true := by
  unfold openethDeviceInit
  rw [stored]
  constructor
  · intro ⟨regs, accepted, _⟩
    by_contra refused
    rw [if_neg refused] at accepted
    cases accepted
  · intro accepted
    refine ⟨saveMac bytes, if_pos accepted, ?_⟩
    rw [← stored]
    exact get_saved _ _ _ _ _ _

theorem agrees_stored {env : Env} {macAddr : Nat} {keys : List (Option UInt8)} {w w' : World}
    {text : List UInt8} (line : readLine 13 [] keys = .line text) (digits : TwelveDigits text)
    (changed : changeMac env macAddr keys w = (.returned, w'))
    (stored : macBytes macAddr w'.flash = pairs text) :
    PipelineAgrees env macAddr keys w ↔ ¬ UnsetPattern text := by
  rw [← got_pairs digits]
  constructor
  · intro agrees
    obtain ⟨text', line', -, found⟩ := agrees.stored (by rw [changed])
    cases line.symm.trans line'
    rw [changed] at found
    exact (init_stored stored).mp found
  · intro accepted
    constructor
    · intro _
      exact ⟨text, line, digits⟩
    · intro _
      rw [changed]
      refine ⟨text, line, ?_, (init_stored stored).mpr accepted⟩
      rw [has_mac_address, stored]
      exact ((got_mac _).mp accepted).1
    · intro text' line' other
      cases line.symm.trans line'
      exact absurd digits other

section
variable {env : Env} {macAddr : Nat} {keys : List (Option UInt8)} {w w' : World} {ending : Ending}

theorem agrees_unstored (changed : changeMac env macAddr keys w = (ending, w'))
    (ended : ending ≠ .returned)
    (untouched : w'.log ≠ w.log → ∃ text, readLine 13 [] keys = .line text ∧ TwelveDigits text) :
    PipelineAgrees env macAddr keys w := by
  constructor
  · rwa [changed]
  · rw [changed]
    exact fun returned => absurd returned ended
  · intro text line other
    exact (change_mac_line env macAddr w line).2 other

theorem agrees_untouched (changed : changeMac env macAddr keys w = (ending, w))
    (ended : ending ≠ .returned) : PipelineAgrees env macAddr keys w :=
  agrees_unstored changed ended fun differs => absurd rfl differs

end

/-- The four agree on every line but, with a working flash, twelve times F and twelve times
    0. -/
theorem pipeline_agrees_iff (env : Env) (macAddr : Nat) (keys : List (Option UInt8)) (w : World)
    (inFlash : env.geometry.base ≤ macAddr) :
    PipelineAgrees env macAddr keys w ↔
      ¬ (FlashWorks env w ∧ ∃ text, readLine 13 [] keys = .line text ∧ UnsetPattern text) := by
  cases line : readLine 13 [] keys with
  | waiting =>
    have changed : changeMac env macAddr keys w = (.waiting, w) := by rw [changeMac, line]
    refine iff_of_true (agrees_untouched changed nofun) ?_
    intro ⟨_, text, impossible, _⟩
    cases impossible
  | reset =>
    have changed : changeMac env macAddr keys w = (.reset, w) := by rw [changeMac, line]
    refine iff_of_true (agrees_untouched changed nofun) ?_
    intro ⟨_, text, impossible, _⟩
    cases impossible
  | line text =>
    simp only [ReadLine.line.injEq, exists_eq_left']
    obtain ⟨accepted, refused⟩ := change_mac_line env macAddr w line
    by_cases digits : TwelveDigits text
    · obtain ⟨works, fails⟩ := store_mac env w inFlash (pairs_length (k := 6) digits.1)
      by_cases flash : FlashWorks env w
      · obtain ⟨w', returned, stored⟩ := works flash
        rw [agrees_stored line digits ((accepted digits).trans returned) stored]
        simp only [flash, true_and]
      · obtain ⟨w', reset⟩ := fails flash
        exact iff_of_true (agrees_unstored ((accepted digits).trans reset) nofun
          fun _ => ⟨text, line, digits⟩) (fun h => flash h.1)
    · exact iff_of_true (agrees_untouched (refused digits) nofun)
        (fun h => digits (unset_digits h.2))

def goodFlash : Env where
  geometry := ⟨0, 65536, by decide, by decide⟩
  blockLocking := true
  openUpload := 0
  openTmp := 0
  reopenTmp := 0
  inflateInit := 0
  readUpload := fun _ => none
  writeTmp := fun _ _ => 0
  readTmp := fun _ => none
  unlock := fun _ => 0
  erase := fun _ => 0
  program := fun _ => 0
  torn := fun _ _ => 0

theorem pipeline_agrees_typed :
    PipelineAgrees goodFlash 65530
      ([0x30, 0x30, 0x65, 0x31, 0x08, 0x30, 0x43, 0x39, 0x31, 0x34, 0x63, 0x38, 0x32, 0x39,
        0x0D].map some) ⟨none, [], fun _ => 0, [], []⟩ := by
  refine (pipeline_agrees_iff goodFlash 65530 _ _ (by decide)).mpr ?_
  intro ⟨_, text, line, unset⟩
  have typed : readLine 13 [] ([0x30, 0x30, 0x65, 0x31, 0x08, 0x30, 0x43, 0x39, 0x31, 0x34, 0x63,
      0x38, 0x32, 0x39, 0x0D].map some) =
      .line [0x30, 0x30, 0x65, 0x30, 0x43, 0x39, 0x31, 0x34, 0x63, 0x38, 0x32, 0x39] := by decide
  cases typed.symm.trans line
  revert unset
  unfold UnsetPattern
  decide

theorem zeros_stored_unset :
    ¬ PipelineAgrees goodFlash 65530 (List.replicate 12 (some 0x30) ++ [some 0x0D])
      ⟨none, [], fun _ => 0xFF, [], []⟩ := by
  have line : readLine 13 [] (List.replicate 12 (some 0x30) ++ [some 0x0D]) =
      .line (List.replicate 12 0x30) := by decide
  have unset : UnsetPattern (List.replicate 12 0x30) :=
    ⟨List.length_replicate, .inr fun _ mem => List.eq_of_mem_replicate mem⟩
  have digits := unset_digits unset
  have inFlash : goodFlash.geometry.base ≤ 65530 := by decide
  obtain ⟨w', returned, stored⟩ := (store_mac goodFlash ⟨none, [], fun _ => 0xFF, [], []⟩
    inFlash (pairs_length (k := 6) digits.1)).1 ⟨rfl, rfl, rfl⟩
  have changed := (change_mac_line goodFlash 65530 ⟨none, [], fun _ => 0xFF, [], []⟩ line).1 digits
  rw [agrees_stored line digits (changed.trans returned) stored]
  exact not_not.mpr unset

end MacAddress
