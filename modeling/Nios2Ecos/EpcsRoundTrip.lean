import Nios2Ecos.EpcsErase

/- Erasing, writing and reading back on the serial flash. -/
namespace EpcsRoundTrip
open NorFlash EpcsFlash EpcsWrite EpcsErase

def bwrites (dev : FlashDev) : Flash → Nat → List (List UInt8) → List Int × Flash
  | f, _, [] => ([], f)
  | f, pos, piece :: pieces =>
    let done := epcsBwrite dev f piece pos
    let rest := bwrites dev done.2 (pos + piece.length) pieces
    (done.1 :: rest.1, rest.2)

def breads (dev : FlashDev) (f : Flash) : Nat → List Nat → Except Int (List UInt8)
  | _, [] => .ok []
  | pos, n :: ns => do
    let bytes ← epcsBread dev f n pos
    let rest ← breads dev f (pos + n) ns
    return bytes ++ rest

section
variable {dev : FlashDev} {size blocks block : Nat} (q : QueriedDevice dev size blocks block)
include q

theorem bwrites_blank (pieces : List (List UInt8)) (f : Flash) (pos : Nat)
    (erased : ∀ x, pos ≤ x → x < pos + pieces.flatten.length → f.content x = 0xFF)
    (fits : pos + pieces.flatten.length ≤ size) :
    (∀ code ∈ (bwrites dev f pos pieces).1, code = 0) ∧
      (bwrites dev f pos pieces).2.content = program pos pieces.flatten f.content := by
  induction pieces generalizing f pos with
  | nil =>
    refine ⟨nofun, ?_⟩
    rw [bwrites, List.flatten_nil, program_nil]
  | cons piece pieces ih =>
    rw [List.flatten_cons, List.length_append] at erased fits
    obtain ⟨wrote, answer⟩ := bwrite q f piece pos (by omega)
    obtain ⟨codes, content⟩ := ih (epcsBwrite dev f piece pos).2 (pos + piece.length)
      (by
        intro x low high
        rw [wrote.content, program_outside _ (by omega)]
        exact erased x (by omega) (by omega))
      (by omega)
    rw [bwrites]
    constructor
    · intro code mem
      rcases List.mem_cons.mp mem with rfl | later
      · rw [answer]
        intro i inside
        rw [erased (pos + i) (by omega) (by omega), erased_and]
      · exact codes code later
    · rw [content, wrote.content, List.flatten_cons, program_append]

theorem breads_stored (f : Flash) (ns : List Nat) (pos : Nat) (fits : pos + ns.sum ≤ size)
    (pieces : ∀ n ∈ ns, 0 < n) : breads dev f pos ns = .ok (stored f.content pos ns.sum) := by
  induction ns generalizing pos with
  | nil => rfl
  | cons n ns ih =>
    rw [List.sum_cons] at fits ⊢
    have moves := pieces n List.mem_cons_self
    have rest := ih (pos + n) (by omega)
      (fun m mem => pieces m (List.mem_cons_of_mem n mem))
    rw [breads, epcsBread, read_inside q f (by omega) (by omega), rest, stored_append]
    rfl

end

/-- Erasing whole blocks, writing the data in any pieces and reading any part of it in any
    pieces gives the data back, whatever the flash held before. -/
theorem erase_write_read (signature deviceId : UInt8) (dev : FlashDev)
    (found : altEpcsFlashQuery signature deviceId = .ok dev) (f : Flash) (offset : Nat)
    (data : List UInt8) (aligned : sectorSize dev ∣ offset)
    (whole : sectorSize dev ∣ data.length) (nonempty : 0 < data.length)
    (fits : offset + data.length ≤ dev.sizeInBytes) (pieces : List (List UInt8))
    (cut : pieces.flatten = data) :
    ∃ fuel a, epcsGetConfigErase dev fuel f offset data.length = some a ∧ a.returned = 0 ∧
      a.flasherr = 0 ∧
      let written := bwrites dev a.flash offset pieces
      (∀ code ∈ written.1, code = 0) ∧
      (∀ x, written.2.content x =
        if offset ≤ x ∧ x < offset + data.length then data.getD (x - offset) 0xFF
        else f.content x) ∧
      ∀ pos ns, offset ≤ pos → pos + ns.sum ≤ offset + data.length → (∀ n ∈ ns, 0 < n) →
        breads dev written.2 pos ns = .ok ((data.drop (pos - offset)).take ns.sum) := by
  obtain ⟨size, blocks, block, q⟩ := queried found
  rw [sector_size q] at aligned whole
  rw [q.bytes] at fits
  obtain ⟨fuel, e, returned, content, -⟩ := erase_whole q f (by omega) whole fits
  rw [Nat.div_mul_cancel aligned] at content
  obtain ⟨codes, after⟩ := bwrites_blank q pieces e.flash offset
    (by
      intro x low high
      rw [cut] at high
      rw [content, blank, if_pos ⟨low, high⟩])
    (by rw [cut]; exact fits)
  have final : ∀ x, (bwrites dev e.flash offset pieces).2.content x =
      if offset ≤ x ∧ x < offset + data.length then data.getD (x - offset) 0xFF
      else f.content x := by
    intro x
    rw [after, cut, content]
    split
    · rename_i inside
      rw [program, if_pos inside.1, blank, if_pos inside, erased_and]
    · rename_i outside
      rw [program_outside _ (by omega), blank, if_neg outside]
  refine ⟨fuel, ⟨0, 0, e.retCodes, e.flash⟩, ?_, rfl, rfl, codes, final, ?_⟩
  · rw [epcsGetConfigErase, returned, Option.map_some, erase_code returned]
  · intro pos ns low high each
    rw [breads_stored q _ ns pos (by omega) each]
    congr 1
    apply List.ext_getElem
    · rw [stored_length, List.length_take, List.length_drop]
      omega
    · intro i here there
      rw [stored_length] at here
      rw [List.getElem_take, List.getElem_drop]
      have byte := final (pos + i)
      rw [if_pos (by omega), List.getD_eq_getElem _ _ (by omega)] at byte
      simp only [stored, List.getElem_map, List.getElem_range, byte]
      congr 1
      omega

theorem erase_write_read_zeros :
    let dev := fillIn 0x10 131072 4 32768
    ∃ fuel a, epcsGetConfigErase dev fuel ⟨fun _ => 0x12, []⟩ 32768 32768 = some a ∧
      let written := bwrites dev a.flash 32768 [List.replicate 300 0, List.replicate 32468 0]
      written.2.content 32767 = 0x12 ∧ breads dev written.2 65533 [1, 2] = .ok [0, 0, 0] := by
  obtain ⟨fuel, a, erased, -, -, -, content, reads⟩ := erase_write_read 0x10 0
    (fillIn 0x10 131072 4 32768) rfl ⟨fun _ => 0x12, []⟩ 32768 (List.replicate 32768 0)
    (by decide) (by rw [List.length_replicate]; decide) (by rw [List.length_replicate]; decide)
    (by rw [List.length_replicate]; decide) [List.replicate 300 0, List.replicate 32468 0]
    (by rw [List.flatten_cons, List.flatten_cons, List.flatten_nil, List.append_nil,
      List.replicate_append_replicate])
  rw [List.length_replicate] at erased
  refine ⟨fuel, a, erased, ?_, ?_⟩
  · rw [content, if_neg (by omega)]
  · have bytes := reads 65533 [1, 2] (by decide) (by rw [List.length_replicate]; decide)
      (by decide)
    rw [bytes, List.drop_replicate, List.take_replicate]
    rfl

end EpcsRoundTrip
