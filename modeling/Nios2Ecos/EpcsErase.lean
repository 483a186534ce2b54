import Nios2Ecos.EpcsWrite

/- The erase loop of the serial flash driver. A length of whole blocks is walked block by
   block from the block of the offset on; any other length wraps below zero and is never
   used up. Whatever happens on the way, the call returns zero. -/
namespace EpcsErase
open NorFlash EpcsFlash EpcsWrite

theorem regions_more (dev : FlashDev) {fuel : Nat} {rs : List FlashRegion} {w r : EraseWalk}
    (h : eraseRegions dev fuel rs w = some r) (k : Nat) :
    eraseRegions dev (fuel + k) rs w = some r := by
  induction rs generalizing w with
  | nil => exact h
  | cons region rs ih =>
    unfold eraseRegions at h ⊢
    split
    · rename_i inside
      rw [if_pos inside] at h
      obtain ⟨m, loop, rest⟩ := Option.bind_eq_some_iff.mp h
      rw [WhileLoop.turns_more loop k]
      exact ih rest
    · rename_i outside
      rw [if_neg outside] at h
      exact ih h

theorem erase_unique {dev : FlashDev} {n m : Nat} {f : Flash} {offset len : Nat}
    {e e' : EraseResult} (h : cygEpcsEraseBlocks dev n f offset len = some e)
    (h' : cygEpcsEraseBlocks dev m f offset len = some e') : e = e' := by
  obtain ⟨w, walked, rfl⟩ := Option.map_eq_some_iff.mp h
  obtain ⟨w', walked', rfl⟩ := Option.map_eq_some_iff.mp h'
  have more := regions_more dev walked m
  have more' := regions_more dev walked' n
  rw [Nat.add_comm, more] at more'
  cases more'
  rfl

theorem erase_code {dev : FlashDev} {fuel : Nat} {f : Flash} {offset len : Nat} {e : EraseResult}
    (h : cygEpcsEraseBlocks dev fuel f offset len = some e) : e.code = 0 := by
  obtain ⟨w, -, rfl⟩ := Option.map_eq_some_iff.mp h
  rfl

section
variable {dev : FlashDev} {size blocks block : Nat} (q : QueriedDevice dev size blocks block)
include q

theorem sector_size : sectorSize dev = block := by
  simp [sectorSize, q.region]

theorem block_below : block ≤ size := by
  have fill := q.blocks_fill
  have many := Nat.mul_le_mul_right block q.nonempty
  omega

theorem sample_blank (f : Flash) {a : Nat} (fits : a + 8 ≤ size) :
    altEpcsFlashMemcmp dev f erasedSample a = 0 ↔ ∀ i < 8, f.content (a + i) = 0xFF := by
  have bytes : ∀ i < 8, erasedSample.getD i 0xFF = 0xFF := by decide
  rw [memcmp_flash q f erasedSample fits, eq_stored_iff]
  constructor
  · intro same i small
    rw [same i small, bytes i small]
  · intro same i small
    rw [same i small, bytes i small]

theorem erased_from (f : Flash) {current : Nat} (fits : current + block ≤ size) (j : Nat)
    (whole : 8 ∣ j) :
    erasedFrom dev f block current j = true ↔
      ∀ x, current + j ≤ x → x < current + block → f.content x = 0xFF := by
  induction hn : block - j using Nat.strongRecOn generalizing j with
  | ind n ih =>
    obtain ⟨k, hk⟩ := q.pages
    obtain ⟨i, hi⟩ := whole
    rw [erasedFrom]
    by_cases more : j < block
    · rw [if_pos more]
      have sample := sample_blank q f (show current + j + 8 ≤ size by omega)
      have rest := ih (block - (j + 8)) (by omega) (j + 8) ⟨i + 1, by omega⟩ rfl
      by_cases here : altEpcsFlashMemcmp dev f erasedSample (current + j) = 0
      · rw [if_neg (by simp [here])]
        refine rest.trans ?_
        constructor
        · intro later x low high
          by_cases near : x < current + j + 8
          · have byte := sample.mp here (x - (current + j)) (by omega)
            rwa [Nat.add_sub_cancel' low] at byte
          · exact later x (by omega) high
        · intro all x low high
          exact all x (by omega) high
      · rw [if_pos here]
        refine iff_of_false Bool.false_ne_true ?_
        intro all
        apply here
        rw [sample]
        intro i small
        exact all _ (by omega) (by omega)
    · rw [if_neg more]
      refine iff_of_true rfl ?_
      intro x low high
      omega

theorem sector_erase (c : Nat) (f : Flash) (inside : (c + 1) * block ≤ size) :
    (epcsSectorErase dev (c * block) f).content = blank (c * block) block f.content := by
  have pos := q.positive
  rw [Nat.succ_mul] at inside
  rw [epcsSectorErase, three_bytes q (by omega)]
  funext x
  simp only [send, Command.effect, sector_size q, blank, Nat.mul_div_cancel c pos]
  have same : x / block = c ↔ c * block ≤ x ∧ x < c * block + block := by
    rw [Nat.div_eq_iff pos, ← Nat.succ_mul]
    have := Nat.succ_mul c block
    omega
  simp only [same]

theorem erase_unless_blank (c : Nat) (w : EraseWalk) (here : w.currentOffset = c * block)
    (inside : (c + 1) * block ≤ size) :
    (eraseUnlessBlank dev ⟨0, size, blocks, block⟩ w).flash.content =
        blank (c * block) block w.flash.content ∧
      ((∀ code ∈ w.retCodes, code = 0) →
        ∀ code ∈ (eraseUnlessBlank dev ⟨0, size, blocks, block⟩ w).retCodes, code = 0) := by
  have pos := q.positive
  have room : c * block + block ≤ size := by rwa [Nat.succ_mul] at inside
  rw [eraseUnlessBlank]
  simp only [here]
  split
  · rename_i erased
    rw [erased_from q w.flash room 0 (Nat.dvd_zero 8)] at erased
    refine ⟨(blank_same ?_).symm, id⟩
    intro x low high
    exact erased x low high
  · simp only [altEpcsFlashEraseBlock, test_inside q (show c * block < size by omega),
      Int.le_refl, if_true]
    refine ⟨sector_erase q c w.flash inside, ?_⟩
    intro good code mem
    rcases List.mem_append.mp mem with old | new
    · exact good code old
    · exact List.mem_singleton.mp new

theorem turn_passes {w : EraseWalk} (ahead : w.currentOffset + block ≤ w.offset)
    (inside : w.offset < size) :
    eraseTurn dev ⟨0, size, blocks, block⟩ w =
      { w with currentOffset := w.currentOffset + block } := by
  have low := q.addressed
  simp only [eraseTurn, Nat.mod_eq_of_lt (show w.currentOffset + block < 2 ^ 32 by omega)]
  rw [if_neg (by omega)]

theorem turn_erases {w : EraseWalk} (behind : w.currentOffset ≤ w.offset)
    (here : w.offset < w.currentOffset + block) (fits : w.currentOffset + block ≤ size)
    (enough : block ≤ w.len) (small : w.len ≤ size) :
    eraseTurn dev ⟨0, size, blocks, block⟩ w =
      { eraseUnlessBlank dev ⟨0, size, blocks, block⟩ w with
        len := w.len - block, offset := w.currentOffset + block,
        currentOffset := w.currentOffset + block } := by
  have low := q.addressed
  have rest : (2 ^ 32 + w.len - block) % 2 ^ 32 = w.len - block := by
    have pos := q.positive
    omega
  simp only [eraseTurn, rest, Nat.mod_eq_of_lt (show w.currentOffset + block < 2 ^ 32 by omega)]
  rw [if_pos ⟨behind, here⟩]

theorem erase_blocks (k c : Nat) (w : EraseWalk) (len : w.len = k * block)
    (current : w.currentOffset = c * block) (behind : c * block ≤ w.offset)
    (here : w.offset < c * block + block) (fits : (c + k) * block ≤ size) :
    ∃ r, WhileLoop.Returns moreToErase (eraseTurn dev ⟨0, size, blocks, block⟩) w r ∧
      r.flash.content = blank (c * block) (k * block) w.flash.content ∧
      ((∀ code ∈ w.retCodes, code = 0) → ∀ code ∈ r.retCodes, code = 0) := by
  induction k generalizing c w with
  | zero =>
    rw [Nat.zero_mul] at len ⊢
    refine ⟨w, WhileLoop.returns_done (by simp [moreToErase, len]), ?_, id⟩
    rw [blank_none]
  | succ k ih =>
    have pos := q.positive
    have one : (c + 1) * block = c * block + block := Nat.succ_mul c block
    have all : (c + (k + 1)) * block = c * block + (k * block + block) := by
      rw [Nat.add_mul, Nat.succ_mul]
    have span : (c + 1 + k) * block = (c + (k + 1)) * block := by
      rw [Nat.add_assoc, Nat.add_comm 1 k]
    rw [Nat.succ_mul] at len
    have turn := turn_erases q (w := w) (by omega) (by omega) (by omega) (by omega) (by omega)
    obtain ⟨content, codes⟩ := erase_unless_blank q c w current (by omega)
    obtain ⟨r, returns, final, finalCodes⟩ := ih (c + 1)
      (eraseTurn dev ⟨0, size, blocks, block⟩ w) (by rw [turn]; simp only; omega)
      (by rw [turn]; simp only; omega) (by rw [turn]; simp only; omega)
      (by rw [turn]; simp only; omega) (by omega)
    refine ⟨r, WhileLoop.returns_turn (by simp [moreToErase]; omega) returns, ?_, ?_⟩
    · rw [final, turn]
      simp only [content]
      rw [one, blank_append, Nat.succ_mul, Nat.add_comm (k * block)]
    · intro good
      apply finalCodes
      rw [turn]
      exact codes good

theorem erase_approach (d k c : Nat) (w : EraseWalk) (len : w.len = k * block)
    (current : w.currentOffset + d * block = c * block) (behind : c * block ≤ w.offset)
    (here : w.offset < c * block + block) (fits : (c + k) * block ≤ size)
    (inside : w.offset < size) :
    ∃ r, WhileLoop.Returns moreToErase (eraseTurn dev ⟨0, size, blocks, block⟩) w r ∧
      r.flash.content = blank (c * block) (k * block) w.flash.content ∧
      ((∀ code ∈ w.retCodes, code = 0) → ∀ code ∈ r.retCodes, code = 0) := by
  induction d generalizing w with
  | zero =>
    rw [Nat.zero_mul] at current
    exact erase_blocks q k c w len current behind here fits
  | succ d ih =>
    by_cases done : w.len = 0
    · refine ⟨w, WhileLoop.returns_done (by simp [moreToErase, done]), ?_, id⟩
      rw [← len, done, blank_none]
    · rw [Nat.succ_mul] at current
      have turn := turn_passes q (w := w) (by omega) inside
      obtain ⟨r, returns, content, codes⟩ := ih (eraseTurn dev ⟨0, size, blocks, block⟩ w)
        (by rw [turn]; exact len) (by rw [turn]; simp only; omega) (by rw [turn]; exact behind)
        (by rw [turn]; exact here) (by rw [turn]; exact inside)
      refine ⟨r, WhileLoop.returns_turn (by simp [moreToErase]; omega) returns, ?_, ?_⟩
      · rw [content, turn]
      · rw [turn] at codes
        exact codes

theorem erase_whole (f : Flash) {offset len : Nat} (inside : offset < size)
    (whole : block ∣ len) (fits : offset + len ≤ size) :
    ∃ fuel e, cygEpcsEraseBlocks dev fuel f offset len = some e ∧
      e.flash.content = blank (offset / block * block) len f.content ∧
      ∀ code ∈ e.retCodes, code = 0 := by
  obtain ⟨k, rfl⟩ := whole
  have pos := q.positive
  have low := Nat.div_mul_le_self offset block
  have high := Nat.lt_div_mul_add (a := offset) pos
  obtain ⟨r, ⟨n, returns⟩, content, codes⟩ := erase_approach q (offset / block) k (offset / block)
    ⟨block * k, offset, 0, f, []⟩ (Nat.mul_comm _ _) (Nat.zero_add _) low high
    (by rw [Nat.add_mul, Nat.mul_comm k]; omega) inside
  refine ⟨n, ⟨0, r.retCodes, r.flash⟩, ?_, ?_, codes nofun⟩
  · have there : 0 ≤ offset ∧ offset < 0 + size := by omega
    simp only [cygEpcsEraseBlocks, q.region, eraseRegions, if_pos there, returns,
      Option.bind_some, Option.map_some]
  · rw [content, Nat.mul_comm block k]

/-- A length that is not of whole blocks is never used up. -/
theorem erase_part (f : Flash) {offset len : Nat} (inside : offset < size)
    (rest : ¬ block ∣ len) (fuel : Nat) : cygEpcsEraseBlocks dev fuel f offset len = none := by
  have there : 0 ≤ offset ∧ offset < 0 + size := by omega
  have never : WhileLoop.turns moreToErase (eraseTurn dev ⟨0, size, blocks, block⟩) fuel
      ⟨len, offset, 0, f, []⟩ = none := by
    apply WhileLoop.never_returns fun w => ¬ block ∣ w.len
    · intro w partialLength
      by_contra zero
      have none_left : w.len = 0 := by simpa [moreToErase] using zero
      exact partialLength (by rw [none_left]; exact Nat.dvd_zero block)
    · intro w partialLength
      rw [eraseTurn]
      simp only
      split
      · -- the length wraps at 2^32, which is a whole number of blocks
        intro divides
        apply partialLength
        have low := q.addressed
        have one := block_below q
        have shifted : block ∣ 2 ^ 32 + w.len - block :=
          (Nat.dvd_mod_iff q.divides).mp divides
        have back := Nat.dvd_add shifted (Nat.dvd_refl block)
        rw [Nat.sub_add_cancel (by omega)] at back
        exact (Nat.dvd_add_right q.divides).mp back
      · exact partialLength
    · exact rest
  simp only [cygEpcsEraseBlocks, q.region, eraseRegions, if_pos there, never,
    Option.bind_none, Option.map_none]

end
def InOverlappedBlock (dev : FlashDev) (offset len x : Nat) : Prop :=
  offset / sectorSize dev ≤ x / sectorSize dev ∧
    x / sectorSize dev ≤ (offset + len - 1) / sectorSize dev

def ErasesExtent (dev : FlashDev) (f : Flash) (offset len : Nat) : Prop :=
  ∃ fuel e, cygEpcsEraseBlocks dev fuel f offset len = some e ∧
    ∀ x < dev.sizeInBytes,
      (InOverlappedBlock dev offset len x → e.flash.content x = 0xFF) ∧
      (¬ InOverlappedBlock dev offset len x → e.flash.content x = f.content x)

theorem last_block {block k : Nat} (offset : Nat) (pos : 0 < block) (many : 0 < k) :
    (offset + block * k - 1) / block =
      if block ∣ offset then offset / block + k - 1 else offset / block + k := by
  have parts := Nat.div_add_mod offset block
  have small := Nat.mod_lt offset pos
  have aligned : block ∣ offset ↔ offset % block = 0 := Nat.dvd_iff_mod_eq_zero
  generalize offset / block = c at *
  generalize offset % block = r at *
  have grow := Nat.le_mul_of_pos_right block many
  have product : (c + k) * block = block * c + block * k := by rw [Nat.mul_comm, Nat.mul_add]
  have less : (c + k - 1) * block = (c + k) * block - block := by rw [Nat.sub_mul, Nat.one_mul]
  split
  · rename_i start
    apply Nat.div_eq_of_lt_le
    · omega
    · rw [Nat.succ_mul]
      omega
  · rename_i start
    apply Nat.div_eq_of_lt_le
    · omega
    · rw [Nat.succ_mul]
      omega

theorem blank_blocks (c k : Nat) {block : Nat} (f : Content) (pos : 0 < block) (x : Nat) :
    blank (c * block) (block * k) f x =
      if c ≤ x / block ∧ x / block < c + k then 0xFF else f x := by
  have start : c * block ≤ x ↔ c ≤ x / block := (Nat.le_div_iff_mul_le pos).symm
  have stop : x < c * block + block * k ↔ x / block < c + k := by
    rw [Nat.div_lt_iff_lt_mul pos, Nat.add_mul, Nat.mul_comm k]
  simp only [blank, start, stop]

/-- Exactly the blocks of the range are erased when its length is of whole blocks and
    either its start is a block's or its last block is blank already. -/
theorem erases_extent_iff (signature deviceId : UInt8) (dev : FlashDev)
    (found : altEpcsFlashQuery signature deviceId = .ok dev) (f : Flash) (offset len : Nat)
    (some_bytes : 1 ≤ len) (fits : offset + len ≤ dev.sizeInBytes) :
    ErasesExtent dev f offset len ↔
      sectorSize dev ∣ len ∧ (sectorSize dev ∣ offset ∨
        ∀ x, x / sectorSize dev = (offset + len - 1) / sectorSize dev → f.content x = 0xFF) := by
  obtain ⟨size, blocks, block, q⟩ := queried found
  have sector := sector_size q
  have pos := q.positive
  rw [q.bytes] at fits
  have inside : offset < size := by omega
  by_cases whole : block ∣ len
  · obtain ⟨fuel, e, returned, content, -⟩ := erase_whole q f inside whole fits
    obtain ⟨k, rfl⟩ := whole
    have many : 0 < k := Nat.pos_of_mul_pos_left some_bytes
    have last := last_block offset pos many
    have after : ∀ x, e.flash.content x =
        if offset / block ≤ x / block ∧ x / block < offset / block + k then 0xFF
        else f.content x := by
      intro x
      rw [content, blank_blocks _ _ _ pos]
    simp only [ErasesExtent, InOverlappedBlock, sector, q.bytes, Nat.dvd_mul_right, true_and]
    constructor
    · rintro ⟨fuel', e', returned', extent⟩
      cases erase_unique returned' returned
      by_cases aligned : block ∣ offset
      · exact Or.inl aligned
      · right
        intro x there
        have known : x < size := by
          rw [← q.blocks_fill, ← Nat.div_lt_iff_lt_mul pos, there, Nat.div_lt_iff_lt_mul pos,
            q.blocks_fill]
          omega
        have byte := (extent x known).1 (by rw [there, last, if_neg aligned]; omega)
        rw [after, if_neg (by rw [there, last, if_neg aligned]; omega)] at byte
        exact byte
    · intro condition
      refine ⟨fuel, e, returned, ?_⟩
      intro x _
      rw [after, last]
      generalize offset / block = c at *
      obtain ⟨b, hb⟩ : ∃ b, b = x / block := ⟨_, rfl⟩
      rw [← hb]
      by_cases aligned : block ∣ offset
      · rw [if_pos aligned]
        constructor
        · intro overlapped
          rw [if_pos (by omega)]
        · intro apart
          rw [if_neg (by omega)]
      · rw [if_neg aligned]
        have blankLast := condition.resolve_left aligned
        rw [last, if_neg aligned] at blankLast
        constructor
        · intro overlapped
          split
          · rfl
          · exact blankLast x (by omega)
        · intro apart
          rw [if_neg (by omega)]
  · refine iff_of_false ?_ (by rw [sector]; exact fun h => whole h.1)
    rintro ⟨fuel, e, returned, _⟩
    rw [erase_part q f inside whole fuel] at returned
    cases returned

theorem erases_extent_aligned :
    ErasesExtent (fillIn 0x10 131072 4 32768) ⟨fun _ => 0, []⟩ 0 98304 :=
  (erases_extent_iff 0x10 0 (fillIn 0x10 131072 4 32768) rfl ⟨fun _ => 0, []⟩ 0 98304 (by decide)
    (by decide)).mpr ⟨by decide, Or.inl (by decide)⟩

theorem erase_one_byte : ¬ ErasesExtent (fillIn 0x10 131072 4 32768) ⟨fun _ => 0, []⟩ 0 1 := by
  rintro ⟨fuel, e, returned, _⟩
  have q : QueriedDevice (fillIn 0x10 131072 4 32768) 131072 4 32768 :=
    fill_in_queried _ (by decide)
  rw [erase_part q _ (by decide) (by decide) fuel] at returned
  cases returned

/-- The request says when it failed: outside of the device or with a failed erase it
    returns a code that is not zero and stores it, and after a zero the range reads as
    blank. -/
def ReportsFailure (dev : FlashDev) (f : Flash) (offset len : Nat) : Prop :=
  ∃ fuel a, epcsGetConfigErase dev fuel f offset len = some a ∧
    ((dev.sizeInBytes ≤ offset ∨ dev.sizeInBytes < offset + len ∨ ∃ code ∈ a.retCodes, code ≠ 0) →
      a.returned ≠ 0 ∧ a.flasherr = a.returned) ∧
    (a.returned = 0 → epcsBread dev a.flash len offset = .ok (List.replicate len 0xFF))

theorem blank_read {f : Content} {offset n : Nat} :
    stored f offset n = List.replicate n 0xFF ↔
      ∀ x, offset ≤ x → x < offset + n → f x = 0xFF := by
  constructor
  · intro same x low high
    have byte := stored_getD f offset (show x - offset < n by omega)
    rw [same, Nat.add_sub_cancel' low, List.getD_replicate _ (by omega)] at byte
    exact byte.symm
  · intro all
    refine List.eq_replicate_iff.mpr ⟨stored_length f offset n, ?_⟩
    intro b mem
    obtain ⟨i, inside, rfl⟩ := List.mem_map.mp mem
    have small := List.mem_range.mp inside
    exact all _ (by omega) (by omega)

theorem get_config_erase {dev : FlashDev} {fuel : Nat} {f : Flash} {offset len : Nat}
    {a : EraseAnswer} (h : epcsGetConfigErase dev fuel f offset len = some a) :
    ∃ e, cygEpcsEraseBlocks dev fuel f offset len = some e ∧
      a = ⟨0, 0, e.retCodes, e.flash⟩ := by
  obtain ⟨e, returned, rfl⟩ := Option.map_eq_some_iff.mp h
  rw [erase_code returned]
  exact ⟨e, returned, rfl⟩

/-- The answer is always zero, so it is right only where nothing can fail: the range lies in
    the device, and what it holds behind the erased blocks is blank already. -/
theorem reports_failure_iff (signature deviceId : UInt8) (dev : FlashDev)
    (found : altEpcsFlashQuery signature deviceId = .ok dev) (f : Flash) (offset len : Nat)
    (whole : sectorSize dev ∣ len) :
    ReportsFailure dev f offset len ↔
      offset < dev.sizeInBytes ∧ offset + len ≤ dev.sizeInBytes ∧
        ∀ x, offset ≤ x → x < offset + len →
          offset / sectorSize dev * sectorSize dev + len ≤ x → f.content x = 0xFF := by
  obtain ⟨size, blocks, block, q⟩ := queried found
  have pos := q.positive
  simp only [ReportsFailure, sector_size q, q.bytes] at whole ⊢
  have low := Nat.div_mul_le_self offset block
  constructor
  · rintro ⟨fuel, a, answered, failed, blankAfter⟩
    obtain ⟨e, returned, rfl⟩ := get_config_erase answered
    have inside : offset < size := by
      by_contra outside
      exact (failed (Or.inl (by omega))).1 rfl
    have fits : offset + len ≤ size := by
      by_contra outside
      exact (failed (Or.inr (Or.inl (by omega)))).1 rfl
    refine ⟨inside, fits, ?_⟩
    intro x from_start to_end behind
    obtain ⟨fuel', e', returned', content, -⟩ := erase_whole q f inside whole fits
    cases erase_unique returned returned'
    have bytes := blankAfter rfl
    rw [epcsBread, read_inside q _ inside fits, Except.ok.injEq, blank_read] at bytes
    have byte := bytes x from_start to_end
    rwa [content, blank, if_neg (by omega)] at byte
  · rintro ⟨inside, fits, tail⟩
    obtain ⟨fuel, e, returned, content, codes⟩ := erase_whole q f inside whole fits
    refine ⟨fuel, ⟨0, 0, e.retCodes, e.flash⟩, ?_, ?_, ?_⟩
    · rw [epcsGetConfigErase, returned, Option.map_some, erase_code returned]
    · intro failed
      rcases failed with outside | outside | ⟨code, mem, bad⟩
      · omega
      · omega
      · exact absurd (codes code mem) bad
    · intro _
      rw [epcsBread, read_inside q _ inside fits, Except.ok.injEq, blank_read]
      intro x from_start to_end
      rw [content, blank]
      split
      · rfl
      · exact tail x from_start to_end (by omega)

theorem erase_behind_device : ¬ ReportsFailure (fillIn 0x10 131072 4 32768) ⟨fun _ => 0, []⟩
    131072 32768 := by
  rintro ⟨fuel, a, answered, failed, _⟩
  obtain ⟨e, -, rfl⟩ := get_config_erase answered
  exact (failed (Or.inl (Nat.le_refl _))).1 rfl

theorem reports_failure_aligned : ReportsFailure (fillIn 0x10 131072 4 32768) ⟨fun _ => 0, []⟩
    32768 65536 := by
  refine (reports_failure_iff 0x10 0 (fillIn 0x10 131072 4 32768) rfl ⟨fun _ => 0, []⟩ 32768 65536
    (by decide)).mpr ⟨by decide, by decide, ?_⟩
  intro x _ high behind
  have whole : 32768 / sectorSize (fillIn 0x10 131072 4 32768) *
      sectorSize (fillIn 0x10 131072 4 32768) = 32768 := by decide
  omega

end EpcsErase
