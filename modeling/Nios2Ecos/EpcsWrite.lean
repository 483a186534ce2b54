import Nios2Ecos.EpcsFlash

/- Writing to the serial flash: the data is cut at blocks and pages, and what is stored
   already is skipped, but the flash ends up as if it had been programmed at once. -/
namespace EpcsWrite
open NorFlash EpcsFlash

def stored (f : Content) (offset n : Nat) : List UInt8 :=
  (List.range n).map fun i => f (offset + i)

theorem stored_length (f : Content) (offset n : Nat) : (stored f offset n).length = n := by
  simp [stored]

theorem stored_append (f : Content) (offset m n : Nat) :
    stored f offset (m + n) = stored f offset m ++ stored f (offset + m) n := by
  simp only [stored, List.range_add, List.map_append, List.map_map]
  congr 1
  apply List.map_congr_left
  intro i _
  simp [Nat.add_assoc]

theorem stored_getD (f : Content) (offset : Nat) {n i : Nat} (inside : i < n) :
    (stored f offset n).getD i 0xFF = f (offset + i) := by
  simp [stored, List.getD_eq_getElem?_getD, List.getElem?_range inside]

theorem eq_stored_iff {f : Content} {offset : Nat} {data : List UInt8} :
    data = stored f offset data.length ↔
      ∀ i < data.length, f (offset + i) = data.getD i 0xFF := by
  constructor
  · intro same i inside
    rw [same, stored_length] at inside
    rw [same, stored_getD f offset inside]
  · intro same
    apply List.ext_getElem (stored_length f offset _).symm
    intro i here _
    have byte := same i here
    rw [List.getD_eq_getElem _ _ here] at byte
    simp [stored, byte]

theorem memcmp_zero {xs ys : List UInt8} (length : xs.length = ys.length) :
    memcmp xs ys = 0 ↔ xs = ys := by
  induction xs generalizing ys with
  | nil =>
    cases ys with
    | nil => simp [memcmp]
    | cons y ys => simp at length
  | cons x xs ih =>
    cases ys with
    | nil => simp at length
    | cons y ys =>
      simp only [List.length_cons, Nat.add_right_cancel_iff] at length
      by_cases equal : x = y
      · simp [memcmp, equal, ih length]
      · have apart : x.toNat ≠ y.toNat := fun h => equal (UInt8.toNat_inj.mp h)
        rw [memcmp, if_neg equal]
        simp only [List.cons.injEq, equal, false_and, iff_false]
        omega

section
variable {dev : FlashDev} {size blocks block : Nat} (q : QueriedDevice dev size blocks block)
include q

theorem size_positive : 0 < size := by
  rw [← q.blocks_fill]
  exact Nat.mul_pos q.nonempty q.positive

theorem test_address (offset : Nat) :
    altEpcsTestAddress dev offset = if offset < size then 0 else -eio := by
  have pos := size_positive q
  have low := q.addressed
  have last : (2 ^ 32 - 1 + 0 + size) % 2 ^ 32 = size - 1 := by omega
  simp only [altEpcsTestAddress, q.region, List.getLastD_cons, List.getLastD_nil, last]
  by_cases inside : offset < size
  · rw [if_pos inside, if_neg (by omega)]
  · rw [if_neg inside, if_pos (by omega)]

theorem test_inside {offset : Nat} (inside : offset < size) :
    altEpcsTestAddress dev offset = 0 := by
  rw [test_address q, if_pos inside]

theorem three_bytes {offset : Nat} (inside : offset < size) : threeBytes offset = offset :=
  Nat.mod_eq_of_lt (Nat.lt_of_lt_of_le inside q.addressed)

theorem read_inside (f : Flash) {offset n : Nat} (start : offset < size)
    (fits : offset + n ≤ size) :
    altEpcsFlashRead dev f offset n = .ok (stored f.content offset n) := by
  rw [altEpcsFlashRead, test_inside q start, if_pos (Int.le_refl 0), epcsReadBuffer,
    three_bytes q start, q.bytes]
  congr 1
  apply List.map_congr_left
  intro i mem
  have here := List.mem_range.mp mem
  rw [Nat.mod_eq_of_lt (by omega)]

theorem memcmp_flash (f : Flash) (src : List UInt8) {offset : Nat}
    (fits : offset + src.length ≤ size) :
    altEpcsFlashMemcmp dev f src offset = 0 ↔ src = stored f.content offset src.length := by
  induction hn : src.length using Nat.strongRecOn generalizing src offset with
  | ind n ih =>
    cases src with
    | nil =>
      subst hn
      simp [altEpcsFlashMemcmp, stored]
    | cons b bs =>
      rw [altEpcsFlashMemcmp]
      have positive : 0 < (b :: bs).length := Nat.zero_lt_succ _
      generalize (b :: bs) = src at *
      subst hn
      obtain ⟨k, hk⟩ : ∃ k, k = min chunkSize src.length := ⟨_, rfl⟩
      have moves : 0 < k := by
        rw [hk]
        exact Nat.lt_min.mpr ⟨Nat.zero_lt_succ _, positive⟩
      have short : k ≤ src.length := by
        rw [hk]
        exact Nat.min_le_right _ _
      simp only [← hk, read_inside q f (show offset < size by omega)
        (show offset + k ≤ size by omega)]
      have lengths : (src.take k).length = (stored f.content offset k).length := by
        rw [List.length_take, stored_length, Nat.min_eq_left short]
      have tail := ih (src.length - k) (by omega) (src.drop k)
        (show offset + k + (src.drop k).length ≤ size by rw [List.length_drop]; omega)
        List.length_drop
      have whole : src = stored f.content offset src.length ↔
          src.take k = stored f.content offset k ∧
            src.drop k = stored f.content (offset + k) (src.length - k) := by
        have split : stored f.content offset src.length =
            stored f.content offset k ++ stored f.content (offset + k) (src.length - k) := by
          rw [← stored_append, Nat.add_sub_cancel' short]
        rw [split]
        constructor
        · intro same
          have parts := List.append_inj
            ((List.take_append_drop k src).trans same) lengths
          exact parts
        · rintro ⟨first, second⟩
          rw [← first, ← second, List.take_append_drop]
      rw [whole]
      by_cases first : memcmp (src.take k) (stored f.content offset k) = 0
      · rw [if_neg (by simp [first]), tail]
        simp only [(memcmp_zero lengths).mp first, true_and]
      · rw [if_pos first]
        have differs : src.take k ≠ stored f.content offset k := by
          intro same
          exact first ((memcmp_zero lengths).mpr same)
        simp only [first, differs, false_and]

end

/-- A page-program command that stays in one page and in `[low, high)`. -/
def PageWithin (low high : Nat) : Command → Prop
  | .sectorErase _ => False
  | .pageProgram a data =>
    0 < data.length ∧ low ≤ a ∧ a + data.length ≤ high ∧
      a / pageSize = (a + data.length - 1) / pageSize

/-- The flash was programmed, by page-program commands inside the range only. -/
structure Wrote (offset : Nat) (data : List UInt8) (f f' : Flash) : Prop where
  content : f'.content = program offset data f.content
  commands : ∃ cs, f'.commands = f.commands ++ cs ∧
    ∀ c ∈ cs, PageWithin offset (offset + data.length) c

theorem PageWithin.mono {low high low' high' : Nat} {c : Command} (h : PageWithin low high c)
    (below : low' ≤ low) (above : high ≤ high') : PageWithin low' high' c := by
  cases c with
  | sectorErase a => exact h
  | pageProgram a data => exact ⟨h.1, by have := h.2.1; omega, by have := h.2.2.1; omega, h.2.2.2⟩

theorem wrote_nothing {offset : Nat} {data : List UInt8} {f : Flash}
    (same : program offset data f.content = f.content) : Wrote offset data f f := by
  refine ⟨same.symm, [], (List.append_nil _).symm, ?_⟩
  intro c mem
  cases mem

theorem wrote_append {offset : Nat} {xs ys : List UInt8} {f m f' : Flash}
    (first : Wrote offset xs f m) (second : Wrote (offset + xs.length) ys m f') :
    Wrote offset (xs ++ ys) f f' := by
  obtain ⟨cs, log, inside⟩ := first.commands
  obtain ⟨cs', log', inside'⟩ := second.commands
  refine ⟨?_, cs ++ cs', ?_, ?_⟩
  · rw [second.content, first.content, program_append]
  · rw [log', log, List.append_assoc]
  · intro c mem
    rw [List.length_append]
    rcases List.mem_append.mp mem with old | new
    · exact (inside c old).mono (Nat.le_refl _) (by omega)
    · exact (inside' c new).mono (by omega) (by omega)

theorem page_program (a : Nat) (data : List UInt8) (f : Content)
    (fits : a % pageSize + data.length ≤ pageSize) : pageProgram a data f = program a data f := by
  induction data generalizing a f with
  | nil => rw [pageProgram, program_nil]
  | cons b bs ih =>
    have one : (fun x => if x = a then f x &&& b else f x) = program a [b] f := by
      funext x
      unfold program
      by_cases here : x = a
      · simp [here]
      · by_cases later : a ≤ x
        · rw [if_neg here, if_pos later, List.getD_eq_default _ _ (by simp; omega), and_erased]
        · rw [if_neg here, if_neg later]
    have next : program a (b :: bs) f = program (a + 1) bs (program a [b] f) :=
      program_append a [b] bs f
    rw [pageProgram, one, next]
    cases bs with
    | nil => rw [pageProgram, program_nil]
    | cons c cs =>
      unfold pageSize at fits ih ⊢
      simp only [List.length_cons] at fits
      have step : a / 256 * 256 + (a + 1) % 256 = a + 1 := by omega
      rw [step]
      apply ih
      simp only [List.length_cons]
      omega

section
variable {dev : FlashDev} {size blocks block : Nat} (q : QueriedDevice dev size blocks block)
include q

theorem write_pages (data : List UInt8) (offset : Nat) (f : Flash)
    (fits : offset + data.length ≤ size) :
    Wrote offset data f (writePages dev offset data f) := by
  induction hn : data.length using Nat.strongRecOn generalizing data offset f with
  | ind n ih =>
    cases data with
    | nil =>
      rw [writePages]
      exact wrote_nothing (program_nil _ _)
    | cons b bs =>
      rw [writePages]
      have positive : 0 < (b :: bs).length := Nat.zero_lt_succ _
      generalize (b :: bs) = data at *
      subst hn
      obtain ⟨next, hnext⟩ : ∃ m, m = (offset + pageSize) / pageSize * pageSize := ⟨_, rfl⟩
      obtain ⟨k, hk⟩ : ∃ k, k = min data.length (next - offset) := ⟨_, rfl⟩
      simp only [← hnext, ← hk]
      have ahead : offset < next ∧ next ≤ offset + 256 ∧ next / 256 = offset / 256 + 1 ∧
          next % 256 = 0 := by
        unfold pageSize at hnext
        omega
      have count : (data.take k).length = k := by
        rw [List.length_take]
        omega
      have inside : offset < size := by omega
      have first : Wrote offset (data.take k) f
          (epcsWriteBuffer dev offset (data.take k) f) := by
        refine ⟨?_, [.pageProgram offset (data.take k)], ?_, ?_⟩
        · rw [epcsWriteBuffer, three_bytes q inside]
          apply page_program
          rw [count]
          unfold pageSize
          omega
        · rw [epcsWriteBuffer, three_bytes q inside]
          rfl
        · intro c mem
          rw [List.mem_singleton.mp mem]
          refine ⟨by omega, Nat.le_refl _, Nat.le_refl _, ?_⟩
          rw [count]
          unfold pageSize
          omega
      by_cases last : data.length ≤ k
      · have nothing : data.drop k = [] := List.drop_eq_nil_of_le last
        rw [nothing, writePages]
        rwa [List.take_of_length_le last] at first ⊢
      · have there : offset + (data.take k).length = next := by omega
        have rest := ih (data.length - k) (by omega) (data.drop k) next
          (epcsWriteBuffer dev offset (data.take k) f)
          (by rw [List.length_drop]; omega) List.length_drop
        rw [← there] at rest
        have both := wrote_append first rest
        rwa [List.take_append_drop, there] at both

theorem write_block (f : Flash) (data : List UInt8) {offset : Nat} (inside : offset < size)
    (fits : offset + data.length ≤ size) :
    (altEpcsFlashWriteBlock dev f offset data).1 = 0 ∧
      Wrote offset data f (altEpcsFlashWriteBlock dev f offset data).2 := by
  simp only [altEpcsFlashWriteBlock, test_inside q inside, Int.le_refl, if_true, true_and]
  exact write_pages q data offset f fits

/-- The block walk from `current` on, with the write position in a block still to come. -/
theorem write_blocks (j current : Nat) (w : WriteWalk) (behind : current ≤ w.offset)
    (fits : w.offset + w.src.length ≤ current + j * block) (device : current + j * block ≤ size)
    (good : w.retCode = 0) :
    (writeBlocks dev ⟨0, size, blocks, block⟩ j current w).retCode = 0 ∧
      Wrote w.offset w.src w.flash
        (writeBlocks dev ⟨0, size, blocks, block⟩ j current w).flash := by
  induction j generalizing current w with
  | zero =>
    have nothing : w.src = [] := List.eq_nil_of_length_eq_zero (by omega)
    rw [writeBlocks, nothing]
    exact ⟨good, wrote_nothing (program_nil _ _)⟩
  | succ j ih =>
    rw [Nat.succ_mul] at fits device
    rw [writeBlocks]
    simp only
    by_cases here : current ≤ w.offset ∧ w.offset < current + block
    · rw [if_pos here]
      obtain ⟨k, hk⟩ : ∃ k, k = min (current + block - w.offset) w.src.length := ⟨_, rfl⟩
      rw [← hk]
      have count : (w.src.take k).length = k := by
        rw [List.length_take]
        omega
      have inside : w.offset < size := by omega
      obtain ⟨m, hm⟩ : ∃ m, m = (if altEpcsFlashMemcmp dev w.flash (w.src.take k) w.offset ≠ 0
          then { w with
            retCode := (altEpcsFlashWriteBlock dev w.flash w.offset (w.src.take k)).1,
            flash := (altEpcsFlashWriteBlock dev w.flash w.offset (w.src.take k)).2 }
          else w) := ⟨_, rfl⟩
      rw [← hm]
      have block_done : m.retCode = 0 ∧ Wrote w.offset (w.src.take k) w.flash m.flash := by
        rw [hm]
        split
        · exact write_block q w.flash (w.src.take k) inside (by omega)
        · rename_i equal
          rw [not_not, memcmp_flash q w.flash (w.src.take k) (by omega), eq_stored_iff] at equal
          exact ⟨good, wrote_nothing (program_same equal)⟩
      by_cases last : w.src.length = k
      · rw [if_pos (Or.inl last)]
        have all : w.src.take k = w.src := List.take_of_length_le (by omega)
        rw [all] at block_done
        exact block_done
      · rw [if_neg (by simp [last, block_done.1])]
        have there : w.offset + (w.src.take k).length = current + block := by omega
        have rest := ih (current + block)
          { m with offset := current + block, src := w.src.drop k } (Nat.le_refl _)
          (by simp only [List.length_drop]; omega) (by omega) block_done.1
        refine ⟨rest.1, ?_⟩
        have tail := rest.2
        simp only at tail
        rw [← there] at tail
        have both := wrote_append block_done.2 tail
        rwa [List.take_append_drop, there] at both
    · rw [if_neg here]
      exact ih (current + block) w (by omega) (by omega) (by omega) good

theorem flash_write (f : Flash) (src : List UInt8) {offset : Nat}
    (fits : offset + src.length ≤ size) :
    (epcsFlashWrite dev f offset src).1 = 0 ∧
      Wrote offset src f (epcsFlashWrite dev f offset src).2 := by
  simp only [epcsFlashWrite, q.region, writeRegions]
  by_cases inside : 0 ≤ offset ∧ offset < 0 + size
  · rw [if_pos inside, ite_self]
    have fill := q.blocks_fill
    exact write_blocks q blocks 0 ⟨offset, src, f, 0, false⟩ (Nat.zero_le _)
      (by simp only; omega) (by omega) rfl
  · rw [if_neg inside]
    have nothing : src = [] := List.eq_nil_of_length_eq_zero (by omega)
    rw [nothing]
    exact ⟨rfl, wrote_nothing (program_nil _ _)⟩

/-- What a write leaves behind, and when it says that it succeeded. -/
theorem bwrite (f : Flash) (src : List UInt8) (pos : Nat) (fits : pos + src.length ≤ size) :
    Wrote pos src f (epcsBwrite dev f src pos).2 ∧
      ((epcsBwrite dev f src pos).1 = 0 ↔
        ∀ i < src.length, f.content (pos + i) &&& src.getD i 0xFF = src.getD i 0xFF) := by
  obtain ⟨code, wrote⟩ := flash_write q f src fits
  rw [epcsBwrite]
  simp only [code, if_true]
  refine ⟨wrote, ?_⟩
  rw [memcmp_flash q _ src fits, eq_stored_iff]
  have after : ∀ i, (epcsFlashWrite dev f pos src).2.content (pos + i) =
      f.content (pos + i) &&& src.getD i 0xFF := by
    intro i
    rw [wrote.content, program, if_pos (by omega), Nat.add_sub_cancel_left]
  simp only [after]

end

/-- Every write programs exactly its bytes, page by page, and reports whether they read
    back. -/
theorem bwrite_law (signature deviceId : UInt8) (dev : FlashDev)
    (found : altEpcsFlashQuery signature deviceId = .ok dev) (old : Flash) (pos : Nat)
    (buf : List UInt8) (fits : pos + buf.length ≤ dev.sizeInBytes) :
    let done := epcsBwrite dev old buf pos
    (∀ i < buf.length, done.2.content (pos + i) = old.content (pos + i) &&& buf.getD i 0xFF) ∧
      (∀ x, x < pos ∨ pos + buf.length ≤ x → done.2.content x = old.content x) ∧
      (∃ cs, done.2.commands = old.commands ++ cs ∧
        ∀ c ∈ cs, PageWithin pos (pos + buf.length) c) ∧
      (done.1 = 0 ↔
        ∀ i < buf.length, old.content (pos + i) &&& buf.getD i 0xFF = buf.getD i 0xFF) := by
  obtain ⟨size, blocks, block, q⟩ := queried found
  rw [q.bytes] at fits
  obtain ⟨wrote, answer⟩ := bwrite q old buf pos fits
  refine ⟨?_, ?_, wrote.commands, answer⟩
  · intro i _
    rw [wrote.content, program, if_pos (by omega), Nat.add_sub_cancel_left]
  · intro x outside
    rw [wrote.content, program_outside _ outside]

/-- Two bytes on both sides of a page's end: the second is stored, the first is not. -/
theorem bwrite_law_two_pages :
    let done := epcsBwrite (fillIn 0x10 131072 4 32768) ⟨fun _ => 0xF0, []⟩ [0x0F, 0xF0] 255
    done.2.content 255 = 0x00 ∧ done.2.content 256 = 0xF0 ∧ done.2.content 257 = 0xF0 ∧
      done.1 ≠ 0 := by
  obtain ⟨inside, outside, -, answer⟩ := bwrite_law 0x10 0 (fillIn 0x10 131072 4 32768) rfl
    ⟨fun _ => 0xF0, []⟩ 255 [0x0F, 0xF0] (by decide)
  refine ⟨inside 0 (by decide), inside 1 (by decide), outside 257 (by decide), ?_⟩
  rw [Ne, answer]
  intro all
  have first := all 0 (by decide)
  revert first
  decide

end EpcsWrite
