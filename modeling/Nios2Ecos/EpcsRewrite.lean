import Nios2Ecos.EpcsErase
import Nios2Ecos.EpcsFlash
import Nios2Ecos.EpcsWrite

/- `alt_epcs_flash_write`, which erases a block before it writes to it: the data is stored
   whatever was there, and the rest of a block that had to change is lost. -/
namespace EpcsRewrite
open NorFlash EpcsFlash EpcsWrite

def rewriteBlocks (dev : FlashDev) (r : FlashRegion) : Nat → Nat → WriteWalk → WriteWalk
  | 0, _, w => w
  | j + 1, currentOffset, w =>
    if currentOffset ≤ w.offset ∧ w.offset < currentOffset + r.blockSize then
      let dataToWrite := min (currentOffset + r.blockSize - w.offset) w.src.length
      let data := w.src.take dataToWrite
      let w' :=
        if altEpcsFlashMemcmp dev w.flash data w.offset ≠ 0 then
          let erased := altEpcsFlashEraseBlock dev w.flash currentOffset
          if erased.1 = 0 then
            let done := altEpcsFlashWriteBlock dev erased.2 w.offset data
            { w with retCode := done.1, flash := done.2 }
          else { w with retCode := erased.1, flash := erased.2 }
        else w
      if w.src.length = dataToWrite ∨ w'.retCode ≠ 0 then { w' with finished := true }
      else
        rewriteBlocks dev r j (currentOffset + r.blockSize)
          { w' with offset := currentOffset + r.blockSize, src := w.src.drop dataToWrite }
    else rewriteBlocks dev r j (currentOffset + r.blockSize) w

def rewriteRegions (dev : FlashDev) : List FlashRegion → WriteWalk → WriteWalk
  | [], w => w
  | r :: rs, w =>
    if r.offset ≤ w.offset ∧ w.offset < r.offset + r.regionSize then
      let w' := rewriteBlocks dev r r.numberOfBlocks r.offset w
      if w'.finished then w' else rewriteRegions dev rs w'
    else rewriteRegions dev rs w

def altEpcsFlashWrite (dev : FlashDev) (f : Flash) (offset : Nat) (src : List UInt8) :
    Int × Flash :=
  let w := rewriteRegions dev dev.regionInfo ⟨offset, src, f, 0, false⟩
  (w.retCode, w.flash)

def Differs (block offset : Nat) (data : List UInt8) (f : Content) (b : Nat) : Prop :=
  ∃ i < data.length, (offset + i) / block = b ∧ f (offset + i) ≠ data.getD i 0xFF

/-- The content after a write: the data, and blank where a block had to be erased for it. -/
structure Rewritten (block offset : Nat) (data : List UInt8) (f f' : Content) : Prop where
  stored : ∀ i < data.length, f' (offset + i) = data.getD i 0xFF
  erased : ∀ x, x < offset ∨ offset + data.length ≤ x →
    Differs block offset data f (x / block) → f' x = 0xFF
  kept : ∀ x, x < offset ∨ offset + data.length ≤ x →
    ¬ Differs block offset data f (x / block) → f' x = f x

theorem rewritten_same {block offset : Nat} {data : List UInt8} {f : Content}
    (stored : ∀ i < data.length, f (offset + i) = data.getD i 0xFF) :
    Rewritten block offset data f f := by
  constructor
  · exact stored
  · intro x _ differs
    obtain ⟨i, inside, _, other⟩ := differs
    exact absurd (stored i inside) other
  · intro x _ _
    rfl

theorem rewritten_block {block offset c : Nat} {data : List UInt8} {f : Content}
    (low : c * block ≤ offset) (high : offset + data.length ≤ c * block + block)
    (positive : 0 < block) (other : ¬ ∀ i < data.length, f (offset + i) = data.getD i 0xFF) :
    Rewritten block offset data f (program offset data (blank (c * block) block f)) := by
  have here : ∀ x, x / block = c ↔ c * block ≤ x ∧ x < c * block + block := by
    intro x
    rw [Nat.div_eq_iff positive, ← Nat.succ_mul]
    have := Nat.succ_mul c block
    omega
  have differs : ∀ b, Differs block offset data f b ↔ b = c := by
    intro b
    constructor
    · rintro ⟨i, inside, there, _⟩
      rw [← there, here]
      omega
    · intro same
      subst same
      by_contra none_differs
      apply other
      intro i inside
      by_contra apart
      exact none_differs ⟨i, inside, (here _).mpr (by omega), apart⟩
  constructor
  · intro i inside
    have within : c * block ≤ offset + i ∧ offset + i < c * block + block := by omega
    rw [program, if_pos (by omega), Nat.add_sub_cancel_left, blank, if_pos within, erased_and]
  · intro x outside changed
    rw [program_outside _ outside, blank, if_pos ((here x).mp ((differs _).mp changed))]
  · intro x outside same
    rw [program_outside _ outside, blank, if_neg]
    intro within
    exact same ((differs _).mpr ((here x).mpr within))

theorem getD_front {xs ys : List UInt8} {i : Nat} (inside : i < xs.length) :
    (xs ++ ys).getD i 0xFF = xs.getD i 0xFF := by
  simp [List.getD_eq_getElem?_getD, List.getElem?_append_left inside]

theorem getD_behind {xs ys : List UInt8} (j : Nat) :
    (xs ++ ys).getD (xs.length + j) 0xFF = ys.getD j 0xFF := by
  simp [List.getD_eq_getElem?_getD, List.getElem?_append_right (Nat.le_add_right _ _)]

theorem differs_append {block offset : Nat} {xs ys : List UInt8} {f : Content} {b : Nat} :
    Differs block offset (xs ++ ys) f b ↔
      Differs block offset xs f b ∨ Differs block (offset + xs.length) ys f b := by
  constructor
  · rintro ⟨i, inside, there, other⟩
    rcases Nat.lt_or_ge i xs.length with front | behind
    · rw [getD_front front] at other
      exact Or.inl ⟨i, front, there, other⟩
    · obtain ⟨j, rfl⟩ : ∃ j, i = xs.length + j := ⟨i - xs.length, by omega⟩
      rw [getD_behind] at other
      rw [List.length_append] at inside
      rw [← Nat.add_assoc] at there other
      exact Or.inr ⟨j, by omega, there, other⟩
  · rintro (⟨i, inside, there, other⟩ | ⟨j, inside, there, other⟩)
    · exact ⟨i, by rw [List.length_append]; omega, there, by rwa [getD_front inside]⟩
    · refine ⟨xs.length + j, by rw [List.length_append]; omega, ?_, ?_⟩
      · rw [← Nat.add_assoc]
        exact there
      · rw [getD_behind, ← Nat.add_assoc]
        exact other

theorem rewritten_append {block offset : Nat} {xs ys : List UInt8} {f g h : Content}
    (first : Rewritten block offset xs f g)
    (second : Rewritten block (offset + xs.length) ys g h)
    (apart : ∀ i < xs.length, ∀ j < ys.length,
      (offset + i) / block ≠ (offset + xs.length + j) / block) :
    Rewritten block offset (xs ++ ys) f h := by
  have untouched : ∀ j < ys.length,
      g (offset + xs.length + j) = f (offset + xs.length + j) := by
    intro j inside
    apply first.kept _ (by omega)
    rintro ⟨i, here, there, _⟩
    exact apart i here j inside there
  have same : ∀ b, Differs block (offset + xs.length) ys g b ↔
      Differs block (offset + xs.length) ys f b := by
    intro b
    constructor
    · rintro ⟨j, inside, there, other⟩
      exact ⟨j, inside, there, by rwa [untouched j inside] at other⟩
    · rintro ⟨j, inside, there, other⟩
      exact ⟨j, inside, there, by rwa [untouched j inside]⟩
  constructor
  · intro i inside
    rw [List.length_append] at inside
    rcases Nat.lt_or_ge i xs.length with front | behind
    · rw [getD_front front, ← first.stored i front]
      apply second.kept _ (by omega)
      rintro ⟨j, within, there, _⟩
      exact apart i front j within there.symm
    · obtain ⟨j, rfl⟩ : ∃ j, i = xs.length + j := ⟨i - xs.length, by omega⟩
      rw [getD_behind, ← Nat.add_assoc]
      exact second.stored j (by omega)
  · intro x outside changed
    rw [List.length_append] at outside
    by_cases later : Differs block (offset + xs.length) ys g (x / block)
    · exact second.erased x (by omega) later
    · rw [second.kept x (by omega) later]
      rcases differs_append.mp changed with here | there
      · exact first.erased x (by omega) here
      · exact absurd ((same _).mpr there) later
  · intro x outside unchanged
    rw [List.length_append] at outside
    rw [differs_append, not_or] at unchanged
    rw [second.kept x (by omega) (by rw [same]; exact unchanged.2),
      first.kept x (by omega) unchanged.1]

section
variable {dev : FlashDev} {size blocks block : Nat} (q : QueriedDevice dev size blocks block)
include q

theorem rewrite_blocks (j c : Nat) (w : WriteWalk) (behind : c * block ≤ w.offset)
    (fits : w.offset + w.src.length ≤ c * block + j * block)
    (device : c * block + j * block ≤ size) (good : w.retCode = 0) :
    (rewriteBlocks dev ⟨0, size, blocks, block⟩ j (c * block) w).retCode = 0 ∧
      Rewritten block w.offset w.src w.flash.content
        (rewriteBlocks dev ⟨0, size, blocks, block⟩ j (c * block) w).flash.content := by
  have positive := q.positive
  induction j generalizing c w with
  | zero =>
    have nothing : w.src = [] := List.eq_nil_of_length_eq_zero (by omega)
    rw [rewriteBlocks, nothing]
    exact ⟨good, rewritten_same (by intro i inside; simp at inside)⟩
  | succ j ih =>
    have next : c * block + block = (c + 1) * block := (Nat.succ_mul c block).symm
    rw [Nat.succ_mul] at fits device
    rw [rewriteBlocks]
    simp only
    by_cases here : c * block ≤ w.offset ∧ w.offset < c * block + block
    · rw [if_pos here]
      obtain ⟨k, hk⟩ : ∃ k, k = min (c * block + block - w.offset) w.src.length := ⟨_, rfl⟩
      rw [← hk]
      have count : (w.src.take k).length = k := by
        rw [List.length_take]
        omega
      have inside : w.offset < size := by omega
      obtain ⟨m, hm⟩ : ∃ m, m = (if altEpcsFlashMemcmp dev w.flash (w.src.take k) w.offset ≠ 0
          then
            let erased := altEpcsFlashEraseBlock dev w.flash (c * block)
            if erased.1 = 0 then
              let done := altEpcsFlashWriteBlock dev erased.2 w.offset (w.src.take k)
              { w with retCode := done.1, flash := done.2 }
            else { w with retCode := erased.1, flash := erased.2 }
          else w) := ⟨_, rfl⟩
      simp only at hm
      rw [← hm]
      have block_done : m.retCode = 0 ∧
          Rewritten block w.offset (w.src.take k) w.flash.content m.flash.content := by
        rw [hm]
        split
        · rename_i changed
          rw [Ne, memcmp_flash q w.flash (w.src.take k) (by omega), eq_stored_iff] at changed
          have erased : altEpcsFlashEraseBlock dev w.flash (c * block) =
              (0, epcsSectorErase dev (c * block) w.flash) := by
            simp [altEpcsFlashEraseBlock, test_inside q (show c * block < size by omega)]
          obtain ⟨code, wrote⟩ := write_block q (epcsSectorErase dev (c * block) w.flash)
            (w.src.take k) inside (by omega)
          simp only [erased, if_true]
          refine ⟨code, ?_⟩
          rw [wrote.content, EpcsErase.sector_erase q c w.flash (by omega)]
          exact rewritten_block here.1 (by omega) positive changed
        · rename_i equal
          rw [not_not, memcmp_flash q w.flash (w.src.take k) (by omega), eq_stored_iff] at equal
          exact ⟨good, rewritten_same equal⟩
      by_cases last : w.src.length = k
      · rw [if_pos (Or.inl last)]
        have all : w.src.take k = w.src := List.take_of_length_le (by omega)
        rw [all] at block_done
        exact block_done
      · rw [if_neg (by simp [last, block_done.1])]
        have there : w.offset + (w.src.take k).length = c * block + block := by omega
        have rest := ih (c + 1)
          { m with offset := c * block + block, src := w.src.drop k } (by simp only; omega)
          (by simp only [List.length_drop]; omega) (by omega) block_done.1
        rw [← next] at rest
        refine ⟨rest.1, ?_⟩
        have tail := rest.2
        simp only at tail
        rw [← there] at tail
        have both := rewritten_append block_done.2 tail (by
          intro i front l within same
          have low : (w.offset + i) / block = c := by
            rw [Nat.div_eq_iff positive]
            omega
          have high : c + 1 ≤ (w.offset + (w.src.take k).length + l) / block := by
            rw [Nat.le_div_iff_mul_le positive]
            omega
          omega)
        rwa [List.take_append_drop, there] at both
    · rw [if_neg here, next]
      exact ih (c + 1) w (by omega) (by omega) (by omega) good

end

/-- Whatever the flash held, the data can be read back after the write. Outside of it a block
    keeps its content, or is blank when some of its data was new. -/
theorem flash_write_stores (signature deviceId : UInt8) (dev : FlashDev)
    (found : altEpcsFlashQuery signature deviceId = .ok dev) (old : Flash) (offset : Nat)
    (src : List UInt8) (fits : offset + src.length ≤ dev.sizeInBytes) :
    (altEpcsFlashWrite dev old offset src).1 = 0 ∧
      Rewritten (sectorSize dev) offset src old.content
        (altEpcsFlashWrite dev old offset src).2.content := by
  obtain ⟨size, blocks, block, q⟩ := queried found
  rw [q.bytes] at fits
  rw [EpcsErase.sector_size q]
  simp only [altEpcsFlashWrite, q.region, rewriteRegions]
  by_cases inside : 0 ≤ offset ∧ offset < 0 + size
  · rw [if_pos inside, ite_self]
    have fill := q.blocks_fill
    have walked := rewrite_blocks q blocks 0 ⟨offset, src, old, 0, false⟩ (by simp)
      (by simp only; omega) (by omega) rfl
    rwa [Nat.zero_mul] at walked
  · rw [if_neg inside]
    have nothing : src = [] := List.eq_nil_of_length_eq_zero (by omega)
    rw [nothing]
    exact ⟨rfl, rewritten_same (by intro i within; simp at within)⟩

theorem flash_write_two_bytes :
    (altEpcsFlashWrite (fillIn 0x10 131072 4 32768) ⟨fun _ => 0, []⟩ 10 [1, 2]).1 = 0 ∧
      Rewritten (sectorSize (fillIn 0x10 131072 4 32768)) 10 [1, 2] (fun _ => 0)
        (altEpcsFlashWrite (fillIn 0x10 131072 4 32768) ⟨fun _ => 0, []⟩ 10 [1, 2]).2.content :=
  flash_write_stores 0x10 0 (fillIn 0x10 131072 4 32768) rfl ⟨fun _ => 0, []⟩ 10 [1, 2]
    (by decide)

end EpcsRewrite
