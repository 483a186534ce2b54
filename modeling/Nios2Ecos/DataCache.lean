import Mathlib.Algebra.Order.Ring.Nat
import Nios2Ecos.WhileLoop

/- The range operations of hal_cache.h on the data cache of a Nios II: direct mapped and
   write-back, with instructions that act on a line only when its tag matches. -/
namespace DataCache

abbrev Word := BitVec 32

structure Geometry where
  lineBits : Nat
  setBits : Nat
  fits : lineBits + setBits < 32

def Geometry.line (g : Geometry) : Nat := 2 ^ g.lineBits
def Geometry.sets (g : Geometry) : Nat := 2 ^ g.setBits
def Geometry.size (g : Geometry) : Nat := g.line * g.sets

structure Entry where
  tag : Nat
  dirty : Bool
  data : Nat → UInt8

structure Machine where
  cache : Nat → Option Entry
  memory : Nat → UInt8

variable (g : Geometry)

def setOf (a : Nat) : Nat := a / g.line % g.sets
def tagOf (a : Nat) : Nat := a / g.line / g.sets

def cached (m : Machine) (a : Nat) : Option Entry :=
  (m.cache (setOf g a)).filter (fun e => e.tag = tagOf g a)

def view (m : Machine) (a : Nat) : UInt8 :=
  match cached g m a with
  | some e => e.data (a % g.line)
  | none => m.memory a

def writeLine (m : Machine) (i : Nat) (e : Entry) : Nat → UInt8 :=
  fun a => if a / g.line = i / g.line then e.data (a % g.line) else m.memory a

def drop (m : Machine) (i : Nat) : Nat → Option Entry :=
  fun s => if s = setOf g i then none else m.cache s

/-- A line operation by address: `writeBack` is what sets flushda apart from initda. -/
def lineOperation (writeBack : Bool) (m : Machine) (i : Nat) : Machine :=
  match cached g m i with
  | some e =>
    { cache := drop g m i
      memory := if writeBack ∧ e.dirty then writeLine g m i e else m.memory }
  | none => m

def flushda (m : Machine) (i : Nat) : Machine := lineOperation g true m i
def initda (m : Machine) (i : Nat) : Machine := lineOperation g false m i

def start (base : Word) : Word := base &&& ~~~(BitVec.ofNat 32 g.line - 1)

def clampedSize (base asize : Word) : Word :=
  let size := asize + base - start g base
  if BitVec.ofNat 32 g.size < size then BitVec.ofNat 32 g.size else size

def stop (base asize : Word) : Word := start g base + clampedSize g base asize

def moreLines (stop : Word) (s : Word × Machine) : Bool := s.1 < stop

def nextLine (operation : Machine → Nat → Machine) (s : Word × Machine) : Word × Machine :=
  (s.1 + BitVec.ofNat 32 g.line, operation s.2 s.1.toNat)

def HalDcacheOperation (operation : Machine → Nat → Machine) (base asize : Word)
    (m r : Machine) : Prop :=
  ∃ i, WhileLoop.Returns (moreLines (stop g base asize)) (nextLine g operation)
    (start g base, m) (i, r)

def HalDcacheFlush (base asize : Word) (m r : Machine) : Prop :=
  HalDcacheOperation g (flushda g) base asize m r

def HalDcacheInvalidate (base asize : Word) (m r : Machine) : Prop :=
  HalDcacheOperation g (initda g) base asize m r

def InRange (base asize : Word) (a : Nat) : Prop :=
  base.toNat ≤ a ∧ a < base.toNat + asize.toNat

def Overlaps (base asize : Word) (a : Nat) : Prop :=
  ∃ b, b / g.line = a / g.line ∧ InRange base asize b

/-- A clean line holds what memory holds. -/
def Coherent (m : Machine) (a : Nat) : Prop :=
  ∀ e, cached g m a = some e → e.dirty = false → e.data (a % g.line) = m.memory a

def Untouched (base asize : Word) (m r : Machine) : Prop :=
  ∀ a, ¬Overlaps g base asize a → cached g r a = cached g m a ∧ r.memory a = m.memory a

structure Flushed (base asize : Word) (m r : Machine) : Prop where
  clean : ∀ a e, InRange base asize a → cached g r a = some e → e.dirty = false
  written : ∀ a, InRange base asize a → Coherent g m a → r.memory a = view g m a
  others : Untouched g base asize m r

structure Invalidated (base asize : Word) (m r : Machine) : Prop where
  gone : ∀ a, InRange base asize a → cached g r a = none
  kept : ∀ a, InRange base asize a → r.memory a = m.memory a
  others : Untouched g base asize m r

/-- The range ends below the last line of the address space and, with the part of its first
    line before it, fits in the cache. -/
def Sweepable (base asize : Word) : Prop :=
  (asize = 0 ∧ base.toNat % g.line = 0) ∨
    (asize ≠ 0 ∧ base.toNat % g.line + asize.toNat ≤ g.size
      ∧ base.toNat + asize.toNat + g.line ≤ 2 ^ 32)

variable {g}

theorem line_pos : 0 < g.line := Nat.two_pow_pos g.lineBits

theorem size_lt : g.size < 2 ^ 32 := by
  rw [Geometry.size, Geometry.line, Geometry.sets, ← Nat.pow_add]
  exact Nat.pow_lt_pow_right (by decide) g.fits

theorem line_le_size : g.line ≤ g.size :=
  Nat.le_mul_of_pos_right g.line (Nat.two_pow_pos g.setBits)

theorem line_dvd_space : g.line ∣ 2 ^ 32 :=
  Nat.pow_dvd_pow 2 (Nat.le_of_lt (Nat.lt_of_le_of_lt (Nat.le_add_right _ _) g.fits))

theorem line_dvd_size : g.line ∣ g.size := Nat.dvd_mul_right g.line g.sets

theorem same_line {a b : Nat} (set : setOf g a = setOf g b) (tag : tagOf g a = tagOf g b) :
    a / g.line = b / g.line := by
  rw [← Nat.div_add_mod (a / g.line) g.sets, ← Nat.div_add_mod (b / g.line) g.sets]
  exact congrArg₂ (fun t s => g.sets * t + s) tag set

theorem cached_of_line {m : Machine} {a b : Nat} (line : a / g.line = b / g.line) :
    cached g m a = cached g m b := by
  rw [cached, cached, setOf, setOf, tagOf, tagOf, line]

def latest (g : Geometry) (m : Machine) (a : Nat) : UInt8 :=
  match cached g m a with
  | some e => if e.dirty then e.data (a % g.line) else m.memory a
  | none => m.memory a

theorem latest_of_coherent {m : Machine} {a : Nat} (coherent : Coherent g m a) :
    latest g m a = view g m a := by
  unfold latest view
  cases found : cached g m a with
  | none => rfl
  | some e =>
    cases dirty : e.dirty with
    | true => simp [dirty]
    | false => simp [dirty, coherent e found dirty]

theorem cached_line_operation (writeBack : Bool) (m : Machine) (i a : Nat) :
    cached g (lineOperation g writeBack m i) a
      = if a / g.line = i / g.line then none else cached g m a := by
  unfold lineOperation
  cases found : cached g m i with
  | none =>
    by_cases line : a / g.line = i / g.line
    · simp [line, cached_of_line line, found]
    · simp [line]
  | some e =>
    by_cases line : a / g.line = i / g.line
    · have set : setOf g a = setOf g i := congrArg (· % g.sets) line
      simp [cached, drop, line, set]
    · rw [if_neg line]
      by_cases set : setOf g a = setOf g i
      · -- the dropped entry was in the set of `a`, under another tag
        obtain ⟨there, matching⟩ := Option.filter_eq_some_iff.mp found
        have tag : e.tag = tagOf g i := by simpa using matching
        have apart : e.tag ≠ tagOf g a := by
          intro same
          exact line (same_line set (same.symm.trans tag))
        simp [cached, drop, there, set, apart, Option.filter]
      · simp [cached, drop, set]

theorem memory_line_operation (writeBack : Bool) (m : Machine) (i a : Nat) :
    (lineOperation g writeBack m i).memory a
      = if writeBack = true ∧ a / g.line = i / g.line then latest g m a else m.memory a := by
  unfold lineOperation
  by_cases line : a / g.line = i / g.line
  · have same := cached_of_line (m := m) line
    cases found : cached g m i with
    | none => simp [latest, same, found]
    | some e => cases writeBack <;> cases dirty : e.dirty <;>
        simp [latest, same, found, dirty, writeLine, line]
  · cases found : cached g m i with
    | none => simp [line]
    | some e => cases writeBack <;> cases dirty : e.dirty <;> simp [writeLine, line, dirty]

theorem line_to_nat : (BitVec.ofNat 32 g.line).toNat = g.line :=
  Nat.mod_eq_of_lt (Nat.lt_of_le_of_lt line_le_size size_lt)

theorem memory_other_line {writeBack : Bool} {m : Machine} {i a : Nat}
    (apart : a / g.line ≠ i / g.line) :
    (lineOperation g writeBack m i).memory a = m.memory a := by
  rw [memory_line_operation, if_neg (fun both => apart both.2)]

theorem latest_other_line {writeBack : Bool} {m : Machine} {i a : Nat}
    (apart : a / g.line ≠ i / g.line) :
    latest g (lineOperation g writeBack m i) a = latest g m a := by
  rw [latest, latest, cached_line_operation, if_neg apart, memory_other_line apart]

theorem line_mask_bit {i : Nat} (inside : i < 32) :
    (~~~(BitVec.ofNat 32 g.line - 1)).getLsbD i = decide (g.lineBits ≤ i) := by
  have positive : 0 < g.line := line_pos
  have below : g.line < 2 ^ 32 := Nat.lt_of_le_of_lt line_le_size size_lt
  have mask : BitVec.ofNat 32 g.line - 1 = BitVec.ofNat 32 (2 ^ g.lineBits - 1) := by
    apply BitVec.eq_of_toNat_eq
    have one : (1 : Word).toNat = 1 := rfl
    rw [BitVec.toNat_sub, line_to_nat, one, BitVec.toNat_ofNat, ← Geometry.line]
    omega
  rw [mask, BitVec.getLsbD_not, BitVec.getLsbD_ofNat, Nat.testBit_two_pow_sub_one]
  by_cases low : i < g.lineBits
  · simp [inside, low]
  · have high : g.lineBits ≤ i := by omega
    simp [inside, low, high]

theorem start_to_nat (base : Word) : (start g base).toNat = base.toNat / g.line * g.line := by
  have shifted : start g base = (base >>> g.lineBits) <<< g.lineBits := by
    apply BitVec.eq_of_getLsbD_eq
    intro i inside
    rw [start, BitVec.getLsbD_and, line_mask_bit inside]
    by_cases low : i < g.lineBits
    · simp [low]
    · have high : g.lineBits ≤ i := by omega
      simp [low, inside, high, Nat.add_sub_cancel' high]
  have small := base.isLt
  have below : base.toNat / g.line * g.line ≤ base.toNat := Nat.div_mul_le_self _ _
  rw [shifted, BitVec.toNat_shiftLeft, BitVec.toNat_ushiftRight, Nat.shiftRight_eq_div_pow,
    Nat.shiftLeft_eq]
  exact Nat.mod_eq_of_lt (by rw [Geometry.line] at below; omega)

theorem next_to_nat {i : Word} (room : i.toNat + g.line < 2 ^ 32) :
    (i + BitVec.ofNat 32 g.line).toNat = i.toNat + g.line := by
  rw [BitVec.toNat_add, line_to_nat, Nat.mod_eq_of_lt room]

theorem sweep (writeBack : Bool) (stop : Word) (n : Nat) (i : Word) (m : Machine)
    (aligned : i.toNat % g.line = 0) (room : i.toNat + n * g.line < 2 ^ 32)
    (reach : stop.toNat ≤ i.toNat + n * g.line)
    (tight : i.toNat + n * g.line < stop.toNat + g.line) :
    ∃ j r, WhileLoop.Returns (moreLines stop) (nextLine g (lineOperation g writeBack)) (i, m) (j, r)
      ∧ ∀ a, cached g r a
            = (if i.toNat / g.line ≤ a / g.line ∧ a / g.line < i.toNat / g.line + n then none
                else cached g m a)
          ∧ r.memory a
            = if writeBack = true ∧ i.toNat / g.line ≤ a / g.line
                  ∧ a / g.line < i.toNat / g.line + n then latest g m a
              else m.memory a := by
  have positive : 0 < g.line := line_pos
  induction n generalizing i m with
  | zero =>
    refine ⟨i, m, WhileLoop.returns_done (by simp [moreLines, BitVec.lt_def]; omega), ?_⟩
    intro a
    constructor
    · rw [if_neg (by omega)]
    · rw [if_neg (by omega)]
  | succ n ih =>
    have split : (n + 1) * g.line = g.line + n * g.line := by rw [Nat.succ_mul, Nat.add_comm]
    rw [split] at room reach tight
    have next : (i + BitVec.ofNat 32 g.line).toNat = i.toNat + g.line := next_to_nat (by omega)
    have next_line : (i.toNat + g.line) / g.line = i.toNat / g.line + 1 :=
      Nat.add_div_right _ positive
    obtain ⟨j, r, returns, state⟩ := ih (i + BitVec.ofNat 32 g.line)
      (lineOperation g writeBack m i.toNat) (by rw [next, Nat.add_mod_right, aligned])
      (by omega) (by omega) (by omega)
    rw [next, next_line] at state
    refine ⟨j, r, WhileLoop.returns_turn (by simp [moreLines, BitVec.lt_def]; omega) returns, ?_⟩
    intro a
    obtain ⟨lines, bytes⟩ := state a
    by_cases here : a / g.line = i.toNat / g.line
    · rw [lines, bytes, cached_line_operation, memory_line_operation]
      constructor
      · rw [if_neg (by omega), if_pos here, if_pos (by omega)]
      · rw [if_neg (by omega)]
        exact if_congr (by simp [here]) rfl rfl
    · rw [lines, bytes, cached_line_operation, if_neg here, latest_other_line here,
        memory_other_line here]
      constructor
      · exact if_congr (by omega) rfl rfl
      · exact if_congr (and_congr_right' (by omega)) rfl rfl

theorem start_split (base : Word) :
    (start g base).toNat + base.toNat % g.line = base.toNat := by
  rw [start_to_nat]
  exact Nat.div_add_mod' base.toNat g.line

theorem start_line (base : Word) : (start g base).toNat / g.line = base.toNat / g.line := by
  rw [start_to_nat, Nat.mul_div_cancel _ line_pos]

theorem size_to_nat : (BitVec.ofNat 32 g.size).toNat = g.size := Nat.mod_eq_of_lt size_lt

theorem clamped_size_le (base asize : Word) : (clampedSize g base asize).toNat ≤ g.size := by
  unfold clampedSize
  dsimp only
  split
  · exact Nat.le_of_eq size_to_nat
  · rename_i fits
    rw [BitVec.lt_def, size_to_nat] at fits
    omega

theorem size_of_range (base asize : Word) (short : base.toNat % g.line + asize.toNat < 2 ^ 32) :
    (asize + base - start g base).toNat = base.toNat % g.line + asize.toNat := by
  have split := start_split (g := g) base
  have small := base.isLt
  have small' := asize.isLt
  rw [BitVec.toNat_sub, BitVec.toNat_add]
  omega

theorem stop_to_nat {base asize : Word} (fits : base.toNat % g.line + asize.toNat ≤ g.size) :
    (stop g base asize).toNat = (base.toNat + asize.toNat) % 2 ^ 32 := by
  have split := start_split (g := g) base
  have range := size_of_range (g := g) base asize (Nat.lt_of_le_of_lt fits size_lt)
  have unclamped : clampedSize g base asize = asize + base - start g base := by
    unfold clampedSize
    dsimp only
    rw [if_neg]
    rw [BitVec.lt_def, size_to_nat, range]
    omega
  rw [stop, unclamped, BitVec.toNat_add, range]
  omega

theorem stop_of_fitting {base asize : Word} (fits : base.toNat % g.line + asize.toNat ≤ g.size)
    (below : base.toNat + asize.toNat < 2 ^ 32) :
    (stop g base asize).toNat = base.toNat + asize.toNat := by
  rw [stop_to_nat fits, Nat.mod_eq_of_lt below]

theorem overlaps_of_lines {base asize : Word} {a : Nat} (some_byte : asize ≠ 0)
    (first : base.toNat / g.line ≤ a / g.line)
    (last : a / g.line ≤ (base.toNat + asize.toNat - 1) / g.line) : Overlaps g base asize a := by
  have positive : 0 < g.line := line_pos
  have nonempty : 0 < asize.toNat := by
    apply Nat.pos_of_ne_zero
    intro zero
    exact some_byte (BitVec.eq_of_toNat_eq zero)
  have low : a / g.line * g.line ≤ base.toNat + asize.toNat - 1 :=
    (Nat.le_div_iff_mul_le positive).mp last
  by_cases inside : base.toNat ≤ a / g.line * g.line
  · refine ⟨a / g.line * g.line, Nat.mul_div_cancel _ positive, inside, by omega⟩
  · refine ⟨base.toNat, ?_, Nat.le_refl _, by omega⟩
    have upper : a / g.line ≤ base.toNat / g.line :=
      (Nat.le_div_iff_mul_le positive).mpr (by omega)
    omega

theorem operation_of_sweepable (writeBack : Bool) {base asize : Word}
    (sweepable : Sweepable g base asize) (m : Machine) :
    ∃ r, HalDcacheOperation g (lineOperation g writeBack) base asize m r
      ∧ (∀ a, InRange base asize a →
          cached g r a = none ∧ r.memory a = if writeBack = true then latest g m a else m.memory a)
      ∧ Untouched g base asize m r := by
  have positive : 0 < g.line := line_pos
  have split := start_split (g := g) base
  rcases sweepable with ⟨rfl, aligned⟩ | ⟨some_byte, fits, below⟩
  · have ends : (stop g base 0#32).toNat = base.toNat :=
      stop_of_fitting (by simp [aligned]) base.isLt
    refine ⟨m, ⟨start g base, WhileLoop.returns_done ?_⟩, ?_, fun _ _ => ⟨rfl, rfl⟩⟩
    · simp [moreLines, BitVec.lt_def]
      omega
    · rintro a ⟨low, high⟩
      simp at high
      omega
  · have nonempty : 0 < asize.toNat := by
      apply Nat.pos_of_ne_zero
      intro zero
      exact some_byte (BitVec.eq_of_toNat_eq zero)
    have ends := stop_of_fitting (g := g) fits (by omega)
    -- the lines from the first to the one of the last byte
    have first := Nat.div_add_mod' base.toNat g.line
    have last := Nat.div_add_mod' (base.toNat + asize.toNat - 1) g.line
    have first_rest := Nat.mod_lt base.toNat positive
    have last_rest := Nat.mod_lt (base.toNat + asize.toNat - 1) positive
    have ordered : base.toNat / g.line ≤ (base.toNat + asize.toNat - 1) / g.line :=
      Nat.div_le_div_right (by omega)
    obtain ⟨n, count⟩ : ∃ n, (base.toNat + asize.toNat - 1) / g.line + 1
        = base.toNat / g.line + n := ⟨_, (Nat.add_sub_cancel' (by omega)).symm⟩
    have spread : (start g base).toNat + n * g.line
        = (base.toNat + asize.toNat - 1) / g.line * g.line + g.line := by
      rw [start_to_nat, ← Nat.add_mul, ← count, Nat.succ_mul]
    obtain ⟨j, r, returns, state⟩ := sweep writeBack (stop g base asize) n (start g base) m
      (by rw [start_to_nat]; exact Nat.mul_mod_left _ _) (by omega) (by omega) (by omega)
    rw [start_line] at state
    refine ⟨r, ⟨j, returns⟩, ?_, ?_⟩
    · rintro a ⟨low, high⟩
      have above : base.toNat / g.line ≤ a / g.line := Nat.div_le_div_right low
      have under : a / g.line ≤ (base.toNat + asize.toNat - 1) / g.line :=
        Nat.div_le_div_right (by omega)
      obtain ⟨lines, bytes⟩ := state a
      constructor
      · rw [lines, if_pos (by omega)]
      · rw [bytes]
        exact if_congr (and_iff_left (by omega)) rfl rfl
    · intro a apart
      have outside :
          ¬(base.toNat / g.line ≤ a / g.line ∧ a / g.line < base.toNat / g.line + n) := by
        rintro ⟨above, under⟩
        exact apart (overlaps_of_lines some_byte above (by omega))
      obtain ⟨lines, bytes⟩ := state a
      constructor
      · rw [lines, if_neg outside]
      · rw [bytes, if_neg (fun both => outside both.2)]

/-- What both operations owe the line of an address: none of the range is left dirty, and the
    lines beside it stay. -/
def Effective (g : Geometry) (writeBack : Bool) (base asize : Word) (m : Machine) : Prop :=
  ∃ r, HalDcacheOperation g (lineOperation g writeBack) base asize m r
    ∧ (∀ a e, InRange base asize a → cached g r a = some e → e.dirty = false)
    ∧ Untouched g base asize m r

def dirtyLine (g : Geometry) (a : Nat) : Machine :=
  { cache := fun s =>
      if s = setOf g a then some { tag := tagOf g a, dirty := true, data := fun _ => 1 } else none
    memory := fun _ => 0 }

theorem cached_dirty_line (a : Nat) :
    cached g (dirtyLine g a) a
      = some { tag := tagOf g a, dirty := true, data := fun _ => 1 } := by
  simp [cached, dirtyLine, Option.filter]

theorem line_operation_off_line (writeBack : Bool) {a i : Nat} (apart : a / g.line ≠ i / g.line) :
    lineOperation g writeBack (dirtyLine g a) i = dirtyLine g a := by
  have absent : cached g (dirtyLine g a) i = none := by
    by_cases set : setOf g i = setOf g a
    · have tag : tagOf g a ≠ tagOf g i := fun same => apart (same_line set.symm same)
      simp [cached, dirtyLine, set, Option.filter, tag]
    · simp [cached, dirtyLine, set]
  simp [lineOperation, absent]

theorem left_dirty {writeBack : Bool} {base asize : Word} {r : Machine} {a : Nat}
    (off : ∀ i : Word, i < stop g base asize → a / g.line ≠ i.toNat / g.line)
    (leaves : HalDcacheOperation g (lineOperation g writeBack) base asize (dirtyLine g a) r) :
    r = dirtyLine g a := by
  obtain ⟨j, returns⟩ := leaves
  have kept := WhileLoop.returns_invariant (fun s : Word × Machine => s.2 = dirtyLine g a)
    (by
      rintro ⟨i, m⟩ same on
      have below : i < stop g base asize := by simpa [moreLines] using on
      dsimp only at same
      subst same
      exact line_operation_off_line writeBack (off i below)) rfl returns
  exact kept.1

theorem not_effective_of_left {writeBack : Bool} {base asize : Word} {a : Nat}
    (inside : InRange base asize a)
    (off : ∀ i : Word, i < stop g base asize → a / g.line ≠ i.toNat / g.line) :
    ¬Effective g writeBack base asize (dirtyLine g a) := by
  rintro ⟨r, leaves, clean, -⟩
  have same := left_dirty off leaves
  subst same
  have := clean a _ inside (cached_dirty_line a)
  cases this

/-- A range that ends in the last line of the address space is never left. -/
theorem never_leaves {writeBack : Bool} {base asize : Word} {m r : Machine}
    (last : 2 ^ 32 < (stop g base asize).toNat + g.line) :
    ¬HalDcacheOperation g (lineOperation g writeBack) base asize m r := by
  rintro ⟨j, n, returns⟩
  obtain ⟨k, space⟩ := line_dvd_space (g := g)
  have stuck : WhileLoop.turns (moreLines (stop g base asize))
      (nextLine g (lineOperation g writeBack)) n (start g base, m) = none := by
    apply WhileLoop.never_returns fun s : Word × Machine => g.line ∣ s.1.toNat
    · rintro ⟨i, m⟩ ⟨q, aligned⟩
      -- an aligned address leaves room for its line
      have small := i.isLt
      dsimp only at aligned
      have fewer : q < k := by
        rw [aligned, space] at small
        exact Nat.lt_of_mul_lt_mul_left small
      have room : g.line * (q + 1) ≤ g.line * k := Nat.mul_le_mul_left g.line fewer
      rw [Nat.mul_succ, ← aligned, ← space] at room
      simp [moreLines, BitVec.lt_def]
      omega
    · rintro ⟨i, m⟩ aligned
      dsimp only [nextLine] at aligned ⊢
      rw [BitVec.toNat_add, line_to_nat, space]
      exact (Nat.dvd_mod_iff (Nat.dvd_mul_right _ _)).mpr (Nat.dvd_add aligned (Nat.dvd_refl _))
    · rw [start_to_nat]
      exact Nat.dvd_mul_left _ _
  rw [stuck] at returns
  cases returns

theorem visits_first {writeBack : Bool} {base : Word} {m r : Machine}
    (off : base.toNat % g.line ≠ 0)
    (leaves : HalDcacheOperation g (lineOperation g writeBack) base 0#32 m r) :
    cached g r base.toNat = none := by
  obtain ⟨j, returns⟩ := leaves
  have split := start_split (g := g) base
  have rest : base.toNat % g.line < g.line := Nat.mod_lt _ line_pos
  have ends : (stop g base 0#32).toNat = base.toNat := by
    have fits : base.toNat % g.line + (0#32).toNat ≤ g.size :=
      Nat.le_trans (Nat.le_of_lt rest) line_le_size
    exact stop_of_fitting fits base.isLt
  have on : moreLines (stop g base 0#32) (start g base, m) = true := by
    simp [moreLines, BitVec.lt_def]
    omega
  have gone := WhileLoop.returns_invariant
    (fun s : Word × Machine => cached g s.2 base.toNat = none)
    (by
      rintro ⟨i, m⟩ absent -
      dsimp only [nextLine] at absent ⊢
      rw [cached_line_operation, absent, ite_self])
    (by
      dsimp only [nextLine]
      rw [cached_line_operation, if_pos (start_line base).symm])
    (WhileLoop.returns_next on returns)
  exact gone.1

theorem sweepable_of_effective (writeBack : Bool) {base asize : Word}
    (bounded : base.toNat + asize.toNat ≤ 2 ^ 32)
    (effective : ∀ m, Effective g writeBack base asize m) : Sweepable g base asize := by
  have split := start_split (g := g) base
  have rest : base.toNat % g.line < g.line := Nat.mod_lt _ line_pos
  by_cases empty : asize = 0
  · subst empty
    by_cases aligned : base.toNat % g.line = 0
    · exact Or.inl ⟨rfl, aligned⟩
    · obtain ⟨r, leaves, -, others⟩ := effective (dirtyLine g base.toNat)
      have apart : ¬Overlaps g base 0 base.toNat := by
        rintro ⟨b, -, low, high⟩
        simp at high
        omega
      have kept := (others _ apart).1
      rw [visits_first aligned leaves, cached_dirty_line] at kept
      cases kept
  have nonempty : 0 < asize.toNat := by
    apply Nat.pos_of_ne_zero
    intro zero
    exact empty (BitVec.eq_of_toNat_eq zero)
  by_cases fits : base.toNat % g.line + asize.toNat ≤ g.size
  · by_cases below : base.toNat + asize.toNat + g.line ≤ 2 ^ 32
    · exact Or.inr ⟨empty, fits, below⟩
    by_cases whole : base.toNat + asize.toNat = 2 ^ 32
    · -- the end pointer is zero
      have inside : InRange base asize base.toNat := ⟨Nat.le_refl _, by omega⟩
      have ends : (stop g base asize).toNat = 0 := by
        rw [stop_to_nat fits, whole, Nat.mod_self]
      refine absurd (effective _) (not_effective_of_left inside ?_)
      intro i before
      rw [BitVec.lt_def, ends] at before
      omega
    · obtain ⟨r, leaves, -⟩ := effective (dirtyLine g base.toNat)
      have ends := stop_of_fitting (g := g) fits (by omega)
      exact absurd leaves (never_leaves (by omega))
  · -- the line one cache size after the start is not reached
    have inside : InRange base asize ((start g base).toNat + g.size) := by
      have := line_le_size (g := g)
      exact ⟨by omega, by omega⟩
    refine absurd (effective _) (not_effective_of_left inside ?_)
    intro i before same
    have clamped := clamped_size_le (g := g) base asize
    have ends : (stop g base asize).toNat ≤ (start g base).toNat + g.size := by
      rw [stop, BitVec.toNat_add]
      exact Nat.le_trans (Nat.mod_le _ _) (by omega)
    rw [BitVec.lt_def] at before
    have aligned : g.line ∣ (start g base).toNat + g.size := by
      apply Nat.dvd_add _ line_dvd_size
      rw [start_to_nat]
      exact Nat.dvd_mul_left _ _
    have reached : (start g base).toNat + g.size ≤ i.toNat := by
      rw [← Nat.div_mul_cancel aligned, same]
      exact Nat.div_mul_le_self _ _
    omega

/-- The two range operations do what they are for on exactly the sweepable ranges. -/
theorem range_operation_iff (g : Geometry) (base asize : Word)
    (bounded : base.toNat + asize.toNat ≤ 2 ^ 32) :
    ((∀ m, ∃ r, HalDcacheFlush g base asize m r ∧ Flushed g base asize m r)
        ↔ Sweepable g base asize)
      ∧ ((∀ m, ∃ r, HalDcacheInvalidate g base asize m r ∧ Invalidated g base asize m r)
        ↔ Sweepable g base asize) := by
  constructor
  · constructor
    · intro flushes
      apply sweepable_of_effective true bounded
      intro m
      obtain ⟨r, leaves, flushed⟩ := flushes m
      exact ⟨r, leaves, flushed.clean, flushed.others⟩
    · intro sweepable m
      obtain ⟨r, leaves, lines, others⟩ := operation_of_sweepable true sweepable m
      refine ⟨r, leaves, ?_, ?_, others⟩
      · intro a e inside found
        rw [(lines a inside).1] at found
        cases found
      · intro a inside coherent
        rw [(lines a inside).2, if_pos rfl, latest_of_coherent coherent]
  · constructor
    · intro invalidates
      apply sweepable_of_effective false bounded
      intro m
      obtain ⟨r, leaves, invalidated⟩ := invalidates m
      refine ⟨r, leaves, ?_, invalidated.others⟩
      intro a e inside found
      rw [invalidated.gone a inside] at found
      cases found
    · intro sweepable m
      obtain ⟨r, leaves, lines, others⟩ := operation_of_sweepable false sweepable m
      refine ⟨r, leaves, fun a inside => (lines a inside).1, ?_, others⟩
      intro a inside
      rw [(lines a inside).2, if_neg Bool.false_ne_true]

def twoLines : Geometry := { lineBits := 2, setBits := 1, fits := by decide }

theorem range_operation_two_lines :
    (0x1002 : Word).toNat + (4 : Word).toNat ≤ 2 ^ 32
      ∧ ((∀ m, ∃ r, HalDcacheFlush twoLines 0x1002 4 m r ∧ Flushed twoLines 0x1002 4 m r)
          ↔ Sweepable twoLines 0x1002 4)
      ∧ ((∀ m, ∃ r, HalDcacheInvalidate twoLines 0x1002 4 m r
            ∧ Invalidated twoLines 0x1002 4 m r)
          ↔ Sweepable twoLines 0x1002 4) :=
  ⟨by decide, range_operation_iff twoLines 0x1002 4 (by decide)⟩

theorem third_line_left_dirty :
    ¬∀ (g : Geometry) (base asize : Word), base.toNat + asize.toNat ≤ 2 ^ 32 →
        ∀ m, ∃ r, HalDcacheFlush g base asize m r ∧ Flushed g base asize m r := by
  intro claimed
  obtain ⟨r, leaves, flushed⟩ := claimed twoLines 0x1000 12 (by decide) (dirtyLine twoLines 0x1008)
  have stopped : stop twoLines 0x1000 12 = 0x1008 := by decide
  have same := left_dirty (a := 0x1008) (by
    intro i before line
    rw [stopped, BitVec.lt_def] at before
    have bound : i.toNat < 0x1008 := before
    have lines : 0x1008 / 4 = i.toNat / 4 := line
    omega) leaves
  subst same
  have clean := flushed.clean 0x1008 _ ⟨by decide, by decide⟩ (cached_dirty_line 0x1008)
  cases clean

end DataCache
