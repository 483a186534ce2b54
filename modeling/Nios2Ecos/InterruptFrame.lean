import Nios2Ecos.InterruptPhases
import Nios2Ecos.Nios2Frames

/- The frame the handler saves and the stack it goes on with. -/
namespace InterruptHandler
open Nios2Machine

section
variable (m : Machine)

def frame : Word := m.get sp + -76

/-- What is saved for a register; for `et` it is the status of the interrupted code. -/
def savedValue (r : Reg) : Word := if r = et then m.ctl .estatus else m.get r

def framed : Machine := (m.set et (m.ctl .estatus)).set sp (frame m)

theorem saved_framed : saved m = execAll (stores (L := Label) sp saveSlots) (framed m) := by
  have pointer : (m.set et (m.ctl .estatus)).get sp = m.get sp := m.get_set_ne _ (by decide)
  simp only [saved, saveBlock, execAll_cons, Instr.exec, framed, frame, pointer]

theorem framed_sp : (framed m).get sp = frame m := Machine.get_set_self _ _ (by decide)

theorem framed_get {r : Reg} (pointer : r ≠ sp) : (framed m).get r = savedValue m r := by
  unfold savedValue
  rw [framed, Machine.get_set_ne _ _ pointer]
  split
  · rename_i temporary
    subst temporary
    exact m.get_set_self _ (by decide)
  · rename_i other
    exact m.get_set_ne _ other

theorem saved_get {r : Reg} (pointer : r ≠ sp) : (saved m).get r = savedValue m r := by
  rw [saved_framed, stores_get, framed_get m pointer]

theorem saved_sp : (saved m).get sp = frame m := by
  rw [saved_framed, stores_get, framed_sp]

theorem saved_ctl : (saved m).ctl = m.ctl := by
  rw [saved_framed, execAll_ctl (by decide), framed, Machine.set_ctl, Machine.set_ctl]

theorem save_slots_framed : ∀ i ∈ stores (L := Label) sp saveSlots, i.framed 76 = true := by decide

theorem save_slots_saved : ∀ p ∈ saveSlots, p.1 ≠ sp ∧
    saves p.1 p.2 (stores (L := Label) sp saveSlots) true false = true :=
  List.all_iff_forall_prop.mp (by decide)

theorem save_slots_inside : ∀ p ∈ saveSlots, p.2.toNat < 76 :=
  List.all_iff_forall_prop.mp (by decide)

theorem saved_slot {p : Reg × Word} (slot : p ∈ saveSlots) :
    (saved m).mem (frame m + p.2) = savedValue m p.1 := by
  obtain ⟨pointer, kept⟩ := save_slots_saved p slot
  have stored := saves_slot (m := framed m) save_slots_framed kept
  rwa [framed_sp, framed_get m pointer, ← saved_framed] at stored

theorem saved_elsewhere {a : Word}
    (outside : ∀ offset : Word, offset.toNat < 76 → a ≠ frame m + offset) :
    (saved m).mem a = m.mem a := by
  rw [saved_framed, execAll_framed_mem save_slots_framed]
  · rw [framed, Machine.set_mem, Machine.set_mem]
  · rwa [framed_sp]

end

section
variable {c : Config} {l : Layout c} {K : Stack} {m : Machine} {a v w : Word}

theorem not_kept_below (stacked : l.Stacks K) (inside : K.Has a) (under : a.toNat < v.toNat) :
    ¬ l.Kept K v a := by
  rintro (fixed | ⟨-, ⟨-, above⟩ | ⟨⟨stack, rfl⟩, T, thread, has⟩⟩)
  · exact (l.data K stacked).2.2 a inside fixed
  · omega
  · have low := l.below stack T thread
    have top := has.2
    have bottom : c.stackEnd.toNat ≤ a.toNat := inside.1
    omega

theorem kept_mono (lower : w.toNat ≤ v.toNat) (kept : l.Kept K v a) : l.Kept K w a := by
  obtain fixed | ⟨own, ⟨has, above⟩ | waiting⟩ := kept
  · exact .inl fixed
  · exact .inr ⟨own, .inl ⟨has, le_trans lower above⟩⟩
  · exact .inr ⟨own, .inr waiting⟩

theorem kept_in_stack (stacked : l.Stacks K) (kept : l.Kept K v a) :
    l.fixed a ∨ ∃ K', l.Stacks K' ∧ K'.Has a := by
  obtain fixed | ⟨-, ⟨has, -⟩ | ⟨-, T, thread, has⟩⟩ := kept
  · exact .inl fixed
  · exact .inr ⟨K, stacked, has⟩
  · exact .inr ⟨T, .inl thread, has⟩

theorem kept_not_data (stacked : l.Stacks K) (kept : l.Kept K v a) :
    a ≠ c.halSavedInterruptState ∧ a ≠ c.schedLock := by
  rcases kept_in_stack stacked kept with fixed | ⟨K', stack, has⟩
  · constructor
    · rintro rfl
      exact l.constant.1 fixed
    · rintro rfl
      exact l.constant.2 fixed
  · obtain ⟨state, lock, -⟩ := l.data K' stack
    constructor
    · rintro rfl
      exact state has
    · rintro rfl
      exact lock has

section
variable (stacked : l.Stacks K) (holds : K.Holds (m.get sp)) (room : l.Room m)
include stacked holds room

theorem frame_toNat : (frame m).toNat + 76 = (m.get sp).toNat := by
  have wide := (room K stacked holds).1
  have small := (m.get sp).isLt
  rw [frame, BitVec.toNat_add]
  change ((m.get sp).toNat + 4294967220) % 4294967296 + 76 = (m.get sp).toNat
  omega

theorem frame_above : K.low + 8 < (frame m).toNat := by
  have wide := (room K stacked holds).1
  have top := frame_toNat stacked holds room
  omega

theorem slot_toNat {offset : Word} (inside : offset.toNat < 76) :
    (frame m + offset).toNat = (frame m).toNat + offset.toNat := by
  have top := frame_toNat stacked holds room
  have small := (m.get sp).isLt
  rw [BitVec.toNat_add]
  omega

theorem slot_kept {p : Reg × Word} (slot : p ∈ saveSlots) :
    l.Kept K (frame m) (frame m + p.2) := by
  have top := frame_toNat stacked holds room
  have low := frame_above stacked holds room
  have inside := save_slots_inside p slot
  have place := slot_toNat stacked holds room inside
  have high := holds.2
  refine .inr ⟨(room K stacked holds).2 _ (by omega) (by omega), .inl ⟨⟨?_, ?_⟩, ?_⟩⟩ <;> omega

theorem kept_frame (kept : l.Kept K (m.get sp) a) : l.Kept K (frame m) a :=
  kept_mono (by have top := frame_toNat stacked holds room; omega) kept

theorem saved_above (kept : l.Kept K (m.get sp) a) : (saved m).mem a = m.mem a := by
  apply saved_elsewhere
  rintro offset inside rfl
  have top := frame_toNat stacked holds room
  have low := frame_above stacked holds room
  have place := slot_toNat stacked holds room inside
  have high := holds.2
  exact not_kept_below stacked ⟨by omega, by omega⟩ (by omega) kept

end
end

/-- The registers that are changed between the saving of the frame and the search. -/
def scratch (r : Reg) : Prop :=
  r = r1 ∨ r = r2 ∨ r = r4 ∨ r = r6 ∨ r = r10 ∨ r = r11 ∨ r = et ∨ r = gp ∨ r = sp

instance : DecidablePred scratch := fun _ => inferInstanceAs (Decidable (_ ∨ _))

section
variable {c : Config} {x : Machine} {regs : Reg → Prop} {words : Word → Prop}

theorem pending_sp : (execAll (pendingBlock c) x).get sp = x.get sp := by
  unfold pendingBlock
  split <;> simp (disch := decide) [execAll_append, load_address, Instr.exec, Instr.mov,
    Machine.get_set_ne]

theorem pending_same (spared : ∀ r, scratch r → ¬ regs r)
    (state : ¬ words c.halSavedInterruptState) :
    Same regs words x (execAll (pendingBlock c) x) := by
  have start : Same regs words x (((x.set r6 (x.get sp)).set et (x.ctl .ipending)).set gp
      c.globalPointer) := by
    apply Same.set_hidden _ (spared gp (by decide))
    apply Same.set_hidden _ (spared et (by decide))
    exact (Same.refl regs words x).set_hidden (spared r6 (by decide)) _
  unfold pendingBlock
  split
  · simp (disch := decide) only [execAll_cons, execAll_append, execAll_nil, load_address,
      Instr.exec, Instr.mov, Machine.get_zero, BitVec.ofNat_eq_ofNat, BitVec.add_zero,
      Machine.set_ctl, Machine.get_set_self]
    exact (start.set_hidden (spared r2 (by decide)) _).store_hidden state _
  · simp (disch := decide) only [execAll_cons, execAll_append, execAll_nil, load_address,
      Instr.exec, Instr.mov, Machine.get_zero, BitVec.ofNat_eq_ofNat, BitVec.add_zero,
      Machine.set_ctl]
    exact start

theorem lock_sp : (execAll (lockBlock c) x).get sp = x.get sp := by
  unfold lockBlock
  split <;> simp (disch := decide) [load_address, execAll_append, Instr.exec, Instr.mov,
    Machine.get_set_ne]

theorem lock_same (spared : ∀ r, scratch r → ¬ regs r) (lock : ¬ words c.schedLock) :
    Same regs words x (execAll (lockBlock c) x) := by
  unfold lockBlock
  split
  · simp (disch := decide) only [execAll_cons, execAll_append, execAll_nil, load_address,
      Instr.exec, Instr.mov, BitVec.ofNat_eq_ofNat, BitVec.add_zero, Machine.get_set_self,
      Machine.get_set_ne]
    apply Same.set_hidden _ (spared r4 (by decide))
    apply Same.store_hidden _ lock
    apply Same.set_hidden _ (spared r11 (by decide))
    apply Same.set_hidden _ (spared r11 (by decide))
    exact (Same.refl regs words x).set_hidden (spared r10 (by decide)) _
  · exact (Same.refl regs words x).set_hidden (spared r4 (by decide)) _

/-- The stack pointer after the test whether the code is on the interrupt stack already. -/
def isrStackPointer (c : Config) (v : Word) : Word :=
  if c.stackEnd.toNat < v.toNat then v else c.stackBase

end

section
variable {c : Config} {m : Machine} {regs : Reg → Prop} {words : Word → Prop}

theorem switched_stack (stack : c.useInterruptStack = true) :
    switched c m = (if c.stackEnd.toNat < (frame m).toNat
      then ((pending c m).set r1 (frame m)).set r2 c.stackEnd
      else (((pending c m).set r1 (frame m)).set r2 c.stackEnd).set sp c.stackBase) := by
  have pointer : (pending c m).get sp = frame m := by rw [pending, pending_sp, saved_sp]
  have test : execAll (testBlock c) (pending c m) =
      ((pending c m).set r1 (frame m)).set r2 c.stackEnd := by
    simp (disch := decide) only [testBlock, execAll_cons, load_address, Instr.exec, Instr.mov,
      pointer, Machine.get_zero, BitVec.ofNat_eq_ofNat, BitVec.add_zero]
  rw [switched, if_pos stack]
  simp (disch := decide) only [test, Machine.get_set_self, Machine.get_set_ne, pointer, baseBlock,
    load_address]

theorem switched_r1 (stack : c.useInterruptStack = true) : (switched c m).get r1 = frame m := by
  rw [switched_stack stack]
  split <;> simp (disch := decide) [Machine.get_set_self, Machine.get_set_ne]

theorem switched_sp (stack : c.useInterruptStack = true) :
    (switched c m).get sp = isrStackPointer c (frame m) := by
  have pointer : (pending c m).get sp = frame m := by rw [pending, pending_sp, saved_sp]
  rw [switched_stack stack, isrStackPointer]
  split <;> simp (disch := decide) [Machine.get_set_self, Machine.get_set_ne, pointer]

theorem switched_same (spared : ∀ r, scratch r → ¬ regs r) :
    Same regs words (pending c m) (switched c m) := by
  by_cases stack : c.useInterruptStack = true
  · have tested : Same regs words (pending c m)
        (((pending c m).set r1 (frame m)).set r2 c.stackEnd) :=
      ((Same.refl regs words _).set_hidden (spared r1 (by decide)) _).set_hidden
        (spared r2 (by decide)) _
    rw [switched_stack stack]
    split
    · exact tested
    · exact tested.set_hidden (spared sp (by decide)) _
  · rw [switched, if_neg stack]
    exact Same.refl regs words _

theorem pushed_stack (stack : c.useInterruptStack = true) :
    pushed c m = ((switched c m).set sp (isrStackPointer c (frame m) + -4)).store
      (isrStackPointer c (frame m) + -4) (frame m) := by
  rw [pushed, if_pos stack, pushBlock, push_exec (by decide), switched_sp stack,
    switched_r1 stack]

def searchStackPointer (c : Config) (v : Word) : Word :=
  if c.useInterruptStack then isrStackPointer c v + -4 else v

theorem prologue_sp : (prologue c m).get sp = searchStackPointer c (frame m) := by
  rw [prologue, lock_sp, searchStackPointer]
  split
  · rename_i stack
    rw [pushed_stack stack, Machine.store_get, Machine.get_set_self _ _ (by decide)]
  · rename_i stack
    rw [pushed, if_neg stack, switched, if_neg stack, pending, pending_sp, saved_sp]

/-- From the frame to the search only scratch registers, the handler's data and the word
    pushed on the interrupt stack change. -/
theorem prologue_same (spared : ∀ r, scratch r → ¬ regs r)
    (state : ¬ words c.halSavedInterruptState) (lock : ¬ words c.schedLock)
    (push : c.useInterruptStack = true → ¬ words (isrStackPointer c (frame m) + -4)) :
    Same regs words (saved m) (prologue c m) := by
  have switch : Same regs words (saved m) (switched c m) :=
    (pending_same spared state).trans (switched_same spared)
  have stacked : Same regs words (saved m) (pushed c m) := by
    by_cases stack : c.useInterruptStack = true
    · rw [pushed_stack stack]
      exact (switch.set_hidden (spared sp (by decide)) _).store_hidden (push stack) _
    · rw [pushed, if_neg stack]
      exact switch
  exact stacked.trans (lock_same spared lock)

/-- The word pushed on the interrupt stack leads back to the frame. -/
theorem prologue_pushed (stack : c.useInterruptStack = true)
    (lock : isrStackPointer c (frame m) + -4 ≠ c.schedLock) :
    (prologue c m).mem (isrStackPointer c (frame m) + -4) = frame m := by
  have kept : Same (fun _ => False) (fun a => a ≠ c.schedLock) (pushed c m)
      (execAll (lockBlock c) (pushed c m)) := lock_same (fun _ _ => not_false) (fun h => h rfl)
  rw [prologue, kept.mem _ lock, pushed_stack stack, Machine.store_same]

end

theorem toNat_below {v : Word} (room : 4 ≤ v.toNat) : (v + -4).toNat + 4 = v.toNat := by
  have small := v.isLt
  rw [BitVec.toNat_add]
  change (v.toNat + 4294967292) % 4294967296 + 4 = _
  omega

/-- The stack that the ISR runs on. -/
def isrStack (c : Config) (K : Stack) : Stack :=
  if c.useInterruptStack then interruptStack c else K

section
variable {c : Config} {l : Layout c} {K : Stack} {m : Machine} (stacked : l.Stacks K)
  (holds : K.Holds (m.get sp)) (room : l.Room m)

theorem isr_stack_stacks (stacked : l.Stacks K) : l.Stacks (isrStack c K) := by
  unfold isrStack
  split
  · rename_i stack
    exact .inr ⟨stack, rfl⟩
  · exact stacked

include stacked holds room

/-- Code on a thread's stack is found to be there, and code on the interrupt stack too. -/
theorem switch_cases (stack : c.useInterruptStack = true) :
    l.threads K ∧ isrStackPointer c (frame m) = c.stackBase ∨
      K = interruptStack c ∧ isrStackPointer c (frame m) = frame m := by
  have top := frame_toNat stacked holds room
  have low := frame_above stacked holds room
  unfold isrStackPointer
  rcases stacked with thread | ⟨-, rfl⟩
  · have under := l.below stack K thread
    have high := holds.2
    exact .inl ⟨thread, if_neg (by omega)⟩
  · have bottom : c.stackEnd.toNat + 8 < (frame m).toNat := low
    exact .inr ⟨rfl, if_pos (by omega)⟩

theorem isr_pointer_toNat (stack : c.useInterruptStack = true) :
    (isrStackPointer c (frame m) + -4).toNat + 4 = (isrStackPointer c (frame m)).toNat ∧
      c.stackEnd.toNat + 8 < (isrStackPointer c (frame m)).toNat ∧
      (isrStackPointer c (frame m)).toNat ≤ c.stackBase.toNat := by
  have bounds : c.stackEnd.toNat + 8 < (isrStackPointer c (frame m)).toNat ∧
      (isrStackPointer c (frame m)).toNat ≤ c.stackBase.toNat := by
    obtain ⟨-, switch⟩ | ⟨rfl, switch⟩ := switch_cases stacked holds room stack
    · rw [switch]
      exact ⟨l.roomy stack, le_rfl⟩
    · have low : c.stackEnd.toNat + 8 < (frame m).toNat := frame_above stacked holds room
      have top := frame_toNat stacked holds room
      have high : (m.get sp).toNat ≤ c.stackBase.toNat := holds.2
      rw [switch]
      omega
  exact ⟨toNat_below (by omega), bounds⟩

/-- The pushed word is the ISR's to keep and was not the interrupted code's. -/
theorem push_kept (stack : c.useInterruptStack = true) :
    ¬ l.Kept K (frame m) (isrStackPointer c (frame m) + -4) ∧
      l.Kept (interruptStack c) (isrStackPointer c (frame m) + -4)
        (isrStackPointer c (frame m) + -4) := by
  obtain ⟨place, bottom, high⟩ := isr_pointer_toNat stacked holds room stack
  have has : (interruptStack c).Has (isrStackPointer c (frame m) + -4) := by
    constructor
    · change c.stackEnd.toNat ≤ _
      omega
    · change _ < c.stackBase.toNat
      omega
  obtain ⟨thread, switch⟩ | ⟨rfl, switch⟩ := switch_cases stacked holds room stack
  · have unshared := l.base stack (isrStackPointer c (frame m) + -4)
      (by rw [switch] at place ⊢; omega) has.2
    refine ⟨?_, .inr ⟨unshared, .inl ⟨has, le_rfl⟩⟩⟩
    rintro (fixed | ⟨-, ⟨mine, -⟩ | ⟨⟨-, rfl⟩, -⟩⟩)
    · exact (l.data _ (.inr ⟨stack, rfl⟩)).2.2 _ has fixed
    · have under := l.below stack K thread
      have inside := mine.2
      omega
    · have under : c.stackBase.toNat ≤ c.stackEnd.toNat := l.below stack _ thread
      have wide := l.roomy stack
      omega
  · have top := frame_toNat stacked holds room
    rw [switch] at place has ⊢
    have unshared := (room _ stacked holds).2 (frame m + -4) (by omega) (by omega)
    exact ⟨not_kept_below stacked has (by omega), .inr ⟨unshared, .inl ⟨has, le_rfl⟩⟩⟩

end

/-- The machine that starts to search: the frame is there, and the stack pointer leads back
    to it. -/
structure Entered {c : Config} (l : Layout c) (K : Stack) (m x : Machine) : Prop where
  same : Same untouched (l.Kept K (frame m)) (saved m) x
  low : (isrStack c K).low + 4 < (x.get sp).toNat
  high : (x.get sp).toNat ≤ (isrStack c K).high
  kept : ∀ a, l.Kept K (frame m) a → l.Kept (isrStack c K) (x.get sp) a
  back : (execAll (popBlock c) x).get sp = frame m
  link : c.useInterruptStack = true → l.Kept (isrStack c K) (x.get sp) (x.get sp)
  slot : l.Kept (isrStack c K) (x.get sp + -4) (x.get sp + -4)

section
variable {c : Config} {l : Layout c} {K : Stack} {m : Machine}

theorem offset_kept (stacked : l.Stacks K) (holds : K.Holds (m.get sp)) (room : l.Room m) :
    l.Kept (isrStack c K) (searchStackPointer c (frame m) + -4)
      (searchStackPointer c (frame m) + -4) := by
  have top := frame_toNat stacked holds room
  have above := frame_above stacked holds room
  have limit := holds.2
  unfold searchStackPointer isrStack
  split
  · rename_i stack
    obtain ⟨place, bottom, high⟩ := isr_pointer_toNat stacked holds room stack
    have deeper := toNat_below (v := isrStackPointer c (frame m) + -4) (by omega)
    have has : (interruptStack c).Has (isrStackPointer c (frame m) + -4 + -4) := by
      constructor
      · change c.stackEnd.toNat ≤ _
        omega
      · change _ < c.stackBase.toNat
        omega
    refine .inr ⟨?_, .inl ⟨has, le_rfl⟩⟩
    obtain ⟨-, switch⟩ | ⟨-, switch⟩ := switch_cases stacked holds room stack
    · rw [switch] at deeper place ⊢
      exact l.base stack _ (by omega) (by omega)
    · rw [switch] at deeper place ⊢
      exact (room K stacked holds).2 _ (by omega) (by omega)
  · have deeper := toNat_below (v := frame m) (by omega)
    exact .inr ⟨(room K stacked holds).2 _ (by omega) (by omega),
      .inl ⟨⟨by omega, by omega⟩, le_rfl⟩⟩

theorem prologue_entered (stacked : l.Stacks K) (holds : K.Holds (m.get sp)) (room : l.Room m) :
    Entered l K m (prologue c m) := by
  have spared : ∀ r, scratch r → ¬ untouched r := by decide
  have top := frame_toNat stacked holds room
  have above := frame_above stacked holds room
  have limit := holds.2
  have same : Same untouched (l.Kept K (frame m)) (saved m) (prologue c m) :=
    prologue_same spared (fun kept => (kept_not_data stacked kept).1 rfl)
      (fun kept => (kept_not_data stacked kept).2 rfl)
      (fun stack => (push_kept stacked holds room stack).1)
  by_cases stack : c.useInterruptStack = true
  · obtain ⟨place, bottom, high⟩ := isr_pointer_toNat stacked holds room stack
    obtain ⟨-, link⟩ := push_kept stacked holds room stack
    have isr : isrStack c K = interruptStack c := if_pos stack
    have pointer : (prologue c m).get sp = isrStackPointer c (frame m) + -4 := by
      rw [prologue_sp, searchStackPointer, if_pos stack]
    have lock := (kept_not_data (isr_stack_stacks stacked) (isr.symm ▸ link)).2
    constructor
    · exact same
    · rw [isr, pointer]
      change c.stackEnd.toNat + 4 < _
      omega
    · rw [isr, pointer]
      change _ ≤ c.stackBase.toNat
      omega
    · intro a kept
      rw [isr, pointer]
      obtain ⟨thread, -⟩ | ⟨rfl, switch⟩ := switch_cases stacked holds room stack
      · obtain fixed | ⟨own, ⟨has, -⟩ | ⟨interrupt, waiting⟩⟩ := kept
        · exact .inl fixed
        · exact .inr ⟨own, .inr ⟨⟨stack, rfl⟩, K, thread, has⟩⟩
        · exact .inr ⟨own, .inr ⟨⟨stack, rfl⟩, waiting⟩⟩
      · exact kept_mono (by rw [switch] at place ⊢; omega) kept
    · rw [popBlock, if_pos stack]
      simp (disch := decide) only [execAll_cons, execAll_nil, Instr.exec, Machine.get_set_self,
        pointer, BitVec.ofNat_eq_ofNat, BitVec.add_zero]
      exact prologue_pushed stack lock
    · intro _
      rw [isr, pointer]
      exact link
    · rw [prologue_sp]
      exact offset_kept stacked holds room
  · have isr : isrStack c K = K := if_neg stack
    have pointer : (prologue c m).get sp = frame m := by
      rw [prologue_sp, searchStackPointer, if_neg stack]
    constructor
    · exact same
    · rw [isr, pointer]
      omega
    · rw [isr, pointer]
      omega
    · intro a kept
      rwa [isr, pointer]
    · rw [popBlock, if_neg stack]
      exact pointer
    · exact fun use => absurd use stack
    · rw [prologue_sp]
      exact offset_kept stacked holds room

end
end InterruptHandler
