import Nios2Ecos.Nios2Frames
import Nios2Ecos.Nios2Run
import Nios2Ecos.SavedRegisters

/- `hal_thread_switch_context`, `hal_thread_load_context` and HAL_THREAD_INIT_CONTEXT. -/
namespace ContextSwitch
open Nios2Machine SavedRegisters

structure Config where
  /-- CYGDBG_HAL_COMMON_CONTEXT_SAVE_MINIMUM -/
  saveMinimum : Bool
  globalPointer : Word

/-- The caller saved registers, which are of use to the debugger only. -/
def callerStores : List (Instr Empty) :=
  stores sp [(ra, 124), (r15, 120), (r14, 116), (r13, 112), (r12, 108)] ++
    ([.rdctl r14 .ienable, .rdctl r13 .ipending, .rdctl r12 .estatus] ++
      stores sp [(r11, 104), (r10, 100), (r9, 96), (r8, 92), (r7, 88), (r6, 84), (r5, 80), (r4, 76),
        (r3, 72), (r2, 68), (r1, 64), (gp, 60), (et, 56), (ea, 52), (r14, 136), (r13, 132),
        (r12, 48)])

def saveCallerBlock : List (Instr Empty) := callerStores ++ [.addi r2 sp 140, .stw r2 128 sp]

def calleeStores : List (Instr Empty) :=
  stores sp [(r23, 36), (r22, 32), (r21, 28), (r20, 24), (r19, 20), (r18, 16), (r17, 12), (r16, 8),
    (fp, 4), (ra, 0), (r6, 40)]

def saveCalleeBlock : List (Instr Empty) := .rdctl r6 .status :: calleeStores

def loadCallerBlock : List (Instr Empty) :=
  loads sp [(ra, 124), (r15, 120), (r14, 116), (r13, 112), (r12, 108), (r11, 104), (r10, 100),
    (r9, 96), (r8, 92), (r7, 88), (r6, 84), (r5, 80), (r4, 76), (r3, 72), (r2, 68), (r1, 64),
    (gp, 60)]

def loadCalleeBlock : List (Instr Empty) :=
  loads sp [(r23, 36), (r22, 32), (r21, 28), (r20, 24), (r19, 20), (r18, 16), (r17, 12), (r16, 8),
    (fp, 4)]

section
variable (minimum : Bool)

def frameBlock : List (Instr Empty) :=
  (if minimum then [] else saveCallerBlock) ++ saveCalleeBlock

def frameSize : Word := if minimum then 48 else 140

def saveBlock : List (Instr Empty) :=
  .addi sp sp (-frameSize minimum) :: (frameBlock minimum ++ [.stw sp 0 r5])

def restoreBlock : List (Instr Empty) :=
  .ldw r4 44 sp :: ((if minimum then [] else loadCallerBlock) ++ (loadCalleeBlock ++
    [.wrctl .status r0, .ldw ea 0 sp, .ldw r1 40 sp]))

def loadBlock : List (Instr Empty) :=
  .ldw sp 0 r4 :: (restoreBlock minimum ++ (.wrctl .estatus r1 ::
    if minimum then [.addi sp sp 48] else [.ldw sp 128 sp]))

end

section
variable (c : Config)

def halThreadLoadContext (m : Machine) : Machine := (execAll (loadBlock c.saveMinimum) m).eret

def halThreadSwitchContext (m : Machine) : Machine :=
  halThreadLoadContext c (execAll (saveBlock c.saveMinimum) m)

/-- `_sp_` and `_regs_` of HAL_THREAD_INIT_CONTEXT. -/
def initSp (sparg : Word) : Word := (sparg - 56) &&& 0xFFFFFFF0

def initRegs (sparg : Word) : Word := (initSp sparg - size) &&& 0xFFFFFFF0

def initFields (sparg thread entry : Word) : List (Field × Word) :=
  [(.dLow 3, thread), (.regArg0, thread), (.status, 1), (.gp, c.globalPointer),
    (.fp, initSp sparg), (.sp, initSp sparg), (.pc, entry)]

def halThreadInitContext (sparg thread entry : Word) (m : Machine) : Machine :=
  write (initRegs sparg) (initFields c sparg thread entry) m

end

/-- What a thread is to find when it runs again. -/
structure Context where
  pc : Word
  status : Word
  sp : Word
  regs : List (Reg × Word)

structure Resumes (k : Context) (t : Machine) : Prop where
  pc : t.pc = k.pc
  status : t.ctl .status = k.status
  sp : t.get sp = k.sp
  regs : ∀ q ∈ k.regs, t.get q.1 = q.2

def calling (m : Machine) : Context where
  pc := m.get ra
  status := m.ctl .status
  sp := m.get sp
  regs := [r16, r17, r18, r19, r20, r21, r22, r23, fp, gp].map fun r => (r, m.get r)

section
variable (c : Config)

def entrySp (sparg : Word) : Word := if c.saveMinimum then initRegs sparg + 48 else initSp sparg

def starting (sparg thread entry : Word) : Context where
  pc := entry
  status := 1
  sp := entrySp c sparg
  regs := [(r4, thread), (gp, c.globalPointer), (fp, initSp sparg)]

def restoredSlots (minimum : Bool) : List (Reg × Word) :=
  [(r23, 36), (r22, 32), (r21, 28), (r20, 24), (r19, 20), (r18, 16), (r17, 12), (r16, 8), (fp, 4)] ++
    if minimum then [(r4, 44)] else [(r4, 76), (gp, 60)]

/-- What it leaves in a register; gp is not restored from a minimal frame. -/
def restoredValue (mem : Word → Word) (p : Word) (r : Reg) : Option Word :=
  if c.saveMinimum ∧ r = gp then some c.globalPointer
  else ((restoredSlots c.saveMinimum).lookup r).map fun offset => mem (p + offset)

/-- The frame at `p` holds the context. -/
structure Encodes (mem : Word → Word) (p : Word) (k : Context) : Prop where
  pc : mem (p + 0) = k.pc
  status : mem (p + 40) = k.status
  sp : (if c.saveMinimum then p + 48 else mem (p + 128)) = k.sp
  regs : ∀ q ∈ k.regs, restoredValue c mem p q.1 = some q.2

end

section
variable {c : Config} {p : Word} {k : Context} {mem mem' : Word → Word}

theorem restored_slots_inside (minimum : Bool) : ∀ q ∈ restoredSlots minimum,
    q.2.toNat < (frameSize minimum).toNat := by
  cases minimum <;> exact List.all_iff_forall_prop.mp (by decide)

theorem Encodes.keep (encodes : Encodes c mem p k)
    (same : ∀ offset : Word, offset.toNat < (frameSize c.saveMinimum).toNat →
      mem' (p + offset) = mem (p + offset)) :
    Encodes c mem' p k := by
  have few : ∀ minimum, (0 : Word).toNat < (frameSize minimum).toNat ∧
      (40 : Word).toNat < (frameSize minimum).toNat := by decide
  constructor
  · rw [same 0 (few _).1, encodes.pc]
  · rw [same 40 (few _).2, encodes.status]
  · rw [← encodes.sp]
    split
    · rfl
    · rename_i full
      exact same 128 (by rw [frameSize, if_neg full]; decide)
  · intro q mem
    rw [← encodes.regs q mem, restoredValue, restoredValue]
    split
    · rfl
    · cases found : (restoredSlots c.saveMinimum).lookup q.1 with
      | none => rfl
      | some offset =>
        obtain ⟨before, after, split, -⟩ := List.lookup_eq_some_iff.mp found
        have slot : (q.1, offset) ∈ restoredSlots c.saveMinimum := by
          rw [split]
          exact List.mem_append_right _ List.mem_cons_self
        exact congrArg some (same offset (restored_slots_inside _ _ slot))

end

theorem restore_reading : ∀ minimum, ∀ i ∈ restoreBlock minimum, i.reading = true := by decide

theorem restore_slots (minimum : Bool) : ∀ q ∈ restoredSlots minimum, q.1 ≠ 0 ∧ q.1 ≠ sp ∧
    restores q.1 q.2 (restoreBlock minimum) false = true := by
  cases minimum <;> exact List.all_iff_forall_prop.mp (by decide)

theorem restore_exception : ∀ minimum, restores ea 0 (restoreBlock minimum) false = true ∧
    restores r1 40 (restoreBlock minimum) false = true := by decide

theorem restore_gp : ∀ i ∈ restoreBlock true, i.dest ≠ some gp := by decide

section
variable {c : Config} {p : Word} {k : Context} {m x : Machine}

def restored (minimum : Bool) (x : Machine) (p : Word) : Machine :=
  execAll (restoreBlock minimum) (x.set sp p)

theorem restored_frame (minimum : Bool) : (restored minimum x p).get sp = p ∧
    (restored minimum x p).mem = x.mem := by
  obtain ⟨pointer, memory⟩ := execAll_reading (m := x.set sp p) (restore_reading minimum)
  rw [x.get_set_self _ (by decide)] at pointer
  rw [x.set_mem] at memory
  exact ⟨pointer, memory⟩

theorem restored_slot {minimum : Bool} {r : Reg} {offset : Word} (nonzero : r ≠ 0)
    (slot : restores r offset (restoreBlock minimum) false = true) :
    (restored minimum x p).get r = x.mem (p + offset) := by
  have value := restores_slot (m := x.set sp p) nonzero (restore_reading minimum) slot
  rwa [x.get_set_self _ (by decide), x.set_mem] at value

theorem load_exec (here : x.mem (x.get r4) = p) : halThreadLoadContext c x =
    (((restored c.saveMinimum x p).setCtl .estatus (x.mem (p + 40))).set sp
      (if c.saveMinimum then p + 48 else x.mem (p + 128))).eret := by
  obtain ⟨pointer, memory⟩ := restored_frame (x := x) (p := p) c.saveMinimum
  have saved := restored_slot (x := x) (p := p) (show r1 ≠ 0 by decide)
    (restore_exception c.saveMinimum).2
  rw [halThreadLoadContext, loadBlock, execAll_cons, execAll_append, execAll_cons]
  simp only [Instr.exec, BitVec.ofNat_eq_ofNat, BitVec.add_zero, here]
  change Machine.eret (execAll _ ((restored c.saveMinimum x p).setCtl .estatus
    ((restored c.saveMinimum x p).get r1))) = _
  rw [saved]
  split
  · simp only [execAll_cons, execAll_nil, Instr.exec, Machine.setCtl_get, pointer,
      BitVec.ofNat_eq_ofNat]
  · simp only [execAll_cons, execAll_nil, Instr.exec, Machine.setCtl_get, Machine.setCtl_mem,
      pointer, memory, BitVec.ofNat_eq_ofNat]

theorem load_mem (x : Machine) : (halThreadLoadContext c x).mem = x.mem := by
  rw [load_exec rfl, Machine.eret_mem, Machine.set_mem, Machine.setCtl_mem, (restored_frame _).2]

theorem load_resumes (here : x.mem (x.get r4) = p) (global : x.get gp = c.globalPointer)
    (encodes : Encodes c x.mem p k) : Resumes k (halThreadLoadContext c x) := by
  rw [load_exec here]
  constructor
  · rw [Machine.eret_pc, Machine.get_set_ne _ _ (by decide), Machine.setCtl_get,
      restored_slot (by decide) (restore_exception c.saveMinimum).1, encodes.pc]
  · rw [Machine.eret_status, Machine.set_ctl, Machine.setCtl_same, encodes.status]
  · rw [Machine.eret_get, Machine.get_set_self _ _ (by decide), encodes.sp]
  · intro q mem
    have value := encodes.regs q mem
    unfold restoredValue at value
    split at value
    · rename_i gpKept
      obtain ⟨minimum, register⟩ := gpKept
      rw [← Option.some.inj value, Machine.eret_get, register, Machine.get_set_ne _ _ (by decide), Machine.setCtl_get,
        restored, minimum, execAll_get restore_gp, x.get_set_ne _ (by decide), global]
    · obtain ⟨offset, found, value⟩ := Option.map_eq_some_iff.mp value
      obtain ⟨before, after, split, -⟩ := List.lookup_eq_some_iff.mp found
      obtain ⟨nonzero, pointer, slot⟩ := restore_slots c.saveMinimum (q.1, offset) (by
        rw [split]
        exact List.mem_append_right _ List.mem_cons_self)
      rw [Machine.eret_get, Machine.get_set_ne _ _ pointer, Machine.setCtl_get,
        restored_slot nonzero slot, value]

end

def savedSlots : List (Reg × Word) :=
  [(r23, 36), (r22, 32), (r21, 28), (r20, 24), (r19, 20), (r18, 16), (r17, 12), (r16, 8), (fp, 4),
    (ra, 0)]

theorem frame_framed : ∀ minimum, ∀ i ∈ frameBlock minimum,
    i.framed (frameSize minimum).toNat = true := by decide

theorem frame_saves (minimum : Bool) : ∀ q ∈ savedSlots, q.1 ≠ sp ∧
    saves q.1 q.2 (frameBlock minimum) true false = true := by
  cases minimum <;> exact List.all_iff_forall_prop.mp (by decide)

theorem frame_spares : ∀ minimum, ∀ i ∈ frameBlock minimum, i.dest ≠ some r4 ∧ i.dest ≠ some r5 ∧
    i.dest ≠ some gp := by decide

section
variable {c : Config} {m : Machine} {minimum : Bool}

def savedSp (minimum : Bool) (m : Machine) : Word := m.get sp + -frameSize minimum

theorem savedSp_add : savedSp minimum m + frameSize minimum = m.get sp := by
  rw [savedSp, BitVec.add_assoc, BitVec.add_left_neg]
  exact BitVec.add_zero _

def framed (minimum : Bool) (m : Machine) : Machine :=
  execAll (frameBlock minimum) (m.set sp (savedSp minimum m))

theorem framed_pointer : (framed minimum m).get sp = savedSp minimum m := by
  rw [framed, execAll_framed_sp (frame_framed minimum), m.get_set_self _ (by decide)]

theorem framed_spared {r : Reg} (spared : ∀ i ∈ frameBlock minimum, i.dest ≠ some r)
    (pointer : r ≠ sp) : (framed minimum m).get r = m.get r := by
  rw [framed, execAll_get spared, m.get_set_ne _ pointer]

theorem framed_slot {r : Reg} {offset : Word} (pointer : r ≠ sp)
    (saved : saves r offset (frameBlock minimum) true false = true) :
    (framed minimum m).mem (savedSp minimum m + offset) = m.get r := by
  have slot := saves_slot (m := m.set sp (savedSp minimum m)) (frame_framed minimum) saved
  rwa [m.get_set_self _ (by decide), m.get_set_ne _ pointer] at slot

theorem framed_elsewhere {a : Word}
    (outside : ∀ offset : Word, offset.toNat < (frameSize minimum).toNat →
      a ≠ savedSp minimum m + offset) : (framed minimum m).mem a = m.mem a := by
  rw [framed, execAll_framed_mem (frame_framed minimum), m.set_mem]
  rwa [m.get_set_self _ (by decide)]

theorem framed_status : (framed minimum m).mem (savedSp minimum m + 40) = m.ctl .status := by
  have quiet : ∀ minimum : Bool, ∀ i ∈ if minimum then [] else saveCallerBlock, i.quiet = true := by
    decide
  have slot := saves_computed (m := m.set sp (savedSp minimum m)) (frame_framed minimum)
    (show saves r6 40 calleeStores true false = true by decide)
  rw [m.get_set_self _ (by decide), Instr.exec, Machine.get_set_self _ _ (by decide),
    execAll_status (quiet minimum), m.set_ctl] at slot
  exact slot

theorem framed_entry : (framed false m).mem (savedSp false m + 128) = m.get sp := by
  have framedAll : ∀ i ∈ callerStores ++ .addi r2 sp 140 :: (.stw r2 128 sp :: saveCalleeBlock),
      i.framed 140 = true := by decide
  have stays : ∀ i ∈ callerStores, i.framed 140 = true := by decide
  have slot := saves_computed (m := m.set sp (savedSp false m)) framedAll
    (show saves r2 128 (.stw r2 128 sp :: saveCalleeBlock) true false = true by decide)
  rw [m.get_set_self _ (by decide), Instr.exec, Machine.get_set_self _ _ (by decide),
    execAll_framed_sp stays, m.get_set_self _ (by decide)] at slot
  exact slot.trans savedSp_add

theorem save_exec : execAll (saveBlock minimum) m =
    (framed minimum m).store (m.get r5) (savedSp minimum m) := by
  have argument : (framed minimum m).get r5 = m.get r5 :=
    framed_spared (fun i mem => (frame_spares minimum i mem).2.1) (by decide)
  rw [saveBlock, execAll_cons, execAll_append]
  change execAll [.stw sp 0 r5] (framed minimum m) = _
  simp only [execAll_cons, execAll_nil, Instr.exec, argument, framed_pointer,
    BitVec.ofNat_eq_ofNat, BitVec.add_zero]

theorem slots_agree : ∀ minimum, ∀ r ∈ [r16, r17, r18, r19, r20, r21, r22, r23, fp, gp],
    (minimum = true ∧ r = gp) ∨ r ≠ sp ∧ ((restoredSlots minimum).lookup r).any (fun offset =>
      saves r offset (frameBlock minimum) true false) = true := by decide

theorem framed_encodes (global : m.get gp = c.globalPointer) :
    Encodes c (framed c.saveMinimum m).mem (savedSp c.saveMinimum m) (calling m) := by
  constructor
  · exact framed_slot (by decide) (frame_saves c.saveMinimum (ra, 0) (by decide)).2
  · exact framed_status
  · cases minimum : c.saveMinimum with
    | true =>
      rw [if_pos rfl]
      exact savedSp_add
    | false =>
      rw [if_neg (by decide)]
      exact framed_entry
  · intro q member
    obtain ⟨r, listed, rfl⟩ := List.mem_map.mp member
    unfold restoredValue
    split
    · rename_i kept
      obtain ⟨-, rfl⟩ := kept
      exact congrArg some global.symm
    · rename_i other
      rcases slots_agree c.saveMinimum r listed with kept | ⟨pointer, agree⟩
      · exact absurd kept other
      · obtain ⟨offset, found, saved⟩ := (Option.any_eq_true _ _).mp agree
        rw [found]
        exact congrArg some (framed_slot pointer saved)

/-- The frame is not touched when the stack pointer is saved elsewhere. -/
theorem save_encodes (global : m.get gp = c.globalPointer)
    (elsewhere : ∀ offset : Word, offset.toNat < (frameSize c.saveMinimum).toNat →
      m.get r5 ≠ savedSp c.saveMinimum m + offset) :
    Encodes c (execAll (saveBlock c.saveMinimum) m).mem (savedSp c.saveMinimum m) (calling m) := by
  rw [save_exec]
  apply (framed_encodes global).keep
  intro offset inside
  exact Machine.store_ne _ _ (elsewhere offset inside).symm

theorem save_elsewhere {a : Word} (slot : a ≠ m.get r5)
    (outside : ∀ offset : Word, offset.toNat < (frameSize minimum).toNat →
      a ≠ savedSp minimum m + offset) : (execAll (saveBlock minimum) m).mem a = m.mem a := by
  rw [save_exec, Machine.store_ne _ _ slot, framed_elsewhere outside]

theorem save_get {r : Reg} (spared : r = r4 ∨ r = gp) :
    (execAll (saveBlock minimum) m).get r = m.get r := by
  rw [save_exec, Machine.store_get]
  rcases spared with rfl | rfl
  · exact framed_spared (fun i mem => (frame_spares minimum i mem).1) (by decide)
  · exact framed_spared (fun i mem => (frame_spares minimum i mem).2.2) (by decide)

section
variable {sparg thread entry : Word}

theorem init_fields_distinct :
    ((initFields c sparg thread entry).map Prod.fst).Nodup := by
  change ([.dLow 3, .regArg0, .status, .gp, .fp, .sp, .pc] : List Field).Nodup
  decide

variable (c m sparg thread entry) in
theorem init_read {v : Word} (f : Field) (listed : (f, v) ∈ initFields c sparg thread entry) :
    (halThreadInitContext c sparg thread entry m).mem (initRegs sparg + f.offset) = v :=
  read_write init_fields_distinct listed

theorem restored_looked_up (r : Reg) (offset : Word) {mem : Word → Word} {p v : Word}
    (kept : ¬ (c.saveMinimum ∧ r = gp)) (found : (restoredSlots c.saveMinimum).lookup r = some offset)
    (value : mem (p + offset) = v) : restoredValue c mem p r = some v := by
  rw [restoredValue, if_neg kept, found, ← value]
  rfl

theorem init_encodes : Encodes c (halThreadInitContext c sparg thread entry m).mem (initRegs sparg)
    (starting c sparg thread entry) := by
  have field := fun (f : Field) (v : Word) => init_read c m sparg thread entry (v := v) f
  constructor
  · exact field .pc entry (by simp [initFields])
  · exact field .status 1 (by simp [initFields])
  · unfold starting entrySp
    split
    · rfl
    · exact field .sp (initSp sparg) (by simp [initFields])
  · have argument := field .regArg0 thread (by simp [initFields])
    have argumentLow := field (.dLow 3) thread (by simp [initFields])
    have global := field .gp c.globalPointer (by simp [initFields])
    have top := field .fp (initSp sparg) (by simp [initFields])
    intro q member
    simp only [starting, List.mem_cons, List.not_mem_nil, or_false] at member
    cases minimum : c.saveMinimum with
    | true =>
      rcases member with rfl | rfl | rfl
      · exact restored_looked_up r4 44 (fun h => absurd h.2 (by decide))
          (by rw [minimum]; rfl) argument
      · rw [restoredValue, if_pos ⟨minimum, rfl⟩]
      · exact restored_looked_up fp 4 (fun h => absurd h.2 (by decide))
          (by rw [minimum]; rfl) top
    | false =>
      rcases member with rfl | rfl | rfl
      · exact restored_looked_up r4 76 (fun h => absurd h.2 (by decide))
          (by rw [minimum]; rfl) argumentLow
      · exact restored_looked_up gp 60 (by simp [minimum]) (by rw [minimum]; rfl) global
      · exact restored_looked_up fp 4 (fun h => absurd h.2 (by decide))
          (by rw [minimum]; rfl) top

end

end

theorem align_toNat (v : Word) : (v &&& 0xFFFFFFF0).toNat = v.toNat / 16 * 16 := by
  have shifts : v &&& (0xFFFFFFF0 : Word) = v >>> 4 <<< 4 := by
    have mask : ∀ i : Fin 32, (0xFFFFFFF0 : Word).getLsbD i = decide (4 ≤ i.val) := by decide
    apply BitVec.eq_of_getLsbD_eq
    intro i bound
    rw [BitVec.getLsbD_and, mask ⟨i, bound⟩, BitVec.getLsbD_shiftLeft, BitVec.getLsbD_ushiftRight]
    by_cases low : i < 4
    · simp [low]
    · have back : 4 + (i - 4) = i := by omega
      simp [low, back, bound]
      omega
  have small := v.isLt
  rw [shifts, BitVec.toNat_shiftLeft, BitVec.toNat_ushiftRight, Nat.shiftLeft_eq,
    Nat.shiftRight_eq_div_pow]
  omega

section
variable {sparg : Word} {low : Nat} (room : low + 215 ≤ sparg.toNat)
include room

theorem init_sp_toNat : (initSp sparg).toNat = (sparg.toNat - 56) / 16 * 16 := by
  have small := sparg.isLt
  rw [initSp, align_toNat, BitVec.toNat_sub]
  change (4294967296 - 56 + sparg.toNat) % 4294967296 / 16 * 16 = _
  omega

theorem init_regs_toNat : (initRegs sparg).toNat + 144 = (initSp sparg).toNat := by
  have top := init_sp_toNat room
  have small := (initSp sparg).isLt
  rw [initRegs, align_toNat, BitVec.toNat_sub]
  change (4294967296 - 140 + (initSp sparg).toNat) % 4294967296 / 16 * 16 + 144 = _
  omega

theorem entry_sp_bounds (c : Config) : low ≤ (initRegs sparg).toNat ∧
    (initRegs sparg).toNat + (frameSize c.saveMinimum).toNat ≤ (entrySp c sparg).toNat ∧
    (entrySp c sparg).toNat < sparg.toNat ∧ (entrySp c sparg).toNat % 16 = 0 ∧
    (initRegs sparg).toNat + size.toNat ≤ sparg.toNat := by
  have top := init_sp_toNat room
  have regs := init_regs_toNat room
  have small := sparg.isLt
  have bytes : size.toNat = 140 := rfl
  unfold entrySp frameSize
  split
  · have minimal : (48 : Word).toNat = 48 := rfl
    rw [BitVec.toNat_add]
    omega
  · have full : (140 : Word).toNat = 140 := rfl
    omega

end
end ContextSwitch
