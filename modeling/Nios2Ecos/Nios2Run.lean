import Mathlib.Data.List.Infix
import Nios2Ecos.Nios2Machine

/- Running code with labels, calls of functions outside of it, and interrupts wherever they
   are enabled. A place in the code is what is left of it from there on. -/
namespace Nios2Machine
variable {L : Type}

structure Program (L : Type) where
  code : List (Instr L)
  base : Word
  label : L → List (Instr L)
  placed : ∀ l, label l <:+ code
  fits : code.length < 2 ^ 30

def Program.address (P : Program L) (rest : List (Instr L)) : Word :=
  P.base + BitVec.ofNat 32 (4 * (P.code.length - rest.length))

structure Program.At (P : Program L) (pc : Word) (rest : List (Instr L)) : Prop where
  suffix : rest <:+ P.code
  address : P.address rest = pc

theorem Program.At.unique {P : Program L} {pc : Word} {rest rest' : List (Instr L)}
    (h : P.At pc rest) (h' : P.At pc rest') : rest = rest' := by
  have offsets := (BitVec.add_right_inj _).mp (h.address.trans h'.address.symm)
  have distance := congrArg BitVec.toNat offsets
  have fits := P.fits
  have short := h.suffix.length_le
  have short' := h'.suffix.length_le
  simp only [BitVec.toNat_ofNat] at distance
  have length : rest.length = rest'.length := by omega
  have inside := List.suffix_of_suffix_length_le h.suffix h'.suffix (by omega)
  exact inside.eq_of_length length

/-- Where control goes after an instruction that is neither a call nor a return. -/
def Program.next (P : Program L) :
    Instr L → List (Instr L) → Machine → Option (List (Instr L))
  | .bne rA rB dest, rest, m => some (if m.get rA ≠ m.get rB then P.label dest else rest)
  | .bgtu rA rB dest, rest, m =>
    some (if (m.get rB).toNat < (m.get rA).toNat then P.label dest else rest)
  | .br dest, _, _ => some (P.label dest)
  | .callr _, _, _ => none
  | .call _, _, _ => none
  | .eret, _, _ => none
  | _, rest, _ => some rest

def Instr.target : Instr L → Machine → Option Word
  | .callr rA, m => some (m.get rA)
  | .call target, _ => some target
  | _, _ => none

/-- A call with its first three arguments and its result. -/
structure Call where
  target : Word
  arg4 : Word
  arg5 : Word
  arg6 : Word
  result : Word
deriving DecidableEq

section
variable (P : Program L) (function : Word → Machine → Machine → Prop)
  (nested : Machine → Machine → Prop)

/-- The code runs to its `eret`, with the calls it makes. `function` says how a function can
    return, `nested` how an interrupt can. -/
inductive Run : List (Instr L) → Machine → List Call → Machine → Prop
  | eret {rest : List (Instr L)} {m : Machine} : Run (.eret :: rest) m [] m.eret
  | step {i : Instr L} {rest there : List (Instr L)} {m t : Machine} {calls : List Call}
      (flow : P.next i rest m = some there) (run : Run there (i.exec m) calls t) :
      Run (i :: rest) m calls t
  | call {i : Instr L} {rest rest' : List (Instr L)} {m m' t : Machine} {target : Word}
      {calls : List Call} (called : i.target m = some target)
      (returned : function target (m.link target (P.address rest)) m') (back : P.At m'.pc rest')
      (run : Run rest' m' calls t) :
      Run (i :: rest) m (⟨target, m.get r4, m.get r5, m.get r6, m'.get r2⟩ :: calls) t
  | interrupt {rest rest' : List (Instr L)} {m m' t : Machine} {v : Word} {calls : List Call}
      (enabled : m.pie = true) (handled : nested (m.enter (P.address rest) v) m')
      (back : P.At m'.pc rest') (run : Run rest' m' calls t) : Run rest m calls t

/-- A run whose first event is not an interrupt. -/
inductive Own : List (Instr L) → Machine → List Call → Machine → Prop
  | eret {rest : List (Instr L)} {m : Machine} : Own (.eret :: rest) m [] m.eret
  | step {i : Instr L} {rest there : List (Instr L)} {m t : Machine} {calls : List Call}
      (flow : P.next i rest m = some there) (run : Run P function nested there (i.exec m) calls t) :
      Own (i :: rest) m calls t
  | call {i : Instr L} {rest rest' : List (Instr L)} {m m' t : Machine} {target : Word}
      {calls : List Call} (called : i.target m = some target)
      (returned : function target (m.link target (P.address rest)) m') (back : P.At m'.pc rest')
      (run : Run P function nested rest' m' calls t) :
      Own (i :: rest) m (⟨target, m.get r4, m.get r5, m.get r6, m'.get r2⟩ :: calls) t

end

section
variable {P : Program L} {function : Word → Machine → Machine → Prop}
  {nested : Machine → Machine → Prop} {m t : Machine} {calls : List Call}

theorem Run.settles (inv : Machine → Prop) {rest : List (Instr L)} (suffix : rest <:+ P.code)
    (closed : ∀ a b v, inv a → a.pie = true → nested (a.enter (P.address rest) v) b →
      b.pc = P.address rest ∧ inv b)
    (run : Run P function nested rest m calls t) (start : inv m) :
    ∃ m', inv m' ∧ Own P function nested rest m' calls t := by
  induction run with
  | eret => exact ⟨_, start, .eret⟩
  | step flow run _ => exact ⟨_, start, .step flow run⟩
  | call called returned back run _ => exact ⟨_, start, .call called returned back run⟩
  | interrupt enabled handled back run ih =>
    obtain ⟨there, kept⟩ := closed _ _ _ start enabled handled
    rw [there] at back
    cases back.unique ⟨suffix, rfl⟩
    exact ih suffix closed kept

theorem Run.undisturbed {rest : List (Instr L)} (suffix : rest <:+ P.code)
    (disabled : m.pie = false) (run : Run P function nested rest m calls t) :
    Own P function nested rest m calls t := by
  obtain ⟨m', rfl, own⟩ := run.settles (fun a => a = m) suffix
    (by
      rintro a b v rfl enabled
      rw [disabled] at enabled
      cases enabled)
    rfl
  exact own

theorem next_straight {i : Instr L} (straight : i.straight = true) (rest : List (Instr L))
    (m : Machine) : P.next i rest m = some rest := by
  cases i <;> simp_all [Instr.straight, Program.next]

theorem Own.flow {i : Instr L} {rest there : List (Instr L)} (flow : P.next i rest m = some there)
    (own : Own P function nested (i :: rest) m calls t) :
    Run P function nested there (i.exec m) calls t := by
  cases own with
  | eret => cases flow
  | step flow' run =>
    cases flow.symm.trans flow'
    exact run
  | call called => cases i <;> simp_all [Program.next, Instr.target]

theorem Own.straight {i : Instr L} {rest : List (Instr L)} (straight : i.straight = true)
    (own : Own P function nested (i :: rest) m calls t) :
    Run P function nested rest (i.exec m) calls t :=
  own.flow (next_straight straight rest m)

section
variable {rA rB : Reg} {dest : L} {rest : List (Instr L)}

theorem next_bne_taken (differ : m.get rA ≠ m.get rB) :
    P.next (.bne rA rB dest) rest m = some (P.label dest) :=
  congrArg some (if_pos differ)

theorem next_bne_passed (equal : m.get rA = m.get rB) :
    P.next (.bne rA rB dest) rest m = some rest :=
  congrArg some (if_neg (not_not.mpr equal))

end

section
variable {i : Instr L} {rest : List (Instr L)} {target : Word}

theorem Own.returned (called : i.target m = some target) (placed : rest <:+ P.code)
    (returns : ∀ b, function target (m.link target (P.address rest)) b → b.pc = P.address rest)
    (own : Own P function nested (i :: rest) m calls t) :
    ∃ b calls', function target (m.link target (P.address rest)) b ∧
      calls = ⟨target, m.get r4, m.get r5, m.get r6, b.get r2⟩ :: calls' ∧
      Run P function nested rest b calls' t := by
  cases own with
  | eret => cases called
  | step flow => cases i <;> simp_all [Program.next, Instr.target]
  | call called' returned back run =>
    cases called.symm.trans called'
    rw [returns _ returned] at back
    cases back.unique ⟨placed, rfl⟩
    exact ⟨_, _, returned, rfl, run⟩

theorem Run.of_call {b : Machine} (called : i.target m = some target) (placed : rest <:+ P.code)
    (returned : function target (m.link target (P.address rest)) b) (back : b.pc = P.address rest)
    (run : Run P function nested rest b calls t) :
    Run P function nested (i :: rest) m
      (⟨target, m.get r4, m.get r5, m.get r6, b.get r2⟩ :: calls) t :=
  .call called returned ⟨placed, back.symm⟩ run

end

/-- Straight code that does not write the status register. -/
def Instr.quiet : Instr L → Bool
  | .wrctl .status _ => false
  | i => i.straight

theorem quiet_straight {i : Instr L} (quiet : i.quiet = true) : i.straight = true := by
  unfold Instr.quiet at quiet
  split at quiet
  · cases quiet
  · exact quiet

theorem quiet_status {i : Instr L} (quiet : i.quiet = true) (m : Machine) :
    (i.exec m).ctl .status = m.ctl .status := by
  cases i with
  | wrctl c rA =>
    cases c with
    | status => cases quiet
    | _ => simp [Instr.exec, Machine.setCtl]
  | _ => simp [Instr.exec]

theorem execAll_status {is : List (Instr L)} (quiet : ∀ i ∈ is, i.quiet = true) (m : Machine) :
    (execAll is m).ctl .status = m.ctl .status := by
  induction is generalizing m with
  | nil => rfl
  | cons i is ih =>
    rw [execAll_cons, ih (fun j mem => quiet j (List.mem_cons_of_mem i mem)),
      quiet_status (quiet i List.mem_cons_self)]

theorem suffix_append (is : List (Instr L)) {rest code : List (Instr L)}
    (suffix : is ++ rest <:+ code) : rest <:+ code :=
  (List.suffix_append is rest).trans suffix

theorem Run.block (is : List (Instr L)) {rest : List (Instr L)} (suffix : is ++ rest <:+ P.code)
    (quiet : ∀ i ∈ is, i.quiet = true) (disabled : m.pie = false)
    (run : Run P function nested (is ++ rest) m calls t) :
    Run P function nested rest (execAll is m) calls t := by
  induction is generalizing m with
  | nil => exact run
  | cons i is ih =>
    have here := quiet i List.mem_cons_self
    have own := run.undisturbed suffix disabled
    have next := own.straight (quiet_straight here)
    exact ih (suffix_append [i] suffix)
      (fun j mem => quiet j (List.mem_cons_of_mem i mem))
      (by rw [Machine.pie, quiet_status here]; exact disabled) next

theorem Run.of_block (is : List (Instr L)) {rest : List (Instr L)} (straight : ∀ i ∈ is, i.straight = true)
    (run : Run P function nested rest (execAll is m) calls t) :
    Run P function nested (is ++ rest) m calls t := by
  induction is generalizing m with
  | nil => exact run
  | cons i is ih =>
    exact .step (next_straight (straight i List.mem_cons_self) _ m)
      (ih (fun j mem => straight j (List.mem_cons_of_mem i mem)) run)

theorem straight_of_quiet {is : List (Instr L)} (quiet : ∀ i ∈ is, i.quiet = true) :
    ∀ i ∈ is, i.straight = true :=
  fun i mem => quiet_straight (quiet i mem)

theorem pie_quiet {is : List (Instr L)} (quiet : ∀ i ∈ is, i.quiet = true) (x : Machine) :
    (execAll is x).pie = x.pie := by
  rw [Machine.pie, execAll_status quiet, Machine.pie]

theorem Run.block_iff (is : List (Instr L)) {rest : List (Instr L)} (suffix : is ++ rest <:+ P.code)
    (quiet : ∀ i ∈ is, i.quiet = true) (disabled : m.pie = false) :
    Run P function nested (is ++ rest) m calls t ↔
      Run P function nested rest (execAll is m) calls t :=
  ⟨Run.block is suffix quiet disabled, Run.of_block is (straight_of_quiet quiet)⟩

theorem Run.step_iff {i : Instr L} {rest there : List (Instr L)} (suffix : i :: rest <:+ P.code)
    (disabled : m.pie = false) (flow : P.next i rest m = some there) :
    Run P function nested (i :: rest) m calls t ↔
      Run P function nested there (i.exec m) calls t :=
  ⟨fun run => (run.undisturbed suffix disabled).flow flow, .step flow⟩

end

/-- The machines agree on some registers, on some words of memory and on the status. -/
structure Same (regs : Reg → Prop) (words : Word → Prop) (m m' : Machine) : Prop where
  get : ∀ r, regs r → m'.get r = m.get r
  mem : ∀ a, words a → m'.mem a = m.mem a
  status : m'.ctl .status = m.ctl .status

section
variable {regs : Reg → Prop} {words : Word → Prop} {m m' m'' : Machine}

theorem Same.refl (regs : Reg → Prop) (words : Word → Prop) (m : Machine) :
    Same regs words m m :=
  ⟨fun _ _ => rfl, fun _ _ => rfl, rfl⟩

theorem Same.trans (first : Same regs words m m') (second : Same regs words m' m'') :
    Same regs words m m'' :=
  ⟨fun r h => (second.get r h).trans (first.get r h),
    fun a h => (second.mem a h).trans (first.mem a h), second.status.trans first.status⟩

theorem Same.set (same : Same regs words m m') {r : Reg} {v v' : Word}
    (value : regs r → v' = v) : Same regs words (m.set r v) (m'.set r v') := by
  refine ⟨?_, ?_, ?_⟩
  · intro q visible
    by_cases zero : q = 0
    · rw [zero, Machine.get_zero, Machine.get_zero]
    · by_cases here : q = r
      · subst here
        rw [m.get_set_self _ zero, m'.get_set_self _ zero, value visible]
      · rw [m.get_set_ne _ here, m'.get_set_ne _ here, same.get q visible]
  · intro a visible
    rw [Machine.set_mem, Machine.set_mem, same.mem a visible]
  · rw [Machine.set_ctl, Machine.set_ctl, same.status]

theorem Same.mono {regs' : Reg → Prop} {words' : Word → Prop} (same : Same regs words m m')
    (fewer : ∀ r, regs' r → regs r) (less : ∀ a, words' a → words a) :
    Same regs' words' m m' :=
  ⟨fun r h => same.get r (fewer r h), fun a h => same.mem a (less a h), same.status⟩

theorem Same.set_hidden (same : Same regs words m m') {r : Reg} (hidden : ¬ regs r) (v : Word) :
    Same regs words m (m'.set r v) := by
  refine ⟨?_, ?_, ?_⟩
  · intro q seen
    have other : q ≠ r := by
      rintro rfl
      exact hidden seen
    rw [m'.get_set_ne _ other, same.get q seen]
  · rw [Machine.set_mem]
    exact same.mem
  · rw [Machine.set_ctl]
    exact same.status

theorem Same.store_hidden (same : Same regs words m m') {a : Word} (hidden : ¬ words a) (v : Word) :
    Same regs words m (m'.store a v) := by
  refine ⟨same.get, ?_, same.status⟩
  intro b seen
  have other : b ≠ a := by
    rintro rfl
    exact hidden seen
  rw [m'.store_ne _ other, same.mem b seen]

/-- Interrupts that come while the stack pointer is `frame` return where they came, and are
    not seen. -/
def Hidden (regs : Reg → Prop) (words : Word → Prop) (frame : Word)
    (nested : Machine → Machine → Prop) : Prop :=
  ∀ m pc v m', m.get sp = frame → m.pie = true → nested (m.enter pc v) m' →
    m'.pc = pc ∧ Same regs words m m'

/-- The instruction sees only what interrupts leave alone, and leaves the stack pointer
    where it is. -/
def Clean (regs : Reg → Prop) (words : Word → Prop) (frame : Word) (i : Instr L) : Prop :=
  i.straight = true ∧ ∀ m m', m.get sp = frame → Same regs words m m' →
    (i.exec m).get sp = frame ∧ Same regs words (i.exec m) (i.exec m')

variable {frame : Word}

theorem clean_ldw {r : Reg} {offset : Word} (pointer : r ≠ sp) (visible : regs sp)
    (word : words (frame + offset)) : Clean (L := L) regs words frame (.ldw r offset sp) := by
  refine ⟨rfl, ?_⟩
  intro m m' here same
  have there : m'.get sp = frame := by rw [same.get sp visible, here]
  constructor
  · exact (m.get_set_ne _ pointer.symm).trans here
  · exact same.set (fun _ => by rw [here, there, same.mem _ word])

theorem clean_set {i : Instr L} {r : Reg} (f : Machine → Word) (straight : i.straight = true)
    (effect : ∀ m, i.exec m = m.set r (f m)) (pointer : r ≠ sp)
    (agree : ∀ m m', Same regs words m m' → f m' = f m) : Clean regs words frame i := by
  refine ⟨straight, ?_⟩
  intro m m' here same
  rw [effect, effect, m.get_set_ne _ pointer.symm]
  exact ⟨here, same.set (fun _ => agree m m' same)⟩

theorem execAll_clean {is : List (Instr L)} (clean : ∀ i ∈ is, Clean regs words frame i)
    (here : m.get sp = frame) (same : Same regs words m m') :
    (execAll is m).get sp = frame ∧ Same regs words (execAll is m) (execAll is m') := by
  induction is generalizing m m' with
  | nil => exact ⟨here, same⟩
  | cons i is ih =>
    obtain ⟨stays, next⟩ := (clean i List.mem_cons_self).2 m m' here same
    exact ih (fun j mem => clean j (List.mem_cons_of_mem i mem)) stays next

variable {P : Program L} {function : Word → Machine → Machine → Prop}
  {nested : Machine → Machine → Prop} {t : Machine} {calls : List Call}

/-- The next event of the code itself, with interrupts before it that are not seen. -/
theorem Run.own_hidden {rest : List (Instr L)} (suffix : rest <:+ P.code)
    (hidden : Hidden regs words frame nested) (visible : regs sp) (here : m.get sp = frame)
    (run : Run P function nested rest m calls t) :
    ∃ m', Same regs words m m' ∧ Own P function nested rest m' calls t := by
  refine run.settles (fun a => Same regs words m a) suffix ?_ (Same.refl _ _ m)
  intro a b v same enabled handled
  have there : a.get sp = frame := by rw [same.get sp visible, here]
  obtain ⟨back, step⟩ := hidden a _ v b there enabled handled
  exact ⟨back, same.trans step⟩

/-- Code that sees only what interrupts leave alone runs as if there were none. -/
theorem Run.block_hidden (is : List (Instr L)) {rest : List (Instr L)} (suffix : is ++ rest <:+ P.code)
    (clean : ∀ i ∈ is, Clean regs words frame i) (hidden : Hidden regs words frame nested)
    (visible : regs sp) (here : m.get sp = frame)
    (run : Run P function nested (is ++ rest) m calls t) :
    ∃ m', Same regs words (execAll is m) m' ∧ Run P function nested rest m' calls t := by
  induction is generalizing m with
  | nil => exact ⟨m, Same.refl _ _ m, run⟩
  | cons i is ih =>
    have first := clean i List.mem_cons_self
    have later := fun j mem => clean j (List.mem_cons_of_mem i mem)
    obtain ⟨a, same, own⟩ := run.own_hidden suffix hidden visible here
    obtain ⟨stays, next⟩ := first.2 m a here same
    have there : (i.exec a).get sp = frame := by rw [next.get sp visible, stays]
    obtain ⟨m', rest_same, rest_run⟩ := ih (suffix_append [i] suffix) later there
      (own.straight first.1)
    exact ⟨m', (execAll_clean later stays next).2.trans rest_same, rest_run⟩

end

/-- The bytes from `low` up to `high`, used downwards. -/
structure Stack where
  low : Nat
  high : Nat

namespace Stack

/-- The stack pointer points into the stack or, when it is empty, behind it. -/
def Holds (K : Stack) (v : Word) : Prop := K.low < v.toNat ∧ v.toNat ≤ K.high

def Has (K : Stack) (a : Word) : Prop := K.low ≤ a.toNat ∧ a.toNat < K.high

instance (K : Stack) (v : Word) : Decidable (K.Holds v) := inferInstanceAs (Decidable (_ ∧ _))

instance (K : Stack) (a : Word) : Decidable (K.Has a) := inferInstanceAs (Decidable (_ ∧ _))

end Stack

end Nios2Machine
