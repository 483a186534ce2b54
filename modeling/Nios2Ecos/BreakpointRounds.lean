import Mathlib.Logic.Function.Basic
import Nios2Ecos.SingleStep

/- The debug stub between two stops of the program: the breakpoint of __single_step and the
   breakpoint list are put over the code and taken off again, each with its own saved words.
   The list belongs to the generic stub; only what is relied on of it stands here. -/
namespace BreakpointRounds
open SingleStep (Word Registers)

abbrev Address := BitVec 32

abbrev Code := Address → Word

def NULL : Address := 0
def nopInstr : Word := 0x0001883a

/-- __install_breakpoint_list and __clear_breakpoint_list: for every listed address, the word
    found at install is saved and written back at clear. -/
structure BreakpointList (breakOpcode : Word) where
  addresses : List Address
  install : Code → Code × Code
  clear : Code → Code → Code
  installed : ∀ code a, a ∈ addresses → (install code).1 a = breakOpcode
  passedOver : ∀ code a, a ∉ addresses → (install code).1 a = code a
  writtenBack : ∀ code later a, a ∈ addresses → clear (install code).2 later a = code a
  leftAlone : ∀ code later a, a ∉ addresses → clear (install code).2 later a = later a

structure Stub where
  code : Code
  targetAddr : Address
  savedInstr : Word

def initial (code : Code) : Stub := ⟨code, NULL, 0⟩

def singleStep (registers : Registers) (s : Stub) : Stub :=
  { s with targetAddr := SingleStep.targetAddr registers (s.code registers.pc) }

variable {breakOpcode : Word}

def installBreakpoints (list : BreakpointList breakOpcode) (s : Stub) : Stub × Code :=
  let s :=
    if s.targetAddr ≠ NULL then
      { s with
        savedInstr := s.code s.targetAddr
        code := Function.update s.code s.targetAddr breakOpcode }
    else s
  let (code, saved) := list.install s.code
  ({ s with code := code }, saved)

def clearBreakpoints (list : BreakpointList breakOpcode) (s : Stub) (saved : Code) : Stub :=
  { s with code := list.clear saved s.code }

def clearSingleStep (s : Stub) : Stub :=
  let s :=
    if s.targetAddr ≠ NULL then
      { s with
        code := Function.update s.code s.targetAddr s.savedInstr
        targetAddr := NULL }
    else s
  { s with savedInstr := nopInstr }

/-- What the host asks for before it lets the program go on. -/
structure Round (breakOpcode : Word) where
  step : Option Registers
  list : BreakpointList breakOpcode

def prepared (r : Round breakOpcode) (s : Stub) : Stub :=
  match r.step with
  | some registers => singleStep registers s
  | none => s

def running (r : Round breakOpcode) (s : Stub) : Stub × Code :=
  installBreakpoints r.list (prepared r s)

def round (s : Stub) (r : Round breakOpcode) : Stub :=
  clearSingleStep (clearBreakpoints r.list (running r s).1 (running r s).2)

def afterRounds (code : Code) (rounds : List (Round breakOpcode)) : Stub :=
  rounds.foldl round (initial code)

def stepped (breakOpcode : Word) (s : Stub) : Code :=
  if s.targetAddr ≠ NULL then Function.update s.code s.targetAddr breakOpcode else s.code

theorem install_code (list : BreakpointList breakOpcode) (s : Stub) :
    (installBreakpoints list s).1.code = (list.install (stepped breakOpcode s)).1 ∧
      (installBreakpoints list s).2 = (list.install (stepped breakOpcode s)).2 := by
  unfold installBreakpoints stepped
  split
  · exact ⟨rfl, rfl⟩
  · exact ⟨rfl, rfl⟩

theorem install_slot (list : BreakpointList breakOpcode) (s : Stub) :
    (installBreakpoints list s).1.targetAddr = s.targetAddr ∧
      (s.targetAddr ≠ NULL → (installBreakpoints list s).1.savedInstr = s.code s.targetAddr) := by
  unfold installBreakpoints
  split
  · exact ⟨rfl, fun _ => rfl⟩
  · rename_i idle
    exact ⟨rfl, fun pending => absurd pending idle⟩

/- The list comes off first and uncovers the code with the step breakpoint. -/
theorem clear_uncovers (list : BreakpointList breakOpcode) (code : Code) :
    list.clear (list.install code).2 (list.install code).1 = code := by
  funext a
  by_cases listed : a ∈ list.addresses
  · exact list.writtenBack code _ a listed
  · rw [list.leftAlone code _ a listed, list.passedOver code a listed]

theorem clear_idle {s : Stub} (idle : s.targetAddr = NULL) :
    clearSingleStep s = { s with savedInstr := nopInstr } := by
  rw [clearSingleStep, if_neg (not_not.mpr idle)]

theorem clear_pending {s : Stub} (pending : s.targetAddr ≠ NULL) :
    clearSingleStep s =
      ⟨Function.update s.code s.targetAddr s.savedInstr, NULL, nopInstr⟩ := by
  rw [clearSingleStep, if_pos pending]

theorem undone (list : BreakpointList breakOpcode) (s : Stub) :
    let done := clearSingleStep (clearBreakpoints list (installBreakpoints list s).1
      (installBreakpoints list s).2)
    done.code = s.code ∧ done.targetAddr = NULL := by
  obtain ⟨code, saved⟩ := install_code list s
  obtain ⟨target, word⟩ := install_slot list s
  have uncovered : (clearBreakpoints list (installBreakpoints list s).1
      (installBreakpoints list s).2).code = stepped breakOpcode s := by
    show list.clear (installBreakpoints list s).2 (installBreakpoints list s).1.code = _
    rw [code, saved]
    exact clear_uncovers list _
  have target' : (clearBreakpoints list (installBreakpoints list s).1
      (installBreakpoints list s).2).targetAddr = s.targetAddr := target
  dsimp only
  by_cases pending : s.targetAddr ≠ NULL
  · have word' : (clearBreakpoints list (installBreakpoints list s).1
        (installBreakpoints list s).2).savedInstr = s.code s.targetAddr := word pending
    rw [clear_pending (by rw [target']; exact pending)]
    refine ⟨?_, rfl⟩
    dsimp only
    rw [uncovered, target', word', stepped, if_pos pending, Function.update_idem,
      Function.update_eq_self]
  · rw [clear_idle (by rw [target']; exact not_not.mp pending)]
    refine ⟨?_, ?_⟩
    · show (clearBreakpoints list _ _).code = s.code
      rw [uncovered, stepped, if_neg pending]
    · exact target'.trans (not_not.mp pending)

theorem round_restores (r : Round breakOpcode) {s : Stub} :
    (round s r).code = s.code ∧ (round s r).targetAddr = NULL := by
  obtain ⟨code, slot⟩ := undone r.list (prepared r s)
  have same : (prepared r s).code = s.code := by
    unfold prepared
    cases r.step with
    | some registers => rfl
    | none => rfl
  exact ⟨code.trans same, slot⟩

theorem rounds_restore_from {s : Stub} (idle : s.targetAddr = NULL)
    (rounds : List (Round breakOpcode)) :
    (rounds.foldl round s).code = s.code ∧ (rounds.foldl round s).targetAddr = NULL := by
  induction rounds generalizing s with
  | nil => exact ⟨rfl, idle⟩
  | cons r rest ih =>
    obtain ⟨restored, slot⟩ := round_restores r (s := s)
    obtain ⟨code, slot'⟩ := ih slot
    exact ⟨code.trans restored, slot'⟩

theorem rounds_restore (code : Code) (rounds : List (Round breakOpcode)) :
    (afterRounds code rounds).code = code ∧ (afterRounds code rounds).targetAddr = NULL :=
  rounds_restore_from rfl rounds

/-- A breakpoint stays where it was installed when the list covers it again. -/
theorem running_breaks (r : Round breakOpcode) (s : Stub) {a : Address}
    (broken : a ∈ r.list.addresses ∨ stepped breakOpcode (prepared r s) a = breakOpcode) :
    (running r s).1.code a = breakOpcode := by
  obtain ⟨code, -⟩ := install_code r.list (prepared r s)
  rw [running, code]
  by_cases listed : a ∈ r.list.addresses
  · exact r.list.installed _ a listed
  · rw [r.list.passedOver _ a listed]
    exact broken.resolve_left listed

structure Undone (code : Code) (earlier : List (Round breakOpcode)) (r : Round breakOpcode) :
    Prop where
  before : (afterRounds code earlier).code = code
  after : (round (afterRounds code earlier) r).code = code
  listed : ∀ a, a ∈ r.list.addresses → (running r (afterRounds code earlier)).1.code a = breakOpcode
  stepTarget : ∀ registers, r.step = some registers →
    SingleStep.targetAddr registers (code registers.pc) ≠ NULL →
    (running r (afterRounds code earlier)).1.code
      (SingleStep.targetAddr registers (code registers.pc)) = breakOpcode
  idleSlot : (round (afterRounds code earlier) r).targetAddr = NULL

/-- Address 0 stands for no step breakpoint, so a step that would stop there has none. -/
theorem patching_undone (code : Code) (earlier : List (Round breakOpcode))
    (r : Round breakOpcode) : Undone code earlier r := by
  obtain ⟨before, -⟩ := rounds_restore code earlier
  obtain ⟨restored, slot⟩ := round_restores r (s := afterRounds code earlier)
  refine ⟨before, restored.trans before, ?_, ?_, slot⟩
  · intro a listed
    exact running_breaks r _ (Or.inl listed)
  · intro registers step target
    apply running_breaks
    right
    have prepares : prepared r (afterRounds code earlier) =
        singleStep registers (afterRounds code earlier) := by
      rw [prepared, step]
    rw [prepares, stepped, singleStep]
    dsimp only
    rw [before, if_pos target, Function.update_self]

/- A list that works through its addresses one by one meets what is asked of it, as long as
   they are distinct. -/

def installList (breakOpcode : Word) : List Address → Code → Code × Code
  | [], code => (code, code)
  | a :: rest, code =>
    let (code', saved) := installList breakOpcode rest (Function.update code a breakOpcode)
    (code', Function.update saved a (code a))

def clearList : List Address → Code → Code → Code
  | [], _, code => code
  | a :: rest, saved, code => clearList rest saved (Function.update code a (saved a))

theorem installList_word (breakOpcode : Word) (addresses : List Address) (code : Code)
    (a : Address) :
    (installList breakOpcode addresses code).1 a =
      if a ∈ addresses then breakOpcode else code a := by
  induction addresses generalizing code with
  | nil => rfl
  | cons b rest ih =>
    show (installList breakOpcode rest (Function.update code b breakOpcode)).1 a = _
    rw [ih]
    by_cases same : a = b
    · subst same
      simp
    · rw [Function.update_of_ne same]
      simp [same]

theorem installList_saved (breakOpcode : Word) {addresses : List Address}
    (distinct : addresses.Nodup) (code : Code) {a : Address} (listed : a ∈ addresses) :
    (installList breakOpcode addresses code).2 a = code a := by
  induction addresses generalizing code with
  | nil => cases listed
  | cons b rest ih =>
    show Function.update (installList breakOpcode rest _).2 b (code b) a = code a
    obtain ⟨fresh, distinct'⟩ := List.nodup_cons.mp distinct
    by_cases same : a = b
    · subst same
      exact Function.update_self _ _ _
    · rw [Function.update_of_ne same]
      rw [ih distinct' _ ((List.mem_cons.mp listed).resolve_left same)]
      exact Function.update_of_ne same _ _

theorem clearList_word (addresses : List Address) (saved code : Code) (a : Address) :
    clearList addresses saved code a = if a ∈ addresses then saved a else code a := by
  induction addresses generalizing code with
  | nil => rfl
  | cons b rest ih =>
    rw [clearList, ih]
    by_cases same : a = b
    · subst same
      simp
    · rw [Function.update_of_ne same]
      simp [same]

def listOf (breakOpcode : Word) (addresses : List Address) (distinct : addresses.Nodup) :
    BreakpointList breakOpcode where
  addresses := addresses
  install := installList breakOpcode addresses
  clear := clearList addresses
  installed := by
    intro code a listed
    rw [installList_word, if_pos listed]
  passedOver := by
    intro code a unlisted
    rw [installList_word, if_neg unlisted]
  writtenBack := by
    intro code later a listed
    rw [clearList_word, if_pos listed]
    exact installList_saved breakOpcode distinct code listed
  leftAlone := by
    intro code later a unlisted
    rw [clearList_word, if_neg unlisted]

def returning : Registers := ⟨fun _ => 0#32, 0x1000#32, rfl⟩

/- The `ret` goes to address 0, where no break instruction stands while the program runs. -/
theorem step_to_zero_unbroken :
    ¬ ∀ (code : Code) (r : Round 0x003b683a) (registers : Registers), r.step = some registers →
      (running r (initial code)).1.code
        (SingleStep.targetAddr registers (code registers.pc)) = 0x003b683a := by
  intro breaks
  have broken := breaks (fun _ => 0xf800283a) ⟨some returning, listOf _ [] List.nodup_nil⟩
    returning rfl
  exact absurd broken (by decide)

end BreakpointRounds
