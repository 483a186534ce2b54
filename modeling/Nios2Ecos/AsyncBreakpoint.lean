import Mathlib.Logic.Function.Basic
import Nios2Ecos.Runs

/- The breakpoint of the debug stub that stops a running program. There is one slot for the
   instruction it replaces. -/
namespace AsyncBreakpoint

abbrev Address := UInt32
abbrev Word := UInt32

def NULL : Address := 0

inductive Signal
  | SIGINT
  | SIGTRAP
deriving DecidableEq, Repr

structure Stub where
  code : Address → Word
  targetAddr : Address
  savedInstr : Word

/-- `breakinst` is the address of the break instruction that is copied. -/
def installAsyncBreakpoint (breakinst epc : Address) (s : Stub) : Stub where
  targetAddr := epc
  savedInstr := s.code epc
  code := Function.update s.code epc (s.code breakinst)

def computeSignal (s : Stub) : Signal × Stub :=
  if s.targetAddr ≠ NULL then
    (.SIGINT, { s with code := Function.update s.code s.targetAddr s.savedInstr, targetAddr := NULL })
  else (.SIGTRAP, s)

theorem signal_idle {s : Stub} (idle : s.targetAddr = NULL) : computeSignal s = (.SIGTRAP, s) :=
  if_neg (not_not.mpr idle)

theorem signal_pending {s : Stub} (pending : s.targetAddr ≠ NULL) :
    computeSignal s = (.SIGINT,
      { s with code := Function.update s.code s.targetAddr s.savedInstr, targetAddr := NULL }) :=
  if_pos pending

inductive Call
  | install (epc : Address)
  | computeSignal
deriving DecidableEq, Repr

structure Session where
  stub : Stub
  installed : Bool

def step (breakinst : Address) (s : Session) : Call → Option Session
  | .install epc => some ⟨installAsyncBreakpoint breakinst epc s.stub, true⟩
  | .computeSignal => some ⟨(computeSignal s.stub).2, false⟩

def idle (code : Address → Word) (savedInstr : Word) : Session := ⟨⟨code, NULL, savedInstr⟩, false⟩

/-- A breakpoint is installed at a real address, and only while none is pending whose saved
    instruction would be lost. -/
def SlotFree (breakinst : Address) (s : Session) : Call → Prop
  | .install epc => epc ≠ NULL ∧
    (s.stub.targetAddr = NULL ∨ s.stub.savedInstr = s.stub.code breakinst)
  | .computeSignal => True

instance (breakinst : Address) (s : Session) (c : Call) : Decidable (SlotFree breakinst s c) := by
  cases c <;> simp only [SlotFree] <;> infer_instance

structure Recoverable (breakinst : Address) (original : Address → Word) (s : Session) : Prop where
  pending : s.installed = true ↔ s.stub.targetAddr ≠ NULL
  restored : (computeSignal s.stub).2.code = original
  breaking : s.stub.targetAddr ≠ NULL → s.stub.code s.stub.targetAddr = original breakinst
  intact : s.stub.code breakinst = original breakinst

theorem recoverable_idle (breakinst : Address) (code : Address → Word) (savedInstr : Word) :
    Recoverable breakinst code (idle code savedInstr) := by
  constructor
  · simp [idle]
  · rw [signal_idle rfl]
    rfl
  · simp [idle]
  · rfl

section
variable {breakinst : Address} {original : Address → Word} {s : Session}

/-- While nothing would be lost, the code is the original one: a pending breakpoint stands
    where the original has a break instruction too. -/
theorem code_original (good : Recoverable breakinst original s)
    (free : s.stub.targetAddr = NULL ∨ s.stub.savedInstr = s.stub.code breakinst) :
    s.stub.code = original := by
  have restored := good.restored
  by_cases none_pending : s.stub.targetAddr = NULL
  · rwa [signal_idle none_pending] at restored
  · have saved := free.resolve_left none_pending
    have same : s.stub.code s.stub.targetAddr = s.stub.savedInstr := by
      rw [good.breaking none_pending, saved, good.intact]
    rwa [signal_pending none_pending, ← same, Function.update_eq_self] at restored

theorem install_recoverable (good : Recoverable breakinst original s) {epc : Address}
    (free : SlotFree breakinst s (.install epc)) :
    Recoverable breakinst original ⟨installAsyncBreakpoint breakinst epc s.stub, true⟩ := by
  have code := code_original good free.2
  constructor
  · simp [installAsyncBreakpoint, free.1]
  · rw [signal_pending free.1]
    simp [installAsyncBreakpoint, code]
  · simp [installAsyncBreakpoint, code]
  · simp [installAsyncBreakpoint, code, Function.update_apply]

theorem signal_recoverable (good : Recoverable breakinst original s) :
    Recoverable breakinst original ⟨(computeSignal s.stub).2, false⟩ := by
  have cleared : (computeSignal s.stub).2.targetAddr = NULL := by
    by_cases none_pending : s.stub.targetAddr = NULL
    · rwa [signal_idle none_pending]
    · rw [signal_pending none_pending]
  constructor
  · simp [cleared]
  · rw [signal_idle cleared]
    exact good.restored
  · exact fun pending => absurd cleared pending
  · exact congrFun good.restored breakinst

theorem step_recoverable {c : Call} {s' : Session} (good : Recoverable breakinst original s)
    (free : SlotFree breakinst s c) (stepped : step breakinst s c = some s') :
    Recoverable breakinst original s' := by
  cases c with
  | install epc =>
    cases stepped
    exact install_recoverable good free
  | computeSignal =>
    cases stepped
    exact signal_recoverable good

end

def SignalRestores (original : Address → Word) (s : Session) : Prop :=
  (computeSignal s.stub).2.code = original ∧
    ((computeSignal s.stub).1 = .SIGINT ↔ s.installed = true)

/-- In a run that never installs a breakpoint over a pending one or at NULL, every
    `__computeSignal` gives the original code back. -/
theorem signals_restore (breakinst : Address) (code : Address → Word) (savedInstr : Word)
    (calls : List Call) (free : Runs.Along (step breakinst) (SlotFree breakinst)
      (idle code savedInstr) calls) (s : Session)
    (ran : Runs.exec (step breakinst) (idle code savedInstr) calls = some s) :
    SignalRestores code s := by
  have good := Runs.invariant_along
    (fun _ _ _ inv ok stepped => step_recoverable inv ok stepped)
    (recoverable_idle breakinst code savedInstr) free ran
  refine ⟨good.restored, ?_⟩
  rw [good.pending]
  by_cases none_pending : s.stub.targetAddr = NULL
  · rw [signal_idle none_pending]
    exact iff_of_false nofun (not_not.mpr none_pending)
  · rw [signal_pending none_pending]
    exact iff_of_true rfl none_pending

theorem signals_restore_twice :
    ∃ s, Runs.exec (step 0x20) (idle (fun a => if a = 0x20 then 0x3DA03A else a) 0)
        [.install 0x40, .computeSignal, .install 0x44] = some s ∧
      SignalRestores (fun a => if a = 0x20 then 0x3DA03A else a) s :=
  ⟨_, rfl, signals_restore 0x20 (fun a => if a = 0x20 then 0x3DA03A else a) 0
    [.install 0x40, .computeSignal, .install 0x44] (by decide) _ rfl⟩

theorem install_twice_corrupts :
    ∃ s, Runs.exec (step 0x20) (idle (fun a => if a = 0x20 then 0x3DA03A else a) 0)
        [.install 0x40, .install 0x40] = some s ∧
      ¬ SignalRestores (fun a => if a = 0x20 then 0x3DA03A else a) s := by
  refine ⟨_, rfl, ?_⟩
  intro restores
  have there := congrFun restores.1 0x40
  revert there
  decide

end AsyncBreakpoint
