import Mathlib.Logic.Function.Basic
import Nios2Ecos.ContextSwitch
import Nios2Ecos.Runs

/- Threads that switch between each other, in any order and for any time. -/
namespace ContextSystem
open Nios2Machine SavedRegisters ContextSwitch

/-- Each thread has its stack, and a slot elsewhere for its stack pointer while it does not
    run. -/
structure System (T : Type) where
  config : Config
  stack : T → Stack
  slot : T → Word
  apart : ∀ t u a, (stack t).Has a → (stack u).Has a → t = u
  slots : Function.Injective slot
  outside : ∀ t u, ¬ (stack t).Has (slot u)

/-- `contexts` is what each suspended thread is owed; the code does not know it. -/
structure State (T : Type) where
  machine : Machine
  current : Option T
  contexts : T → Option Context

inductive Action (T : Type)
  | run (m : Machine)
  | create (thread : T) (sparg object entry : Word)
  | switch (next : T)
  | load (next : T)

variable {T : Type} (sys : System T)

section
variable [DecidableEq T]

/-- The contexts once the running thread has been suspended. -/
def suspended (s : State T) : T → Option Context :=
  match s.current with
  | some t => Function.update s.contexts t (some (calling s.machine))
  | none => s.contexts

def step (s : State T) : Action T → State T
  | .run m => { s with machine := m }
  | .create thread sparg object entry =>
    { s with
      machine := (halThreadInitContext sys.config sparg object entry s.machine).store
        (sys.slot thread) (initRegs sparg)
      contexts := Function.update s.contexts thread
        (some (starting sys.config sparg object entry)) }
  | .switch next =>
    { machine := halThreadSwitchContext sys.config s.machine
      current := some next
      contexts := Function.update (suspended s) next none }
  | .load next =>
    { machine := halThreadLoadContext sys.config s.machine
      current := some next
      contexts := Function.update s.contexts next none }

def Allowed (s : State T) : Action T → Prop
  | .run m =>
    -- nobody writes a suspended thread's stack between its saved and its entry stack pointer
    m.get gp = sys.config.globalPointer ∧ ∀ t k, s.contexts t = some k →
      m.mem (sys.slot t) = s.machine.mem (sys.slot t) ∧
        ∀ a : Word, (s.machine.mem (sys.slot t)).toNat ≤ a.toNat → a.toNat < k.sp.toNat →
          m.mem a = s.machine.mem a
  | .create thread sparg _ _ =>
    s.contexts thread = none ∧ s.current ≠ some thread ∧
      (sys.stack thread).low + 215 ≤ sparg.toNat ∧ sparg.toNat ≤ (sys.stack thread).high
  | .switch next =>
    ∃ t, s.current = some t ∧ s.machine.get r4 = sys.slot next ∧ s.machine.get r5 = sys.slot t ∧
      (sys.stack t).low + (frameSize sys.config.saveMinimum).toNat ≤ (s.machine.get sp).toNat ∧
      (s.machine.get sp).toNat ≤ (sys.stack t).high ∧ (suspended s next).isSome
  | .load next => s.machine.get r4 = sys.slot next ∧ (s.contexts next).isSome

end

/-- The thread's context is in its frame, and the frame in its stack. -/
structure Saved (m : Machine) (t : T) (k : Context) : Prop where
  encodes : Encodes sys.config m.mem (m.mem (sys.slot t)) k
  low : (sys.stack t).low ≤ (m.mem (sys.slot t)).toNat
  frame : (m.mem (sys.slot t)).toNat + (frameSize sys.config.saveMinimum).toNat ≤ k.sp.toNat
  high : k.sp.toNat ≤ (sys.stack t).high
  global : (gp, sys.config.globalPointer) ∈ k.regs

structure Kept (m : Machine) (contexts : T → Option Context) : Prop where
  global : m.get gp = sys.config.globalPointer
  saved : ∀ t k, contexts t = some k → Saved sys m t k

variable {sys} {m m' : Machine} {t : T} {k : Context}

theorem Saved.keep (saved : Saved sys m t k) (slot : m'.mem (sys.slot t) = m.mem (sys.slot t))
    (words : ∀ a : Word, (m.mem (sys.slot t)).toNat ≤ a.toNat → a.toNat < k.sp.toNat →
      m'.mem a = m.mem a) : Saved sys m' t k := by
  have frame := saved.frame
  have small := k.sp.isLt
  constructor
  · rw [slot]
    apply saved.encodes.keep
    intro offset inside
    have place : (m.mem (sys.slot t) + offset).toNat =
        (m.mem (sys.slot t)).toNat + offset.toNat := by
      rw [BitVec.toNat_add]
      omega
    exact words _ (by omega) (by omega)
  · rw [slot]
    exact saved.low
  · rw [slot]
    exact frame
  · exact saved.high
  · exact saved.global

theorem Saved.has (saved : Saved sys m t k) {a : Word}
    (above : (m.mem (sys.slot t)).toNat ≤ a.toNat) (below : a.toNat < k.sp.toNat) :
    (sys.stack t).Has a :=
  ⟨le_trans saved.low above, lt_of_lt_of_le below saved.high⟩

theorem Saved.keep_other (saved : Saved sys m t k) {u : T} (other : t ≠ u)
    (elsewhere : ∀ a, a ≠ sys.slot u → ¬ (sys.stack u).Has a → m'.mem a = m.mem a) :
    Saved sys m' t k := by
  apply saved.keep
  · exact elsewhere _ (fun same => other (sys.slots same)) (sys.outside u t)
  · intro a above below
    have has := saved.has above below
    apply elsewhere
    · rintro rfl
      exact sys.outside t u has
    · intro both
      exact other (sys.apart t u a has both)

structure Inv (sys : System T) (s : State T) : Prop where
  kept : Kept sys s.machine s.contexts
  running : ∀ t, s.current = some t → s.contexts t = none

structure Initial (sys : System T) (s : State T) : Prop where
  global : s.machine.get gp = sys.config.globalPointer
  contexts : s.contexts = fun _ => none

theorem initial_inv {s : State T} (initial : Initial sys s) : Inv sys s := by
  have none : ∀ t, s.contexts t = none := fun t => by rw [initial.contexts]
  refine ⟨⟨initial.global, ?_⟩, fun t _ => none t⟩
  intro t k held
  rw [none t] at held
  cases held

structure Entered (sys : System T) (t : T) (sparg object entry : Word) (m : Machine) : Prop where
  entry : m.pc = entry
  argument : m.get r4 = object
  enabled : m.pie = true
  global : m.get gp = sys.config.globalPointer
  aligned : (m.get sp).toNat % 16 = 0
  below : (m.get sp).toNat < sparg.toNat
  /-- The frame that was built. -/
  low : (sys.stack t).low ≤ (initRegs sparg).toNat
  high : (initRegs sparg).toNat + size.toNat ≤ sparg.toNat

theorem starting_entered {sparg object entry : Word}
    (room : (sys.stack t).low + 215 ≤ sparg.toNat)
    (resumes : Resumes (starting sys.config sparg object entry) m) :
    Entered sys t sparg object entry m := by
  obtain ⟨low, -, below, aligned, high⟩ := entry_sp_bounds room sys.config
  refine ⟨resumes.pc, resumes.regs (r4, object) List.mem_cons_self, ?_, ?_, ?_, ?_, low, high⟩
  · rw [Machine.pie, resumes.status]
    change (1 : Word).getLsbD 0 = true
    decide
  · exact resumes.regs (gp, sys.config.globalPointer) (by simp [starting])
  · rw [resumes.sp]
    exact aligned
  · rw [resumes.sp]
    exact below

def Action.enters (t : T) : Action T → Prop
  | .switch next => next = t
  | .load next => next = t
  | _ => False

/-- The steps end with the first that gives the thread the processor. -/
def EntersFirst (t : T) (actions : List (Action T)) : Prop :=
  ∃ others last, actions = others ++ [last] ∧ (∀ a ∈ others, ¬ a.enters t) ∧ last.enters t

theorem EntersFirst.tail {a : Action T} {actions : List (Action T)}
    (first : EntersFirst t (a :: actions)) (away : ¬ a.enters t) : EntersFirst t actions := by
  obtain ⟨others, last, split, before, enters⟩ := first
  cases others with
  | nil =>
    cases split
    exact absurd enters away
  | cons b others =>
    cases split
    exact ⟨others, last, rfl, fun x mem => before x (List.mem_cons_of_mem _ mem), enters⟩

theorem EntersFirst.single {a : Action T} {actions : List (Action T)}
    (first : EntersFirst t (a :: actions)) (here : a.enters t) : actions = [] := by
  obtain ⟨others, last, split, before, enters⟩ := first
  cases others with
  | nil =>
    cases split
    rfl
  | cons b others =>
    cases split
    exact absurd here (before _ List.mem_cons_self)

theorem saved_sp_toNat {minimum : Bool}
    (room : (sys.stack t).low + (frameSize minimum).toNat ≤ (m.get sp).toNat) :
    (savedSp minimum m).toNat + (frameSize minimum).toNat = (m.get sp).toNat := by
  have sum : savedSp minimum m + frameSize minimum = m.get sp := savedSp_add
  have whole := congrArg BitVec.toNat sum
  have small := (savedSp minimum m).isLt
  have bound := (m.get sp).isLt
  have size : (frameSize minimum).toNat ≤ 140 := by
    cases minimum <;> decide
  rw [BitVec.toNat_add] at whole
  omega

section
variable (room : (sys.stack t).low + (frameSize sys.config.saveMinimum).toNat ≤ (m.get sp).toNat)
  (top : (m.get sp).toNat ≤ (sys.stack t).high)
include room top

theorem frame_in_stack {offset : Word}
    (inside : offset.toNat < (frameSize sys.config.saveMinimum).toNat) :
    (sys.stack t).Has (savedSp sys.config.saveMinimum m + offset) := by
  have place := saved_sp_toNat room
  have bound := (m.get sp).isLt
  have sum : (savedSp sys.config.saveMinimum m + offset).toNat =
      (savedSp sys.config.saveMinimum m).toNat + offset.toNat := by
    rw [BitVec.toNat_add]
    omega
  constructor <;> omega

variable [DecidableEq T] {contexts : T → Option Context}

theorem save_kept (kept : Kept sys m contexts) (slot : m.get r5 = sys.slot t) :
    Kept sys (execAll (saveBlock sys.config.saveMinimum) m)
      (Function.update contexts t (some (calling m))) := by
  have place := saved_sp_toNat room
  have frame : ∀ offset : Word, offset.toNat < (frameSize sys.config.saveMinimum).toNat →
      (sys.stack t).Has (savedSp sys.config.saveMinimum m + offset) :=
    fun _ inside => frame_in_stack room top inside
  have elsewhere : ∀ offset : Word, offset.toNat < (frameSize sys.config.saveMinimum).toNat →
      m.get r5 ≠ savedSp sys.config.saveMinimum m + offset := by
    intro offset inside same
    rw [slot] at same
    exact sys.outside t t (same ▸ frame offset inside)
  have pointer : (execAll (saveBlock sys.config.saveMinimum) m).mem (sys.slot t) =
      savedSp sys.config.saveMinimum m := by
    rw [save_exec, slot, Machine.store_same]
  constructor
  · rw [save_get (.inr rfl), kept.global]
  · intro u k held
    by_cases same : u = t
    · subst same
      rw [Function.update_self] at held
      cases held
      refine ⟨?_, ?_, ?_, top, ?_⟩
      · rw [pointer]
        exact save_encodes kept.global elsewhere
      · rw [pointer]
        omega
      · rw [pointer]
        exact le_of_eq place
      · rw [← kept.global]
        exact List.mem_map_of_mem (by decide)
    · rw [Function.update_of_ne same] at held
      apply (kept.saved u k held).keep_other same
      intro a other away
      apply save_elsewhere
      · rw [slot]
        exact other
      · intro offset inside equal
        exact away (equal ▸ frame offset inside)

end

section
variable [DecidableEq T] {contexts : T → Option Context}

theorem load_kept (kept : Kept sys m contexts) (held : contexts t = some k)
    (slot : m.get r4 = sys.slot t) : Resumes k (halThreadLoadContext sys.config m) ∧
      Kept sys (halThreadLoadContext sys.config m) (Function.update contexts t none) := by
  have saved := kept.saved t k held
  have resumes : Resumes k (halThreadLoadContext sys.config m) :=
    load_resumes (by rw [slot]) kept.global saved.encodes
  refine ⟨resumes, resumes.regs _ saved.global, ?_⟩
  intro u k' other
  by_cases same : u = t
  · subst same
    rw [Function.update_self] at other
    cases other
  · rw [Function.update_of_ne same] at other
    apply (kept.saved u k' other).keep
    · rw [load_mem]
    · intro a _ _
      rw [load_mem]

theorem create_kept (kept : Kept sys m contexts) {sparg object entry : Word}
    (room : (sys.stack t).low + 215 ≤ sparg.toNat) (top : sparg.toNat ≤ (sys.stack t).high) :
    Kept sys ((halThreadInitContext sys.config sparg object entry m).store (sys.slot t)
      (initRegs sparg)) (Function.update contexts t
        (some (starting sys.config sparg object entry))) := by
  obtain ⟨low, frame, below, -, whole⟩ := entry_sp_bounds room sys.config
  have small := sparg.isLt
  have bytes : size.toNat = 140 := rfl
  have inStack : ∀ offset : Word, offset.toNat < 140 →
      (sys.stack t).Has (initRegs sparg + offset) := by
    intro offset inside
    have sum : (initRegs sparg + offset).toNat = (initRegs sparg).toNat + offset.toNat := by
      rw [BitVec.toNat_add]
      omega
    constructor <;> omega
  have fits : (frameSize sys.config.saveMinimum).toNat ≤ 140 := by
    cases sys.config.saveMinimum <;> decide
  constructor
  · rw [Machine.store_get, halThreadInitContext, write_frame.1, kept.global]
  · intro u k held
    by_cases same : u = t
    · subst same
      rw [Function.update_self] at held
      cases held
      have slot := (halThreadInitContext sys.config sparg object entry m).store_same
        (initRegs sparg) (sys.slot u)
      refine ⟨?_, ?_, ?_, ?_, ?_⟩
      · rw [slot]
        apply init_encodes.keep
        intro offset inside
        apply Machine.store_ne
        intro equal
        exact sys.outside u u (equal ▸ inStack offset (by omega))
      · rw [slot]
        exact low
      · rw [slot]
        exact frame
      · exact le_trans (le_of_lt below) top
      · simp [starting]
    · rw [Function.update_of_ne same] at held
      apply (kept.saved u k held).keep_other same
      intro a other away
      rw [Machine.store_ne _ _ other, halThreadInitContext]
      apply write_elsewhere
      rintro p - rfl
      have place := offset_toNat p.1
      have bound := index_bound p.1
      exact away (inStack p.1.offset (by omega))

theorem step_kept {s : State T} (kept : Kept sys s.machine s.contexts) {a : Action T}
    (allowed : Allowed sys s a) : Kept sys (step sys s a).machine (step sys s a).contexts := by
  cases a with
  | run m =>
    obtain ⟨global, words⟩ := allowed
    refine ⟨global, ?_⟩
    intro t k held
    obtain ⟨slot, frame⟩ := words t k held
    exact (kept.saved t k held).keep slot frame
  | create thread sparg object entry =>
    obtain ⟨-, -, room, top⟩ := allowed
    exact create_kept kept room top
  | switch next =>
    obtain ⟨t, current, target, slot, room, top, held⟩ := allowed
    obtain ⟨k, held⟩ := Option.isSome_iff_exists.mp held
    have saving := save_kept room top kept slot
    rw [suspended, current] at held
    have loading := (load_kept saving held (by rw [save_get (.inl rfl), target])).2
    simpa only [step, suspended, current, halThreadSwitchContext] using loading
  | load next =>
    obtain ⟨target, held⟩ := allowed
    obtain ⟨k, held⟩ := Option.isSome_iff_exists.mp held
    exact (load_kept kept held target).2

/-- The contexts from which the step takes the next one. -/
def owed (s : State T) : Action T → T → Option Context
  | .switch _ => suspended s
  | _ => s.contexts

theorem step_resumes {s : State T} (kept : Kept sys s.machine s.contexts) {a : Action T}
    (allowed : Allowed sys s a) (enters : a.enters t) (held : owed s a t = some k) :
    Resumes k (step sys s a).machine := by
  cases a with
  | run m => exact enters.elim
  | create thread sparg object entry => exact enters.elim
  | switch next =>
    obtain ⟨u, current, target, slot, room, top, -⟩ := allowed
    cases enters
    have saving := save_kept room top kept slot
    rw [owed, suspended, current] at held
    exact (load_kept saving held (by rw [save_get (.inl rfl), target])).1
  | load next =>
    cases enters
    exact (load_kept kept held allowed.1).1

theorem step_inv {s : State T} (inv : Inv sys s) {a : Action T} (allowed : Allowed sys s a) :
    Inv sys (step sys s a) := by
  refine ⟨step_kept inv.kept allowed, ?_⟩
  cases a with
  | run m => exact inv.running
  | create thread sparg object entry =>
    intro t current
    simp only [step] at current ⊢
    have other : t ≠ thread := by
      rintro rfl
      exact allowed.2.1 current
    rw [Function.update_of_ne other, inv.running t current]
  | switch next =>
    intro t current
    obtain rfl : next = t := Option.some.inj current
    exact Function.update_self next none (suspended s)
  | load next =>
    intro t current
    obtain rfl : next = t := Option.some.inj current
    exact Function.update_self next none s.contexts

theorem owed_held {s : State T} (inv : Inv sys s) (held : s.contexts t = some k) (a : Action T) :
    owed s a t = some k := by
  cases a with
  | switch next =>
    change suspended s t = some k
    cases current : s.current with
    | none =>
      rw [suspended, current]
      exact held
    | some u =>
      have other : t ≠ u := by
        rintro rfl
        rw [inv.running t current] at held
        cases held
      rw [suspended, current]
      exact (Function.update_of_ne other _ _).trans held
  | _ => exact held

theorem step_held {s : State T} (inv : Inv sys s) (held : s.contexts t = some k) {a : Action T}
    (allowed : Allowed sys s a) (away : ¬ a.enters t) : (step sys s a).contexts t = some k := by
  have owing := owed_held inv held a
  cases a with
  | run m => exact held
  | create thread sparg object entry =>
    have other : t ≠ thread := by
      rintro rfl
      rw [allowed.1] at held
      cases held
    exact (Function.update_of_ne other _ _).trans held
  | switch next | load next => exact (Function.update_of_ne (Ne.symm away) _ _).trans owing

theorem run_resumes {s s' : State T} (inv : Inv sys s) (held : s.contexts t = some k)
    {actions : List (Action T)} (first : EntersFirst t actions)
    (good : Runs.Along (fun s a => some (step sys s a)) (Allowed sys) s actions)
    (ran : Runs.exec (fun s a => some (step sys s a)) s actions = some s') :
    Resumes k s'.machine := by
  obtain ⟨others, last, rfl, away, enters⟩ := first
  induction others generalizing s with
  | nil =>
    cases ran
    exact step_resumes inv.kept good.1 enters (owed_held inv held last)
  | cons a others ih =>
    obtain ⟨middle, stepped, ran⟩ := Runs.exec_cons ran
    cases stepped
    exact ih (step_inv inv good.1) (step_held inv held good.1 (away a List.mem_cons_self))
      (good.2 _ rfl) ran (fun b mem => away b (List.mem_cons_of_mem a mem))

/-- In every run from an initial state: a thread that calls the switch is resumed as it was,
    and a thread that has been created enters its entry point. -/
theorem context_switch_run (sys : System T) (start s s' : State T) (initial : Initial sys start)
    (before actions : List (Action T)) (t : T)
    (good : Runs.Along (fun s a => some (step sys s a)) (Allowed sys) start (before ++ actions))
    (reached : Runs.exec (fun s a => some (step sys s a)) start before = some s)
    (ran : Runs.exec (fun s a => some (step sys s a)) s actions = some s')
    (first : EntersFirst t actions) :
    (∀ next, actions.head? = some (.switch next) → s.current = some t →
      Resumes (calling s.machine) s'.machine) ∧
    (∀ sparg object entry, actions.head? = some (.create t sparg object entry) →
      Entered sys t sparg object entry s'.machine) := by
  obtain ⟨goodBefore, good⟩ := Runs.along_append good reached
  have inv : Inv sys s := Runs.invariant_along
    (fun s a s' inv allowed stepped => Option.some.inj stepped ▸ step_inv inv allowed)
    (initial_inv initial) goodBefore reached
  cases actions with
  | nil => exact ⟨nofun, nofun⟩
  | cons a actions =>
    obtain ⟨middle, stepped, ran⟩ := Runs.exec_cons ran
    cases stepped
    have after := step_inv inv good.1
    constructor
    · intro next head current
      cases head
      have owing : suspended s t = some (calling s.machine) := by
        rw [suspended, current]
        exact Function.update_self _ _ _
      by_cases same : next = t
      · cases first.single same
        cases ran
        exact step_resumes inv.kept good.1 same owing
      · have held : (step sys s (.switch next)).contexts t = some (calling s.machine) :=
          (Function.update_of_ne (Ne.symm same) _ _).trans owing
        exact run_resumes after held (first.tail same) (good.2 _ rfl) ran
    · intro sparg object entry head
      cases head
      have held : (step sys s (.create t sparg object entry)).contexts t =
          some (starting sys.config sparg object entry) := Function.update_self _ _ _
      exact starting_entered good.1.2.2.1
        (run_resumes after held (first.tail id) (good.2 _ rfl) ran)

end

section
variable [DecidableEq T]

theorem along_nil (sys : System T) (s : State T) :
    Runs.Along (fun s a => some (step sys s a)) (Allowed sys) s [] :=
  trivial

theorem along_cons {s : State T} {a : Action T} {actions : List (Action T)}
    (allowed : Allowed sys s a)
    (later : Runs.Along (fun s a => some (step sys s a)) (Allowed sys) (step sys s a) actions) :
    Runs.Along (fun s a => some (step sys s a)) (Allowed sys) s (a :: actions) := by
  refine ⟨allowed, ?_⟩
  intro s' stepped
  cases stepped
  exact later

def aim (m : Machine) (next own pointer : Word) : Machine :=
  ((m.set r4 next).set r5 own).set sp pointer

theorem aim_get (m : Machine) (next own pointer : Word) :
    (aim m next own pointer).get r4 = next ∧ (aim m next own pointer).get r5 = own ∧
      (aim m next own pointer).get sp = pointer ∧ (aim m next own pointer).get gp = m.get gp := by
  simp (disch := decide) only [aim, Machine.get_set_self, Machine.get_set_ne, and_self]

theorem aim_allowed {s : State T} (inv : Inv sys s) (next own pointer : Word) :
    Allowed sys s (.run (aim s.machine next own pointer)) := by
  refine ⟨(aim_get _ _ _ _).2.2.2.trans inv.kept.global, ?_⟩
  intro t k _
  simp only [aim, Machine.set_mem, implies_true, and_self]

end

def twoThreads : System Bool where
  config := ⟨false, 0x9000⟩
  stack t := if t then ⟨0x2000, 0x3000⟩ else ⟨0x1000, 0x2000⟩
  slot t := if t then 0x4004 else 0x4000
  apart := by
    intro t u a inT inU
    have lowT := inT.1
    have highT := inT.2
    have lowU := inU.1
    have highU := inU.2
    cases t <;> cases u <;> simp only [if_true, Bool.false_eq_true, if_false] at * <;> omega
  slots := by
    intro t u same
    cases t <;> cases u <;> first | rfl | exact absurd same (by decide)
  outside := by decide

def noThreads : State Bool where
  machine := ⟨fun r => if r = gp then 0x9000 else 0, fun _ => 1, fun _ => 0, 0⟩
  current := none
  contexts _ := none

def created : State Bool :=
  step twoThreads (step twoThreads noThreads (.create false 0x2000 0x5000 0x6000))
    (.create true 0x3000 0x5100 0x6100)

def loaded : State Bool :=
  step twoThreads (step twoThreads created (.run (aim created.machine 0x4000 0 0))) (.load false)

def firstCalls : State Bool := step twoThreads loaded (.run (aim loaded.machine 0x4004 0x4000 0x1f00))

def secondEnters : State Bool := step twoThreads firstCalls (.switch true)

def secondCalls : State Bool :=
  step twoThreads secondEnters (.run (aim secondEnters.machine 0x4000 0x4004 0x2f00))

def firstResumes : State Bool := step twoThreads secondCalls (.switch false)

def opening : List (Action Bool) :=
  [.create false 0x2000 0x5000 0x6000, .create true 0x3000 0x5100 0x6100,
    .run (aim created.machine 0x4000 0 0), .load false, .run firstCalls.machine]

def entering : List (Action Bool) :=
  [.create true 0x3000 0x5100 0x6100, .run (aim created.machine 0x4000 0 0), .load false,
    .run firstCalls.machine, .switch true]

theorem context_switch_two_threads :
    Resumes (calling firstCalls.machine) firstResumes.machine ∧
      Entered twoThreads true 0x3000 0x5100 0x6100 secondEnters.machine := by
  have initial : Initial twoThreads noThreads := ⟨rfl, rfl⟩
  have inv0 := initial_inv initial
  have ok1 : Allowed twoThreads noThreads (.create false 0x2000 0x5000 0x6000) :=
    ⟨rfl, nofun, by decide, by decide⟩
  have inv1 := step_inv inv0 ok1
  have ok2 : Allowed twoThreads (step twoThreads noThreads (.create false 0x2000 0x5000 0x6000))
      (.create true 0x3000 0x5100 0x6100) := ⟨rfl, nofun, by decide, by decide⟩
  have inv2 : Inv twoThreads created := step_inv inv1 ok2
  have ok3 := aim_allowed inv2 0x4000 0 0
  have inv3 := step_inv inv2 ok3
  have ok4 : Allowed twoThreads (step twoThreads created (.run (aim created.machine 0x4000 0 0)))
      (.load false) := ⟨(aim_get _ _ _ _).1, rfl⟩
  have inv4 : Inv twoThreads loaded := step_inv inv3 ok4
  have ok5 := aim_allowed inv4 0x4004 0x4000 0x1f00
  have inv5 : Inv twoThreads firstCalls := step_inv inv4 ok5
  have ok6 : Allowed twoThreads firstCalls (.switch true) := by
    obtain ⟨next, own, pointer, -⟩ := aim_get loaded.machine 0x4004 0x4000 0x1f00
    have here : firstCalls.machine.get sp = 0x1f00 := pointer
    refine ⟨false, rfl, next, own, ?_, ?_, rfl⟩ <;> rw [here] <;> decide
  have inv6 : Inv twoThreads secondEnters := step_inv inv5 ok6
  have ok7 := aim_allowed inv6 0x4000 0x4004 0x2f00
  have ok8 : Allowed twoThreads secondCalls (.switch false) := by
    obtain ⟨next, own, pointer, -⟩ := aim_get secondEnters.machine 0x4000 0x4004 0x2f00
    have here : secondCalls.machine.get sp = 0x2f00 := pointer
    refine ⟨true, rfl, next, own, ?_, ?_, rfl⟩ <;> rw [here] <;> decide
  have reached : Runs.exec (fun s a => some (step twoThreads s a)) noThreads opening =
      some firstCalls := rfl
  have ran : Runs.exec (fun s a => some (step twoThreads s a)) firstCalls
      [.switch true, .run secondCalls.machine, .switch false] = some firstResumes := rfl
  have good : Runs.Along (fun s a => some (step twoThreads s a)) (Allowed twoThreads) noThreads
      (opening ++ [.switch true, .run secondCalls.machine, .switch false]) :=
    along_cons ok1 (along_cons ok2 (along_cons ok3 (along_cons ok4 (along_cons ok5
      (along_cons ok6 (along_cons ok7 (along_cons ok8 (along_nil twoThreads _))))))))
  have short : Runs.Along (fun s a => some (step twoThreads s a)) (Allowed twoThreads) noThreads
      ([.create false 0x2000 0x5000 0x6000] ++ entering) :=
    along_cons ok1 (along_cons ok2 (along_cons ok3 (along_cons ok4 (along_cons ok5
      (along_cons ok6 (along_nil twoThreads _))))))
  have firstTrue : EntersFirst true entering :=
    ⟨[.create true 0x3000 0x5100 0x6100, .run (aim created.machine 0x4000 0 0), .load false,
      .run firstCalls.machine], .switch true, rfl, by simp [Action.enters], rfl⟩
  have first : EntersFirst false
      [.switch true, .run secondCalls.machine, .switch false] :=
    ⟨[.switch true, .run secondCalls.machine], .switch false, rfl, by simp [Action.enters], rfl⟩
  constructor
  · exact (context_switch_run twoThreads noThreads firstCalls firstResumes initial opening _ false
      good reached ran first).1 true rfl rfl
  · exact (context_switch_run twoThreads noThreads _ secondEnters initial
      [.create false 0x2000 0x5000 0x6000] entering true short rfl rfl firstTrue).2 0x3000 0x5100
        0x6100 rfl

end ContextSystem
