import Nios2Ecos.Nios2Run

/- `_interrupt_handler`: it saves a frame on the interrupted stack, switches to the interrupt
   stack if there is one, calls the ISR of the lowest pending interrupt and `interrupt_end`,
   and restores the frame. -/
namespace InterruptHandler
open Nios2Machine

/-- The options the code is built with, and the addresses of its symbols. -/
structure Config where
  /-- CYGDBG_HAL_NIOS2_DEBUG_GDB_CTRLC_SUPPORT -/
  ctrlcSupport : Bool
  /-- CYGIMP_HAL_COMMON_INTERRUPTS_USE_INTERRUPT_STACK -/
  useInterruptStack : Bool
  /-- CYGFUN_HAL_COMMON_KERNEL_SUPPORT -/
  kernelSupport : Bool
  handler : Word
  globalPointer : Word
  halSavedInterruptState : Word
  stackBase : Word
  stackEnd : Word
  schedLock : Word
  halInterruptHandlers : Word
  halInterruptData : Word
  halInterruptObjects : Word
  interruptEnd : Word

inductive Label
  | stackReady
  | search
  | found
  | spuriousInterruptDone
deriving DecidableEq, Repr

def saveSlots : List (Reg × Word) :=
  [(ra, 72), (r1, 68), (r2, 64), (r3, 60), (r4, 56), (r5, 52), (r6, 48), (r7, 44), (r8, 40),
    (r9, 36), (r10, 32), (r11, 28), (r12, 24), (r13, 20), (r14, 16), (r15, 12), (gp, 8),
    (et, 4), (ea, 0)]

def restoreSlots : List (Reg × Word) :=
  [(ra, 72), (r1, 68), (r2, 64), (r3, 60), (r4, 56), (r5, 52), (r6, 48), (r7, 44), (r8, 40),
    (r9, 36), (r10, 32), (r11, 28), (r12, 24), (r13, 20), (r14, 16), (r15, 12), (gp, 8)]

section
variable (c : Config)

def leaveBlock : List (Instr Label) :=
  [.ldw ea 0 sp, .ldw et 4 sp, .wrctl .estatus et, .addi sp sp 76]

def restoreCode : List (Instr Label) :=
  loads sp restoreSlots ++ (.wrctl .status r0 :: (leaveBlock ++ [.eret]))

def argumentsBlock : List (Instr Label) :=
  .mov r4 r2 :: (loadAddress r5 c.halInterruptObjects ++ [.add r5 r5 r15, .ldw r5 0 r5])

def popBlock : List (Instr Label) := if c.useInterruptStack then [.ldw sp 0 sp] else []

def doneCode : List (Instr Label) :=
  (popBlock c ++ [.movi r1 1]) ++ (.wrctl .status r1 ::
    (argumentsBlock c ++ (.call c.interruptEnd :: restoreCode)))

def vectorBlock : List (Instr Label) :=
  .slli r15 r4 2 :: (loadAddress r1 c.halInterruptHandlers ++ ([.add r1 r1 r15, .ldw r1 0 r1] ++
    (loadAddress r5 c.halInterruptData ++
      [.add r5 r5 r15, .ldw r5 0 r5, .addi sp sp (-4), .stw r15 0 sp])))

def returnBlock : List (Instr Label) := [.ldw r15 0 sp, .addi sp sp 4]

def foundCode : List (Instr Label) := vectorBlock c ++ (.callr r1 :: (returnBlock ++ doneCode c))

def searchCode : List (Instr Label) :=
  [.andi r3 et 1, .bne r3 r0 .found, .addi r4 r4 1, .srli et et 1, .bne r0 et .search,
    .br .spuriousInterruptDone] ++ foundCode c

def lockBlock : List (Instr Label) :=
  (if c.kernelSupport then
    loadAddress r10 c.schedLock ++ [.ldw r11 0 r10, .addi r11 r11 1, .stw r11 0 r10]
  else []) ++ [.mov r4 r0]

def pushBlock : List (Instr Label) := [.addi sp sp (-4), .stw r1 0 sp]

def testBlock : List (Instr Label) := .mov r1 sp :: loadAddress r2 c.stackEnd

def baseBlock : List (Instr Label) := loadAddress sp c.stackBase

def stackReadyCode : List (Instr Label) :=
  if c.useInterruptStack then pushBlock ++ (lockBlock c ++ searchCode c)
  else lockBlock c ++ searchCode c

def switchCode : List (Instr Label) :=
  if c.useInterruptStack then
    testBlock c ++ (.bgtu sp r2 .stackReady :: (baseBlock c ++ stackReadyCode c))
  else stackReadyCode c

def saveBlock : List (Instr Label) :=
  .rdctl et .estatus :: .addi sp sp (-76) :: stores sp saveSlots

def pendingBlock : List (Instr Label) :=
  .mov r6 sp :: .rdctl et .ipending :: (loadAddress gp c.globalPointer ++
    if c.ctrlcSupport then loadAddress r2 c.halSavedInterruptState ++ [.stw sp 0 r2] else [])

def handlerCode : List (Instr Label) := saveBlock ++ (pendingBlock c ++ switchCode c)

def labels : Label → List (Instr Label)
  | .stackReady => stackReadyCode c
  | .search => searchCode c
  | .found => foundCode c
  | .spuriousInterruptDone => doneCode c

theorem switch_placed : switchCode c <:+ handlerCode c :=
  (List.suffix_append _ _).trans (List.suffix_append _ _)

theorem stack_ready_placed : stackReadyCode c <:+ handlerCode c := by
  refine List.IsSuffix.trans ?_ (switch_placed c)
  unfold switchCode
  split
  · refine List.IsSuffix.trans ?_ (List.suffix_append _ _)
    exact (List.suffix_append _ _).trans (List.suffix_cons _ _)
  · exact List.suffix_rfl

theorem search_placed : searchCode c <:+ handlerCode c := by
  refine List.IsSuffix.trans ?_ (stack_ready_placed c)
  unfold stackReadyCode
  split
  · exact (List.suffix_append _ _).trans (List.suffix_append _ _)
  · exact List.suffix_append _ _

theorem found_placed : foundCode c <:+ handlerCode c :=
  (List.suffix_append _ _).trans (search_placed c)

theorem done_placed : doneCode c <:+ handlerCode c := by
  refine List.IsSuffix.trans ?_ (found_placed c)
  refine List.IsSuffix.trans ?_ (List.suffix_append _ _)
  exact (List.suffix_append _ _).trans (List.suffix_cons _ _)

theorem handler_length : (handlerCode c).length < 2 ^ 30 := by
  simp only [handlerCode, saveBlock, stores, saveSlots, pendingBlock, switchCode, testBlock,
    baseBlock, stackReadyCode, pushBlock, lockBlock, searchCode, foundCode, vectorBlock, returnBlock, doneCode,
    popBlock, argumentsBlock, restoreCode, loads, restoreSlots, leaveBlock, loadAddress,
    List.length_append, List.length_cons, List.length_map, List.length_nil, apply_ite List.length]
  split_ifs <;> decide

def program : Program Label where
  code := handlerCode c
  base := c.handler
  label := labels c
  placed := by
    intro l
    cases l with
    | stackReady => exact stack_ready_placed c
    | search => exact search_placed c
    | found => exact found_placed c
    | spuriousInterruptDone => exact done_placed c
  fits := handler_length c

end

def interruptStack (c : Config) : Stack := ⟨c.stackEnd.toNat, c.stackBase.toNat⟩

/-- Where the stacks are: threads' stacks do not reach above STACK_END, the interrupt stack
    has room for the words pushed on it, and the data the handler writes is in none of them.
    `shared` are words on the stacks that functions write through pointers, `fixed` words
    elsewhere that nobody writes. -/
structure Layout (c : Config) where
  threads : Stack → Prop
  shared : Word → Prop
  fixed : Word → Prop
  below : c.useInterruptStack = true → ∀ K, threads K → K.high ≤ c.stackEnd.toNat
  roomy : c.useInterruptStack = true → c.stackEnd.toNat + 8 < c.stackBase.toNat
  base : c.useInterruptStack = true →
    ∀ a : Word, c.stackBase.toNat ≤ a.toNat + 8 → a.toNat < c.stackBase.toNat → ¬ shared a
  data : ∀ K, threads K ∨ c.useInterruptStack = true ∧ K = interruptStack c →
    ¬ K.Has c.halSavedInterruptState ∧ ¬ K.Has c.schedLock ∧ ∀ a, K.Has a → ¬ fixed a
  constant : ¬ fixed c.halSavedInterruptState ∧ ¬ fixed c.schedLock

section
variable {c : Config} (l : Layout c)

def Layout.Stacks (K : Stack) : Prop :=
  l.threads K ∨ c.useInterruptStack = true ∧ K = interruptStack c

/-- The words that code running on a stack finds again when something else has run in
    between: what is fixed, its own stack from the stack pointer on and, while it runs on the interrupt
    stack, the stacks of the threads, which wait. -/
def Layout.Kept (K : Stack) (v a : Word) : Prop :=
  l.fixed a ∨ ¬ l.shared a ∧ (K.Has a ∧ v.toNat ≤ a.toNat ∨
    (c.useInterruptStack = true ∧ K = interruptStack c) ∧ ∃ T, l.threads T ∧ T.Has a)

def Conforms (f : Machine → Machine → Prop) : Prop :=
  ∀ K m m', l.Stacks K → K.Holds (m.get sp) → f m m' →
    m'.pc = m.get ra ∧ Same calleeSaved (l.Kept K (m.get sp)) m m'

/-- An interrupt that the interrupted code does not notice. -/
structure Unnoticed (K : Stack) (m m' : Machine) : Prop where
  resumed : m'.pc = m.get ea
  regs : ∀ r, visible r → m'.get r = m.get r
  words : ∀ a, l.Kept K (m.get sp) a → m'.mem a = m.mem a
  status : m'.ctl .status = m.ctl .estatus

def Transparent (h : Machine → Machine → Prop) : Prop :=
  ∀ K m m', l.Stacks K → K.Holds (m.get sp) → h m m' → Unnoticed l K m m'

def Layout.Room (m : Machine) : Prop :=
  ∀ K, l.Stacks K → K.Holds (m.get sp) → K.low + 84 < (m.get sp).toNat ∧
    ∀ a : Word, (m.get sp).toNat ≤ a.toNat + 84 → a.toNat < (m.get sp).toNat → ¬ l.shared a

/-- The handler from its entry, with interrupts disabled and room on the stack, to its `eret`;
    interrupts are nested to a depth below `d`. `function` gives the functions outside, which
    can be interrupted too. -/
def handler (function : (Machine → Machine → Prop) → Word → Machine → Machine → Prop) :
    Nat → Machine → Machine → Prop
  | 0, _, _ => False
  | d + 1, m, m' =>
    m.pie = false ∧ l.Room m ∧
      ∃ calls, Run (program c) (function (handler function d)) (handler function d) (handlerCode c)
        m calls m'

end
end InterruptHandler
