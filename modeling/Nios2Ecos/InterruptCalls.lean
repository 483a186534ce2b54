import Nios2Ecos.InterruptFrame

/- The two calls the handler makes, and how it leaves. -/
namespace InterruptHandler
open Nios2Machine

section
variable {c : Config} {x t : Machine} {function : Word → Machine → Machine → Prop}
  {nested : Machine → Machine → Prop} {calls : List Call}

theorem search_same (n : Nat) (x : Machine) :
    Same (fun r => r ≠ r3 ∧ r ≠ r4 ∧ r ≠ et) (fun _ => True) x (search n x).2 := by
  induction n generalizing x with
  | zero => exact Same.refl _ _ x
  | succ n ih =>
    have test : Same (fun r => r ≠ r3 ∧ r ≠ r4 ∧ r ≠ et) (fun _ => True) x (execAll testBit x) :=
      (Same.refl _ _ x).set_hidden (r := r3) (by decide) _
    have next : Same (fun r => r ≠ r3 ∧ r ≠ r4 ∧ r ≠ et) (fun _ => True) x
        (execAll nextBit (execAll testBit x)) :=
      (test.set_hidden (r := r4) (by decide) _).set_hidden (r := et) (by decide) _
    by_cases bit : (execAll testBit x).get r3 = (execAll testBit x).get r0
    · by_cases more : (execAll nextBit (execAll testBit x)).get r0 =
          (execAll nextBit (execAll testBit x)).get et
      · rw [search_done x n bit more]
        exact next
      · rw [search_again x n bit more]
        exact next.trans (ih _)
    · rw [search_found x n bit]
      exact test

theorem vector_quiet : ∀ i ∈ vectorBlock c, i.quiet = true := by
  simp [vectorBlock, loadAddress, Instr.quiet, Instr.straight]

theorem return_quiet : ∀ i ∈ returnBlock, i.quiet = true := by
  simp [returnBlock, Instr.quiet, Instr.straight]

/-- The lookup of the ISR and its data, up to the saving of the offset. -/
def lookBlock (c : Config) : List (Instr Label) :=
  .slli r15 r4 2 :: (loadAddress r1 c.halInterruptHandlers ++ ([.add r1 r1 r15, .ldw r1 0 r1] ++
    (loadAddress r5 c.halInterruptData ++ [.add r5 r5 r15, .ldw r5 0 r5])))

theorem vector_split (c : Config) :
    vectorBlock c = lookBlock c ++ [.addi sp sp (-4), .stw r15 0 sp] := rfl

theorem look_same (x : Machine) : Same (fun r => r ≠ r1 ∧ r ≠ r5 ∧ r ≠ r15) (fun _ => True) x
    (execAll (lookBlock c) x) := by
  simp (disch := decide) only [lookBlock, execAll_cons, execAll_append, execAll_nil, load_address,
    Instr.exec]
  apply Same.set_hidden (r := r5) _ (by decide)
  apply Same.set_hidden (r := r5) _ (by decide)
  apply Same.set_hidden (r := r5) _ (by decide)
  apply Same.set_hidden (r := r1) _ (by decide)
  apply Same.set_hidden (r := r1) _ (by decide)
  apply Same.set_hidden (r := r1) _ (by decide)
  exact (Same.refl _ _ x).set_hidden (r := r15) (by decide) _

theorem look_values (x : Machine) :
    (execAll (lookBlock c) x).get r15 = x.get r4 <<< 2 ∧
      (execAll (lookBlock c) x).get r1 = x.mem (c.halInterruptHandlers + x.get r4 <<< 2) ∧
      (execAll (lookBlock c) x).get r5 = x.mem (c.halInterruptData + x.get r4 <<< 2) := by
  refine ⟨?_, ?_, ?_⟩ <;>
    simp (disch := decide) only [lookBlock, execAll_cons, execAll_append, execAll_nil, load_address,
      Instr.exec, Machine.get_set_self, Machine.get_set_ne, Machine.set_mem, BitVec.ofNat_eq_ofNat,
      BitVec.add_zero]

theorem vector_exec (x : Machine) : execAll (vectorBlock c) x =
    ((execAll (lookBlock c) x).set sp (x.get sp + -4)).store (x.get sp + -4) (x.get r4 <<< 2) := by
  have pointer : (execAll (lookBlock c) x).get sp = x.get sp := (look_same x).get sp (by decide)
  rw [vector_split, execAll_append, push_exec (by decide), pointer, (look_values x).1]

def isr (c : Config) (x : Machine) : Word := (execAll (vectorBlock c) x).get r1

/-- The machine that enters the ISR. -/
def isrEntry (c : Config) (x : Machine) : Machine :=
  (execAll (vectorBlock c) x).link (isr c x) ((program c).address (returnBlock ++ doneCode c))

/-- The call of the ISR at `x`, returning at `b`. -/
def isrCall (c : Config) (x b : Machine) : Call :=
  ⟨isr c x, (execAll (vectorBlock c) x).get r4, (execAll (vectorBlock c) x).get r5,
    (execAll (vectorBlock c) x).get r6, b.get r2⟩

theorem vector_get {r : Reg} (pointer : r ≠ sp) (x : Machine) :
    (execAll (vectorBlock c) x).get r = (execAll (lookBlock c) x).get r := by
  rw [vector_exec, Machine.store_get, Machine.get_set_ne _ _ pointer]

theorem isr_call_values (x b : Machine) :
    isr c x = x.mem (c.halInterruptHandlers + x.get r4 <<< 2) ∧
      isrCall c x b = ⟨x.mem (c.halInterruptHandlers + x.get r4 <<< 2), x.get r4,
        x.mem (c.halInterruptData + x.get r4 <<< 2), x.get r6, b.get r2⟩ := by
  obtain ⟨-, handlerWord, dataWord⟩ := look_values (c := c) x
  have target : isr c x = x.mem (c.halInterruptHandlers + x.get r4 <<< 2) := by
    rw [isr, vector_get (by decide), handlerWord]
  have four : (execAll (vectorBlock c) x).get r4 = x.get r4 := by
    rw [vector_get (by decide), (look_same x).get r4 (by decide)]
  have five : (execAll (vectorBlock c) x).get r5 = x.mem (c.halInterruptData + x.get r4 <<< 2) := by
    rw [vector_get (by decide), dataWord]
  have six : (execAll (vectorBlock c) x).get r6 = x.get r6 := by
    rw [vector_get (by decide), (look_same x).get r6 (by decide)]
  exact ⟨target, by rw [isrCall, target, four, five, six]⟩

theorem found_tail_placed (c : Config) : .callr r1 :: (returnBlock ++ doneCode c) <:+ handlerCode c :=
  suffix_append (vectorBlock c) (found_placed c)

theorem return_placed (c : Config) : returnBlock ++ doneCode c <:+ handlerCode c :=
  suffix_append [_] (found_tail_placed c)

/-- A pending interrupt: its ISR is called, and the handler goes on when it has returned. -/
theorem run_found (disabled : x.pie = false)
    (returns : ∀ b, function (isr c x) (isrEntry c x) b →
      b.pc = (program c).address (returnBlock ++ doneCode c) ∧ b.pie = false)
    (run : Run (program c) function nested (foundCode c) x calls t) :
    ∃ b calls', function (isr c x) (isrEntry c x) b ∧ calls = isrCall c x b :: calls' ∧
      Run (program c) function nested (doneCode c) (execAll returnBlock b) calls' t := by
  have vector := Run.block (vectorBlock c) (found_placed c) vector_quiet disabled run
  have off : (execAll (vectorBlock c) x).pie = false := by rw [pie_quiet vector_quiet, disabled]
  have own := vector.undisturbed (found_tail_placed c) off
  have called : (Instr.callr (L := Label) r1).target (execAll (vectorBlock c) x) =
      some (isr c x) := rfl
  obtain ⟨b, calls', returned, made, after⟩ := own.returned called (return_placed c)
    (fun b h => (returns b h).1)
  exact ⟨b, calls', returned, made,
    Run.block returnBlock (return_placed c) return_quiet (returns b returned).2 after⟩

theorem of_found {b : Machine} (returned : function (isr c x) (isrEntry c x) b)
    (back : b.pc = (program c).address (returnBlock ++ doneCode c))
    (run : Run (program c) function nested (doneCode c) (execAll returnBlock b) calls t) :
    Run (program c) function nested (foundCode c) x (isrCall c x b :: calls) t := by
  apply Run.of_block (vectorBlock c) (straight_of_quiet vector_quiet)
  have called : (Instr.callr (L := Label) r1).target (execAll (vectorBlock c) x) =
      some (isr c x) := rfl
  exact Run.of_call called (return_placed c) returned back
    (Run.of_block returnBlock (straight_of_quiet return_quiet) run)

theorem pop_quiet : ∀ i ∈ popBlock c ++ [.movi r1 1], i.quiet = true := by
  unfold popBlock
  split <;> simp [Instr.movi, Instr.quiet, Instr.straight]

def enabled (c : Config) (y : Machine) : Machine :=
  (execAll (popBlock c ++ [.movi r1 1]) y).setCtl .status 1

theorem enabled_exec (y : Machine) :
    (Instr.wrctl (L := Label) .status r1).exec (execAll (popBlock c ++ [.movi r1 1]) y) =
      enabled c y := by
  have one : (execAll (popBlock c ++ [.movi r1 1]) y).get r1 = 1 := by
    rw [execAll_append]
    exact Machine.get_set_self _ _ (by decide)
  rw [Instr.exec, one, enabled]

theorem enable_placed (c : Config) : .wrctl .status r1 ::
    (argumentsBlock c ++ (.call c.interruptEnd :: restoreCode)) <:+ handlerCode c :=
  suffix_append _ (done_placed c)

theorem arguments_placed (c : Config) :
    argumentsBlock c ++ (.call c.interruptEnd :: restoreCode) <:+ handlerCode c :=
  suffix_append [_] (enable_placed c)

theorem end_placed (c : Config) : .call c.interruptEnd :: restoreCode <:+ handlerCode c :=
  suffix_append _ (arguments_placed c)

theorem restore_placed (c : Config) : restoreCode <:+ handlerCode c :=
  suffix_append [_] (end_placed c)

theorem run_done {y : Machine} (disabled : y.pie = false)
    (run : Run (program c) function nested (doneCode c) y calls t) :
    Run (program c) function nested (argumentsBlock c ++ (.call c.interruptEnd :: restoreCode))
      (enabled c y) calls t := by
  have popped := Run.block (popBlock c ++ [.movi r1 1]) (done_placed c) pop_quiet disabled run
  have off : (execAll (popBlock c ++ [.movi r1 1]) y).pie = false := by
    rw [pie_quiet pop_quiet, disabled]
  have next := (popped.undisturbed (enable_placed c) off).straight rfl
  rwa [enabled_exec] at next

theorem of_done {y : Machine}
    (run : Run (program c) function nested
      (argumentsBlock c ++ (.call c.interruptEnd :: restoreCode)) (enabled c y) calls t) :
    Run (program c) function nested (doneCode c) y calls t := by
  apply Run.of_block _ (straight_of_quiet pop_quiet)
  refine .step rfl ?_
  rwa [enabled_exec]

/-- The call of `interrupt_end` at `a`, returning at `b`. -/
def endCall (c : Config) (a b : Machine) : Call :=
  ⟨c.interruptEnd, a.get r4, a.get r5, a.get r6, b.get r2⟩

def endEntry (c : Config) (a : Machine) : Machine :=
  a.link c.interruptEnd ((program c).address restoreCode)

end

/-- What is left of `b`, whose stack pointer is `F`, when the handler has returned. -/
structure Left (words : Word → Prop) (F : Word) (b t : Machine) : Prop where
  resumed : t.pc = b.mem (F + 0)
  status : t.ctl .status = b.mem (F + 4)
  restored : ∀ p ∈ restoreSlots, t.get p.1 = b.mem (F + p.2)
  others : ∀ r, untouched r → t.get r = b.get r
  pointer : t.get sp = F + 76
  words : ∀ a, words a → t.mem a = b.mem a

section
variable {c : Config} {b t : Machine} {function : Word → Machine → Machine → Prop}
  {nested : Machine → Machine → Prop} {calls : List Call} {words : Word → Prop} {F : Word}

theorem leave_quiet : ∀ i ∈ leaveBlock, i.quiet = true := by
  simp [leaveBlock, Instr.quiet, Instr.straight]

theorem loads_placed (c : Config) :
    .wrctl .status r0 :: (leaveBlock ++ [.eret]) <:+ handlerCode c :=
  suffix_append _ (restore_placed c)

theorem leave_placed (c : Config) : leaveBlock ++ [.eret] <:+ handlerCode c :=
  suffix_append [_] (loads_placed c)

theorem restore_clean (slots : ∀ p ∈ restoreSlots, words (F + p.2)) :
    ∀ i ∈ loads (L := Label) sp restoreSlots, Clean visible words F i := by
  have other : ∀ p ∈ restoreSlots, p.1 ≠ sp := List.all_iff_forall_prop.mp (by decide)
  intro i load
  obtain ⟨p, slot, rfl⟩ := List.mem_map.mp load
  exact clean_ldw (other p slot) (by decide) (slots p slot)

theorem restore_reading : ∀ i ∈ loads (L := Label) sp restoreSlots, i.reading = true := by decide

theorem restored_get (here : b.get sp = F) :
    (∀ p ∈ restoreSlots, (execAll (loads (L := Label) sp restoreSlots) b).get p.1 =
      b.mem (F + p.2)) ∧
    (∀ r, untouched r ∨ r = sp → (execAll (loads (L := Label) sp restoreSlots) b).get r =
      b.get r) := by
  have loaded : ∀ p ∈ restoreSlots, p.1 ≠ 0 ∧
      restores p.1 p.2 (loads (L := Label) sp restoreSlots) false = true :=
    List.all_iff_forall_prop.mp (by decide)
  have spared : ∀ r, untouched r ∨ r = sp → ∀ i ∈ loads (L := Label) sp restoreSlots,
      i.dest ≠ some r := by decide
  constructor
  · intro p slot
    obtain ⟨nonzero, restored⟩ := loaded p slot
    rw [restores_slot nonzero restore_reading restored, here]
  · intro r other
    exact execAll_get (spared r other)

def leave (y : Machine) : Machine := (execAll leaveBlock (y.setCtl .status 0)).eret

theorem leave_registers (y : Machine) {r : Reg} (spared : r ≠ ea) (temporary : r ≠ et)
    (pointer : r ≠ sp) : (leave y).get r = y.get r := by
  simp only [leave, leaveBlock, execAll_cons, execAll_nil, Instr.exec]
  change (Machine.set _ sp _).get r = y.get r
  rw [Machine.get_set_ne _ _ pointer, Machine.setCtl_get, Machine.get_set_ne _ _ temporary,
    Machine.get_set_ne _ _ spared, Machine.setCtl_get]

theorem leave_left (y : Machine) : (leave y).pc = y.mem (y.get sp + 0) ∧
    (leave y).ctl .status = y.mem (y.get sp + 4) ∧ (leave y).get sp = y.get sp + 76 ∧
    (leave y).mem = y.mem := by
  have blocks : leave y = Machine.eret (((((y.setCtl .status 0).set ea (y.mem (y.get sp + 0))).set et
      (y.mem (y.get sp + 4))).setCtl .estatus (y.mem (y.get sp + 4))).set sp (y.get sp + 76)) := by
    simp (disch := decide) only [leave, leaveBlock, execAll_cons, execAll_nil, Instr.exec,
      Machine.get_set_ne, Machine.get_set_self, Machine.setCtl_get, Machine.set_mem,
      Machine.setCtl_mem]
  rw [blocks]
  refine ⟨?_, ?_, ?_, ?_⟩
  · simp (disch := decide) only [Machine.eret_pc, Machine.get_set_ne, Machine.get_set_self,
      Machine.setCtl_get]
  · simp only [Machine.eret_status, Machine.set_ctl, Machine.setCtl_same]
  · rw [Machine.eret_get, Machine.get_set_self _ _ (by decide)]
  · simp only [Machine.eret_mem, Machine.set_mem, Machine.setCtl_mem]

/-- From the return of `interrupt_end` to the end, with interrupts up to the point where the
    exception registers are restored. -/
theorem run_restore (hidden : Hidden visible words F nested)
    (slots : ∀ p ∈ saveSlots, words (F + p.2)) (here : b.get sp = F)
    (run : Run (program c) function nested restoreCode b calls t) :
    calls = [] ∧ Left words F b t := by
  have fewer : restoreSlots ⊆ saveSlots := by decide
  have visibleSp : visible sp := by decide
  obtain ⟨frame_get, kept_get⟩ := restored_get here
  have placed : loads sp restoreSlots ++ (.wrctl .status r0 :: (leaveBlock ++ [.eret])) <:+
      (program c).code := restore_placed c
  have clean := restore_clean fun p slot => slots p (fewer slot)
  obtain ⟨x, loaded, run⟩ := Run.block_hidden (loads sp restoreSlots) placed clean hidden
    visibleSp here run
  have hereX : x.get sp = F := by
    rw [loaded.get sp visibleSp, kept_get sp (.inr rfl), here]
  obtain ⟨y, last, own⟩ := run.own_hidden (loads_placed c) hidden visibleSp hereX
  have sameY := loaded.trans last
  have hereY : y.get sp = F := by rw [last.get sp visibleSp, hereX]
  have run := own.straight rfl
  change Run (program c) function nested (leaveBlock ++ [.eret]) (y.setCtl .status 0) calls t at run
  have off : (y.setCtl .status 0).pie = false := by simp [Machine.pie]
  have run := Run.block leaveBlock (leave_placed c) leave_quiet off run
  have offLast : (execAll leaveBlock (y.setCtl .status 0)).pie = false := by
    rw [pie_quiet leave_quiet, off]
  have own := run.undisturbed (suffix_append leaveBlock (leave_placed c)) offLast
  have memory : ∀ a, words a → y.mem a = b.mem a := by
    intro a word
    rw [sameY.mem a word, (execAll_reading restore_reading).2]
  have slotEa : words (F + 0) := slots (ea, 0) (by decide)
  have slotEt : words (F + 4) := slots (et, 4) (by decide)
  cases own with
  | step flow => cases flow
  | call called => cases called
  | eret =>
    obtain ⟨pc, status, pointer, mem⟩ := leave_left y
    refine ⟨rfl, ?_, ?_, ?_, ?_, ?_, ?_⟩
    · exact pc.trans (by rw [hereY, memory _ slotEa])
    · exact status.trans (by rw [hereY, memory _ slotEt])
    · intro p slot
      have spared : ∀ p ∈ restoreSlots, visible p.1 ∧ p.1 ≠ ea ∧ p.1 ≠ et ∧ p.1 ≠ sp :=
        List.all_iff_forall_prop.mp (by decide)
      obtain ⟨seen, one, two, three⟩ := spared p slot
      refine (leave_registers y one two three).trans ?_
      rw [sameY.get p.1 seen, frame_get p slot]
    · intro r other
      have spared : ∀ r, untouched r → visible r ∧ r ≠ ea ∧ r ≠ et ∧ r ≠ sp := by decide
      obtain ⟨seen, one, two, three⟩ := spared r other
      refine (leave_registers y one two three).trans ?_
      rw [sameY.get r seen, kept_get r (.inl other)]
    · exact pointer.trans (by rw [hereY])
    · intro a word
      exact (congrFun mem a).trans (memory a word)

theorem of_restore (b : Machine) : Run (program c) function nested restoreCode b []
    (leave (execAll (loads (L := Label) sp restoreSlots) b)) := by
  apply Run.of_block (loads sp restoreSlots)
  · intro i load
    obtain ⟨p, -, rfl⟩ := List.mem_map.mp load
    rfl
  · refine .step rfl ?_
    exact Run.of_block leaveBlock (straight_of_quiet leave_quiet) .eret

/-- The address of the interrupt object, computed before it is loaded. -/
def objectBlock (c : Config) : List (Instr Label) :=
  .mov r4 r2 :: (loadAddress r5 c.halInterruptObjects ++ [.add r5 r5 r15])

theorem arguments_split (c : Config) : argumentsBlock c = objectBlock c ++ [.ldw r5 0 r5] := rfl

theorem object_clean : ∀ i ∈ objectBlock c, Clean visible words F i := by
  intro i mem
  simp only [objectBlock, loadAddress, List.cons_append, List.nil_append, List.mem_cons,
    List.not_mem_nil, or_false] at mem
  rcases mem with rfl | rfl | rfl | rfl
  · exact clean_set (r := r4) (fun m => m.get r2 + m.get r0) rfl (fun _ => rfl) (by decide)
      (fun m m' same => by rw [same.get r2 (by decide), same.get r0 (by decide)])
  · exact clean_set (r := r5) (fun _ => (hiadj c.halInterruptObjects).setWidth 32 <<< 16) rfl
      (fun _ => rfl) (by decide) (fun _ _ _ => rfl)
  · exact clean_set (r := r5) (fun m => m.get r5 + lo c.halInterruptObjects) rfl (fun _ => rfl)
      (by decide) (fun m m' same => by rw [same.get r5 (by decide)])
  · exact clean_set (r := r5) (fun m => m.get r5 + m.get r15) rfl (fun _ => rfl) (by decide)
      (fun m m' same => by rw [same.get r5 (by decide), same.get r15 (by decide)])

theorem object_exec (z : Machine) : execAll (objectBlock c) z =
    ((z.set r4 (z.get r2)).set r5 c.halInterruptObjects).set r5
      (c.halInterruptObjects + z.get r15) := by
  simp (disch := decide) only [objectBlock, execAll_cons, execAll_append, execAll_nil, load_address,
    Instr.exec, Instr.mov, Machine.get_set_self, Machine.get_set_ne, Machine.get_zero,
    BitVec.ofNat_eq_ofNat, BitVec.add_zero]

/-- What code that runs with interrupts enabled passes to `interrupt_end`. -/
structure Passed (c : Config) (words : Word → Prop) (z a : Machine) : Prop where
  same : Same (fun r => visible r ∧ r ≠ r4 ∧ r ≠ r5) words z a
  result : a.get r4 = z.get r2
  object : words (c.halInterruptObjects + z.get r15) →
    a.get r5 = z.mem (c.halInterruptObjects + z.get r15)

theorem passed_exec (z : Machine) : Passed c words z (execAll (argumentsBlock c) z) := by
  have effect : execAll (argumentsBlock c) z =
      (((z.set r4 (z.get r2)).set r5 c.halInterruptObjects).set r5
        (c.halInterruptObjects + z.get r15)).set r5 (z.mem (c.halInterruptObjects + z.get r15)) := by
    rw [arguments_split, execAll_append, object_exec]
    simp (disch := decide) only [execAll_cons, execAll_nil, Instr.exec, Machine.get_set_self,
      Machine.set_mem, BitVec.ofNat_eq_ofNat, BitVec.add_zero]
  rw [effect]
  constructor
  · apply Same.set_hidden (r := r5) _ (by decide)
    apply Same.set_hidden (r := r5) _ (by decide)
    apply Same.set_hidden (r := r5) _ (by decide)
    exact (Same.refl _ _ z).set_hidden (r := r4) (by decide) _
  · simp (disch := decide) only [Machine.get_set_ne, Machine.get_set_self]
  · intro _
    exact Machine.get_set_self _ _ (by decide)

theorem run_arguments {z : Machine} (hidden : Hidden visible words F nested) (here : z.get sp = F)
    (run : Run (program c) function nested
      (argumentsBlock c ++ (.call c.interruptEnd :: restoreCode)) z calls t) :
    ∃ a, Passed c words z a ∧
      Own (program c) function nested (.call c.interruptEnd :: restoreCode) a calls t := by
  have seen : visible sp := by decide
  have placed := arguments_placed c
  rw [arguments_split, List.append_assoc] at run placed
  obtain ⟨x, objected, run⟩ := Run.block_hidden (objectBlock c) placed object_clean hidden seen
    here run
  have hereX : x.get sp = F := by
    rw [objected.get sp seen, object_exec]
    simp (disch := decide) only [Machine.get_set_ne, here]
  obtain ⟨y, before, own⟩ := run.own_hidden (suffix_append _ placed) hidden seen hereX
  have sameY := objected.trans before
  rw [object_exec] at sameY
  have address : y.get r5 = c.halInterruptObjects + z.get r15 := by
    rw [sameY.get r5 (by decide), Machine.get_set_self _ _ (by decide)]
  have loaded : (Instr.ldw (L := Label) r5 0 r5).exec y =
      y.set r5 (y.mem (c.halInterruptObjects + z.get r15)) := by
    simp only [Instr.exec, address, BitVec.ofNat_eq_ofNat, BitVec.add_zero]
  have run := own.straight rfl
  rw [loaded] at run
  have hereY : (y.set r5 (y.mem (c.halInterruptObjects + z.get r15))).get sp = F := by
    rw [Machine.get_set_ne _ _ (by decide), before.get sp seen, hereX]
  obtain ⟨a, after, own⟩ := run.own_hidden (end_placed c) hidden seen hereY
  refine ⟨a, ⟨⟨?_, ?_, ?_⟩, ?_, ?_⟩, own⟩
  · rintro r ⟨visibleR, other4, other5⟩
    rw [after.get r visibleR, Machine.get_set_ne _ _ other5, sameY.get r visibleR,
      Machine.get_set_ne _ _ other5, Machine.get_set_ne _ _ other5, Machine.get_set_ne _ _ other4]
  · intro w word
    rw [after.mem w word, Machine.set_mem, sameY.mem w word, Machine.set_mem, Machine.set_mem,
      Machine.set_mem]
  · rw [after.status, Machine.set_ctl, sameY.status, Machine.set_ctl, Machine.set_ctl,
      Machine.set_ctl]
  · rw [after.get r4 (by decide), Machine.get_set_ne _ _ (by decide), sameY.get r4 (by decide)]
    simp (disch := decide) only [Machine.get_set_ne, Machine.get_set_self]
  · intro word
    rw [after.get r5 (by decide), Machine.get_set_self _ _ (by decide), sameY.mem _ word,
      Machine.set_mem, Machine.set_mem, Machine.set_mem]

theorem arguments_straight : ∀ i ∈ argumentsBlock c, i.straight = true := by
  simp [argumentsBlock, loadAddress, Instr.mov, Instr.straight]

theorem of_arguments {z : Machine}
    (returned : function c.interruptEnd (endEntry c (execAll (argumentsBlock c) z)) b)
    (back : b.pc = (program c).address restoreCode) :
    Run (program c) function nested (argumentsBlock c ++ (.call c.interruptEnd :: restoreCode)) z
      [endCall c (execAll (argumentsBlock c) z) b]
      (leave (execAll (loads (L := Label) sp restoreSlots) b)) := by
  apply Run.of_block (argumentsBlock c) arguments_straight
  have called : (Instr.call (L := Label) c.interruptEnd).target (execAll (argumentsBlock c) z) =
      some c.interruptEnd := rfl
  exact Run.of_call called (restore_placed c) returned back (of_restore b)

end
end InterruptHandler
