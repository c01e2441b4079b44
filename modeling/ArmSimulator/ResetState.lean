import ArmSimulator.EntryFrame

/-! The status word RESET leaves. It is made from the one before, so that a created
core keeps bits of the heap block it was given, and both interrupts are enabled:
the first delivery takes the core away from the reset vector. -/
namespace ArmSimulator

section Status

variable (h : Platform)

theorem getLsbD_modeCpsr (cpsr : Word) (mode : Mode) {i : Nat} (small : i < 32) :
    (modeCpsr cpsr mode).getLsbD i = if i < 5 then mode.getLsbD i else cpsr.getLsbD i := by
  rw [modeCpsr, getLsbD_setBits, Nat.sub_zero, BitVec.getLsbD_setWidth]
  by_cases field : i < 5
  · have low : ¬4 + 1 ≤ i := by omega
    simp only [field, small, low, Nat.not_lt_zero, decide_false, decide_true, Bool.or_false,
      Bool.false_and, Bool.false_or, Bool.not_false, Bool.and_self, Bool.true_and, if_true]
  · have high : 4 + 1 ≤ i := by omega
    have outside : mode.getLsbD i = false := BitVec.getLsbD_of_ge _ _ (by omega)
    simp only [field, high, outside, decide_true, Bool.or_true, Bool.true_and, Bool.and_false,
      Bool.or_false, if_false]

theorem modeCpsr_modeCpsr (cpsr : Word) (mode mode' : Mode) :
    modeCpsr (modeCpsr cpsr mode) mode' = modeCpsr cpsr mode' := by
  apply BitVec.eq_of_getLsbD_eq
  intro i small
  simp only [getLsbD_modeCpsr _ _ small]
  split <;> rfl

theorem reset_cpsr (p : ArmCore) : (armException h p .reset).cpsr =
    modeCpsr (chgBit (clrBit (clrBit p.cpsr Psr.f) Psr.i) Psr.e h.bigEndianSimulator) Mode.svc := by
  have threaded : (armException h p .reset).cpsr =
      modeCpsr (modeCpsr (modeCpsr (modeCpsr (modeCpsr (modeCpsr (modeCpsr (modeCpsr
        (chgBit (clrBit (clrBit p.cpsr Psr.f) Psr.i) Psr.e h.bigEndianSimulator) Mode.usr) Mode.fiq)
        Mode.irq) Mode.svc) Mode.abt) Mode.und) Mode.sys) Mode.svc := rfl
  rw [threaded]
  simp only [modeCpsr_modeCpsr]

/-- The bits of the status word that RESET gives a value of its own. -/
def ResetWrites (i : Nat) : Prop := i < 5 ∨ i = Psr.f ∨ i = Psr.i ∨ i = Psr.e

instance (i : Nat) : Decidable (ResetWrites i) := inferInstanceAs (Decidable (_ ∨ _))

theorem reset_inherits (p : ArmCore) {i : Nat} (small : i < 32) (inherited : ¬ResetWrites i) :
    (armException h p .reset).cpsr.getLsbD i = p.cpsr.getLsbD i := by
  simp only [ResetWrites, not_or] at inherited
  obtain ⟨notMode, notF, notI, notE⟩ := inherited
  rw [reset_cpsr, getLsbD_modeCpsr _ _ small, if_neg notMode, getLsbD_chgBit, if_neg (Ne.symm notE),
    getLsbD_clrBit, getLsbD_clrBit, decide_eq_false (Ne.symm notI), decide_eq_false (Ne.symm notF)]
  simp only [Bool.not_false, Bool.and_true]

theorem reset_writes (p q : ArmCore) {i : Nat} (written : ResetWrites i) :
    (armException h p .reset).cpsr.getLsbD i = (armException h q .reset).cpsr.getLsbD i := by
  have small : i < 32 := by
    simp only [ResetWrites, Psr.f, Psr.i, Psr.e] at written
    omega
  simp only [reset_cpsr, getLsbD_modeCpsr _ _ small, getLsbD_chgBit, getLsbD_clrBit]
  rcases written with mode | rfl | rfl | rfl
  · simp only [mode, if_true]
  all_goals simp [Psr.f, Psr.i, Psr.e]

theorem reset_masks (p : ArmCore) : getBit (armException h p .reset).cpsr Psr.f = false ∧
    getBit (armException h p .reset).cpsr Psr.i = false := by
  have f_small : Psr.f < 32 := by decide
  have i_small : Psr.i < 32 := by decide
  constructor
  all_goals
    rw [getBit_eq, reset_cpsr, getLsbD_modeCpsr _ _ (by assumption), if_neg (by decide),
      getLsbD_chgBit, if_neg (by decide)]
  · rw [getLsbD_clrBit, getLsbD_clrBit, decide_eq_true rfl]
    simp only [Bool.not_true, Bool.and_false, Bool.false_and]
  · rw [getLsbD_clrBit, decide_eq_true rfl]
    simp only [Bool.not_true, Bool.and_false]

end Status

/-- Two heap blocks give the core the same status word exactly if their own status
words agree in the bits RESET takes over. -/
theorem created_status_iff (h : Platform) (mem : Memory) (block block' : ArmCore) :
    (armCreate h block mem).cpsr = (armCreate h block' mem).cpsr ↔
      ∀ i < 32, ¬ResetWrites i → block.cpsr.getLsbD i = block'.cpsr.getLsbD i := by
  have created (b : ArmCore) : (armCreate h b mem).cpsr =
      (armException h { b with mem := mem } .reset).cpsr := rfl
  rw [created, created]
  constructor
  · intro same i small inherited
    have bits := congrArg (BitVec.getLsbD · i) same
    simp only [reset_inherits h _ small inherited] at bits
    exact bits
  · intro same
    apply BitVec.eq_of_getLsbD_eq
    intro i small
    by_cases written : ResetWrites i
    · exact reset_writes h _ _ written
    · rw [reset_inherits h _ small written, reset_inherits h _ small written]
      exact same i small written

theorem created_status_differs :
    ¬∀ (h : Platform) (mem : Memory) (block block' : ArmCore),
      (armCreate h block mem).cpsr = (armCreate h block' mem).cpsr := by
  intro defined
  have z := defined lp64 (repeatedWord 0#32) (sampleCore 0#32 0#32) (sampleCore 0x40000000#32 0#32)
  revert z
  decide

section Deliveries

def Delivery (e : ArmException) : Prop := e = .interrupt ∨ e = .fastInterrupt

structure AtResetVector (q r : ArmCore) : Prop where
  mode : armMode r = Mode.svc
  pc : r.registersStorage 15 = vectorAddress 0x00#8
  registers : r.registersStorage = q.registersStorage

structure InterruptsDisabled (h : Platform) (p : ArmCore) : Prop where
  irq : getBit (armException h p .reset).cpsr Psr.i = true
  fiq : getBit (armException h p .reset).cpsr Psr.f = true
  undisturbed : ∀ es : List ArmException, (∀ e ∈ es, Delivery e) →
    AtResetVector (armException h p .reset)
      (es.foldl (armException h) (armException h p .reset))

/-- A core whose last exception was an IRQ, or from the first FIQ on that FIQ. -/
structure InInterrupt (fast : Bool) (q : ArmCore) : Prop where
  mode : armMode q = if fast then Mode.fiq else Mode.irq
  pc : q.registersStorage 15 = vectorAddress (if fast then 0x1C#8 else 0x18#8)
  irq : getBit q.cpsr Psr.i = true
  fiq : getBit q.cpsr Psr.f = fast

variable (h : Platform)

theorem reset_registers (p : ArmCore) : armMode (armException h p .reset) = Mode.svc ∧
    (armException h p .reset).registersStorage 15 = vectorAddress 0x00#8 := by
  constructor
  · rw [armMode_eq, reset_cpsr]
    apply BitVec.eq_of_getLsbD_eq
    intro i small
    have inside : i < 32 := by omega
    rw [BitVec.getLsbD_setWidth, getLsbD_modeCpsr _ _ inside, if_pos small, decide_eq_true small,
      Bool.true_and]
  · have branch : armException h p .reset = armBranchExceptionVector
        (armWriteCpsr (armException h p .reset) (armException h p .reset).cpsr) 0x00#8 := by
      simp only [armException, handleReset, armBranchExceptionVector, armWriteRegister,
        writeStorage, armWriteCpsr, registers_pc, Function.update_idem]
    rw [branch, armBranchExceptionVector, armWriteRegister, registers_pc, writeStorage_self]

theorem entryCpsr_masks (cpsr : Word) (mode : Mode) (disableFiq : Bool) :
    getBit (entryCpsr h cpsr mode disableFiq) Psr.i = true ∧
      getBit (entryCpsr h cpsr mode disableFiq) Psr.f = (disableFiq || getBit cpsr Psr.f) := by
  have f_small : Psr.f < 32 := by decide
  have f_kept : (modeCpsr cpsr mode).getLsbD Psr.f = cpsr.getLsbD Psr.f := by
    rw [getLsbD_modeCpsr _ _ f_small, if_neg (by decide)]
  simp only [getBit_eq, entryCpsr, getLsbD_chgBit, getLsbD_setBit]
  constructor
  · simp [Psr.e, Psr.i]
  · cases disableFiq with
    | false =>
      rw [if_neg (by decide), if_neg (by decide), getLsbD_clrBit, f_kept]
      simp [Psr.i, Psr.f, Psr.t]
    | true => simp [Psr.e, Psr.i, Psr.f]

theorem enterIrq_interrupted (p : ArmCore) (fast : Bool) (lr : Word)
    (masked : fast = false → getBit p.cpsr Psr.f = false) :
    InInterrupt fast (enterException h p (if fast then Mode.fiq else Mode.irq) fast lr
      (if fast then 0x1C#8 else 0x18#8)) := by
  have entered := enterException_entered h p (if fast then Mode.fiq else Mode.irq) fast lr
    (if fast then 0x1C#8 else 0x18#8)
  have masks := entryCpsr_masks h p.cpsr (if fast then Mode.fiq else Mode.irq) fast
  constructor
  · rw [armMode_eq, entered.cpsr, entryCpsr_mode]
  · exact entered.pc
  · rw [entered.cpsr, masks.1]
  · rw [entered.cpsr, masks.2]
    cases fast with
    | false => exact masked rfl
    | true => rfl

theorem first_interrupted (p : ArmCore) {e : ArmException} (delivery : Delivery e) :
    InInterrupt (e == .fastInterrupt) (armException h (armException h p .reset) e) := by
  have masks := reset_masks h p
  generalize armException h p .reset = q at masks
  obtain ⟨f, i⟩ := masks
  rcases delivery with rfl | rfl
  · have taken : armException h q .interrupt =
        enterException h q Mode.irq false (armAddressNextInstruction q + 4#32) 0x18#8 :=
      if_neg (by rw [armReadCpsr_eq, i]; decide)
    rw [taken]
    exact enterIrq_interrupted h q false _ fun _ => f
  · have taken : armException h q .fastInterrupt =
        enterException h q Mode.fiq true (armAddressNextInstruction q + 4#32) 0x1C#8 :=
      if_neg (by rw [armReadCpsr_eq, f]; decide)
    rw [taken]
    exact enterIrq_interrupted h q true _ fun impossible => Bool.noConfusion impossible

theorem next_interrupted {q : ArmCore} {fast : Bool} (before : InInterrupt fast q)
    {e : ArmException} (delivery : Delivery e) :
    InInterrupt (fast || e == .fastInterrupt) (armException h q e) := by
  rcases delivery with rfl | rfl
  · have masked : armException h q .interrupt = q := if_pos before.irq
    have same : (fast || ArmException.interrupt == .fastInterrupt) = fast := Bool.or_false fast
    rw [masked, same]
    exact before
  · have same : (fast || ArmException.fastInterrupt == .fastInterrupt) = true := Bool.or_true fast
    rw [same]
    cases fast with
    | true =>
      have masked : armException h q .fastInterrupt = q := if_pos before.fiq
      rw [masked]
      exact before
    | false =>
      have taken : armException h q .fastInterrupt =
          enterException h q Mode.fiq true (armAddressNextInstruction q + 4#32) 0x1C#8 :=
        if_neg (by rw [armReadCpsr_eq, before.fiq]; decide)
      rw [taken]
      exact enterIrq_interrupted h q true _ fun impossible => Bool.noConfusion impossible

theorem row_interrupted (es : List ArmException) {q : ArmCore} {fast : Bool}
    (before : InInterrupt fast q) (deliveries : ∀ e ∈ es, Delivery e) :
    InInterrupt (fast || es.contains .fastInterrupt) (es.foldl (armException h) q) := by
  induction es generalizing q fast with
  | nil => simpa using before
  | cons e es ih =>
    have first := next_interrupted h before (deliveries e List.mem_cons_self)
    have rest := ih first fun e' later => deliveries e' (List.mem_cons_of_mem _ later)
    have same : (fast || (e :: es).contains .fastInterrupt) =
        ((fast || e == .fastInterrupt) || es.contains .fastInterrupt) := by
      rw [List.contains_cons, Bool.or_assoc, Bool.beq_comm]
    rw [List.foldl_cons, same]
    exact rest

theorem InInterrupt.notAtResetVector {fast : Bool} {q r : ArmCore}
    (interrupted : InInterrupt fast r) : ¬AtResetVector q r := by
  intro still
  have mode := interrupted.mode.symm.trans still.mode
  cases fast with
  | false => exact absurd mode (by decide)
  | true => exact absurd mode (by decide)

end Deliveries

/-- RESET leaves both interrupts enabled, in every state it is raised in. A row of
deliveries before the first instruction leaves the core at the reset vector only
if it is empty; any other ends in FIQ mode at 0x101C if an FIQ is among them, in
IRQ mode at 0x1018 if not. -/
theorem reset_leaves_interrupts_enabled (h : Platform) (p : ArmCore) :
    ¬InterruptsDisabled h p ∧
    (getBit (armException h p .reset).cpsr Psr.i = false ∧
      getBit (armException h p .reset).cpsr Psr.f = false) ∧
    ∀ es : List ArmException, (∀ e ∈ es, Delivery e) →
      (AtResetVector (armException h p .reset)
        (es.foldl (armException h) (armException h p .reset)) ↔ es = []) ∧
      (es ≠ [] → InInterrupt (es.contains .fastInterrupt)
        (es.foldl (armException h) (armException h p .reset))) := by
  have masks := reset_masks h p
  refine ⟨fun disabled => ?_, masks.symm, ?_⟩
  · exact absurd (masks.2.symm.trans disabled.irq) Bool.false_ne_true
  · intro es deliveries
    cases es with
    | nil =>
      have start := reset_registers h p
      exact ⟨⟨fun _ => rfl, fun _ => ⟨start.1, start.2, rfl⟩⟩, fun other => absurd rfl other⟩
    | cons e es =>
      have first := first_interrupted h p (deliveries e List.mem_cons_self)
      have row := row_interrupted h es first fun e' later =>
        deliveries e' (List.mem_cons_of_mem _ later)
      rw [List.contains_cons, Bool.beq_comm]
      refine ⟨⟨fun still => absurd still row.notAtResetVector, fun empty => ?_⟩, fun _ => row⟩
      cases empty

theorem created_core_interrupted :
    ¬InterruptsDisabled lp64 createdCore ∧
    InInterrupt true ([ArmException.interrupt, .fastInterrupt, .interrupt].foldl (armException lp64)
      (armException lp64 createdCore .reset)) := by
  have reset := reset_leaves_interrupts_enabled lp64 createdCore
  have deliveries : ∀ e ∈ [ArmException.interrupt, .fastInterrupt, .interrupt], Delivery e := by
    simp [Delivery]
  exact ⟨reset.1, (reset.2.2 _ deliveries).2 (List.cons_ne_nil _ _)⟩

theorem reset_does_not_disable_interrupts :
    ¬∀ (h : Platform) (p : ArmCore), InterruptsDisabled h p := by
  intro claimed
  have mode := ((claimed lp64 createdCore).undisturbed [.interrupt] (by simp [Delivery])).mode
  revert mode
  decide

end ArmSimulator
