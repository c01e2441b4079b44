import ArmSimulator.NoEffect
import ArmSimulator.Library.Runs

/-! Exception entry and return are inverse at any nesting. Entries push the state
they interrupt, return instructions pop it, and the banked registers of the
target modes are the stack the processor keeps of them. -/
namespace ArmSimulator

inductive Trap where
  | undefinedInstruction
  | softwareInterrupt
  | prefetchAbort
  | interrupt
  | fastInterrupt
deriving DecidableEq, Repr

namespace Trap

def mode : Trap → Mode
  | undefinedInstruction => Mode.und
  | softwareInterrupt => Mode.svc
  | prefetchAbort => Mode.abt
  | interrupt => Mode.irq
  | fastInterrupt => Mode.fiq

/-- `movs pc, lr` and `subs pc, lr, #4`. -/
def returnWord : Trap → Word
  | undefinedInstruction | softwareInterrupt => 0xE1B0F00E#32
  | prefetchAbort | interrupt | fastInterrupt => 0xE25EF004#32

/-- Where the program goes on when the trap came at the fetch from `address`. -/
def resumeAddress (address : Word) : Trap → Word
  | undefinedInstruction | softwareInterrupt => address + 4#32
  | prefetchAbort | interrupt | fastInterrupt => address

end Trap

section Machine

variable (h : Platform)

def Raises (e : ArmException) (p q : ArmCore) : Prop :=
  ∃ junk, armStep h junk p = (q, .returned e)

/-- Undefined instruction, SWI and prefetch abort come out of a step; interrupts
are delivered between steps, where the CPSR does not mask them. -/
def Enters : Trap → ArmCore → ArmCore → Prop
  | .undefinedInstruction => Raises h .undefinedInstruction
  | .softwareInterrupt => Raises h .softwareInterrupt
  | .prefetchAbort => Raises h .prefetchAbort
  | .interrupt => fun p q => getBit p.cpsr Psr.i = false ∧ q = armException h p .interrupt
  | .fastInterrupt => fun p q => getBit p.cpsr Psr.f = false ∧ q = armException h p .fastInterrupt

/-- The work of a handler between entries and returns may change memory, masks,
flags and pc, but leaves mode, SPSRs and the other registers as it found them. -/
structure Work (p q : ArmCore) : Prop where
  mode : armMode q = armMode p
  spsr : q.spsr = p.spsr
  storage : ∀ k, k ≠ 15 → q.registersStorage k = p.registersStorage k

structure Frame where
  trap : Trap
  interrupted : ArmCore

structure Nest where
  core : ArmCore
  frames : List Frame

inductive NestStep (base : Mode) : Nest → Nest → Prop
  | enter (trap : Trap) {p q : ArmCore} {frames : List Frame} : trap.mode ≠ base →
      trap.mode ≠ armMode p → (∀ f ∈ frames, f.trap.mode ≠ trap.mode) → Enters h trap p q →
      NestStep base ⟨p, frames⟩ ⟨q, ⟨trap, p⟩ :: frames⟩
  | leave (trap : Trap) (junk : Word) {p p₀ : ArmCore} {frames : List Frame} :
      Fetches h p trap.returnWord →
      NestStep base ⟨p, ⟨trap, p₀⟩ :: frames⟩ ⟨(armStep h junk p).1, frames⟩
  | work {p q : ArmCore} {frames : List Frame} : Work p q →
      NestStep base ⟨p, frames⟩ ⟨q, frames⟩

end Machine

section Entries

variable {h : Platform} {p q : ArmCore} {trap : Trap}

theorem Trap.mode_mem : ∀ trap : Trap, trap.mode ∈ exceptionModes := by
  intro trap
  cases trap <;> decide

structure Interrupted (trap : Trap) (p q : ArmCore) : Prop where
  mode : armMode q = trap.mode
  spsr : q.spsr = Function.update p.spsr trap.mode p.cpsr
  link : q.registersStorage (registers trap.mode Reg.lr) = fetchAddress p + 4#32
  storage : ∀ k, k ≠ 15 → k ≠ registers trap.mode Reg.lr → k ≠ registers trap.mode Reg.sp →
    q.registersStorage k = p.registersStorage k

theorem entry_interrupted {p' : ArmCore} {fiq : Bool} {lr : Word} {vector : BitVec 8}
    (link : lr = fetchAddress p + 4#32) (cpsr : p'.cpsr = p.cpsr) (spsr : p'.spsr = p.spsr)
    (storage : ∀ k, k ≠ 15 → p'.registersStorage k = p.registersStorage k) :
    Interrupted trap p (enterException h p' trap.mode fiq lr vector) := by
  have entered := enterException_entered h p' trap.mode fiq lr vector
  constructor
  · rw [armMode_eq, entered.cpsr, entryCpsr_mode]
  · rw [entered.spsr, cpsr, spsr]
  · exact entered.lr.trans link
  · intro k notPc notLr notSp
    exact (entered.storage k notPc notLr notSp).trans (storage k notPc)

theorem fetched_link : armAddressNextInstruction (fetched p) = fetchAddress p + 4#32 := by
  rw [armAddressNextInstruction, armReadRegister_afterFetch fetched_pc]
  bv_omega

theorem raises_exception {e : ArmException} (kind : Unexecuted e) (raised : Raises h e p q) :
    q = armException h (fetched p) e := by
  obtain ⟨junk, raised⟩ := raised
  have other : e ≠ .noException := (not_unexecuted kind (.inl rfl)).symm
  obtain ⟨outcome, entry⟩ := armStep_raised other raised
  rw [entry, armExecuteInstruction_unexecuted kind outcome]

theorem enters_interrupted (enters : Enters h trap p q) :
    Interrupted trap p q := by
  cases trap with
  | undefinedInstruction =>
    have entry : q = enterException h (fetched p) (Trap.mode .undefinedInstruction) false
        (armAddressNextInstruction (fetched p)) 0x04#8 := raises_exception (.inl rfl) enters
    rw [entry]
    exact entry_interrupted fetched_link rfl rfl fun _ => fetched_storage
  | softwareInterrupt =>
    have entry : q = enterException h (fetched p) (Trap.mode .softwareInterrupt) false
        (armAddressNextInstruction (fetched p)) 0x08#8 := raises_exception (.inr (.inl rfl)) enters
    rw [entry]
    exact entry_interrupted fetched_link rfl rfl fun _ => fetched_storage
  | prefetchAbort =>
    have entry : q = enterException h (fetched p) (Trap.mode .prefetchAbort) false
        (armAddressCurrentInstruction (fetched p) + 4#32) 0x0C#8 :=
      raises_exception (.inr (.inr rfl)) enters
    have link : armAddressCurrentInstruction (fetched p) + 4#32 = fetchAddress p + 4#32 := by
      rw [← fetched_link, armAddressCurrentInstruction, armAddressNextInstruction]
      bv_omega
    rw [entry]
    exact entry_interrupted link rfl rfl fun _ => fetched_storage
  | interrupt =>
    obtain ⟨unmasked, rfl⟩ := enters
    have entry : armException h p .interrupt =
        enterException h p (Trap.mode .interrupt) false (fetchAddress p + 4#32) 0x18#8 := by
      rw [armException, handleIrq, armReadCpsr_eq, unmasked]
      rfl
    rw [entry]
    exact entry_interrupted rfl rfl rfl fun _ _ => rfl
  | fastInterrupt =>
    obtain ⟨unmasked, rfl⟩ := enters
    have entry : armException h p .fastInterrupt =
        enterException h p (Trap.mode .fastInterrupt) true (fetchAddress p + 4#32) 0x1C#8 := by
      rw [armException, handleFiq, armReadCpsr_eq, unmasked]
      rfl
    rw [entry]
    exact entry_interrupted rfl rfl rfl fun _ _ => rfl

end Entries

section Returns

variable (h : Platform) (junk : Word) {p : ArmCore}

def returned (p : ArmCore) (address : Word) : ArmCore :=
  armWriteRegister (armWriteCpsr p (armReadSpsr p)) Reg.pc address

theorem movs_pc_lr (hasSpsr : armCurrentModeHasSpsr p = true) :
    executeFetched h junk p 0xE1B0F00E#32 =
      (returned p (armReadRegister p Reg.lr), .returned .noException) := by
  have condition : instructionCheckCondition p 0xE1B0F00E#32 = .passed := rfl
  have decoded : instructionGetHandler 0xE1B0F00E#32 = some .armDataProcessingShift := by decide
  have opCode : armGetDpHandler 0xE1B0F00E#32 = .mov := by decide
  have operand : (getShifted p 0xE1B0F00E#32).1 = armReadRegister p Reg.lr := rfl
  have rd : getRd 0xE1B0F00E#32 = Reg.pc := by decide
  have s : getS 0xE1B0F00E#32 = true := by decide
  simp only [executeFetched, condition, decoded, Handler.run, armDataProcessingShift, opCode,
    OpCode.run, DataProcessing.mov, operand, rd, s, writeResult_pc, hasSpsr, if_true, returning,
    returned, BitVec.setWidth_setWidth_of_le, Nat.reduceLeDiff, BitVec.setWidth_eq]

theorem subs_pc_lr (hasSpsr : armCurrentModeHasSpsr p = true) :
    executeFetched h junk p 0xE25EF004#32 =
      (returned p (armReadRegister p Reg.lr - 4#32), .returned .noException) := by
  have condition : instructionCheckCondition p 0xE25EF004#32 = .passed := rfl
  have decoded : instructionGetHandler 0xE25EF004#32 = some .armDataProcessingImmediate := by decide
  have opCode : armGetDpHandler 0xE25EF004#32 = .sub := by decide
  have operand : (getImmediate p 0xE25EF004#32).1 = 4#32 := rfl
  have op1 : dpOp1 p 0xE25EF004#32 = armReadRegister p Reg.lr := rfl
  have rd : getRd 0xE25EF004#32 = Reg.pc := by decide
  have s : getS 0xE25EF004#32 = true := by decide
  have low : ((armReadRegister p Reg.lr).setWidth 64 - (4#32).setWidth 64).setWidth 32 =
      armReadRegister p Reg.lr - 4#32 := by
    bv_omega
  simp only [executeFetched, condition, decoded, Handler.run, armDataProcessingImmediate, opCode,
    OpCode.run, DataProcessing.sub, operand, op1, rd, s, writeResult_pc, hasSpsr, if_true,
    returning, returned, low]

theorem Trap.has_spsr {trap : Trap} (mode : armMode p = trap.mode) :
    armCurrentModeHasSpsr p = true := by
  rw [armCurrentModeHasSpsr, mode]
  cases trap <;> rfl

/-- A step on the return instruction goes back to the resume address of the
fetch that was interrupted, four below the link register. -/
theorem return_step {trap : Trap} (mode : armMode p = trap.mode)
    (fetches : Fetches h p trap.returnWord) :
    armStep h junk p = (returned (fetched p) (trap.resumeAddress (armReadRegister p Reg.lr - 4#32)),
      .returned .noException) := by
  have hasSpsr : armCurrentModeHasSpsr (fetched p) = true := Trap.has_spsr (p := fetched p) mode
  have link : armReadRegister (fetched p) Reg.lr = armReadRegister p Reg.lr :=
    armReadRegister_armWriteRegister_other _ _ _ _ (by decide)
  rw [armStep, armExecuteInstruction_fetches fetches]
  cases trap with
  | undefinedInstruction | softwareInterrupt =>
    simp only [Trap.returnWord, movs_pc_lr h junk hasSpsr, link, Trap.resumeAddress,
      BitVec.sub_add_cancel, ne_eq, not_true_eq_false, if_false]
  | prefetchAbort | interrupt | fastInterrupt =>
    simp only [Trap.returnWord, subs_pc_lr h junk hasSpsr, link, Trap.resumeAddress,
      ne_eq, not_true_eq_false, if_false]

theorem returned_storage (address : Word) {k : Fin 31} (notPc : k ≠ 15) :
    (returned p address).registersStorage k = p.registersStorage k := by
  rw [returned, armWriteRegister_storage_other _ _ _ _ (by rwa [registers_pc]),
    armWriteCpsr_storage]

theorem returned_pc (address : Word) : (returned p address).registersStorage 15 = address := by
  rw [← registers_pc (armMode (armWriteCpsr p (armReadSpsr p)))]
  exact armWriteRegister_self _ _ _

theorem resumeAddress_clear (trap : Trap) {address : Word} (clear : address.toNat % 4 < 2) :
    (trap.resumeAddress address).toNat % 4 < 2 := by
  cases trap with
  | undefinedInstruction | softwareInterrupt => exact clear_add_four clear
  | prefetchAbort | interrupt | fastInterrupt => exact clear

end Returns

section Invariant

variable {h : Platform} {base : Mode}

def currentMode (base : Mode) : List Frame → Mode
  | [] => base
  | f :: _ => f.trap.mode

/-- Each entry interrupted the mode of the one below, for a mode not yet in use. -/
def Linked (base : Mode) : List Frame → Prop
  | [] => True
  | f :: rest => armMode f.interrupted = currentMode base rest ∧ f.trap.mode ≠ base ∧
      (∀ g ∈ rest, g.trap.mode ≠ f.trap.mode) ∧ Linked base rest

structure Holds (f : Frame) (p : ArmCore) : Prop where
  cpsr : p.spsr f.trap.mode = f.interrupted.cpsr
  link : p.registersStorage (registers f.trap.mode Reg.lr) = fetchAddress f.interrupted + 4#32
  visible : ∀ reg, reg ≠ Reg.pc →
    p.registersStorage (registers (armMode f.interrupted) reg) =
      f.interrupted.registersStorage (registers (armMode f.interrupted) reg)

structure WellNested (base : Mode) (s : Nest) : Prop where
  mode : armMode s.core = currentMode base s.frames
  linked : Linked base s.frames
  holds : ∀ f ∈ s.frames, Holds f s.core

theorem Linked.interrupted_mode {frames : List Frame} (linked : Linked base frames) {f : Frame}
    (inside : f ∈ frames) :
    armMode f.interrupted = base ∨ ∃ g ∈ frames, armMode f.interrupted = g.trap.mode := by
  induction frames with
  | nil => cases inside
  | cons g rest ih =>
    obtain ⟨below, _, _, linked⟩ := linked
    rcases List.mem_cons.mp inside with rfl | inside
    · cases rest with
      | nil => exact .inl below
      | cons g' rest => exact .inr ⟨g', by simp, below⟩
    · rcases ih linked inside with isBase | ⟨g', inside', same⟩
      · exact .inl isBase
      · exact .inr ⟨g', List.mem_cons_of_mem g inside', same⟩

theorem Holds.keep {f : Frame} {p q : ArmCore} (holds : Holds f p)
    (spsr : q.spsr f.trap.mode = p.spsr f.trap.mode)
    (storage : ∀ mode, mode = f.trap.mode ∨ mode = armMode f.interrupted → ∀ reg, reg ≠ Reg.pc →
      q.registersStorage (registers mode reg) = p.registersStorage (registers mode reg)) :
    Holds f q where
  cpsr := spsr.trans holds.cpsr
  link := (storage _ (.inl rfl) Reg.lr (by decide)).trans holds.link
  visible reg notPc := (storage _ (.inr rfl) reg notPc).trans (holds.visible reg notPc)

theorem enter_wellNested {trap : Trap} {p q : ArmCore} {frames : List Frame}
    (notBase : trap.mode ≠ base) (notCurrent : trap.mode ≠ armMode p)
    (unused : ∀ f ∈ frames, f.trap.mode ≠ trap.mode) (enters : Enters h trap p q)
    (nested : WellNested base ⟨p, frames⟩) : WellNested base ⟨q, ⟨trap, p⟩ :: frames⟩ := by
  have entry := enters_interrupted enters
  have elsewhere : ∀ mode, mode ≠ trap.mode → ∀ reg, reg ≠ Reg.pc →
      q.registersStorage (registers mode reg) = p.registersStorage (registers mode reg) := by
    intro mode other reg notPc
    obtain ⟨notSp, notLr⟩ := registers_other_mode trap.mode trap.mode_mem mode reg other notPc
    exact entry.storage _ (registers_ne_pc mode reg notPc) notLr notSp
  refine ⟨entry.mode, ⟨nested.mode, notBase, unused, nested.linked⟩, ?_⟩
  intro f inside
  rcases List.mem_cons.mp inside with rfl | inside
  · exact ⟨by rw [entry.spsr, Function.update_self], entry.link, elsewhere _ notCurrent.symm⟩
  · apply (nested.holds f inside).keep
    · rw [entry.spsr, Function.update_of_ne (unused f inside)]
    -- neither its own mode nor the one it interrupted is the mode that is entered
    · rintro mode (rfl | rfl)
      · exact elsewhere _ (unused f inside)
      · rcases nested.linked.interrupted_mode inside with isBase | ⟨g, inside', same⟩
        · exact elsewhere _ (isBase ▸ notBase.symm)
        · exact elsewhere _ (same ▸ unused g inside')

structure Resumed (f : Frame) (q : ArmCore) : Prop where
  cpsr : q.cpsr = f.interrupted.cpsr
  next : fetchAddress q = f.trap.resumeAddress (fetchAddress f.interrupted)
  registers : ∀ reg, reg ≠ Reg.pc → armReadRegister q reg = armReadRegister f.interrupted reg

section Leave

variable {f : Frame} {p : ArmCore} {rest : List Frame} (nested : WellNested base ⟨p, f :: rest⟩)
include nested

theorem leave_step (fetches : Fetches h p f.trap.returnWord) (junk : Word) : armStep h junk p =
    (returned (fetched p) (f.trap.resumeAddress (fetchAddress f.interrupted)),
      .returned .noException) := by
  have mode : armMode p = f.trap.mode := nested.mode
  have link := (nested.holds f (by simp)).link
  rw [return_step h junk mode fetches, armReadRegister_of_ne (by decide), mode]
  simp only at link
  rw [link, BitVec.add_sub_cancel]

theorem leave_cpsr (address : Word) : (returned (fetched p) address).cpsr = f.interrupted.cpsr := by
  have saved := (nested.holds f (by simp)).cpsr
  have mode : armMode p = f.trap.mode := nested.mode
  rw [← saved, ← mode]
  rfl

omit nested in
theorem leave_storage (address : Word) {k : Fin 31} (notPc : k ≠ 15) :
    (returned (fetched p) address).registersStorage k = p.registersStorage k :=
  (returned_storage address notPc).trans (fetched_storage notPc)

theorem leave_wellNested : WellNested base
    ⟨returned (fetched p) (f.trap.resumeAddress (fetchAddress f.interrupted)), rest⟩ := by
  obtain ⟨below, _, _, linked⟩ := nested.linked
  refine ⟨?_, linked, ?_⟩
  · rw [← below]
    exact armMode_congr (leave_cpsr nested _)
  · intro g inside
    refine (nested.holds g (List.mem_cons_of_mem f inside)).keep rfl ?_
    intro mode _ reg notPc
    exact leave_storage _ (registers_ne_pc mode reg notPc)

theorem leave_resumed :
    Resumed f (returned (fetched p) (f.trap.resumeAddress (fetchAddress f.interrupted))) := by
  have clear := resumeAddress_clear f.trap (fetchAddress_clear f.interrupted)
  refine ⟨leave_cpsr nested _, ?_, ?_⟩
  · rw [fetchAddress_of_clear (by rwa [returned_pc]), returned_pc]
  · intro reg notPc
    rw [armReadRegister_of_ne notPc, armReadRegister_of_ne notPc,
      armMode_congr (leave_cpsr nested _), leave_storage _ (registers_ne_pc _ reg notPc)]
    exact (nested.holds f (by simp)).visible reg notPc

end Leave

theorem work_wellNested {p q : ArmCore} {frames : List Frame} (work : Work p q)
    (nested : WellNested base ⟨p, frames⟩) : WellNested base ⟨q, frames⟩ := by
  refine ⟨work.mode.trans nested.mode, nested.linked, ?_⟩
  intro f inside
  apply (nested.holds f inside).keep (congrFun work.spsr _)
  intro mode _ reg notPc
  exact work.storage _ (registers_ne_pc mode reg notPc)

theorem nestStep_wellNested (s t : Nest) (step : NestStep h base s t)
    (nested : WellNested base s) : WellNested base t := by
  cases step with
  | enter trap notBase notCurrent unused enters =>
    exact enter_wellNested notBase notCurrent unused enters nested
  | leave trap junk fetches =>
    rw [leave_step nested fetches junk]
    exact leave_wellNested nested
  | work work => exact work_wellNested work nested

/-- Wherever a well-nested sequence has led to, the return instruction of the
latest open entry goes back to what that entry interrupted. -/
theorem nested_exceptions_return (h : Platform) (p₀ p : ArmCore) (f : Frame) (rest : List Frame)
    (run : Relation.ReflTransGen (NestStep h (armMode p₀)) ⟨p₀, []⟩ ⟨p, f :: rest⟩)
    (fetches : Fetches h p f.trap.returnWord) (junk : Word) :
    ∃ q, armStep h junk p = (q, .returned .noException) ∧ Resumed f q := by
  have start : WellNested (armMode p₀) ⟨p₀, []⟩ := ⟨rfl, trivial, nofun⟩
  have nested := Runs.invariant nestStep_wellNested start run
  exact ⟨_, leave_step nested fetches junk, leave_resumed nested⟩

def littleEndianSimulator : Platform := { lp64 with bigEndianSimulator := false }

def swiProgram : ArmCore :=
  let word (a : Word) : Word :=
    if a < 0x1000#32 then 0xEF000000#32
    else if a = vectorAddress 0x18#8 then 0xE25EF004#32 else 0xE1B0F00E#32
  { sampleCore 0x10 0 with
    mem := ⟨fun a => (word (a &&& ~~~3#32) >>> (8 * (a.toNat % 4))).setWidth 8, 0x2000⟩ }

def swiEntered : ArmCore := (armStep littleEndianSimulator 0 swiProgram).1

def swiEnabled : ArmCore := { swiEntered with cpsr := clrBit swiEntered.cpsr Psr.i }

theorem nested_exceptions_return_irq_in_swi : ∃ q r,
    armStep littleEndianSimulator 0 (armException littleEndianSimulator swiEnabled .interrupt) =
        (q, .returned .noException) ∧
      q.cpsr = swiEnabled.cpsr ∧ fetchAddress q = fetchAddress swiEnabled ∧
      armStep littleEndianSimulator 0 q = (r, .returned .noException) ∧
      r.cpsr = 0x10 ∧ fetchAddress r = 4 := by
  have raised : (armStep littleEndianSimulator 0 swiProgram).2 = .returned .softwareInterrupt := by
    decide +kernel
  have enters : NestStep littleEndianSimulator (armMode swiProgram) ⟨swiProgram, []⟩
      ⟨swiEntered, [⟨.softwareInterrupt, swiProgram⟩]⟩ :=
    .enter .softwareInterrupt (by decide) (by decide) nofun ⟨0, Prod.ext rfl raised⟩
  have enables : NestStep littleEndianSimulator (armMode swiProgram)
      ⟨swiEntered, [⟨.softwareInterrupt, swiProgram⟩]⟩
      ⟨swiEnabled, [⟨.softwareInterrupt, swiProgram⟩]⟩ :=
        .work ⟨by decide +kernel, rfl, fun _ _ => rfl⟩
  have interrupted : NestStep littleEndianSimulator (armMode swiProgram)
      ⟨swiEnabled, [⟨.softwareInterrupt, swiProgram⟩]⟩
      ⟨armException littleEndianSimulator swiEnabled .interrupt,
        [⟨.interrupt, swiEnabled⟩, ⟨.softwareInterrupt, swiProgram⟩]⟩ :=
    .enter .interrupt (by decide) (by decide +kernel)
      (fun f inside => List.mem_singleton.mp inside ▸ by decide) ⟨by decide +kernel, rfl⟩
  have both := ((Relation.ReflTransGen.single enters).tail enables).tail interrupted
  have there : Fetches littleEndianSimulator
      (armException littleEndianSimulator swiEnabled .interrupt) 0xE25EF004#32 :=
    ⟨by decide +kernel, by decide +kernel⟩
  obtain ⟨q, step, resumed⟩ := nested_exceptions_return _ _ _ _ _ both there 0
  have back : q = (armStep littleEndianSimulator 0
      (armException littleEndianSimulator swiEnabled .interrupt)).1 := congrArg Prod.fst step.symm
  have left := both.tail (.leave .interrupt 0 there)
  rw [← back] at left
  have here : Fetches littleEndianSimulator q 0xE1B0F00E#32 := by
    rw [back]
    exact ⟨by decide +kernel, by decide +kernel⟩
  obtain ⟨r, step', resumed'⟩ := nested_exceptions_return _ _ _ _ _ left here 0
  exact ⟨q, r, step, resumed.cpsr, resumed.next, step', resumed'.cpsr, resumed'.next⟩

end Invariant

end ArmSimulator
