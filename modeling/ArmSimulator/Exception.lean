import ArmSimulator.Core

/-! arm_exception.c: the exception handlers, and the creation of a core, which
raises RESET. -/
namespace ArmSimulator

section Handlers

variable (h : Platform)

def cp15Reg1EEbit : Bool := h.bigEndianSimulator

def highVectorsConfigured : Bool := false

/-- The address `arm_branch_exception_vector` computes from its `int8_t`. -/
def vectorAddress (vector : BitVec 8) : Word :=
  let address := vector.signExtend 32
  if highVectorsConfigured then address ||| 0xFFFF0000#32
  else (address &&& 0x0000FFFF#32) + 0x1000#32

def armBranchExceptionVector (p : ArmCore) (vector : BitVec 8) : ArmCore :=
  armWriteRegister p Reg.pc (vectorAddress vector)

def modeCpsr (cpsr : Word) (mode : Mode) : Word := setBits cpsr 4 0 (mode.setWidth 32)

def resetStack (p : ArmCore) (cpsr sp : Word) : ArmCore :=
  armWriteRegister (armWriteCpsr p cpsr) Reg.sp sp

def handleReset (p : ArmCore) : ArmCore :=
  let cpsr := armReadCpsr p
  let cpsr := clrBit cpsr Psr.f
  let cpsr := clrBit cpsr Psr.i
  let cpsr := chgBit cpsr Psr.e (cp15Reg1EEbit h)
  let cpsr := modeCpsr cpsr Mode.usr
  let p := resetStack p cpsr 0x10000#32
  let cpsr := modeCpsr cpsr Mode.fiq
  let p := resetStack p cpsr 0x10100#32
  let cpsr := modeCpsr cpsr Mode.irq
  let p := resetStack p cpsr 0x10200#32
  let cpsr := modeCpsr cpsr Mode.svc
  let p := resetStack p cpsr 0x10300#32
  let cpsr := modeCpsr cpsr Mode.abt
  let p := resetStack p cpsr 0x10400#32
  let cpsr := modeCpsr cpsr Mode.und
  let p := resetStack p cpsr 0x10500#32
  let cpsr := modeCpsr cpsr Mode.sys
  let p := resetStack p cpsr 0x10600#32
  let cpsr := modeCpsr cpsr Mode.svc
  let p := armWriteCpsr p cpsr
  armBranchExceptionVector p 0x00#8

/-- The CPSR an exception is entered with; only FIQ also disables FIQ. -/
def entryCpsr (cpsr : Word) (mode : Mode) (disableFiq : Bool) : Word :=
  let cpsr := modeCpsr cpsr mode
  let cpsr := clrBit cpsr Psr.t
  let cpsr := if disableFiq then setBit cpsr Psr.f else cpsr
  let cpsr := setBit cpsr Psr.i
  chgBit cpsr Psr.e (cp15Reg1EEbit h)

/-- The sequence shared by the six exception entries. The stack pointer of the
interrupted mode is read before the mode switch and written after it. -/
def enterException (p : ArmCore) (mode : Mode) (disableFiq : Bool) (lr : Word)
    (vector : BitVec 8) : ArmCore :=
  let cpsrCopy := armReadCpsr p
  let sp := armReadRegister p Reg.sp
  let p := armWriteCpsr p (entryCpsr h cpsrCopy mode disableFiq)
  let p := armWriteRegister p Reg.lr lr
  let p := armWriteRegister p Reg.sp sp
  let p := armWriteSpsr p cpsrCopy
  armBranchExceptionVector p vector

def handleUndefinedInstruction (p : ArmCore) : ArmCore :=
  enterException h p Mode.und false (armAddressNextInstruction p) 0x04#8

def handleSoftwareInterrup (p : ArmCore) : ArmCore :=
  enterException h p Mode.svc false (armAddressNextInstruction p) 0x08#8

def handlePrefetchAbord (p : ArmCore) : ArmCore :=
  enterException h p Mode.abt false (armAddressCurrentInstruction p + 4#32) 0x0C#8

def handleDataAbort (p : ArmCore) : ArmCore :=
  enterException h p Mode.abt false (armAddressCurrentInstruction p + 8#32) 0x10#8

def handleIrq (p : ArmCore) : ArmCore :=
  if getBit (armReadCpsr p) Psr.i then p
  else enterException h p Mode.irq false (armAddressNextInstruction p + 4#32) 0x18#8

def handleFiq (p : ArmCore) : ArmCore :=
  if getBit (armReadCpsr p) Psr.f then p
  else enterException h p Mode.fiq true (armAddressNextInstruction p + 4#32) 0x1C#8

def armException (p : ArmCore) : ArmException → ArmCore
  | .noException => p
  | .reset => handleReset h p
  | .undefinedInstruction => handleUndefinedInstruction h p
  | .softwareInterrupt => handleSoftwareInterrup h p
  | .prefetchAbort => handlePrefetchAbord h p
  | .dataAbort => handleDataAbort h p
  | .interrupt => handleIrq h p
  | .fastInterrupt => handleFiq h p

/-- `arm_create`, on a heap block whose initial content is `block`. -/
def armCreate (block : ArmCore) (mem : Memory) : ArmCore :=
  { armException h { block with mem := mem } .reset with cycleCount := 0#32 }

end Handlers

section Entry

variable (h : Platform) (p : ArmCore) (mode : Mode) (disableFiq : Bool) (lr : Word)
  (vector : BitVec 8)

theorem entryCpsr_mode (cpsr : Word) : (entryCpsr h cpsr mode disableFiq).setWidth 5 = mode := by
  apply BitVec.eq_of_getLsbD_eq
  intro i small
  have inside : i < 32 := by omega
  have apart : ∀ j ∈ [Psr.e, Psr.i, Psr.f, Psr.t], j ≠ i := by
    simp only [List.mem_cons, List.not_mem_nil, or_false, Psr.e, Psr.i, Psr.f, Psr.t]
    omega
  have fiq : ∀ x : Word, (if disableFiq then setBit x Psr.f else x).getLsbD i = x.getLsbD i := by
    intro x
    cases disableFiq with
    | false => rfl
    | true =>
      simp only [if_true, getLsbD_setBit, inside, decide_true, Bool.true_and,
        apart Psr.f (by decide), decide_false, Bool.or_false]
  rw [BitVec.getLsbD_setWidth, entryCpsr]
  simp only [getLsbD_chgBit, getLsbD_setBit, fiq, getLsbD_clrBit, modeCpsr, getLsbD_setBits,
    apart Psr.e (by decide), apart Psr.i (by decide), apart Psr.t (by decide), if_false,
    decide_false, Bool.and_false, Bool.or_false, Bool.not_false, Bool.and_true]
  simp only [small, inside, Nat.not_lt_zero, decide_false, decide_true, Bool.false_or,
    show ¬4 + 1 ≤ i by omega, Bool.false_and, Bool.not_false, Bool.true_and, Nat.sub_zero,
    BitVec.getLsbD_setWidth]

/-- `q` is `p` with an exception of `mode` entered: the return address in the
banked r14, the interrupted CPSR in the SPSR, the stack pointer carried over. -/
structure Entered (q : ArmCore) : Prop where
  cpsr : q.cpsr = entryCpsr h p.cpsr mode disableFiq
  spsr : q.spsr = Function.update p.spsr mode p.cpsr
  mem : q.mem = p.mem
  cycleCount : q.cycleCount = p.cycleCount
  pc : q.registersStorage 15 = vectorAddress vector
  lr : q.registersStorage (registers mode Reg.lr) = lr
  sp : q.registersStorage (registers mode Reg.sp) = armReadRegister p Reg.sp
  storage : ∀ k, k ≠ 15 → k ≠ registers mode Reg.lr → k ≠ registers mode Reg.sp →
    q.registersStorage k = p.registersStorage k

theorem enterException_storage :
    (enterException h p mode disableFiq lr vector).registersStorage =
      Function.update (Function.update (Function.update p.registersStorage
        (registers mode Reg.lr) lr) (registers mode Reg.sp) (armReadRegister p Reg.sp)) 15
        (vectorAddress vector) := by
  have switched := entryCpsr_mode h mode disableFiq p.cpsr
  simp only [enterException, armBranchExceptionVector, armWriteRegister, registers_pc, writeStorage,
    armWriteSpsr, armWriteCpsr, armMode_eq, armReadCpsr_eq, switched]

theorem enterException_entered :
    Entered h p mode disableFiq lr vector (enterException h p mode disableFiq lr vector) := by
  have sp_lr : ∀ m, registers m Reg.sp ≠ registers m Reg.lr := by decide
  have sp_pc : ∀ m, registers m Reg.sp ≠ 15 := by decide
  have lr_pc : ∀ m, registers m Reg.lr ≠ 15 := by decide
  have switched := entryCpsr_mode h mode disableFiq p.cpsr
  refine ⟨rfl, ?_, rfl, rfl, ?pc, ?lr, ?sp, ?storage⟩
  · simp only [enterException, armBranchExceptionVector, armWriteRegister_spsr, armWriteSpsr,
      armMode_armWriteRegister, armMode_armWriteCpsr, armReadCpsr_eq, switched,
      armWriteCpsr_spsr]
  all_goals rw [enterException_storage]
  case pc => exact Function.update_self ..
  case lr =>
    rw [Function.update_of_ne (lr_pc mode), Function.update_of_ne (sp_lr mode).symm,
      Function.update_self]
  case sp => rw [Function.update_of_ne (sp_pc mode), Function.update_self]
  case storage =>
    intro k notPc notLr notSp
    rw [Function.update_of_ne notPc, Function.update_of_ne notSp, Function.update_of_ne notLr]

end Entry

end ArmSimulator
