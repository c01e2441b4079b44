import ArmSimulator.LoadStore

/-! arm_branch_other.c: branches, SWI, MRS and MSR. -/
namespace ArmSimulator

variable (p : ArmCore) (ins : Word)

def armBranch : ArmCore × ArmException :=
  let valPc := armReadRegister p Reg.pc
  let p := if getBit ins 24 then armWriteRegister p Reg.lr (valPc - 4#32) else p
  let signedImmed := getBits ins 23 0
  let address := valPc + (signExtend24To30 signedImmed <<< 2)
  (armWriteRegister p Reg.pc address, .noException)

/-- `swi 0x123456` ends the simulation. -/
def armCoprocessorOthersSwi : ArmCore × Outcome :=
  if getBit ins 24 then
    if ins &&& 0xFFFFFF#32 = 0x123456#32 then (p, .exited)
    else (p, .returned .softwareInterrupt)
  else (p, .returned .undefinedInstruction)

def armMiscellaneous : ArmCore × ArmException := (p, .undefinedInstruction)

def armMrs : ArmCore × ArmException :=
  let rd := getReg ins 15 12
  let value := if getBit ins 22 then armReadSpsr p else armReadCpsr p
  (armWriteRegister p rd value, .noException)

def unallocMask : Word := 0x0FFFFF00#32
def userMask : Word := 0xF0000000#32
def privMask : Word := 0x0000000F#32
def stateMask : Word := 0x00000020#32

/-- The operand of MSR; immediate and rotation are `int8_t`. -/
def msrOperand : Word :=
  if getBit ins 25 then
    let immediate : Byte := (getBits ins 7 0).setWidth 8
    let rotateImm : Byte := (getBits ins 11 8).setWidth 8
    ror (immediate.signExtend 32) (rotateImm.toNat * 2)
  else armReadRegister p (getReg ins 3 0)

def msrByteMask : Word :=
  (if getBit ins 16 then 0x000000FF#32 else 0#32)
    ||| (if getBit ins 17 then 0x0000FF00#32 else 0#32)
    ||| (if getBit ins 18 then 0x00FF0000#32 else 0#32)
    ||| (if getBit ins 19 then 0xFF000000#32 else 0#32)

/-- The CPSR bits MSR may write: none when a privileged mode tries to set T. -/
def msrCpsrMask (operand : Word) : Word :=
  if armInAPrivilegedMode p then
    if operand &&& stateMask = 0#32 then msrByteMask ins &&& (userMask ||| privMask) else 0#32
  else msrByteMask ins &&& userMask

def armMsr : ArmCore × ArmException :=
  let operand := msrOperand p ins
  if getBit ins 22 then
    if armCurrentModeHasSpsr p then
      let mask := msrByteMask ins &&& (userMask ||| privMask ||| stateMask)
      (armWriteSpsr p ((armReadSpsr p &&& ~~~mask) ||| (operand &&& mask)), .noException)
    else (p, .noException)
  else
    let mask := msrCpsrMask p ins operand
    (armWriteCpsr p ((armReadCpsr p &&& ~~~mask) ||| (operand &&& mask)), .noException)

end ArmSimulator
