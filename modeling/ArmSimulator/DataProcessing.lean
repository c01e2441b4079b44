import ArmSimulator.Core

/-! arm_data_processing.c: shifter operands and the sixteen operations. -/
namespace ArmSimulator

def getReg (ins : Word) (h l : Nat) : Reg := (getBits ins h l).setWidth 4

/- Shifts return the operand and the shifter carry-out. -/
section Shifter

def dpLsl (p : ArmCore) (op : Word) (value : Byte) : Word × Bool :=
  if value = 0#8 then (op, armReadC p)
  else if value < 32#8 then (op <<< value.toNat, getBit op (32 - value.toNat))
  else (0#32, if value = 32#8 then getBit op 0 else false)

def dpLsr (p : ArmCore) (op : Word) (value : Byte) : Word × Bool :=
  if value = 0#8 then (op, armReadC p)
  else if value < 32#8 then (op >>> value.toNat, getBit op (value.toNat - 1))
  else (0#32, if value = 32#8 then getBit op 31 else false)

def dpAsr (p : ArmCore) (op : Word) (value : Byte) : Word × Bool :=
  if value = 0#8 then (op, armReadC p)
  else if value < 32#8 then (asr op value.toNat, getBit op (value.toNat - 1))
  else (if getBit op 31 then 0xFFFFFFFF#32 else 0#32, getBit op 31)

def dpRorRrx (p : ArmCore) (op : Word) (value : Byte) : Word × Bool :=
  if value = 0#8 then ((bit 32 (armReadC p) <<< 31) ||| (op >>> 1), getBit op 0)
  else if getBits value 4 0 = 0#8 then (op, getBit op 31)
  else (ror op value.toNat, getBit op ((getBits value 4 0).toNat - 1))

def getImmediate (p : ArmCore) (ins : Word) : Word × Bool :=
  let imm8 := getBits ins 7 0
  let rotateImm := getBits ins 11 8
  let res := ror imm8 (rotateImm.toNat * 2)
  (res, if rotateImm = 0#32 then armReadC p else getBit res 31)

def getShifted (p : ArmCore) (ins : Word) : Word × Bool :=
  let shiftImm : Byte := (getBits ins 11 7).setWidth 8
  let shiftCode := getBits ins 6 5
  let res := armReadRegister p (getReg ins 3 0)
  let shiftValue : Byte :=
    if getBit ins 4 then (armReadRegister p (getReg ins 11 8)).setWidth 8 else shiftImm
  match shiftCode with
  | 0#32 => if shiftImm = 0#8 then (res, armReadC p) else dpLsl p res shiftValue
  | 1#32 => dpLsr p res shiftValue
  | 2#32 => dpAsr p res shiftValue
  | _ => dpRorRrx p res shiftValue

end Shifter

def overflowFromAdd (op1 op2 : Word) (res : BitVec 64) : Bool :=
  getBit op1 31 == getBit op2 31 && getBit op1 31 != getBit res 31

def overflowFromSub (op1 op2 : Word) (res : BitVec 64) : Bool :=
  getBit op1 31 != getBit op2 31 && getBit op1 31 != getBit res 31

/- The operations, each in the shape of its C function: a 64-bit result, the
flags it sets, and the common ending of the twelve that write a register. -/
namespace DataProcessing

/-- The ending of the operations that write `rd`. With S and the pc as
destination the SPSR is copied to the CPSR, where the mode has one. -/
def writeResult (p : ArmCore) (rd : Reg) (s : Bool) (res : BitVec 64) (c : Bool)
    (v : Option Bool) : ArmCore :=
  let p :=
    if s then
      if rd ≠ Reg.pc then
        updateNzcv p (getBit res 31) (res.setWidth 32 == 0#32) c v
      else if armCurrentModeHasSpsr p then armWriteCpsr p (armReadSpsr p)
      else p
    else p
  armWriteRegister p rd (res.setWidth 32)

def compareResult (p : ArmCore) (res : BitVec 64) (c : Bool) (v : Option Bool) : ArmCore :=
  updateNzcv p (getBit res 31) (res.setWidth 32 == 0#32) c v

variable (p : ArmCore) (rd : Reg) (op1 op2 : Word) (s shiftCarryOut : Bool)

def and : ArmCore :=
  let res := (op1 &&& op2).setWidth 64
  writeResult p rd s res shiftCarryOut none

def eor : ArmCore :=
  let res := (op1 ^^^ op2).setWidth 64
  writeResult p rd s res shiftCarryOut none

def sub : ArmCore :=
  let res := op1.setWidth 64 - op2.setWidth 64
  writeResult p rd s res (decide (op2 ≤ op1)) (overflowFromSub op1 op2 res)

def rsb : ArmCore :=
  let res := op2.setWidth 64 - op1.setWidth 64
  writeResult p rd s res (decide (op1 ≤ op2)) (overflowFromSub op2 op1 res)

def add : ArmCore :=
  let res := op1.setWidth 64 + op2.setWidth 64
  writeResult p rd s res (decide (0xFFFFFFFF#64 < res)) (overflowFromAdd op1 op2 res)

def adc : ArmCore :=
  let c := armReadC p
  let res := op1.setWidth 64 + op2.setWidth 64 + bit 64 c
  writeResult p rd s res (decide (0xFFFFFFFF#64 < res)) (overflowFromAdd op1 (op2 + bit 32 c) res)

def sbc : ArmCore :=
  let c := armReadC p
  let res := op1.setWidth 64 - op2.setWidth 64 - bit 64 (!c)
  writeResult p rd s res (decide (op2 + bit 32 c ≤ op1))
    (overflowFromSub op1 (op2 - bit 32 (!c)) res)

def rsc : ArmCore :=
  let c := armReadC p
  let res := op2.setWidth 64 - op1.setWidth 64 - bit 64 (!c)
  writeResult p rd s res (decide (op1 + bit 32 c ≤ op2))
    (overflowFromSub op2 (op1 - bit 32 (!c)) res)

def tst : ArmCore :=
  let res := (op1 &&& op2).setWidth 64
  compareResult p res shiftCarryOut none

def teq : ArmCore :=
  let res := (op1 ^^^ op2).setWidth 64
  compareResult p res shiftCarryOut none

def cmp : ArmCore :=
  let res := op1.setWidth 64 - op2.setWidth 64
  compareResult p res (decide (op2 ≤ op1)) (overflowFromSub op1 op2 res)

def cmn : ArmCore :=
  let res := op1.setWidth 64 + op2.setWidth 64
  compareResult p res (decide (0xFFFFFFFF#64 < res)) (overflowFromAdd op1 op2 res)

def orr : ArmCore :=
  let res := (op1 ||| op2).setWidth 64
  writeResult p rd s res shiftCarryOut none

def mov : ArmCore :=
  let res := op2.setWidth 64
  writeResult p rd s res shiftCarryOut none

def bic : ArmCore :=
  let res := (op1 &&& ~~~op2).setWidth 64
  writeResult p rd s res shiftCarryOut none

def mvn : ArmCore :=
  let res := (~~~op2).setWidth 64
  writeResult p rd s res shiftCarryOut none

end DataProcessing

/-- `op_code_t`, which also names the handler of the operation. -/
inductive OpCode where
  | and | eor | sub | rsb | add | adc | sbc | rsc
  | tst | teq | cmp | cmn | orr | mov | bic | mvn
deriving DecidableEq, Repr

def OpCode.run (op : OpCode) (p : ArmCore) (rd : Reg) (op1 op2 : Word) (s shiftCarryOut : Bool) :
    ArmCore :=
  match op with
  | .and => DataProcessing.and p rd op1 op2 s shiftCarryOut
  | .eor => DataProcessing.eor p rd op1 op2 s shiftCarryOut
  | .sub => DataProcessing.sub p rd op1 op2 s
  | .rsb => DataProcessing.rsb p rd op1 op2 s
  | .add => DataProcessing.add p rd op1 op2 s
  | .adc => DataProcessing.adc p rd op1 op2 s
  | .sbc => DataProcessing.sbc p rd op1 op2 s
  | .rsc => DataProcessing.rsc p rd op1 op2 s
  | .tst => DataProcessing.tst p op1 op2 shiftCarryOut
  | .teq => DataProcessing.teq p op1 op2 shiftCarryOut
  | .cmp => DataProcessing.cmp p op1 op2
  | .cmn => DataProcessing.cmn p op1 op2
  | .orr => DataProcessing.orr p rd op1 op2 s shiftCarryOut
  | .mov => DataProcessing.mov p rd op2 s shiftCarryOut
  | .bic => DataProcessing.bic p rd op1 op2 s shiftCarryOut
  | .mvn => DataProcessing.mvn p rd op2 s shiftCarryOut

/-- `arm_get_dp_handler`; the field has four bits, so the default is MVN. -/
def armGetDpHandler (ins : Word) : OpCode :=
  match getBits ins 24 21 with
  | 0#32 => .and
  | 1#32 => .eor
  | 2#32 => .sub
  | 3#32 => .rsb
  | 4#32 => .add
  | 5#32 => .adc
  | 6#32 => .sbc
  | 7#32 => .rsc
  | 8#32 => .tst
  | 9#32 => .teq
  | 10#32 => .cmp
  | 11#32 => .cmn
  | 12#32 => .orr
  | 13#32 => .mov
  | 14#32 => .bic
  | _ => .mvn

def getRd (ins : Word) : Reg := getReg ins 15 12
def getRn (ins : Word) : Reg := getReg ins 19 16
def getS (ins : Word) : Bool := getBit ins 20

def dpOp1 (p : ArmCore) (ins : Word) : Word :=
  if armGetDpHandler ins ≠ .mov ∧ armGetDpHandler ins ≠ .mvn then armReadRegister p (getRn ins)
  else 0#32

def armDataProcessingShift (p : ArmCore) (ins : Word) : ArmCore × ArmException :=
  let op2 := getShifted p ins
  ((armGetDpHandler ins).run p (getRd ins) (dpOp1 p ins) op2.1 (getS ins) op2.2, .noException)

def armDataProcessingImmediate (p : ArmCore) (ins : Word) : ArmCore × ArmException :=
  let op2 := getImmediate p ins
  ((armGetDpHandler ins).run p (getRd ins) (dpOp1 p ins) op2.1 (getS ins) op2.2, .noException)

section Shapes

open DataProcessing

def OpCode.compares : OpCode → Bool
  | .tst | .teq | .cmp | .cmn => true
  | _ => false

variable (p : ArmCore) (rd : Reg) (op1 op2 : Word) (s shiftCarryOut : Bool)

theorem dpOp1_congr {p q : ArmCore} (regs : ∀ r, armReadRegister q r = armReadRegister p r)
    (ins : Word) : dpOp1 q ins = dpOp1 p ins := by
  rw [dpOp1, dpOp1, regs]

theorem getImmediate_congr {p q : ArmCore} (carry : armReadC q = armReadC p) (ins : Word) :
    getImmediate q ins = getImmediate p ins := by
  rw [getImmediate, getImmediate, carry]

theorem getShifted_congr {p q : ArmCore} (regs : ∀ r, armReadRegister q r = armReadRegister p r)
    (carry : armReadC q = armReadC p) (ins : Word) : getShifted q ins = getShifted p ins := by
  simp only [getShifted, dpLsl, dpLsr, dpAsr, dpRorRrx, regs, carry]

theorem OpCode.run_writes {op : OpCode} (writes : op.compares = false) :
    ∃ res c v, op.run p rd op1 op2 s shiftCarryOut = writeResult p rd s res c v := by
  cases op <;> first | exact ⟨_, _, _, rfl⟩ | cases writes

theorem OpCode.run_compares {op : OpCode} (compares : op.compares = true) :
    ∃ res c v, ∀ p, op.run p rd op1 op2 s shiftCarryOut = compareResult p res c v := by
  cases op <;> first | exact ⟨_, _, _, fun _ => rfl⟩ | cases compares

theorem writeResult_withoutS (res : BitVec 64) (c : Bool) (v : Option Bool) :
    writeResult p rd false res c v = armWriteRegister p rd (res.setWidth 32) := rfl

theorem writeResult_withS {rd : Reg} (notPc : rd ≠ Reg.pc) (res : BitVec 64) (c : Bool)
    (v : Option Bool) : writeResult p rd true res c v =
      armWriteRegister (compareResult p res c v) rd (res.setWidth 32) := by
  simp only [writeResult, compareResult, if_true, ne_eq, notPc, not_false_eq_true]

theorem writeResult_pc (res : BitVec 64) (c : Bool) (v : Option Bool) :
    writeResult p Reg.pc true res c v =
      armWriteRegister (if armCurrentModeHasSpsr p then armWriteCpsr p (armReadSpsr p) else p)
        Reg.pc (res.setWidth 32) := by
  simp only [writeResult, if_true, ne_eq, not_true_eq_false, if_false]

theorem armReadRegister_withS_self {rd : Reg} (notPc : rd ≠ Reg.pc) (res : BitVec 64) (c : Bool)
    (v : Option Bool) : armReadRegister (writeResult p rd true res c v) rd = res.setWidth 32 := by
  rw [writeResult_withS p notPc, armReadRegister_armWriteRegister_self _ _ _ notPc]

theorem armReadRegister_withS_other {rd r : Reg} (notPc : rd ≠ Reg.pc) (other : r ≠ rd)
    (res : BitVec 64) (c : Bool) (v : Option Bool) :
    armReadRegister (writeResult p rd true res c v) r = armReadRegister p r := by
  rw [writeResult_withS p notPc, armReadRegister_armWriteRegister_other _ _ _ _ other]
  simp only [armReadRegister, compareResult, armMode_updateNzcv, updateNzcv_storage]

theorem armReadC_withS {rd : Reg} (notPc : rd ≠ Reg.pc) (res : BitVec 64) (c : Bool)
    (v : Option Bool) : armReadC (writeResult p rd true res c v) = c := by
  rw [writeResult_withS p notPc, armReadC, getBit_eq, armReadCpsr_eq, armWriteRegister_cpsr,
    compareResult, updateNzcv_c, Option.getD_some]

end Shapes

end ArmSimulator
