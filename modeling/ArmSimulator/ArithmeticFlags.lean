import ArmSimulator.CarryFlags
import ArmSimulator.Conditions

/-! ADD, CMN, SUB, CMP and RSB with S: the four flags against the exact sum or
difference of the operands, and what they leave alone. -/
namespace ArmSimulator

open CarryArithmetic

/-- From `p` to `q` the flags were set for a result `word`, an unsigned carry and
an exact signed value; the other bits of the status word are the same. -/
structure FlagsSet (word : Word) (carried : Prop) (exact : Int) (p q : ArmCore) : Prop where
  negative : armReadN q = word.getLsbD 31
  zero : armReadZ q = true ↔ word = 0#32
  carry : armReadC q = true ↔ carried
  overflow : armReadV q = true ↔ ¬(-2 ^ 31 ≤ exact ∧ exact ≤ 2 ^ 31 - 1)
  others : ∀ i < 28, q.cpsr.getLsbD i = p.cpsr.getLsbD i

def SumFlags (x y : Word) : ArmCore → ArmCore → Prop :=
  FlagsSet (x + y) (2 ^ 32 ≤ x.toNat + y.toNat) (x.toInt + y.toInt)

/-- The carry of a difference is the absence of a borrow. -/
def DifferenceFlags (x y : Word) : ArmCore → ArmCore → Prop :=
  FlagsSet (x - y) (y.toNat ≤ x.toNat) (x.toInt - y.toInt)

inductive Arithmetic where
  | add | cmn | sub | cmp | rsb

namespace Arithmetic

def opCode : Arithmetic → OpCode
  | add => .add
  | cmn => .cmn
  | sub => .sub
  | cmp => .cmp
  | rsb => .rsb

def Flags : Arithmetic → Word → Word → ArmCore → ArmCore → Prop
  | add, op1, op2 | cmn, op1, op2 => SumFlags op1 op2
  | sub, op1, op2 | cmp, op1, op2 => DifferenceFlags op1 op2
  | rsb, op1, op2 => DifferenceFlags op2 op1

end Arithmetic

section Flags

variable {p q : ArmCore} {word : Word} {carried : Prop} {exact : Int}

theorem FlagsSet.congr {p' q' : ArmCore} (set : FlagsSet word carried exact p q)
    (before : p'.cpsr = p.cpsr) (after : q'.cpsr = q.cpsr) : FlagsSet word carried exact p' q' := by
  constructor
  · rw [armReadN, armReadCpsr_eq, after]
    exact set.negative
  · rw [armReadZ, armReadCpsr_eq, after]
    exact set.zero
  · rw [armReadC, armReadCpsr_eq, after]
    exact set.carry
  · rw [armReadV, armReadCpsr_eq, after]
    exact set.overflow
  · rw [after, before]
    exact set.others

theorem compareResult_flags (p : ArmCore) {res : BitVec 64} {c v : Bool}
    (low : res.setWidth 32 = word) (carry : c = true ↔ carried)
    (overflow : v = true ↔ ¬Fits 32 exact) :
    FlagsSet word carried exact p (DataProcessing.compareResult p res c v) := by
  constructor
  · rw [armReadN, getBit_eq, armReadCpsr_eq, DataProcessing.compareResult, updateNzcv_n,
      Option.getD_some, getBit_eq, msb_word, low, BitVec.msb_eq_getLsbD_last]
  · rw [armReadZ, getBit_eq, armReadCpsr_eq, DataProcessing.compareResult, updateNzcv_z,
      Option.getD_some, low, beq_iff_eq]
  · rw [armReadC, getBit_eq, armReadCpsr_eq, DataProcessing.compareResult, updateNzcv_c,
      Option.getD_some, carry]
  · rw [armReadV, getBit_eq, armReadCpsr_eq, DataProcessing.compareResult, updateNzcv_v,
      Option.getD_some, overflow, fits_word]
  · intro i below
    exact updateNzcv_getLsbD _ _ _ _ _ below

theorem writeResult_flags {rd : Reg} (notPc : rd ≠ Reg.pc) {res : BitVec 64} {c : Bool}
    {v : Option Bool} (set : FlagsSet word carried exact p
    (DataProcessing.compareResult p res c v)) :
    FlagsSet word carried exact p (DataProcessing.writeResult p rd true res c v) := by
  rw [writeResult_withS p notPc]
  exact set.congr rfl rfl

theorem sum_flags (p : ArmCore) (x y : Word) :
    SumFlags x y p (DataProcessing.compareResult p (x.setWidth 64 + y.setWidth 64)
      (decide (0xFFFFFFFF#64 < x.setWidth 64 + y.setWidth 64))
      (overflowFromAdd x y (x.setWidth 64 + y.setWidth 64))) := by
  have low : (x.setWidth 64 + y.setWidth 64).setWidth 32 = x + y := by bv_omega
  have exact := addOverflow_iff (by decide) x y false
  simp only [addCarry, Bool.toNat_false, BitVec.add_zero, Int.natCast_zero,
    Int.add_zero] at exact
  apply compareResult_flags p low
  · rw [decide_eq_true_iff, BitVec.lt_def]
    simp only [BitVec.toNat_add, BitVec.toNat_setWidth, BitVec.toNat_ofNat]
    omega
  · rw [overflowFromAdd_iff, low, exact]

theorem difference_flags (p : ArmCore) (x y : Word) :
    DifferenceFlags x y p (DataProcessing.compareResult p (x.setWidth 64 - y.setWidth 64)
      (decide (y ≤ x)) (overflowFromSub x y (x.setWidth 64 - y.setWidth 64))) := by
  have exact := subOverflow_iff (by decide) x y false
  simp only [subBorrow, Bool.toNat_false, BitVec.sub_zero, Int.natCast_zero,
    Int.sub_zero] at exact
  apply compareResult_flags p (low_word_sub x y)
  · rw [decide_eq_true_iff, BitVec.le_def]
  · rw [overflowFromSub_iff, low_word_sub, exact]

theorem Arithmetic.run_flags (a : Arithmetic) (p : ArmCore) (rd : Reg) (op1 op2 : Word)
    (s shiftCarryOut : Bool) (writes : a.opCode.compares = false → rd ≠ Reg.pc ∧ s = true) :
    a.Flags op1 op2 p (a.opCode.run p rd op1 op2 s shiftCarryOut) := by
  cases a with
  | cmn => exact sum_flags p op1 op2
  | cmp => exact difference_flags p op1 op2
  | add =>
    obtain ⟨notPc, rfl⟩ := writes rfl
    exact writeResult_flags notPc (sum_flags p op1 op2)
  | sub =>
    obtain ⟨notPc, rfl⟩ := writes rfl
    exact writeResult_flags notPc (difference_flags p op1 op2)
  | rsb =>
    obtain ⟨notPc, rfl⟩ := writes rfl
    exact writeResult_flags notPc (difference_flags p op2 op1)

theorem OpCode.compares_storage {op : OpCode} (compares : op.compares = true) (p : ArmCore)
    (rd : Reg) (op1 op2 : Word) (s shiftCarryOut : Bool) :
    (op.run p rd op1 op2 s shiftCarryOut).registersStorage = p.registersStorage := by
  obtain ⟨res, c, v, same⟩ := OpCode.run_compares rd op1 op2 s shiftCarryOut compares
  rw [same, DataProcessing.compareResult, updateNzcv_storage]

end Flags

/-- For all operands and all states the five operations set N, Z, C and V exactly
and change no other status bit, as operations and as executed instructions; the
two comparisons write no register. -/
theorem arithmetic_flags_exact (h : Platform) :
    (∀ (a : Arithmetic) (p : ArmCore) (rd : Reg) (op1 op2 : Word) (s shiftCarryOut : Bool),
      (a.opCode.compares = false → rd ≠ Reg.pc ∧ s = true) →
      a.Flags op1 op2 p (a.opCode.run p rd op1 op2 s shiftCarryOut) ∧
      (a.opCode.compares = true →
        (a.opCode.run p rd op1 op2 s shiftCarryOut).registersStorage = p.registersStorage)) ∧
    ∀ (a : Arithmetic) (junk : Word) (p : ArmCore) (ins : Word), DataProcessingWord ins →
      armGetDpHandler ins = a.opCode → getS ins = true →
      (a.opCode.compares = false → getRd ins ≠ Reg.pc) → Fetches h p ins →
      instructionCheckCondition p ins = .passed →
      ∃ q, armStep h junk p = (q, .returned .noException) ∧
        a.Flags (dpOp1 (fetched p) ins) (shifterOperand (fetched p) ins).1 p q ∧
        (a.opCode.compares = true → q.registersStorage = (fetched p).registersStorage) := by
  constructor
  · intro a p rd op1 op2 s shiftCarryOut writes
    exact ⟨a.run_flags p rd op1 op2 s shiftCarryOut writes,
      fun compares => OpCode.compares_storage compares p rd op1 op2 s shiftCarryOut⟩
  · intro a junk p ins dataProcessing opCode withS notPc fetches passed
    refine ⟨_, armStep_dataProcessing junk dataProcessing fetches passed, ?_, ?_⟩
    · rw [opCode, withS]
      have set := a.run_flags (fetched p) (getRd ins) (dpOp1 (fetched p) ins)
        (shifterOperand (fetched p) ins).1 true (shifterOperand (fetched p) ins).2
        fun writes => ⟨notPc writes, rfl⟩
      cases a <;> exact set.congr rfl rfl
    · intro compares
      rw [opCode]
      exact OpCode.compares_storage compares _ _ _ _ _ _

theorem arithmetic_flags_samples :
    armReadZ (armStep lp64 0#32 (sampleCore 0x80000013#32 0xE1500001#32)).1 = true ∧
    armReadV (OpCode.rsb.run (sampleCore 0x13#32 0#32) 2#4 0x80000000#32 0#32 true false) =
      true := by
  have operations := (arithmetic_flags_exact lp64).1 .rsb (sampleCore 0x13#32 0#32) 2#4
    0x80000000#32 0#32 true false fun _ => ⟨by decide, rfl⟩
  obtain ⟨q, step, set, _⟩ := (arithmetic_flags_exact lp64).2 .cmp 0#32
    (sampleCore 0x80000013#32 0xE1500001#32) 0xE1500001#32 (.inl (by decide)) (by decide)
    (by decide) (fun writes => Bool.noConfusion writes) ⟨by decide, by decide⟩ (by decide)
  constructor
  · rw [step]
    exact set.zero.mpr (by decide)
  · exact operations.1.overflow.mpr (by decide)

end ArmSimulator
