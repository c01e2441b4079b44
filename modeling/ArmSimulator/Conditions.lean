import ArmSimulator.Instruction

namespace ArmSimulator

inductive ConditionCode where
  | eq | ne | hs | lo | mi | pl | vs | vc | hi | ls | ge | lt | gt | le
deriving DecidableEq, Repr

namespace ConditionCode

def field : ConditionCode → Word
  | eq => 0#32
  | ne => 1#32
  | hs => 2#32
  | lo => 3#32
  | mi => 4#32
  | pl => 5#32
  | vs => 6#32
  | vc => 7#32
  | hi => 8#32
  | ls => 9#32
  | ge => 10#32
  | lt => 11#32
  | gt => 12#32
  | le => 13#32

def negation : ConditionCode → ConditionCode
  | eq => ne
  | ne => eq
  | hs => lo
  | lo => hs
  | mi => pl
  | pl => mi
  | vs => vc
  | vc => vs
  | hi => ls
  | ls => hi
  | ge => lt
  | lt => ge
  | gt => le
  | le => gt

def compares (a b : Word) : ConditionCode → Prop
  | eq => a = b
  | ne => a ≠ b
  | hs => b.toNat ≤ a.toNat
  | lo => a.toNat < b.toNat
  | mi => (a - b).getLsbD 31 = true
  | pl => (a - b).getLsbD 31 = false
  | vs => (a - b).toInt ≠ a.toInt - b.toInt
  | vc => (a - b).toInt = a.toInt - b.toInt
  | hi => b.toNat < a.toNat
  | ls => a.toNat ≤ b.toNat
  | ge => b.toInt ≤ a.toInt
  | lt => a.toInt < b.toInt
  | gt => b.toInt < a.toInt
  | le => a.toInt ≤ b.toInt

/-- The table of `instruction_check_condition`. -/
def holds (p : ArmCore) : ConditionCode → Bool
  | eq => armReadZ p
  | ne => !armReadZ p
  | hs => armReadC p
  | lo => !armReadC p
  | mi => armReadN p
  | pl => !armReadN p
  | vs => armReadV p
  | vc => !armReadV p
  | hi => armReadC p && !armReadZ p
  | ls => !armReadC p || armReadZ p
  | ge => armReadN p == armReadV p
  | lt => armReadN p != armReadV p
  | gt => !armReadZ p && armReadN p == armReadV p
  | le => armReadZ p || armReadN p != armReadV p

theorem check_eq_holds (p : ArmCore) {ins : Word} (code : ConditionCode)
    (coded : getBits ins 31 28 = code.field) :
    instructionCheckCondition p ins = .ofBool (code.holds p) := by
  rw [instructionCheckCondition, coded]
  cases code <;> rfl

theorem passed_iff_holds (p : ArmCore) {ins : Word} (code : ConditionCode)
    (coded : getBits ins 31 28 = code.field) :
    instructionCheckCondition p ins = .passed ↔ code.holds p = true := by
  rw [check_eq_holds p code coded]
  cases code.holds p <;> decide

theorem holds_negation (p : ArmCore) (code : ConditionCode) :
    code.negation.holds p = !code.holds p := by
  cases code <;> simp only [negation, holds] <;>
    cases armReadN p <;> cases armReadZ p <;> cases armReadC p <;> cases armReadV p <;> rfl

end ConditionCode

/-- `q` is `p` after CMP of `a` and `b`, or SUBS into a register other than the pc. -/
inductive Compared (p : ArmCore) (a b : Word) : ArmCore → Prop
  | cmp : Compared p a b (DataProcessing.cmp p a b)
  | subs (rd : Reg) : rd ≠ Reg.pc → Compared p a b (DataProcessing.sub p rd a b true)

section Flags

variable {p q : ArmCore} {a b : Word}

theorem low_word_sub (a b : Word) :
    (a.setWidth 64 - b.setWidth 64).setWidth 32 = a - b := by
  bv_omega

theorem bit31_sub (a b : Word) :
    (a.setWidth 64 - b.setWidth 64).getLsbD 31 = (a - b).msb := by
  rw [← low_word_sub, BitVec.msb_eq_getLsbD_last, BitVec.getLsbD_setWidth]
  rfl

theorem overflowFromSub_eq (a b : Word) :
    overflowFromSub a b (a.setWidth 64 - b.setWidth 64) =
      (a.msb != b.msb && a.msb != (a - b).msb) := by
  simp only [overflowFromSub, getBit_eq, bit31_sub]
  rw [← BitVec.msb_eq_getLsbD_last a, ← BitVec.msb_eq_getLsbD_last b]

theorem compared_flags (compared : Compared p a b q) :
    armReadN q = (a - b).msb ∧ armReadZ q = (a - b == 0#32) ∧ armReadC q = decide (b ≤ a) ∧
      armReadV q = (a.msb != b.msb && a.msb != (a - b).msb) := by
  have flags : q.cpsr = (DataProcessing.cmp p a b).cpsr := by
    cases compared with
    | cmp => rfl
    | subs rd notPc =>
      rw [DataProcessing.sub, writeResult_withS p notPc]
      rfl
  simp only [armReadN, armReadZ, armReadC, armReadV, getBit_eq, armReadCpsr_eq, flags,
    DataProcessing.cmp, DataProcessing.compareResult, updateNzcv_n, updateNzcv_z, updateNzcv_c,
    updateNzcv_v, Option.getD_some, overflowFromSub_eq, bit31_sub, low_word_sub, and_self]

theorem overflow_iff (a b : Word) :
    ((a.msb != b.msb && a.msb != (a - b).msb) = true) ↔ (a - b).toInt ≠ a.toInt - b.toInt := by
  have ha := a.isLt
  have hb := b.isLt
  simp only [BitVec.msb_eq_decide, BitVec.toInt_eq_toNat_cond, BitVec.toNat_sub]
  by_cases ca : 2 ^ (32 - 1) ≤ a.toNat <;> by_cases cb : 2 ^ (32 - 1) ≤ b.toNat <;>
    by_cases cd : 2 ^ (32 - 1) ≤ (2 ^ 32 - b.toNat + a.toNat) % 2 ^ 32 <;>
    simp only [ca, cb, cd, decide_true, decide_false] <;> simp <;> omega

theorem sign_eq_overflow_iff (a b : Word) :
    ((a - b).msb = (a.msb != b.msb && a.msb != (a - b).msb)) ↔ b.toInt ≤ a.toInt := by
  have exact_iff := overflow_iff a b
  have sign (x : Word) : x.msb = decide (x.toInt < 0) := BitVec.msb_eq_toInt
  cases overflow : (a.msb != b.msb && a.msb != (a - b).msb) with
  | false =>
    -- the difference is the exact one, and so is its sign
    rw [overflow] at exact_iff
    have difference : (a - b).toInt = a.toInt - b.toInt :=
      not_not.mp fun other => Bool.false_ne_true (exact_iff.mpr other)
    rw [sign, decide_eq_false_iff_not, difference]
    omega
  | true =>
    -- the operands have different signs, and the difference has the one of `b`
    rw [Bool.and_eq_true, bne_iff_ne, bne_iff_ne] at overflow
    simp only [sign, ne_eq, decide_eq_decide] at overflow
    rw [sign, decide_eq_true_iff]
    omega

theorem holds_iff_compares (compared : Compared p a b q) (code : ConditionCode) :
    code.holds q = true ↔ code.compares a b := by
  obtain ⟨n, z, c, v⟩ := compared_flags compared
  have equal : a - b = 0#32 ↔ a = b := sub_eq_zero
  have signed := sign_eq_overflow_iff a b
  have sign : (a - b).msb = (a - b).getLsbD 31 := BitVec.msb_eq_getLsbD_last _
  have overflow := overflow_iff a b
  rw [← v] at signed overflow
  rw [← n] at signed sign
  have unequal : a.toNat = b.toNat ↔ a = b := BitVec.toNat_inj
  have intEqual : a.toInt = b.toInt ↔ a = b := BitVec.toInt_inj
  cases code <;>
    simp only [ConditionCode.holds, ConditionCode.compares, z, c, sign, Bool.not_eq_true',
      beq_iff_eq, beq_eq_false_iff_ne, decide_eq_true_eq, decide_eq_false_iff_not, BitVec.le_def,
      Bool.and_eq_true, Bool.or_eq_true, bne_iff_ne, equal, ne_eq]
  all_goals grind

/-- A comparison of `a` and `b` makes each condition true exactly when its
relation holds of them; a condition and its negation never agree. -/
theorem conditions_decide_comparison (p q : ArmCore) (a b : Word) (compared : Compared p a b q) :
    (∀ (code : ConditionCode) (ins : Word), getBits ins 31 28 = code.field →
      (instructionCheckCondition q ins = .passed ↔ code.compares a b)) ∧
    ∀ (r : ArmCore) (code : ConditionCode) (ins ins' : Word), getBits ins 31 28 = code.field →
      getBits ins' 31 28 = code.negation.field →
      (instructionCheckCondition r ins' = .passed ↔ instructionCheckCondition r ins ≠ .passed) := by
  constructor
  · intro code ins coded
    rw [ConditionCode.passed_iff_holds q code coded]
    exact holds_iff_compares compared code
  · intro r code ins ins' coded coded'
    rw [ne_eq, ConditionCode.passed_iff_holds r code coded,
      ConditionCode.passed_iff_holds r code.negation coded', code.holds_negation,
      Bool.not_eq_true', Bool.not_eq_true]

theorem conditions_decide_comparison_test :
    instructionCheckCondition (DataProcessing.cmp (sampleCore 0x10 0) 0x80000000#32 1#32)
      0xBA000000#32 = .passed :=
  ((conditions_decide_comparison (sampleCore 0x10 0) _ 0x80000000#32 1#32 .cmp).1 .lt 0xBA000000#32
    (by decide)).mpr (show (0x80000000#32).toInt < (1#32).toInt by decide)

end Flags

end ArmSimulator
