import ArmSimulator.MultiWordAdd
import ArmSimulator.Library.CarryArithmetic

/-! ADC, SBC and RSC with S: the word they write and the flags they set,
against the exact sum or difference of the operands and the carry. -/
namespace ArmSimulator

open CarryArithmetic

structure Added (rd : Reg) (x y : Word) (c : Bool) (q : ArmCore) : Prop where
  word : (armReadRegister q rd).toNat = (x.toNat + y.toNat + c.toNat) % 2 ^ 32
  carry : armReadC q = true ↔ 2 ^ 32 ≤ x.toNat + y.toNat + c.toNat
  overflow : armReadV q = true ↔
    ¬ (-2 ^ 31 ≤ x.toInt + y.toInt + c.toNat ∧ x.toInt + y.toInt + c.toNat ≤ 2 ^ 31 - 1)

structure Subtracted (rd : Reg) (x y : Word) (c : Bool) (q : ArmCore) : Prop where
  word : ((armReadRegister q rd).toNat : Int) = (x.toNat - y.toNat - (1 - c.toNat)) % 2 ^ 32
  negative : armReadN q = true ↔ (armReadRegister q rd).toInt < 0
  zero : armReadZ q = true ↔ armReadRegister q rd = 0#32
  carry : armReadC q = true ↔ y.toNat + (1 - c.toNat) ≤ x.toNat
  overflow : armReadV q = true ↔
    ¬ (-2 ^ 31 ≤ x.toInt - y.toInt - (1 - c.toNat) ∧
      x.toInt - y.toInt - (1 - c.toNat) ≤ 2 ^ 31 - 1)

section Results

variable (p : ArmCore) {rd : Reg} (res : BitVec 64)

theorem flags_withS (notPc : rd ≠ Reg.pc) (c v : Bool) :
    armReadN (DataProcessing.writeResult p rd true res c v) = res.getLsbD 31 ∧
      armReadZ (DataProcessing.writeResult p rd true res c v) = (res.setWidth 32 == 0#32) ∧
      armReadV (DataProcessing.writeResult p rd true res c v) = v := by
  simp only [writeResult_withS p notPc, armReadN, armReadZ, armReadV, getBit_eq, armReadCpsr_eq,
    armWriteRegister_cpsr, DataProcessing.compareResult, updateNzcv_n, updateNzcv_z, updateNzcv_v,
    Option.getD_some, and_self]

theorem msb_word (res : BitVec 64) : res.getLsbD 31 = (res.setWidth 32).msb := by
  rw [BitVec.msb_eq_getLsbD_last, BitVec.getLsbD_setWidth]
  rfl

theorem overflowFromAdd_iff (x y : Word) :
    overflowFromAdd x y res = true ↔ addOverflow x y (res.setWidth 32) := by
  simp only [overflowFromAdd, getBit_eq, addOverflow, msb_word, BitVec.msb_eq_getLsbD_last,
    Bool.and_eq_true, beq_iff_eq, bne_iff_ne]

theorem overflowFromSub_iff (x y : Word) :
    overflowFromSub x y res = true ↔ subOverflow x y (res.setWidth 32) := by
  simp only [overflowFromSub, getBit_eq, subOverflow, msb_word, BitVec.msb_eq_getLsbD_last,
    Bool.and_eq_true, bne_iff_ne]

theorem fits_word {v : Int} : Fits 32 v ↔ -2 ^ 31 ≤ v ∧ v ≤ 2 ^ 31 - 1 := by
  simp only [Fits]
  omega

theorem word_adc (x y : Word) (c : Bool) :
    (x.setWidth 64 + y.setWidth 64 + bit 64 c).setWidth 32 = addCarry x y c := by
  simp only [addCarry, bit]
  bv_omega

theorem word_sbc (x y : Word) (d : Bool) :
    (x.setWidth 64 - y.setWidth 64 - bit 64 d).setWidth 32 = subBorrow x y d := by
  simp only [subBorrow, bit]
  bv_omega

end Results

section Operands

theorem msb_eq_iff (x y : Word) :
    x.msb = y.msb ↔ (0x80000000 ≤ x.toNat ↔ 0x80000000 ≤ y.toNat) := by
  rw [BitVec.msb_eq_decide, BitVec.msb_eq_decide, decide_eq_decide]

/-- Where the code's overflow of a sum is the exact one. -/
def SumOverflowMet (y : Word) (c : Bool) : Prop := ¬ (c = true ∧ y = 0x7FFFFFFF#32)

/-- Where the code's carry of a difference is the exact one. -/
def CarryMet (x y : Word) (c : Bool) : Prop := x = y ↔ c = true ∧ y = 0xFFFFFFFF#32

instance (x y : Word) (c : Bool) : Decidable (CarryMet x y c) :=
  inferInstanceAs (Decidable (x = y ↔ c = true ∧ y = 0xFFFFFFFF#32))

/-- Where the code's overflow of a difference is the exact one. -/
def OverflowMet (x y : Word) (c : Bool) : Prop :=
  c = false → (y = 0#32 → x ≠ 0#32 ∧ x ≠ 0x80000000#32) ∧
    (y = 0x80000000#32 → x = 0#32 ∨ x = 0x80000000#32)

theorem sumOverflow_iff (x y : Word) (c : Bool) :
    (addOverflow x (y + bit 32 c) (addCarry x y c) ↔ addOverflow x y (addCarry x y c)) ↔
      SumOverflowMet y c := by
  cases c with
  | false => simp [SumOverflowMet, bit]
  | true =>
    simp only [SumOverflowMet, addOverflow, addCarry, bit, msb_eq_iff, ne_eq, Bool.toNat_true,
      true_and, ← BitVec.toNat_inj, BitVec.toNat_add, BitVec.toNat_ofNat]
    omega

theorem carryMet_iff (x y : Word) (c : Bool) :
    (y + bit 32 c ≤ x ↔ y.toNat + (1 - c.toNat) ≤ x.toNat) ↔ CarryMet x y c := by
  cases c with
  | false =>
    simp only [CarryMet, bit, ← BitVec.toNat_inj, BitVec.le_def, Bool.toNat_false,
      BitVec.add_zero, Bool.false_eq_true, false_and, iff_false]
    omega
  | true =>
    simp only [CarryMet, bit, ← BitVec.toNat_inj, BitVec.le_def, BitVec.toNat_add,
      BitVec.toNat_ofNat, Bool.toNat_true, true_and]
    omega

theorem overflowMet_iff (x y : Word) (c : Bool) :
    (subOverflow x (y - bit 32 (!c)) (subBorrow x y (!c)) ↔
      subOverflow x y (subBorrow x y (!c))) ↔ OverflowMet x y c := by
  cases c with
  | false =>
    simp only [OverflowMet, subOverflow, subBorrow, bit, msb_eq_iff, ne_eq, Bool.not_false,
      Bool.toNat_true, forall_const, ← BitVec.toNat_inj, BitVec.toNat_sub, BitVec.toNat_ofNat]
    omega
  | true => simp [OverflowMet, bit]

end Operands

section Operations

variable (p : ArmCore) {rd : Reg} (x y : Word)

theorem adc_added_iff (notPc : rd ≠ Reg.pc) :
    Added rd x y (armReadC p) (DataProcessing.adc p rd x y true) ↔
      SumOverflowMet y (armReadC p) := by
  have word : armReadRegister (DataProcessing.adc p rd x y true) rd = addCarry x y (armReadC p) :=
    (armReadRegister_withS_self p notPc _ _ _).trans (word_adc x y _)
  have carry : armReadC (DataProcessing.adc p rd x y true) = true ↔
      2 ^ 32 ≤ x.toNat + y.toNat + (armReadC p).toNat := by
    rw [DataProcessing.adc, armReadC_withS p notPc, decide_eq_true_iff, BitVec.lt_def]
    simp only [BitVec.toNat_add, BitVec.toNat_setWidth, bit, BitVec.toNat_ofNat]
    have small : (armReadC p).toNat ≤ 1 := Bool.toNat_le _
    omega
  have overflow : armReadV (DataProcessing.adc p rd x y true) = true ↔
      addOverflow x (y + bit 32 (armReadC p)) (addCarry x y (armReadC p)) := by
    rw [DataProcessing.adc, (flags_withS p _ notPc _ _).2.2, overflowFromAdd_iff, word_adc]
  rw [← sumOverflow_iff x y, ← overflow, addOverflow_iff (by decide)]
  constructor
  · intro added
    exact added.overflow.trans (not_congr fits_word.symm)
  · intro exact
    refine ⟨?_, carry, exact.trans (not_congr fits_word)⟩
    rw [word, toNat_addCarry]

theorem subBorrow_word (c : Bool) :
    ((subBorrow x y (!c)).toNat : Int) = (x.toNat - y.toNat - (1 - c.toNat)) % 2 ^ 32 := by
  have borrow : (!c).toNat = 1 - c.toNat := by cases c <;> rfl
  have small : c.toNat ≤ 1 := Bool.toNat_le c
  have bound := (subBorrow x y (!c)).isLt
  have split := subBorrow_split x y (!c)
  rw [borrow] at split
  omega

theorem sbc_word (notPc : rd ≠ Reg.pc) :
    armReadRegister (DataProcessing.sbc p rd x y true) rd = subBorrow x y (!armReadC p) :=
  (armReadRegister_withS_self p notPc _ _ _).trans (word_sbc x y _)

theorem sbc_carry (notPc : rd ≠ Reg.pc) :
    armReadC (DataProcessing.sbc p rd x y true) = true ↔ y + bit 32 (armReadC p) ≤ x := by
  rw [DataProcessing.sbc, armReadC_withS p notPc, decide_eq_true_iff]

theorem sbc_signs (notPc : rd ≠ Reg.pc) :
    armReadN (DataProcessing.sbc p rd x y true) = (subBorrow x y (!armReadC p)).msb ∧
      armReadZ (DataProcessing.sbc p rd x y true) = (subBorrow x y (!armReadC p) == 0#32) ∧
      (armReadV (DataProcessing.sbc p rd x y true) = true ↔
        subOverflow x (y - bit 32 (!armReadC p)) (subBorrow x y (!armReadC p))) := by
  obtain ⟨negative, zero, overflow⟩ := flags_withS p (x.setWidth 64 - y.setWidth 64 -
    bit 64 (!armReadC p)) notPc (decide (y + bit 32 (armReadC p) ≤ x))
    (overflowFromSub x (y - bit 32 (!armReadC p)) _)
  rw [← word_sbc, ← msb_word, ← overflowFromSub_iff, ← overflow]
  exact ⟨negative, zero, Iff.rfl⟩

theorem sbc_subtracted_iff (notPc : rd ≠ Reg.pc) :
    Subtracted rd x y (armReadC p) (DataProcessing.sbc p rd x y true) ↔
      CarryMet x y (armReadC p) ∧ OverflowMet x y (armReadC p) := by
  have carry := sbc_carry p x y notPc
  have exact := subOverflow_iff (by decide) x y (!armReadC p)
  have borrow : ((!armReadC p).toNat : Int) = 1 - (armReadC p).toNat := by
    cases armReadC p <;> rfl
  obtain ⟨negative, zero, overflow⟩ := sbc_signs p x y notPc
  rw [borrow] at exact
  rw [← carryMet_iff, ← overflowMet_iff, ← carry, ← overflow, exact]
  constructor
  · intro subtracted
    exact ⟨subtracted.carry, subtracted.overflow.trans (not_congr fits_word.symm)⟩
  · rintro ⟨carryExact, overflowExact⟩
    refine ⟨?_, ?_, ?_, carryExact, overflowExact.trans (not_congr fits_word)⟩
    · rw [sbc_word p x y notPc, subBorrow_word]
    · rw [sbc_word p x y notPc, negative, BitVec.msb_eq_toInt, decide_eq_true_iff]
    · rw [sbc_word p x y notPc, zero, beq_iff_eq]

end Operations

/-- ADCS of any operands and carry into any register but the pc, as an operation
and as an executed instruction, is exact unless the carry moves the second
operand over the sign boundary. -/
theorem adcs_exact_iff (h : Platform) :
    (∀ (p : ArmCore) (rd : Reg) (x y : Word), rd ≠ Reg.pc →
      (Added rd x y (armReadC p) (DataProcessing.adc p rd x y true) ↔
        ¬ (armReadC p = true ∧ y = 0x7FFFFFFF#32))) ∧
    ∀ (ins : Word) (p q : ArmCore), SumStep h .adc ins p q →
      (Added (getRd ins) (sumLeft ins p) (sumRight ins p) (armReadC p) q ↔
        ¬ (armReadC p = true ∧ sumRight ins p = 0x7FFFFFFF#32)) := by
  refine ⟨fun p rd x y notPc => adc_added_iff p x y notPc, ?_⟩
  intro ins p q step
  rw [step.result]
  exact adc_added_iff (fetched p) _ _ step.notPc

theorem adcs_exact_below :
    Added 2#4 1#32 0x7FFFFFFE#32 true
      (armStep lp64 0 (loadedState lp64 adcsWord 1#32 0x7FFFFFFE#32 true)).1 := by
  obtain ⟨left, right⟩ := loaded_operands lp64 1#32 0x7FFFFFFE#32 true adcs_loaded (by decide)
  have exact := (adcs_exact_iff lp64).2 _ _ _
    (loaded_step lp64 1#32 0x7FFFFFFE#32 true adcs_loaded)
  rw [left, right] at exact
  exact exact.mpr (by decide)

theorem adcs_overflow_missed :
    ¬ ∀ (ins : Word) (p q : ArmCore), SumStep lp64 .adc ins p q →
      Added (getRd ins) (sumLeft ins p) (sumRight ins p) (armReadC p) q := by
  intro exact
  obtain ⟨left, right⟩ := loaded_operands lp64 0#32 0x7FFFFFFF#32 true adcs_loaded (by decide)
  have overflow := (exact _ _ _ (loaded_step lp64 0#32 0x7FFFFFFF#32 true adcs_loaded)).overflow
  rw [left, right, loaded_carry] at overflow
  exact absurd (overflow.mpr (by decide)) (by decide)

end ArmSimulator
