import ArmSimulator.Instruction

/-! The shift cases written out in the last comment of arm_data_processing.c, and
where `get_shifted` and `scaled_shift` agree with them. -/
namespace ArmSimulator

inductive ShiftType where
  | lsl | lsr | asr | ror
deriving DecidableEq, Repr

/-- Bits 6:5 of a shifter operand; the field has no fifth value. -/
def shiftType (code : Word) : ShiftType :=
  match code with
  | 0#32 => .lsl
  | 1#32 => .lsr
  | 2#32 => .asr
  | _ => .ror

theorem shiftType_ror {code : Word} (notLsl : code ≠ 0#32) (notLsr : code ≠ 1#32)
    (notAsr : code ≠ 2#32) : shiftType code = .ror := by
  unfold shiftType
  split
  · exact absurd rfl notLsl
  · exact absurd rfl notLsr
  · exact absurd rfl notAsr
  · rfl

def copies (b : Bool) : Word := if b then 0xFFFFFFFF#32 else 0#32

section Reference

variable (rm : Word) (c : Bool)

/-- The comment has `val_rm >> shift_imm`, a slip: the case is the left shift. -/
def logicalShiftLeftImm (shiftImm : Nat) : Word × Bool :=
  if shiftImm = 0 then (rm, c) else (rm <<< shiftImm, rm.getLsbD (32 - shiftImm))

def logicalShiftLeftReg (rs : Word) : Word × Bool :=
  let amount := (rs.setWidth 8).toNat
  if amount = 0 then (rm, c)
  else if amount < 32 then (rm <<< amount, rm.getLsbD (32 - amount))
  else if amount = 32 then (0#32, rm.getLsbD 0)
  else (0#32, false)

def logicalShiftRightImm (shiftImm : Nat) : Word × Bool :=
  if shiftImm = 0 then (0#32, rm.getLsbD 31) else (rm >>> shiftImm, rm.getLsbD (shiftImm - 1))

def logicalShiftRightReg (rs : Word) : Word × Bool :=
  let amount := (rs.setWidth 8).toNat
  if amount = 0 then (rm, c)
  else if amount < 32 then (rm >>> amount, rm.getLsbD (amount - 1))
  else if amount = 32 then (0#32, rm.getLsbD 31)
  else (0#32, false)

def arithmShiftRightImm (shiftImm : Nat) : Word × Bool :=
  if shiftImm = 0 then (copies (rm.getLsbD 31), rm.getLsbD 31)
  else (rm.sshiftRight shiftImm, rm.getLsbD (shiftImm - 1))

def arithmShiftRightReg (rs : Word) : Word × Bool :=
  let amount := (rs.setWidth 8).toNat
  if amount = 0 then (rm, c)
  else if amount < 32 then (rm.sshiftRight amount, rm.getLsbD (amount - 1))
  else (copies (rm.getLsbD 31), rm.getLsbD 31)

def rotateRightImm (shiftImm : Nat) : Word × Bool :=
  if shiftImm = 0 then ((bit 32 c <<< 31) ||| (rm >>> 1), rm.getLsbD 0)
  else (rm.rotateRight shiftImm, rm.getLsbD (shiftImm - 1))

def rotateRightReg (rs : Word) : Word × Bool :=
  let low := (rs.setWidth 5).toNat
  if (rs.setWidth 8).toNat = 0 then (rm, c)
  else if low = 0 then (rm, rm.getLsbD 31)
  else (rm.rotateRight low, rm.getLsbD (low - 1))

def shiftedByImm (shift : ShiftType) (shiftImm : Nat) : Word × Bool :=
  match shift with
  | .lsl => logicalShiftLeftImm rm c shiftImm
  | .lsr => logicalShiftRightImm rm shiftImm
  | .asr => arithmShiftRightImm rm shiftImm
  | .ror => rotateRightImm rm c shiftImm

def shiftedByReg (shift : ShiftType) (rs : Word) : Word × Bool :=
  match shift with
  | .lsl => logicalShiftLeftReg rm c rs
  | .lsr => logicalShiftRightReg rm c rs
  | .asr => arithmShiftRightReg rm c rs
  | .ror => rotateRightReg rm c rs

end Reference

section Helpers

theorem shiftCount_of_lt {n : Nat} (small : n < 32) : shiftCount n = n := by
  unfold shiftCount
  omega

theorem shiftCount_complement {n : Nat} (positive : n % 32 ≠ 0) :
    shiftCount (32 - n) = 32 - n % 32 := by
  unfold shiftCount
  omega

theorem shiftCount_eq_mod (n : Nat) : shiftCount n = n % 32 := by
  unfold shiftCount
  omega

theorem ror_eq_rotateRight (value : Word) {n : Nat} (positive : n % 32 ≠ 0) :
    ror value n = value.rotateRight n := by
  rw [BitVec.rotateRight_def, ror, shiftCount_eq_mod, shiftCount_complement positive]

theorem asr_eq_sshiftRight (value : Word) {n : Nat} (positive : n ≠ 0) (small : n < 32) :
    asr value n = value.sshiftRight n := by
  have complement : shiftCount (32 - n) = 32 - n := by
    rw [shiftCount_complement (by omega), Nat.mod_eq_of_lt small]
  apply BitVec.eq_of_getLsbD_eq
  intro i inside
  rw [asr, shiftCount_of_lt small, complement, BitVec.getLsbD_or, BitVec.getLsbD_ushiftRight,
    BitVec.getLsbD_sshiftRight, BitVec.msb_eq_getLsbD_last, getBit_eq]
  by_cases kept : n + i < 32
  · have below : i < 32 - n := by omega
    cases value.getLsbD 31 <;> simp [kept, below, inside]
  · have above : ¬ i < 32 - n := by omega
    have filled : (BitVec.allOnes 32).getLsbD (i - (32 - n)) = true := by
      rw [BitVec.getLsbD_allOnes, decide_eq_true (by omega)]
    rw [BitVec.getLsbD_of_ge value (n + i) (by omega)]
    cases value.getLsbD 31 <;>
      simp only [kept, above, inside, filled, BitVec.getLsbD_shiftLeft, BitVec.getLsbD_zero,
        Nat.not_le_of_lt inside, Bool.false_eq_true, if_false, if_true, decide_true, decide_false,
        Bool.not_false, Bool.and_true, Bool.and_false, Bool.or_false, Bool.or_true]

theorem shiftLeft_fixed {value : Word} {n : Nat} (positive : n ≠ 0) :
    value <<< n = value ↔ value = 0#32 := by
  constructor
  · intro fixed
    have clear (i : Nat) : value.getLsbD i = false := by
      -- each bit comes from `n` places below
      induction i using Nat.strong_induction_on with
      | _ i ih =>
        have moved := congrArg (BitVec.getLsbD · i) fixed
        simp only [BitVec.getLsbD_shiftLeft] at moved
        by_cases low : i < n
        · simpa [low] using moved.symm
        · simpa [ih (i - n) (by omega)] using moved.symm
    apply BitVec.eq_of_getLsbD_eq
    intro i _
    rw [clear i, BitVec.getLsbD_zero]
  · rintro rfl
    exact BitVec.zero_shiftLeft n

theorem getLsbD_copies (b : Bool) {i : Nat} (inside : i < 32) : (copies b).getLsbD i = b := by
  cases b
  · exact BitVec.getLsbD_zero
  · exact (BitVec.getLsbD_allOnes (v := 32)).trans (decide_eq_true inside)

theorem rrx_fixed {value : Word} {c : Bool} :
    ((bit 32 c <<< 31) ||| (value >>> 1), value.getLsbD 0) = (value, c) ↔ value = copies c := by
  have carried (i : Nat) : (bit 32 c <<< 31).getLsbD i = (c && decide (i = 31)) := by
    cases c
    · simp [bit]
    · have one : bit 32 true = 1#32 := rfl
      rw [one, getLsbD_one_shift, Bool.true_and]
      by_cases last : i = 31 <;> simp [last, eq_comm]
  constructor
  · intro fixed
    obtain ⟨word, carry⟩ := Prod.mk.inj fixed
    have bits (j : Nat) (inside : j < 32) : value.getLsbD (31 - j) = c := by
      -- from the top bit, which is the carry, downwards
      induction j with
      | zero =>
        have top := congrArg (BitVec.getLsbD · 31) word
        simp only [BitVec.getLsbD_or, carried, BitVec.getLsbD_ushiftRight] at top
        rw [BitVec.getLsbD_of_ge value (1 + 31) (by decide)] at top
        simpa using top.symm
      | succ j ih =>
        have next := congrArg (BitVec.getLsbD · (31 - (j + 1))) word
        have above : 1 + (31 - (j + 1)) = 31 - j := by omega
        have below : ¬31 - (j + 1) = 31 := by omega
        simp only [BitVec.getLsbD_or, carried, BitVec.getLsbD_ushiftRight, above, ih (by omega),
          below, decide_false, Bool.and_false, Bool.false_or] at next
        exact next.symm
    apply BitVec.eq_of_getLsbD_eq
    intro i inside
    have here := bits (31 - i) (by omega)
    have back : 31 - (31 - i) = i := by omega
    rwa [back, ← getLsbD_copies c inside] at here
  · rintro rfl
    cases c <;> rfl

end Helpers

/- What each helper of arm_data_processing.c computes, in the words of the reference. -/
section Cases

variable (p : ArmCore) (rm : Word)

theorem amount_bounds : (0#8).toNat = 0 ∧ (32#8).toNat = 32 := ⟨rfl, rfl⟩

theorem dpLsl_eq_reg (rs : Word) :
    dpLsl p rm (rs.setWidth 8) = logicalShiftLeftReg rm (armReadC p) rs := by
  simp only [dpLsl, logicalShiftLeftReg, BitVec.toNat_eq, BitVec.lt_def, getBit_eq,
    amount_bounds]
  split_ifs <;> rfl

theorem dpLsr_eq_reg (rs : Word) :
    dpLsr p rm (rs.setWidth 8) = logicalShiftRightReg rm (armReadC p) rs := by
  simp only [dpLsr, logicalShiftRightReg, BitVec.toNat_eq, BitVec.lt_def, getBit_eq,
    amount_bounds]
  split_ifs <;> rfl

theorem dpAsr_eq_reg (rs : Word) :
    dpAsr p rm (rs.setWidth 8) = arithmShiftRightReg rm (armReadC p) rs := by
  simp only [dpAsr, arithmShiftRightReg, BitVec.toNat_eq, BitVec.lt_def, getBit_eq, copies,
    amount_bounds]
  by_cases zero : (rs.setWidth 8).toNat = 0
  · simp only [zero, if_true]
  · by_cases small : (rs.setWidth 8).toNat < 32
    · simp only [zero, small, if_true, if_false, asr_eq_sshiftRight rm zero small]
    · simp only [zero, small, if_false]

theorem toNat_low_five (rs : Word) : (rs.setWidth 5).toNat = (rs.setWidth 8).toNat % 32 := by
  simp only [BitVec.toNat_setWidth]
  omega

theorem toNat_getBits_low_five (value : Byte) : (getBits value 4 0).toNat = value.toNat % 32 := by
  rw [getBits_eq_extractLsb', BitVec.toNat_setWidth, BitVec.extractLsb'_toNat, Nat.shiftRight_zero]
  omega

theorem dpRorRrx_eq_reg (rs : Word) (positive : rs.setWidth 8 ≠ 0#8) :
    dpRorRrx p rm (rs.setWidth 8) = rotateRightReg rm (armReadC p) rs := by
  have nonzero : (rs.setWidth 8).toNat ≠ 0 := fun zero => positive (BitVec.eq_of_toNat_eq zero)
  simp only [dpRorRrx, rotateRightReg, positive, nonzero, if_false, toNat_low_five,
    BitVec.toNat_eq (x := getBits _ 4 0), toNat_getBits_low_five, getBit_eq,
    amount_bounds]
  by_cases whole : (rs.setWidth 8).toNat % 32 = 0
  · simp only [whole, if_true]
  · simp only [whole, if_false, ror_eq_rotateRight rm whole, BitVec.rotateRight_mod_eq_rotateRight]

def shiftHelper (shift : ShiftType) : ArmCore → Word → Byte → Word × Bool :=
  match shift with
  | .lsl => dpLsl
  | .lsr => dpLsr
  | .asr => dpAsr
  | .ror => dpRorRrx

theorem shiftHelper_eq_reg (shift : ShiftType) (rs : Word)
    (notRrx : shift = .ror → rs.setWidth 8 ≠ 0#8) :
    shiftHelper shift p rm (rs.setWidth 8) = shiftedByReg rm (armReadC p) shift rs := by
  cases shift with
  | lsl => exact dpLsl_eq_reg p rm rs
  | lsr => exact dpLsr_eq_reg p rm rs
  | asr => exact dpAsr_eq_reg p rm rs
  | ror => exact dpRorRrx_eq_reg p rm rs (notRrx rfl)

theorem shiftedByImm_eq_reg (c : Bool) (shift : ShiftType) {amount : Word}
    (positive : amount.toNat ≠ 0) (small : amount.toNat < 32) :
    shiftedByImm rm c shift amount.toNat = shiftedByReg rm c shift amount := by
  have byte : (amount.setWidth 8).toNat = amount.toNat := by
    rw [BitVec.toNat_setWidth]
    omega
  have low : (amount.setWidth 5).toNat = amount.toNat := by
    rw [BitVec.toNat_setWidth]
    omega
  cases shift with
  | lsl =>
    simp only [shiftedByImm, shiftedByReg, logicalShiftLeftImm, logicalShiftLeftReg, byte,
      positive, small, if_true, if_false]
  | lsr =>
    simp only [shiftedByImm, shiftedByReg, logicalShiftRightImm, logicalShiftRightReg, byte,
      positive, small, if_true, if_false]
  | asr =>
    simp only [shiftedByImm, shiftedByReg, arithmShiftRightImm, arithmShiftRightReg, byte,
      positive, small, if_true, if_false]
  | ror =>
    simp only [shiftedByImm, shiftedByReg, rotateRightImm, rotateRightReg, byte, low,
      positive, if_false]

theorem shiftHelper_zero {shift : ShiftType} (notRor : shift ≠ .ror) :
    shiftHelper shift p rm 0#8 = (rm, armReadC p) := by
  cases shift with
  | lsl | lsr | asr => rfl
  | ror => exact absurd rfl notRor

end Cases

/- Where `get_shifted` departs from the reference: the amount 0, which means
another thing in each form and type, and the immediate field of LSL. -/
section Operand

variable (p : ArmCore) (ins : Word)

theorem getShifted_eq :
    getShifted p ins =
      if shiftType (getBits ins 6 5) = .lsl ∧ (getBits ins 11 7).setWidth 8 = 0#8 then
        (armReadRegister p (getReg ins 3 0), armReadC p)
      else
        shiftHelper (shiftType (getBits ins 6 5)) p (armReadRegister p (getReg ins 3 0))
          (if getBit ins 4 then (armReadRegister p (getReg ins 11 8)).setWidth 8
            else (getBits ins 11 7).setWidth 8) := by
  simp only [getShifted]
  generalize (if getBit ins 4 then (armReadRegister p (getReg ins 11 8)).setWidth 8
    else (getBits ins 11 7).setWidth 8) = value
  generalize getBits ins 6 5 = code
  split
  · by_cases none : (getBits ins 11 7).setWidth 8 = 0#8
    · rw [if_pos none, if_pos ⟨rfl, none⟩]
    · rw [if_neg none, if_neg (fun both => none both.2)]
      rfl
  · rfl
  · rfl
  · rename_i notLsl notLsr notAsr
    rw [shiftType_ror notLsl notLsr notAsr,
      if_neg (by simp only [reduceCtorEq, false_and, not_false_eq_true])]
    rfl

theorem shiftImm_lt : (getBits ins 11 7).toNat < 32 := getBits_toNat_lt ins 11 7

theorem shiftImm_byte_zero :
    (getBits ins 11 7).setWidth 8 = 0#8 ↔ (getBits ins 11 7).toNat = 0 := by
  have small := shiftImm_lt ins
  rw [BitVec.toNat_eq, BitVec.toNat_setWidth, Nat.mod_eq_of_lt (by omega)]
  rfl

/-- LSR #0 and ASR #0 mean a shift by 32; a shift by nothing is the same on
these operands only. -/
def ZeroImmHarmless (shift : ShiftType) (rm : Word) (c : Bool) : Prop :=
  match shift with
  | .lsr => rm = 0#32 ∧ c = false
  | .asr => rm = copies c
  | .lsl | .ror => True

instance (shift : ShiftType) (rm : Word) (c : Bool) : Decidable (ZeroImmHarmless shift rm c) :=
  match shift with
  | .lsr => inferInstanceAs (Decidable (rm = 0#32 ∧ c = false))
  | .asr => inferInstanceAs (Decidable (rm = copies c))
  | .lsl | .ror => inferInstanceAs (Decidable True)

theorem zero_imm_iff (rm : Word) (shift : ShiftType) :
    shiftHelper shift p rm 0#8 = shiftedByImm rm (armReadC p) shift 0 ↔
      ZeroImmHarmless shift rm (armReadC p) := by
  cases shift with
  | lsl => exact iff_of_true rfl trivial
  | lsr =>
    rw [shiftHelper_zero p rm (by decide)]
    simp only [shiftedByImm, logicalShiftRightImm, ZeroImmHarmless, if_true, Prod.mk.injEq]
    constructor
    · rintro ⟨rfl, carry⟩
      exact ⟨rfl, carry⟩
    · rintro ⟨rfl, carry⟩
      exact ⟨rfl, carry⟩
  | asr =>
    rw [shiftHelper_zero p rm (by decide)]
    simp only [shiftedByImm, arithmShiftRightImm, ZeroImmHarmless, if_true, Prod.mk.injEq]
    constructor
    · rintro ⟨filled, carry⟩
      rwa [carry]
    · intro filled
      have top : rm.getLsbD 31 = armReadC p := by rw [filled, getLsbD_copies _ (by decide)]
      exact ⟨by rw [top, filled], top.symm⟩
  | ror =>
    refine iff_of_true ?_ trivial
    simp only [shiftHelper, dpRorRrx, shiftedByImm, rotateRightImm, if_true, getBit_eq]

theorem getShifted_immediate (immediate : getBit ins 4 = false) :
    getShifted p ins = shiftHelper (shiftType (getBits ins 6 5)) p
      (armReadRegister p (getReg ins 3 0)) ((getBits ins 11 7).setWidth 8) := by
  rw [getShifted_eq, immediate, if_neg Bool.false_ne_true]
  split_ifs with none
  · rw [none.1, none.2, shiftHelper_zero p _ (by decide)]
  · rfl

theorem shifted_by_imm_iff (immediate : getBit ins 4 = false) :
    getShifted p ins =
        shiftedByImm (armReadRegister p (getReg ins 3 0)) (armReadC p)
          (shiftType (getBits ins 6 5)) (getBits ins 11 7).toNat ↔
      ((getBits ins 11 7).toNat = 0 →
        ZeroImmHarmless (shiftType (getBits ins 6 5)) (armReadRegister p (getReg ins 3 0))
          (armReadC p)) := by
  rw [getShifted_immediate p ins immediate]
  by_cases zero : (getBits ins 11 7).toNat = 0
  · rw [(shiftImm_byte_zero ins).mpr zero, zero, zero_imm_iff]
    exact ⟨fun harmless _ => harmless, fun harmless => harmless rfl⟩
  · have byte : (getBits ins 11 7).setWidth 8 ≠ 0#8 := mt (shiftImm_byte_zero ins).mp zero
    rw [shiftHelper_eq_reg p _ _ _ (fun _ => byte),
      ← shiftedByImm_eq_reg _ (armReadC p) _ zero (shiftImm_lt ins)]
    exact iff_of_true rfl (fun none => absurd none zero)

theorem shiftImm_bit (ins : Word) {i : Nat} (inside : i < 5) :
    ((getBits ins 11 7).setWidth 8).getLsbD i = ins.getLsbD (7 + i) := by
  rw [BitVec.getLsbD_setWidth, getLsbD_getBits,
    decide_eq_true (Nat.lt_of_lt_of_le inside (by decide)),
    decide_eq_true inside, Bool.true_and, Bool.true_and]

theorem rs_bit (ins : Word) {i : Nat} (inside : i < 4) :
    (getReg ins 11 8).getLsbD i = ins.getLsbD (8 + i) := by
  rw [getReg, BitVec.getLsbD_setWidth, getLsbD_getBits, decide_eq_true inside, Bool.true_and,
    Bool.true_and]

/-- With bit 7 clear the field LSL looks at is Rs and a zero. -/
theorem shiftImm_zero_iff (notMultiply : getBit ins 7 = false) :
    (getBits ins 11 7).setWidth 8 = 0#8 ↔ getReg ins 11 8 = 0#4 := by
  rw [getBit_eq] at notMultiply
  constructor
  · intro none
    apply BitVec.eq_of_getLsbD_eq
    intro i inside
    have next := shiftImm_bit ins (Nat.succ_lt_succ inside)
    have place : 7 + (i + 1) = 8 + i := by omega
    rw [none, BitVec.getLsbD_zero, place] at next
    rw [rs_bit ins inside, BitVec.getLsbD_zero, next]
  · intro none
    apply BitVec.eq_of_getLsbD_eq
    intro i inside
    by_cases field : i < 5
    · rw [shiftImm_bit ins field, BitVec.getLsbD_zero]
      cases i with
      | zero => exact notMultiply
      | succ i =>
        have here := rs_bit ins (Nat.lt_of_succ_lt_succ field)
        have place : 7 + (i + 1) = 8 + i := by omega
        rw [none, BitVec.getLsbD_zero] at here
        rw [place, here]
    · rw [BitVec.getLsbD_setWidth, getLsbD_getBits, decide_eq_false field, Bool.false_and,
        Bool.and_false, BitVec.getLsbD_zero]

/-- LSL by r0 is taken for LSL #0, and ROR by the amount 0 for RRX. -/
def RegShiftHarmless (shift : ShiftType) (rs : Reg) (amount : Byte) (rm : Word) (c : Bool) : Prop :=
  match shift with
  | .lsl => rs = 0#4 → amount = 0#8 ∨ (rm = 0#32 ∧ c = false)
  | .ror => amount = 0#8 → rm = copies c
  | .lsr | .asr => True

theorem logicalShiftLeftReg_fixed (rm : Word) (c : Bool) (rs : Word) :
    (rm, c) = logicalShiftLeftReg rm c rs ↔
      rs.setWidth 8 = 0#8 ∨ (rm = 0#32 ∧ c = false) := by
  have zero_iff : rs.setWidth 8 = 0#8 ↔ (rs.setWidth 8).toNat = 0 := BitVec.toNat_eq
  unfold logicalShiftLeftReg
  rw [zero_iff]
  generalize (rs.setWidth 8).toNat = amount
  constructor
  · intro same
    dsimp only at same
    split_ifs at same with zero small whole
    · exact .inl zero
    · obtain ⟨word, carry⟩ := Prod.mk.inj same
      have clear := (shiftLeft_fixed zero).mp word.symm
      exact .inr ⟨clear, by rw [carry, clear, BitVec.getLsbD_zero]⟩
    · obtain ⟨word, carry⟩ := Prod.mk.inj same
      exact .inr ⟨word, by rw [carry, word, BitVec.getLsbD_zero]⟩
    · obtain ⟨word, carry⟩ := Prod.mk.inj same
      exact .inr ⟨word, carry⟩
  · rintro (zero | ⟨rfl, rfl⟩)
    · exact (if_pos zero).symm
    · simp only [BitVec.zero_shiftLeft, BitVec.getLsbD_zero, ite_self]

theorem shifted_by_reg_iff (byReg : getBit ins 4 = true) (notMultiply : getBit ins 7 = false) :
    getShifted p ins =
        shiftedByReg (armReadRegister p (getReg ins 3 0)) (armReadC p)
          (shiftType (getBits ins 6 5)) (armReadRegister p (getReg ins 11 8)) ↔
      RegShiftHarmless (shiftType (getBits ins 6 5)) (getReg ins 11 8)
        ((armReadRegister p (getReg ins 11 8)).setWidth 8) (armReadRegister p (getReg ins 3 0))
        (armReadC p) := by
  rw [getShifted_eq, byReg, if_pos rfl]
  generalize armReadRegister p (getReg ins 3 0) = rm
  generalize armReadRegister p (getReg ins 11 8) = rs
  cases shift : shiftType (getBits ins 6 5) with
  | lsl =>
    by_cases byR0 : getReg ins 11 8 = 0#4
    · rw [if_pos ⟨rfl, (shiftImm_zero_iff ins notMultiply).mpr byR0⟩]
      exact (logicalShiftLeftReg_fixed rm (armReadC p) rs).trans
        ⟨fun harmless _ => harmless, fun harmless => harmless byR0⟩
    · rw [if_neg fun both => byR0 ((shiftImm_zero_iff ins notMultiply).mp both.2)]
      exact iff_of_true (dpLsl_eq_reg p rm rs) (fun none => absurd none byR0)
  | lsr =>
    rw [if_neg (fun both => by cases both.1)]
    exact iff_of_true (dpLsr_eq_reg p rm rs) trivial
  | asr =>
    rw [if_neg (fun both => by cases both.1)]
    exact iff_of_true (dpAsr_eq_reg p rm rs) trivial
  | ror =>
    rw [if_neg (fun both => by cases both.1)]
    by_cases zero : rs.setWidth 8 = 0#8
    · have unchanged : shiftedByReg rm (armReadC p) .ror rs = (rm, armReadC p) := by
        simp only [shiftedByReg, rotateRightReg, zero, BitVec.toNat_zero, if_true]
      have rrx : shiftHelper .ror p rm (rs.setWidth 8) =
          ((bit 32 (armReadC p) <<< 31) ||| (rm >>> 1), rm.getLsbD 0) := by
        simp only [shiftHelper, dpRorRrx, zero, if_true, getBit_eq]
      rw [unchanged, rrx, rrx_fixed]
      exact ⟨fun filled _ => filled, fun harmless => harmless zero⟩
    · rw [shiftHelper_eq_reg p rm .ror rs (fun _ => zero)]
      exact iff_of_true rfl (fun none => absurd none zero)

theorem scaledShift_eq_imm (code : Word) {shiftImm : Nat} (small : shiftImm < 32) (rm : Word) :
    scaledShift p code shiftImm rm =
      (shiftedByImm rm (armReadC p) (shiftType code) shiftImm).1 := by
  unfold scaledShift
  by_cases zero : shiftImm = 0
  · rw [zero]
    split
    · exact BitVec.shiftLeft_zero rm
    · rfl
    · rw [getBit_eq]
      rfl
    · rename_i notLsl notLsr notAsr
      rw [shiftType_ror notLsl notLsr notAsr]
      rfl
  · split
    · rw [show shiftType 0#32 = .lsl from rfl]
      simp only [shiftedByImm, logicalShiftLeftImm, zero, if_false]
    · rw [show shiftType 1#32 = .lsr from rfl]
      simp only [shiftedByImm, logicalShiftRightImm, zero, ne_eq, not_false_eq_true, if_true,
        if_false]
    · rw [show shiftType 2#32 = .asr from rfl, asr_eq_sshiftRight rm zero small]
      simp only [shiftedByImm, arithmShiftRightImm, zero, ne_eq, not_false_eq_true, if_true,
        if_false]
    · rename_i notLsl notLsr notAsr
      rw [shiftType_ror notLsl notLsr notAsr, ror_eq_rotateRight rm (by omega)]
      simp only [shiftedByImm, rotateRightImm, zero, if_false]

end Operand

def onesState : ArmCore := { sampleCore 0x10#32 0#32 with registersStorage := fun _ => 1#32 }

/-- `mov r1, r2, lsr #32` on r2 = 1: the operand stays 1 where the reference has 0. -/
theorem lsr_32_unshifted :
    instructionGetHandler 0xE1A01022#32 = some .armDataProcessingShift ∧
    getBit 0xE1A01022#32 4 = false ∧
    getShifted onesState 0xE1A01022#32 ≠
      shiftedByImm (armReadRegister onesState (getReg 0xE1A01022#32 3 0)) (armReadC onesState)
        (shiftType (getBits 0xE1A01022#32 6 5)) (getBits 0xE1A01022#32 11 7).toNat := by
  decide

theorem shifted_by_imm_iff_lsr_1 :
    getShifted onesState 0xE1A010A2#32 =
      shiftedByImm (armReadRegister onesState (getReg 0xE1A010A2#32 3 0)) (armReadC onesState)
        (shiftType (getBits 0xE1A010A2#32 6 5)) (getBits 0xE1A010A2#32 11 7).toNat :=
  (shifted_by_imm_iff onesState 0xE1A010A2#32 (by decide)).mpr (by decide)

/-- `mov r1, r2, lsl r0` on r0 = 1 and r2 = 1, none of them the pc. -/
theorem lsl_by_r0_unshifted :
    instructionGetHandler 0xE1A01012#32 = some .armDataProcessingShift ∧
    getBit 0xE1A01012#32 4 = true ∧ getBit 0xE1A01012#32 7 = false ∧
    getReg 0xE1A01012#32 3 0 ≠ Reg.pc ∧ getReg 0xE1A01012#32 11 8 ≠ Reg.pc ∧
    getShifted onesState 0xE1A01012#32 ≠
      shiftedByReg (armReadRegister onesState (getReg 0xE1A01012#32 3 0)) (armReadC onesState)
        (shiftType (getBits 0xE1A01012#32 6 5))
        (armReadRegister onesState (getReg 0xE1A01012#32 11 8)) := by
  decide

theorem shifted_by_reg_iff_lsl_r3 :
    getShifted onesState 0xE1A01312#32 =
      shiftedByReg (armReadRegister onesState (getReg 0xE1A01312#32 3 0)) (armReadC onesState)
        (shiftType (getBits 0xE1A01312#32 6 5))
        (armReadRegister onesState (getReg 0xE1A01312#32 11 8)) :=
  (shifted_by_reg_iff onesState 0xE1A01312#32 (by decide) (by decide)).mpr
    (fun byR0 => absurd byR0 (by decide))

end ArmSimulator
