import ArmSimulator.Instruction
import ArmSimulator.ShiftReference

/-! MSR and MRS. The immediate of MSR passes through a signed byte, so that from
0x80 on 24 ones are rotated along with it, and the masks leave out I and F. -/
namespace ArmSimulator

section Operand

def msrValue (p : ArmCore) (ins : Word) : Word :=
  if getBit ins 25 then (getImmediate p ins).1 else armReadRegister p (getReg ins 3 0)

/-- The rotated ones that a negative `int8_t` brings in. -/
def msrFill (ins : Word) : Word :=
  if getBit ins 25 && getBit ins 7 then ror 0xFFFFFF00#32 ((getBits ins 11 8).toNat * 2) else 0#32

theorem ror_or (x y : Word) (n : Nat) : ror (x ||| y) n = ror x n ||| ror y n := by
  rw [ror, ror, ror, BitVec.ushiftRight_or_distrib, BitVec.shiftLeft_or_distrib]
  ac_rfl

theorem ror_zero (n : Nat) : ror 0#32 n = 0#32 := by
  rw [ror, BitVec.zero_ushiftRight, BitVec.zero_shiftLeft, BitVec.or_zero]

theorem ror_and (x y : Word) (n : Nat) : ror (x &&& y) n = ror x n &&& ror y n := by
  by_cases whole : n % 32 = 0
  · have right : shiftCount n = 0 := by rw [shiftCount_eq_mod, whole]
    have left : shiftCount (32 - n) = 0 := by
      unfold shiftCount
      omega
    simp only [ror, right, left, BitVec.ushiftRight_zero, BitVec.shiftLeft_zero, BitVec.or_self]
  · rw [ror_eq_rotateRight _ whole, ror_eq_rotateRight _ whole, ror_eq_rotateRight _ whole]
    apply BitVec.eq_of_getLsbD_eq
    intro i small
    simp only [BitVec.getLsbD_rotateRight, BitVec.getLsbD_and, decide_eq_true small, Bool.true_and]
    cases decide (i < 32 - n % 32) <;> rfl

theorem getLsbD_signMask : ∀ i < 32, (0xFFFFFF00#32).getLsbD i = decide (8 ≤ i) := by decide

theorem signExtend_byte (x : Word) : ((getBits x 7 0).setWidth 8).signExtend 32 =
    getBits x 7 0 ||| (if getBit x 7 then 0xFFFFFF00#32 else 0#32) := by
  have sign : ((getBits x 7 0).setWidth 8).msb = x.getLsbD 7 := by
    rw [BitVec.msb_eq_getLsbD_last, BitVec.getLsbD_setWidth, getLsbD_getBits]
    rfl
  apply BitVec.eq_of_getLsbD_eq
  intro i small
  rw [BitVec.getLsbD_signExtend, sign, BitVec.getLsbD_or, BitVec.getLsbD_setWidth, getLsbD_getBits,
    Nat.zero_add, getBit_eq]
  by_cases low : i < 8
  · have notOne : ¬8 ≤ i := by omega
    cases x.getLsbD 7 <;>
      simp only [small, low, notOne, getLsbD_signMask, decide_true, decide_false, Bool.true_and,
        if_true, if_false, Bool.or_false, Bool.false_eq_true, BitVec.getLsbD_zero]
  · have one : 8 ≤ i := by omega
    cases x.getLsbD 7 <;>
      simp only [small, low, one, getLsbD_signMask, decide_true, decide_false, Bool.true_and,
        if_true, if_false, Bool.false_and, Bool.false_or, Bool.false_eq_true, BitVec.getLsbD_zero]

theorem rotateImm_toNat (ins : Word) :
    ((getBits ins 11 8).setWidth 8).toNat = (getBits ins 11 8).toNat := by
  have bound := getBits_toNat_lt ins 11 8
  rw [BitVec.toNat_setWidth]
  omega

theorem msrOperand_eq (p : ArmCore) (ins : Word) :
    msrOperand p ins = msrValue p ins ||| msrFill ins := by
  cases form : getBit ins 25 with
  | false =>
    simp only [msrOperand, msrValue, msrFill, form, Bool.false_eq_true, if_false, Bool.false_and,
      BitVec.or_zero]
  | true =>
    simp only [msrOperand, msrValue, msrFill, form, if_true, Bool.true_and, getImmediate,
      rotateImm_toNat, signExtend_byte, ror_or]
    split
    · rfl
    · rw [ror_zero]

theorem msrValue_msrFill (p : ArmCore) {ins : Word} (immediate : getBit ins 25 = true) :
    msrValue p ins &&& msrFill ins = 0#32 := by
  have apart : getBits ins 7 0 &&& 0xFFFFFF00#32 = 0#32 := by
    apply BitVec.eq_of_getLsbD_eq
    intro i small
    rw [BitVec.getLsbD_and, getLsbD_getBits, getLsbD_signMask i small, BitVec.getLsbD_zero]
    by_cases low : i < 8
    · rw [decide_eq_false (Nat.not_le_of_lt low), Bool.and_false]
    · rw [decide_eq_false low, Bool.false_and, Bool.false_and]
  simp only [msrValue, msrFill, immediate, if_true, Bool.true_and, getImmediate]
  split
  · rw [← ror_and, apart, ror_zero]
  · exact BitVec.and_zero

end Operand

section Effect

def msrWrite (old mask operand : Word) : Word := (old &&& ~~~mask) ||| (operand &&& mask)

theorem getLsbD_msrWrite (old mask operand : Word) {i : Nat} (small : i < 32) :
    (msrWrite old mask operand).getLsbD i =
      if mask.getLsbD i then operand.getLsbD i else old.getLsbD i := by
  rw [msrWrite, BitVec.getLsbD_or, BitVec.getLsbD_and, BitVec.getLsbD_and, BitVec.getLsbD_not,
    decide_eq_true small, Bool.true_and]
  cases mask.getLsbD i <;>
    simp only [Bool.not_true, Bool.not_false, Bool.and_true, Bool.and_false, Bool.or_false,
      Bool.false_or, Bool.false_eq_true, if_true, if_false]

theorem msrWrite_eq_iff (old mask operand operand' : Word) :
    msrWrite old mask operand = msrWrite old mask operand' ↔
      (operand ^^^ operand') &&& mask = 0#32 := by
  constructor
  · intro same
    apply BitVec.eq_of_getLsbD_eq
    intro i small
    have bit := congrArg (BitVec.getLsbD · i) same
    simp only [getLsbD_msrWrite _ _ _ small] at bit
    rw [BitVec.getLsbD_and, BitVec.getLsbD_xor, BitVec.getLsbD_zero]
    cases masked : mask.getLsbD i with
    | false => rw [Bool.and_false]
    | true =>
      rw [masked, if_pos rfl, if_pos rfl] at bit
      rw [bit, Bool.xor_self, Bool.false_and]
  · intro clear
    apply BitVec.eq_of_getLsbD_eq
    intro i small
    have bit := congrArg (BitVec.getLsbD · i) clear
    simp only [BitVec.getLsbD_and, BitVec.getLsbD_xor, BitVec.getLsbD_zero] at bit
    rw [getLsbD_msrWrite _ _ _ small, getLsbD_msrWrite _ _ _ small]
    cases masked : mask.getLsbD i with
    | false => rfl
    | true =>
      rw [masked, Bool.and_true, bne_eq_false_iff_eq] at bit
      rw [if_pos rfl, if_pos rfl, bit]

theorem msrWrite_zero (old operand : Word) : msrWrite old 0#32 operand = old := by
  rw [msrWrite, BitVec.and_zero, BitVec.or_zero, BitVec.not_zero, BitVec.and_allOnes]

theorem msrWrite_old (old mask : Word) : msrWrite old mask old = old := by
  apply BitVec.eq_of_getLsbD_eq
  intro i small
  rw [getLsbD_msrWrite _ _ _ small, ite_self]

theorem armMsr_eq (p : ArmCore) (ins : Word) : armMsr p ins =
    (if getBit ins 22 then
      if armCurrentModeHasSpsr p then
        armWriteSpsr p (msrWrite (p.spsr (armMode p))
          (msrByteMask ins &&& (userMask ||| privMask ||| stateMask)) (msrOperand p ins))
      else p
    else armWriteCpsr p (msrWrite p.cpsr (msrCpsrMask p ins (msrOperand p ins)) (msrOperand p ins)),
      .noException) := by
  rw [armMsr]
  split
  · split <;> rfl
  · rfl

theorem armWriteSpsr_inj (p : ArmCore) {x y : Word} :
    armWriteSpsr p x = armWriteSpsr p y ↔ x = y := by
  constructor
  · intro same
    have written := congrArg (fun q => q.spsr (armMode p)) same
    simpa [armWriteSpsr] using written
  · intro same
    rw [same]

theorem armWriteCpsr_inj (p : ArmCore) {x y : Word} :
    armWriteCpsr p x = armWriteCpsr p y ↔ x = y :=
  ⟨fun same => congrArg ArmCore.cpsr same, fun same => by rw [same]⟩

end Effect

/-- An MSR immediate and an MSR from a register that holds the same value, with one
target and one field mask. -/
structure MsrForms (p : ArmCore) (insImm insReg : Word) : Prop where
  immediate : getBit insImm 25 = true
  register : getBit insReg 25 = false
  target : getBit insReg 22 = getBit insImm 22
  fields : getBits insReg 19 16 = getBits insImm 19 16
  value : armReadRegister p (getReg insReg 3 0) = (getImmediate p insImm).1

/-- The fill of the immediate does not reach what MSR writes. With T in the fill a
privileged mode writes nothing, which is no difference if nothing would change. -/
def FillHidden (p : ArmCore) (ins : Word) : Prop :=
  if getBit ins 22 then
    armCurrentModeHasSpsr p = true →
      msrFill ins &&& (msrByteMask ins &&& (userMask ||| privMask ||| stateMask)) = 0#32
  else if armInAPrivilegedMode p then
    (getImmediate p ins).1 &&& stateMask = 0#32 →
      if msrFill ins &&& stateMask = 0#32 then
        msrFill ins &&& (msrByteMask ins &&& (userMask ||| privMask)) = 0#32
      else (p.cpsr ^^^ (getImmediate p ins).1) &&& (msrByteMask ins &&& (userMask ||| privMask)) =
        0#32
  else msrFill ins &&& (msrByteMask ins &&& userMask) = 0#32

section Forms

variable {p : ArmCore} {insImm insReg : Word}

theorem MsrForms.byteMask (forms : MsrForms p insImm insReg) :
    msrByteMask insReg = msrByteMask insImm := by
  have field : ∀ i, 16 ≤ i → i ≤ 19 → getBit insReg i = getBit insImm i := by
    intro i low high
    rw [getBit_eq, getBit_eq, getLsbD_of_getBits forms.fields low high,
      getLsbD_field insImm low high]
  simp only [msrByteMask, field 16 (by decide) (by decide), field 17 (by decide) (by decide),
    field 18 (by decide) (by decide), field 19 (by decide) (by decide)]

theorem MsrForms.operands (forms : MsrForms p insImm insReg) :
    msrOperand p insImm = (getImmediate p insImm).1 ||| msrFill insImm ∧
      msrOperand p insReg = (getImmediate p insImm).1 ∧
      (getImmediate p insImm).1 &&& msrFill insImm = 0#32 := by
  have value : msrValue p insImm = (getImmediate p insImm).1 := by
    rw [msrValue, if_pos forms.immediate]
  refine ⟨?_, ?_, ?_⟩
  · rw [msrOperand_eq, value]
  · rw [msrOperand, forms.register, if_neg (by decide), forms.value]
  · rw [← value, msrValue_msrFill p forms.immediate]

theorem xor_or_of_apart {v e : Word} (apart : v &&& e = 0#32) : (v ||| e) ^^^ v = e := by
  apply BitVec.eq_of_getLsbD_eq
  intro i _
  have bit := congrArg (BitVec.getLsbD · i) apart
  simp only [BitVec.getLsbD_and, BitVec.getLsbD_zero] at bit
  rw [BitVec.getLsbD_xor, BitVec.getLsbD_or]
  cases set : v.getLsbD i with
  | false => rw [Bool.false_or, Bool.xor_false]
  | true =>
    rw [set, Bool.true_and] at bit
    rw [bit]
    rfl

theorem privileged_fill_iff (old mask : Word) {v e : Word} (apart : v &&& e = 0#32) :
    msrWrite old (if (v ||| e) &&& stateMask = 0#32 then mask else 0#32) (v ||| e) =
        msrWrite old (if v &&& stateMask = 0#32 then mask else 0#32) v ↔
      (v &&& stateMask = 0#32 →
        if e &&& stateMask = 0#32 then e &&& mask = 0#32 else (old ^^^ v) &&& mask = 0#32) := by
  have both : (v ||| e) &&& stateMask = 0#32 ↔ v &&& stateMask = 0#32 ∧ e &&& stateMask = 0#32 := by
    rw [BitVec.and_or_distrib_right, BitVec.or_eq_zero_iff]
  by_cases state : v &&& stateMask = 0#32
  · by_cases fill : e &&& stateMask = 0#32
    · rw [if_pos (both.mpr ⟨state, fill⟩), if_pos state, if_pos fill, msrWrite_eq_iff,
        xor_or_of_apart apart]
      exact (imp_iff_right state).symm
    · rw [if_neg fun clear => fill (both.mp clear).2, if_pos state, if_neg fill, msrWrite_zero,
        imp_iff_right state]
      conv_lhs => lhs; rw [← msrWrite_old old mask]
      exact msrWrite_eq_iff old mask old v
  · rw [if_neg fun clear => state (both.mp clear).1, if_neg state, msrWrite_zero, msrWrite_zero]
    exact ⟨fun _ clear => absurd clear state, fun _ => rfl⟩

end Forms

/-- The two forms of MSR have the same effect exactly if the sign of the immediate
byte is not seen. -/
theorem msr_forms_agree_iff (p : ArmCore) (insImm insReg : Word)
    (forms : MsrForms p insImm insReg) :
    armMsr p insImm = armMsr p insReg ↔ FillHidden p insImm := by
  obtain ⟨immediate, register, apart⟩ := forms.operands
  rw [armMsr_eq, armMsr_eq, immediate, register, forms.target, Prod.mk.injEq, FillHidden]
  simp only [msrCpsrMask, forms.byteMask, and_true]
  cases getBit insImm 22 with
  | true =>
    simp only [if_true]
    cases armCurrentModeHasSpsr p with
    | true =>
      simp only [if_true, forall_const, armWriteSpsr_inj, msrWrite_eq_iff, xor_or_of_apart apart]
    | false => simp
  | false =>
    simp only [Bool.false_eq_true, if_false, armWriteCpsr_inj]
    cases armInAPrivilegedMode p with
    | true =>
      simp only [if_true]
      exact privileged_fill_iff _ _ apart
    | false =>
      simp only [Bool.false_eq_true, if_false, msrWrite_eq_iff, xor_or_of_apart apart]

theorem msr_forms_agree_control :
    armMsr { sampleCore 0x13#32 0#32 with registersStorage := fun _ => 0x92#32 } 0xE321F092#32 =
      armMsr { sampleCore 0x13#32 0#32 with registersStorage := fun _ => 0x92#32 } 0xE121F000#32 :=
  (msr_forms_agree_iff _ _ _ ⟨by decide, by decide, by decide, by decide, by decide⟩).mpr
    (by unfold FillHidden; decide)

/-- `msr cpsr_f, #0x80` sets the four flags, from a register it clears them. -/
theorem msr_forms_differ :
    ¬∀ (p : ArmCore) (insImm insReg : Word), MsrForms p insImm insReg →
      armMsr p insImm = armMsr p insReg := by
  intro agree
  have same := agree { sampleCore 0x13#32 0#32 with registersStorage := fun _ => 0x80#32 }
    0xE328F080#32 0xE128F000#32 ⟨by decide, by decide, by decide, by decide, by decide⟩
  have flags := congrArg (fun r => r.1.cpsr) same
  revert flags
  decide

section RoundTrip

def validModes : List Mode :=
  [Mode.usr, Mode.fiq, Mode.irq, Mode.svc, Mode.abt, Mode.und, Mode.sys]

structure MsrAllFields (ins : Word) : Prop where
  handler : instructionGetHandler ins = some .armMsr
  cpsr : getBit ins 22 = false
  fields : getBits ins 19 16 = 15#32

structure MrsFromCpsr (ins : Word) : Prop where
  handler : instructionGetHandler ins = some .armMrs
  cpsr : getBit ins 22 = false

/-- The operands a program may write: no T bit, nothing unallocated, a mode that exists. -/
structure StatusOperand (operand : Word) : Prop where
  state : operand &&& stateMask = 0#32
  unalloc : operand &&& unallocMask = 0#32
  mode : operand.setWidth 5 ∈ validModes

def BitsReadBack (operand value : Word) : Prop :=
  ∀ i < 32, unallocMask.getLsbD i = false → stateMask.getLsbD i = false →
    value.getLsbD i = operand.getLsbD i

theorem writable_bits : ∀ i < 32, unallocMask.getLsbD i = false → stateMask.getLsbD i = false →
    (userMask ||| privMask).getLsbD i = true ∨ i = 4 ∨ i = Psr.i ∨ i = Psr.f := by
  decide

theorem validMode_fourth : ∀ m ∈ validModes, m.getLsbD 4 = true := by decide

theorem fourth_of_valid {x : Word} (valid : x.setWidth 5 ∈ validModes) : x.getLsbD 4 = true := by
  have bit := validMode_fourth _ valid
  rw [BitVec.getLsbD_setWidth] at bit
  exact bit

theorem negative_immediate : ∀ (rotateImm : BitVec 4) (imm8 : BitVec 8), imm8.getLsbD 7 = true →
    ror (imm8.setWidth 32) ((rotateImm.setWidth 32).toNat * 2) &&& stateMask = 0#32 →
    ror (imm8.setWidth 32) ((rotateImm.setWidth 32).toNat * 2) &&& unallocMask = 0#32 →
    (ror (imm8.setWidth 32) ((rotateImm.setWidth 32).toNat * 2)).getLsbD 4 = true →
    ror 0xFFFFFF00#32 ((rotateImm.setWidth 32).toNat * 2) &&& stateMask = 0#32 ∧
      (ror 0xFFFFFF00#32 ((rotateImm.setWidth 32).toNat * 2)).getLsbD Psr.n = true ∧
      (ror (imm8.setWidth 32) ((rotateImm.setWidth 32).toNat * 2)).getLsbD Psr.n = false := by
  decide +kernel

variable {p : ArmCore} {ins : Word}

theorem negative_fill (operand : StatusOperand (msrValue p ins)) (immediate : getBit ins 25 = true)
    (negative : getBit ins 7 = true) : msrFill ins &&& stateMask = 0#32 ∧
      (msrFill ins).getLsbD Psr.n = true ∧ (msrValue p ins).getLsbD Psr.n = false := by
  have fill : msrFill ins = ror 0xFFFFFF00#32 (((ins.extractLsb' 8 4).setWidth 32).toNat * 2) := by
    rw [msrFill, immediate, negative, getBits_eq_extractLsb']
    rfl
  have value : msrValue p ins = ror ((ins.extractLsb' 0 8).setWidth 32)
      (((ins.extractLsb' 8 4).setWidth 32).toNat * 2) := by
    rw [msrValue, if_pos immediate, getImmediate, getBits_eq_extractLsb' ins 7 0,
      getBits_eq_extractLsb' ins 11 8]
  have sign : (ins.extractLsb' 0 8).getLsbD 7 = true := by
    rw [BitVec.getLsbD_extractLsb', ← getBit_eq, negative]
    rfl
  have fourth := fourth_of_valid operand.mode
  obtain ⟨state, unalloc, _⟩ := operand
  rw [value] at state unalloc fourth
  rw [fill, value]
  exact negative_immediate _ _ sign state unalloc fourth

theorem msrByteMask_all (fields : getBits ins 19 16 = 15#32) :
    msrByteMask ins = BitVec.allOnes 32 := by
  have set : ∀ i, 16 ≤ i → i ≤ 19 → getBit ins i = (15#32).getLsbD (i - 16) := by
    intro i low high
    rw [getBit_eq, getLsbD_of_getBits fields low high]
  rw [msrByteMask, set 16 (by decide) (by decide), set 17 (by decide) (by decide),
    set 18 (by decide) (by decide), set 19 (by decide) (by decide)]
  decide

theorem armMsr_allFields (msr : MsrAllFields ins) (privileged : armMode p ≠ Mode.usr)
    (state : msrOperand p ins &&& stateMask = 0#32) :
    (armMsr p ins).1 = armWriteCpsr p
      (msrWrite p.cpsr (userMask ||| privMask) (msrOperand p ins)) := by
  have mode : armInAPrivilegedMode p = true := bne_iff_ne.mpr privileged
  rw [armMsr_eq]
  simp only [msr.cpsr, Bool.false_eq_true, if_false, msrCpsrMask, mode, if_true, state,
    msrByteMask_all msr.fields, BitVec.allOnes_and]

theorem readsBack_iff {old operand : Word} (valid : old.setWidth 5 ∈ validModes)
    (status : StatusOperand operand) :
    BitsReadBack operand (msrWrite old (userMask ||| privMask) operand) ↔
      operand.getLsbD Psr.i = old.getLsbD Psr.i ∧ operand.getLsbD Psr.f = old.getLsbD Psr.f := by
  have i_kept : (userMask ||| privMask).getLsbD Psr.i = false := by decide
  have f_kept : (userMask ||| privMask).getLsbD Psr.f = false := by decide
  constructor
  · intro back
    have i_back := back Psr.i (by decide) (by decide) (by decide)
    have f_back := back Psr.f (by decide) (by decide) (by decide)
    rw [getLsbD_msrWrite _ _ _ (by decide), i_kept] at i_back
    rw [getLsbD_msrWrite _ _ _ (by decide), f_kept] at f_back
    exact ⟨i_back.symm, f_back.symm⟩
  · rintro ⟨i_same, f_same⟩ i small allocated notT
    rw [getLsbD_msrWrite _ _ _ small]
    rcases writable_bits i small allocated notT with written | rfl | rfl | rfl
    · rw [if_pos written]
    · rw [fourth_of_valid valid, fourth_of_valid status.mode, ite_self]
    · rw [i_kept, if_neg (by decide), i_same]
    · rw [f_kept, if_neg (by decide), f_same]

theorem allFields_readsBack_iff (msr : MsrAllFields ins) (valid : armMode p ∈ validModes)
    (privileged : armMode p ≠ Mode.usr) (status : StatusOperand (msrValue p ins)) :
    BitsReadBack (msrValue p ins) (armMsr p ins).1.cpsr ↔
      ((msrValue p ins).getLsbD Psr.i = p.cpsr.getLsbD Psr.i ∧
        (msrValue p ins).getLsbD Psr.f = p.cpsr.getLsbD Psr.f) ∧
      ¬(getBit ins 25 = true ∧ getBit ins 7 = true) := by
  have operand := msrOperand_eq p ins
  by_cases negative : getBit ins 25 = true ∧ getBit ins 7 = true
  · obtain ⟨state, fill, value⟩ := negative_fill status negative.1 negative.2
    have noT : msrOperand p ins &&& stateMask = 0#32 := by
      rw [operand, BitVec.and_or_distrib_right, status.state, state, BitVec.or_zero]
    constructor
    · intro back
      have n := back Psr.n (by decide) (by decide) (by decide)
      rw [armMsr_allFields msr privileged noT, armWriteCpsr_cpsr,
        getLsbD_msrWrite _ _ _ (by decide),
        if_pos (by decide), operand, BitVec.getLsbD_or, fill, value] at n
      cases n
    · rintro ⟨_, notNegative⟩
      exact absurd negative notNegative
  · have noFill : msrFill ins = 0#32 := by
      rw [msrFill, if_neg]
      rwa [Bool.and_eq_true]
    rw [noFill, BitVec.or_zero] at operand
    rw [armMode_eq] at valid
    rw [armMsr_allFields msr privileged (operand ▸ status.state), armWriteCpsr_cpsr, operand,
      readsBack_iff valid status]
    exact (and_iff_left negative).symm

theorem armStep_msr {h : Platform} (junk : Word) (msr : instructionGetHandler ins = some .armMsr)
    (fetches : Fetches h p ins) (passed : instructionCheckCondition p ins = .passed) :
    armStep h junk p = ((armMsr (fetched p) ins).1, .returned .noException) := by
  apply armStep_handled fetches passed msr
  simp only [Handler.run, returning, armMsr_eq]

theorem armStep_mrs {h : Platform} (junk : Word) (mrs : MrsFromCpsr ins) (fetches : Fetches h p ins)
    (passed : instructionCheckCondition p ins = .passed) :
    armStep h junk p =
      (armWriteRegister (fetched p) (getReg ins 15 12) p.cpsr, .returned .noException) := by
  apply armStep_handled fetches passed mrs.handler
  simp only [Handler.run, returning, armMrs, mrs.cpsr, Bool.false_eq_true, if_false]
  rfl

end RoundTrip

/-- MSR of all four fields in a privileged mode and MRS into any register: the
allocated bits come back exactly if the operand has the interrupt masks of the
status word it replaces, and is not a negative immediate. -/
theorem msr_mrs_round_trip_iff (h : Platform) (junk : Word) (p : ArmCore) (ins : Word)
    (msr : MsrAllFields ins) (fetches : Fetches h p ins)
    (passed : instructionCheckCondition p ins = .passed) (valid : armMode p ∈ validModes)
    (privileged : armMode p ≠ Mode.usr) (status : StatusOperand (msrValue (fetched p) ins)) :
    ∃ q, armStep h junk p = (q, .returned .noException) ∧
      ∀ junk' ins', MrsFromCpsr ins' → Fetches h q ins' →
        instructionCheckCondition q ins' = .passed →
        ∃ r, armStep h junk' q = (r, .returned .noException) ∧
          (BitsReadBack (msrValue (fetched p) ins)
              (r.registersStorage (registers (armMode r) (getReg ins' 15 12))) ↔
            ((msrValue (fetched p) ins).getLsbD Psr.i = p.cpsr.getLsbD Psr.i ∧
              (msrValue (fetched p) ins).getLsbD Psr.f = p.cpsr.getLsbD Psr.f) ∧
            ¬(getBit ins 25 = true ∧ getBit ins 7 = true)) := by
  refine ⟨_, armStep_msr junk msr.handler fetches passed, ?_⟩
  intro junk' ins' mrs fetches' passed'
  refine ⟨_, armStep_mrs junk' mrs fetches' passed', ?_⟩
  rw [armMode_armWriteRegister, armWriteRegister_self]
  exact allFields_readsBack_iff (p := fetched p) msr valid privileged status

/-- `msr cpsr_fsxc, r0` and then `mrs r1, cpsr`, in supervisor mode with both interrupts
enabled. -/
def msrWord : Word := 0xE12FF000#32

def mrsWord : Word := 0xE10F1000#32

def roundTripCore (operand : Word) : ArmCore :=
  { sampleCore 0x13#32 0#32 with
    registersStorage := Function.update (fun _ => 0#32) (usrStorage 0#4) operand
    mem := (repeatedWord mrsWord).put lp64 false 0#32 msrWord }

def roundTripValue (operand : Word) : Word :=
  (armStep lp64 0#32 (armStep lp64 0#32 (roundTripCore operand)).1).1.registersStorage
    (usrStorage 1#4)

theorem msr_mrs_round_trip_system : BitsReadBack 0xA000001F#32 (roundTripValue 0xA000001F#32) := by
  have fetches : Fetches lp64 (roundTripCore 0xA000001F#32) msrWord :=
    ⟨by decide, by decide +kernel⟩
  have value : msrValue (fetched (roundTripCore 0xA000001F#32)) msrWord = 0xA000001F#32 := by decide
  obtain ⟨q, step, back⟩ := msr_mrs_round_trip_iff lp64 0#32 (roundTripCore 0xA000001F#32) msrWord
    ⟨by decide, by decide, by decide⟩ fetches (by decide) (by decide) (by decide)
    (by rw [value]; exact ⟨by decide, by decide, by decide⟩)
  have after : q = (armStep lp64 0#32 (roundTripCore 0xA000001F#32)).1 := by rw [step]
  obtain ⟨r, step', iff⟩ := back 0#32 mrsWord ⟨by decide, by decide⟩
    (by rw [after]; exact ⟨by decide +kernel, by decide +kernel⟩) (by rw [after]; decide +kernel)
  have r1 : ∀ m, registers m (getReg mrsWord 15 12) = usrStorage 1#4 := by decide
  rw [value, r1] at iff
  rw [roundTripValue, ← after, step']
  exact iff.mpr (by decide)

/-- `0xD3` disables both interrupts; it is read back as `0x13`. -/
theorem msr_does_not_write_masks :
    ¬∀ (h : Platform) (junk : Word) (p : ArmCore) (ins : Word), MsrAllFields ins → Fetches h p ins →
      instructionCheckCondition p ins = .passed → armMode p ∈ validModes → armMode p ≠ Mode.usr →
      StatusOperand (msrValue (fetched p) ins) →
      ∀ junk' ins', MrsFromCpsr ins' → Fetches h (armStep h junk p).1 ins' →
        instructionCheckCondition (armStep h junk p).1 ins' = .passed →
        BitsReadBack (msrValue (fetched p) ins)
          ((armStep h junk' (armStep h junk p).1).1.registersStorage
            (registers (armMode (armStep h junk' (armStep h junk p).1).1)
              (getReg ins' 15 12))) := by
  intro readsBack
  have value : msrValue (fetched (roundTripCore 0xD3#32)) msrWord = 0xD3#32 := by decide
  have back := readsBack lp64 0#32 (roundTripCore 0xD3#32) msrWord ⟨by decide, by decide, by decide⟩
    ⟨by decide, by decide +kernel⟩ (by decide) (by decide) (by decide)
    (by rw [value]; exact ⟨by decide, by decide, by decide⟩) 0#32 mrsWord ⟨by decide, by decide⟩
    ⟨by decide +kernel, by decide +kernel⟩ (by decide +kernel)
  have i := back Psr.i (by decide) (by decide) (by decide)
  revert i
  decide +kernel

end ArmSimulator
