import ArmSimulator.Instruction
import ArmSimulator.ShiftReference

namespace ArmSimulator

section Target

theorem toInt_shiftLeft_eight (field : Word) :
    ((getBits field 23 0) <<< 8).toInt = 256 * (field.setWidth 24).toInt := by
  rw [getBits_lowest]
  have size := (field.setWidth 24).isLt
  generalize field.setWidth 24 = x at size
  have shifted : ((x.setWidth 32 <<< 8 : Word)).toNat = 256 * x.toNat := by
    rw [BitVec.toNat_shiftLeft, BitVec.toNat_setWidth, Nat.shiftLeft_eq]
    omega
  rw [BitVec.toInt_eq_toNat_cond, BitVec.toInt_eq_toNat_cond, shifted]
  split <;> split <;> push_cast <;> omega

theorem signExtend24To30_toInt (field : Word) :
    (signExtend24To30 (getBits field 23 0)).toInt = (field.setWidth 24).toInt := by
  rw [signExtend24To30, asr_eq_sshiftRight _ (by decide) (by decide), BitVec.toInt_sshiftRight,
    toInt_shiftLeft_eight, Int.shiftRight_eq_div_pow]
  omega

theorem branch_offset (field : Word) : signExtend24To30 (getBits field 23 0) <<< 2 =
    BitVec.ofInt 32 (4 * (field.setWidth 24).toInt) := by
  rw [BitVec.shiftLeft_eq_mul_twoPow, ← signExtend24To30_toInt, Int.mul_comm, BitVec.ofInt_mul,
    BitVec.ofInt_toInt]
  rfl

def branchTarget (a ins : Word) : Word :=
  BitVec.ofInt 32 (a.toNat + 8 + 4 * (ins.setWidth 24).toInt)

theorem branchTarget_eq (a ins : Word) :
    branchTarget a ins = a + 8#32 + (signExtend24To30 (getBits ins 23 0) <<< 2) := by
  rw [branch_offset, branchTarget, BitVec.ofInt_add, BitVec.ofInt_add, BitVec.ofInt_natCast,
    BitVec.ofNat_toNat, BitVec.setWidth_eq]
  rfl

theorem branchTarget_aligned {a : Word} (aligned : a.toNat % 4 = 0) (ins : Word) :
    (branchTarget a ins).toNat % 4 = 0 := by
  rw [branchTarget, BitVec.toNat_ofInt]
  omega

end Target

/-- From `p` to `q` a branch was executed: the target is fetched next, BL has left
the address of the following instruction in its link register, and apart from
the count of cycles nothing else is different. -/
structure Branched (ins : Word) (p q : ArmCore) : Prop where
  target : fetchAddress q = branchTarget (fetchAddress p) ins
  link : getBit ins 24 = true →
    q.registersStorage (registers (armMode p) Reg.lr) = fetchAddress p + 4#32
  storage : ∀ k, k ≠ 15 → (getBit ins 24 = true → k ≠ registers (armMode p) Reg.lr) →
    q.registersStorage k = p.registersStorage k
  cpsr : q.cpsr = p.cpsr
  spsr : q.spsr = p.spsr
  mem : q.mem = p.mem
  cycleCount : q.cycleCount = p.cycleCount + 1#32

section Branch

variable {h : Platform} {p : ArmCore} {ins : Word}

theorem armBranch_fetched : armBranch (fetched p) ins =
    (armWriteRegister (if getBit ins 24 then
        armWriteRegister (fetched p) Reg.lr (fetchAddress p + 4#32) else fetched p)
      Reg.pc (branchTarget (fetchAddress p) ins), .noException) := by
  have link : fetchAddress p + 8#32 - 4#32 = fetchAddress p + 4#32 := by bv_omega
  rw [armBranch, armReadRegister_afterFetch fetched_pc, branchTarget_eq]
  simp only [link]

theorem armBranch_branched (aligned : (fetchAddress p).toNat % 4 = 0) :
    Branched ins p (armBranch (fetched p) ins).1 := by
  have sameMode : armMode (fetched p) = armMode p := armMode_congr rfl
  have lr_pc : registers (armMode p) Reg.lr ≠ 15 := registers_ne_pc _ _ (by decide)
  have target : ∀ q,
      (armWriteRegister q Reg.pc (branchTarget (fetchAddress p) ins)).registersStorage 15 =
        branchTarget (fetchAddress p) ins := by
    intro q
    rw [armWriteRegister, registers_pc, writeStorage_self]
  have others : ∀ q k, k ≠ 15 → (armWriteRegister q Reg.pc
      (branchTarget (fetchAddress p) ins)).registersStorage k = q.registersStorage k := by
    intro q k notPc
    rw [armWriteRegister, registers_pc, writeStorage_other _ _ _ _ notPc]
  rw [armBranch_fetched]
  constructor
  case target =>
    have low := branchTarget_aligned aligned ins
    rw [fetchAddress_of_clear (by rw [target]; omega), target]
  case link =>
    intro linked
    rw [others _ _ lr_pc, if_pos linked, ← sameMode, armWriteRegister_self]
  case storage =>
    intro k notPc notLink
    rw [others _ _ notPc]
    split
    · rename_i linked
      rw [armWriteRegister_storage_other _ _ _ _ (sameMode ▸ notLink linked), fetched_storage notPc]
    · exact fetched_storage notPc
  all_goals
    cases getBit ins 24 <;> rfl

theorem armStep_branch (junk : Word) (branch : getBits ins 27 25 = 5#32) (fetches : Fetches h p ins)
    (passed : instructionCheckCondition p ins = .passed) :
    armStep h junk p = ((armBranch (fetched p) ins).1, .returned .noException) := by
  have handler : instructionGetHandler ins = some .armBranch := by
    simp only [instructionGetHandler, branch]
  exact armStep_handled fetches passed handler rfl

end Branch

section Return

def movPcLr (cond : BitVec 4) : Word := (cond.setWidth 32 <<< 28) ||| 0x01A0F00E#32

theorem movPcLr_fields : ∀ cond : BitVec 4,
    instructionGetHandler (movPcLr cond) = some .armDataProcessingShift ∧
    armGetDpHandler (movPcLr cond) = .mov ∧ getRd (movPcLr cond) = Reg.pc ∧
    getS (movPcLr cond) = false ∧ getReg (movPcLr cond) 3 0 = Reg.lr ∧
    getBits (movPcLr cond) 11 7 = 0#32 ∧ getBits (movPcLr cond) 6 5 = 0#32 := by
  decide +kernel

variable {h : Platform} {r : ArmCore} {cond : BitVec 4}

theorem movPcLr_operand (q : ArmCore) :
    (shifterOperand q (movPcLr cond)).1 = armReadRegister q Reg.lr := by
  obtain ⟨shift, _, _, _, rm, amount, lsl⟩ := movPcLr_fields cond
  rw [shifterOperand, if_neg (by rw [shift]; decide), getShifted, rm, amount, lsl]
  rfl

theorem armStep_return (junk : Word) (fetches : Fetches h r (movPcLr cond))
    (passed : instructionCheckCondition r (movPcLr cond) = .passed) :
    armStep h junk r = (armWriteRegister (fetched r) Reg.pc (armReadRegister r Reg.lr),
      .returned .noException) := by
  obtain ⟨shift, mov, rd, s, _⟩ := movPcLr_fields cond
  have lr_pc : Reg.lr ≠ Reg.pc := by decide
  rw [armStep_dataProcessing junk (.inl shift) fetches passed, mov, rd, s, OpCode.run,
    DataProcessing.mov, writeResult_withoutS, movPcLr_operand, fetched_reads _ lr_pc,
    BitVec.setWidth_setWidth_of_le _ (by decide), BitVec.setWidth_eq]

theorem armStep_return_fetch (junk : Word) (fetches : Fetches h r (movPcLr cond))
    (passed : instructionCheckCondition r (movPcLr cond) = .passed)
    (aligned : (r.registersStorage (registers (armMode r) Reg.lr)).toNat % 4 = 0) :
    fetchAddress (armStep h junk r).1 = r.registersStorage (registers (armMode r) Reg.lr) := by
  have pc : (armWriteRegister (fetched r) Reg.pc (armReadRegister r Reg.lr)).registersStorage 15 =
      r.registersStorage (registers (armMode r) Reg.lr) := by
    rw [armWriteRegister, registers_pc, writeStorage_self, armReadRegister_of_ne (by decide)]
  rw [armStep_return junk fetches passed, fetchAddress_of_clear (by rw [pc]; omega), pc]

end Return

/-- A branch at a word-aligned address fetches next from its target, mod 2^32, and
`mov pc, lr` with the link of BL from the word after the branch. -/
theorem branch_and_return (h : Platform) (junk : Word) (p : ArmCore) (ins : Word)
    (branch : getBits ins 27 25 = 5#32) (fetches : Fetches h p ins)
    (passed : instructionCheckCondition p ins = .passed)
    (aligned : (fetchAddress p).toNat % 4 = 0) :
    ∃ q, armStep h junk p = (q, .returned .noException) ∧ Branched ins p q ∧
      (getBit ins 24 = true → ∀ (junk' : Word) (r : ArmCore) (cond : BitVec 4),
        armMode r = armMode q →
        r.registersStorage (registers (armMode q) Reg.lr) =
          q.registersStorage (registers (armMode q) Reg.lr) →
        Fetches h r (movPcLr cond) → instructionCheckCondition r (movPcLr cond) = .passed →
        (armStep h junk' r).2 = .returned .noException ∧
          fetchAddress (armStep h junk' r).1 = fetchAddress p + 4#32) := by
  have branched : Branched ins p (armBranch (fetched p) ins).1 := armBranch_branched aligned
  have sameMode := armMode_congr branched.cpsr
  refine ⟨_, armStep_branch junk branch fetches passed, branched, ?_⟩
  intro linked junk' r cond mode untouched fetches' passed'
  have link : r.registersStorage (registers (armMode r) Reg.lr) = fetchAddress p + 4#32 := by
    rw [mode, untouched, sameMode, branched.link linked]
  have low : (fetchAddress p + 4#32).toNat % 4 = 0 := by
    have size := (fetchAddress p).isLt
    simp only [BitVec.toNat_add, BitVec.toNat_ofNat]
    omega
  constructor
  · rw [armStep_return junk' fetches' passed']
  · rw [armStep_return_fetch junk' fetches' passed' (by rw [link]; exact low), link]

def callingCore : ArmCore := sampleCore 0x13#32 0xEB000040#32

def returningCore : ArmCore :=
  { sampleCore 0x13#32 (movPcLr 14#4) with
    registersStorage := Function.update (fun _ => 0#32) (registers Mode.svc Reg.lr) 4#32 }

theorem branch_and_return_called :
    fetchAddress (armStep lp64 0#32 callingCore).1 = 0x108#32 ∧
    fetchAddress (armStep lp64 0#32 returningCore).1 = 4#32 := by
  have calls : Fetches lp64 callingCore 0xEB000040#32 := ⟨by decide, by decide⟩
  have returns : Fetches lp64 returningCore (movPcLr 14#4) := ⟨by decide, by decide⟩
  obtain ⟨q, step, branched, back⟩ := branch_and_return lp64 0#32 callingCore 0xEB000040#32
    (by decide) calls (by decide) (by decide)
  have mode : armMode q = Mode.svc := armMode_congr (q := callingCore) branched.cpsr
  have link : q.registersStorage (registers (armMode q) Reg.lr) = 4#32 := by
    rw [mode]
    exact branched.link (by decide)
  constructor
  · rw [step, branched.target]
    decide
  · exact (back (by decide) 0#32 returningCore 14#4 (by rw [mode]; decide)
      (by rw [link, mode]; decide) returns (by decide)).2

end ArmSimulator
