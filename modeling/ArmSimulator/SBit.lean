import ArmSimulator.Instruction

/-! The S bit. Twelve data-processing operations leave the flags alone without
it; the four comparisons do not look at it, and the decoder sends them every
word of the control space that is no MRS or MSR. -/
namespace ArmSimulator

structure FlagsKept (p q : ArmCore) : Prop where
  n : armReadN q = armReadN p
  z : armReadZ q = armReadZ p
  c : armReadC q = armReadC p
  v : armReadV q = armReadV p

theorem flagsKept_of_bits {p q : ArmCore}
    (same : ∀ i ∈ [Psr.n, Psr.z, Psr.c, Psr.v], q.cpsr.getLsbD i = p.cpsr.getLsbD i) :
    FlagsKept p q := by
  constructor <;> simp only [armReadN, armReadZ, armReadC, armReadV, getBit_eq, armReadCpsr_eq]
  · exact same Psr.n (by decide)
  · exact same Psr.z (by decide)
  · exact same Psr.c (by decide)
  · exact same Psr.v (by decide)

theorem entryCpsr_flags (h : Platform) (cpsr : Word) (mode : Mode) {i : Nat}
    (flag : i ∈ [Psr.n, Psr.z, Psr.c, Psr.v]) :
    (entryCpsr h cpsr mode false).getLsbD i = cpsr.getLsbD i := by
  have high : 10 ≤ i ∧ i < 32 := by
    simp only [List.mem_cons, List.not_mem_nil, or_false] at flag
    rcases flag with rfl | rfl | rfl | rfl <;> decide
  simp only [entryCpsr, getLsbD_chgBit, getLsbD_setBit, getLsbD_clrBit, modeCpsr, getLsbD_setBits,
    BitVec.getLsbD_setWidth, Bool.false_eq_true, if_false]
  simp only [show ¬Psr.e = i by simp only [Psr.e]; omega,
    show ¬Psr.i = i by simp only [Psr.i]; omega,
    show ¬Psr.t = i by simp only [Psr.t]; omega, show ¬i < 0 by omega, show 4 + 1 ≤ i by omega,
    BitVec.getLsbD_of_ge mode (i - 0) (by omega), if_false, decide_true, decide_false,
    Bool.and_false, Bool.or_false, Bool.false_or, Bool.not_false, Bool.true_and, Bool.and_true]

theorem run_withoutS {op : OpCode} (writes : op.compares = false) (p : ArmCore) (rd : Reg)
    (op1 op2 : Word) (sc : Bool) : (op.run p rd op1 op2 false sc).cpsr = p.cpsr := by
  obtain ⟨res, c, v, shape⟩ := OpCode.run_writes p rd op1 op2 false sc writes
  rw [shape, writeResult_withoutS, armWriteRegister_cpsr]

section Kept

variable {h : Platform} {junk : Word} {p : ArmCore} {ins : Word}

theorem flagsKept_unexecuted (fetches : Fetches h p ins)
    (stopped : instructionCheckCondition p ins ≠ .passed) :
    FlagsKept p (armStep h junk p).1 := by
  rw [armStep, armExecuteInstruction_fetches fetches, executeFetched]
  have same : instructionCheckCondition (fetched p) ins = instructionCheckCondition p ins := rfl
  rw [same]
  cases condition : instructionCheckCondition p ins with
  | passed => exact absurd condition stopped
  | failed => exact flagsKept_of_bits fun _ _ => rfl
  | undefined => exact flagsKept_of_bits fun i flag => entryCpsr_flags h p.cpsr Mode.und flag

theorem flagsKept_writes (dataProcessing : DataProcessingWord ins) (withoutS : getS ins = false)
    (writes : (armGetDpHandler ins).compares = false) (fetches : Fetches h p ins) :
    FlagsKept p (armStep h junk p).1 := by
  by_cases passed : instructionCheckCondition p ins = .passed
  · rw [armStep_dataProcessing junk dataProcessing fetches passed, withoutS]
    have kept := run_withoutS writes (fetched p) (getRd ins) (dpOp1 (fetched p) ins)
      (shifterOperand (fetched p) ins).1 (shifterOperand (fetched p) ins).2
    exact flagsKept_of_bits fun i _ => congrArg (BitVec.getLsbD · i) kept
  · exact flagsKept_unexecuted fetches passed

end Kept

section Probe

/-- N, Z, C and V under which the condition passes; `b` is the free flag. -/
def probeFlags (b : Bool) : BitVec 4 → Bool × Bool × Bool × Bool
  | 0#4 => (b, true, false, false)
  | 2#4 => (b, false, true, false)
  | 4#4 => (true, b, false, false)
  | 5#4 => (false, b, false, false)
  | 6#4 => (b, false, false, true)
  | 8#4 => (b, false, true, false)
  | 10#4 => (b, false, false, b)
  | 11#4 => (b, false, false, !b)
  | 12#4 => (b, false, false, b)
  | 13#4 => (b, true, false, false)
  | _ => (b, false, false, false)

def probeCpsr (cond : BitVec 4) (b : Bool) : Word :=
  let f := probeFlags b cond
  (bit 32 f.1 <<< 31) ||| (bit 32 f.2.1 <<< 30) ||| (bit 32 f.2.2.1 <<< 29) |||
    (bit 32 f.2.2.2 <<< 28) ||| 0x10#32

def probed (cond : BitVec 4) (p : ArmCore) : Bool :=
  if cond = 4#4 ∨ cond = 5#4 then armReadZ p else armReadN p

def probeState (h : Platform) (ins : Word) (cond : BitVec 4) (b : Bool) : ArmCore :=
  { sampleCore (probeCpsr cond b) 0 with mem := firstWord h ins }

variable (h : Platform) (ins : Word) (cond : BitVec 4) (b : Bool)

theorem probe_passes : ∀ (cond : BitVec 4) (b : Bool), cond ≠ 15#4 →
    conditionSwitch (probeCpsr cond b) (cond.setWidth 32) = .passed := by
  decide

theorem probe_mode : ∀ (cond : BitVec 4) (b : Bool),
    (probeCpsr cond b &&& 0x1f#32).setWidth 5 = Mode.usr := by
  decide

theorem probe_littleEndian : ∀ (cond : BitVec 4) (b : Bool),
    getBit (probeCpsr cond b) Psr.e = false := by
  decide

theorem probe_carry : ∀ (cond : BitVec 4) (b : Bool),
    getBit (probeCpsr cond b) Psr.c = getBit (probeCpsr cond false) Psr.c := by
  decide

theorem probed_start : probed cond (probeState h ins cond b) = b := by
  have flag : ∀ (cond : BitVec 4) (b : Bool), (if cond = 4#4 ∨ cond = 5#4
      then getBit (probeCpsr cond b) Psr.z else getBit (probeCpsr cond b) Psr.n) = b := by
    decide
  exact flag cond b

theorem probe_fetches : Fetches h (probeState h ins cond b) ins :=
  fetches_firstWord rfl (probe_littleEndian cond b) rfl

theorem probe_registers (r : Reg) : armReadRegister (fetched (probeState h ins cond b)) r =
    armReadRegister (fetched (probeState h ins cond false)) r := by
  have mode : ∀ b, armMode (fetched (probeState h ins cond b)) = Mode.usr := probe_mode cond
  have storage : ∀ b, (fetched (probeState h ins cond b)).registersStorage =
      Function.update (fun _ => 0#32) 15 (0#32 + 4#32) := by
    intro b
    have start : (probeState h ins cond b).registersStorage 15 = 0#32 := rfl
    rw [fetched, armWriteRegister, registers_pc,
      fetchAddress_of_clear (by rw [start]; decide), start]
    rfl
  rw [armReadRegister, armReadRegister, mode, mode, storage, storage]

variable {h ins cond}

theorem probed_step (dataProcessing : DataProcessingWord ins)
    (compares : (armGetDpHandler ins).compares = true) (code : getBits ins 31 28 = cond.setWidth 32)
    (canPass : cond ≠ 15#4) : ∃ value, ∀ b,
      probed cond (armStep h 0 (probeState h ins cond b)).1 = value := by
  have passed : ∀ b, instructionCheckCondition (probeState h ins cond b) ins = .passed := by
    intro b
    rw [instructionCheckCondition, code]
    exact probe_passes cond b canPass
  have op1 : ∀ b, dpOp1 (fetched (probeState h ins cond b)) ins =
      dpOp1 (fetched (probeState h ins cond false)) ins :=
    fun b => dpOp1_congr (probe_registers h ins cond b) ins
  have op2 : ∀ b, shifterOperand (fetched (probeState h ins cond b)) ins =
      shifterOperand (fetched (probeState h ins cond false)) ins := by
    intro b
    have carry : armReadC (fetched (probeState h ins cond b)) =
        armReadC (fetched (probeState h ins cond false)) := probe_carry cond b
    rw [shifterOperand, shifterOperand, getImmediate_congr carry,
      getShifted_congr (probe_registers h ins cond b) carry]
  obtain ⟨res, c, v, shape⟩ := OpCode.run_compares (getRd ins)
    (dpOp1 (fetched (probeState h ins cond false)) ins)
    (shifterOperand (fetched (probeState h ins cond false)) ins).1 (getS ins)
    (shifterOperand (fetched (probeState h ins cond false)) ins).2 compares
  -- the operands do not depend on the flag, so neither does what is set
  refine ⟨if cond = 4#4 ∨ cond = 5#4 then res.setWidth 32 == 0#32 else getBit res 31, ?_⟩
  intro b
  rw [armStep_dataProcessing 0 dataProcessing (probe_fetches h ins cond b) (passed b), op1,
    op2, shape]
  simp only [probed, armReadZ, armReadN, getBit_eq, armReadCpsr_eq, DataProcessing.compareResult,
    updateNzcv_z, updateNzcv_n, Option.getD_some]

theorem comparison_changes_flags (dataProcessing : DataProcessingWord ins)
    (compares : (armGetDpHandler ins).compares = true) (canPass : getBits ins 31 28 ≠ 15#32) :
    ∃ p, Fetches h p ins ∧ ¬FlagsKept p (armStep h 0 p).1 := by
  have code := getBits_eq_extractLsb' ins 31 28
  have canPass' : ins.extractLsb' 28 4 ≠ 15#4 := fun all => canPass (by rw [code, all]; rfl)
  obtain ⟨value, same⟩ := probed_step (h := h) dataProcessing compares code canPass'
  refine ⟨_, probe_fetches h ins (ins.extractLsb' 28 4) (!value), fun kept => ?_⟩
  have before := probed_start h ins (ins.extractLsb' 28 4) (!value)
  have unchanged : probed (ins.extractLsb' 28 4)
      (armStep h 0 (probeState h ins (ins.extractLsb' 28 4) (!value))).1 =
      probed (ins.extractLsb' 28 4) (probeState h ins (ins.extractLsb' 28 4) (!value)) := by
    rw [probed, probed, kept.z, kept.n]
  rw [same, before] at unchanged
  exact absurd unchanged (by cases value <;> decide)

theorem compares_iff (ins : Word) :
    (armGetDpHandler ins).compares = true ↔ getBits ins 24 23 = 2#32 := by
  have opCode := getBits_eq_extractLsb' ins 24 21
  have upper : getBits ins 24 23 = ((ins.extractLsb' 21 4).extractLsb' 2 2).setWidth 32 := by
    rw [getBits_eq_extractLsb']
    congr 1
    apply BitVec.eq_of_getLsbD_eq
    intro i small
    have inside : 2 + i < 4 := by omega
    simp only [BitVec.getLsbD_extractLsb', small, inside, decide_true, Bool.true_and,
      ← Nat.add_assoc, Nat.reduceAdd]
  rw [armGetDpHandler, opCode, upper]
  generalize ins.extractLsb' 21 4 = field
  revert field
  decide

/-- A word without S keeps the flags in every state exactly when its opcode
field is not 10xx or its condition field is 1111. -/
theorem flags_kept_withoutS_iff (h : Platform) (ins : Word)
    (dataProcessing : DataProcessingWord ins) (withoutS : getS ins = false) :
    (∀ junk p, Fetches h p ins → FlagsKept p (armStep h junk p).1) ↔
      getBits ins 24 23 ≠ 2#32 ∨ getBits ins 31 28 = 15#32 := by
  constructor
  · intro kept
    by_contra condition
    obtain ⟨control, canPass⟩ := not_or.mp condition
    have compares := (compares_iff ins).mpr (not_not.mp control)
    obtain ⟨p, fetches, changed⟩ :=
      comparison_changes_flags (h := h) dataProcessing compares canPass
    exact changed (kept 0 p fetches)
  · rintro (writes | never) junk p fetches
    · rw [ne_eq, ← compares_iff, Bool.not_eq_true] at writes
      exact flagsKept_writes dataProcessing withoutS writes fetches
    · apply flagsKept_unexecuted fetches
      rw [instructionCheckCondition, never]
      exact nofun

theorem flags_kept_withoutS_iff_mov :
    armReadN (armStep lp64 0 (sampleCore 0x80000010 0xE1A00001)).1 = true :=
  ((flags_kept_withoutS_iff lp64 0xE1A00001 (.inl (by decide)) (by decide)).mpr (.inl (by decide)) 0
    (sampleCore 0x80000010 0xE1A00001) ⟨by decide, by decide⟩).n

/-- `bx r0` runs as TEQ and clears a set N. -/
theorem bx_changes_flags : ¬∀ (junk : Word) (p : ArmCore) (ins : Word), DataProcessingWord ins →
    getS ins = false → Fetches lp64 p ins → FlagsKept p (armStep lp64 junk p).1 := by
  intro kept
  have n := (kept 0 (sampleCore 0x80000010 0xE12FFF10) 0xE12FFF10 (.inl (by decide)) (by decide)
    ⟨by decide, by decide⟩).n
  revert n
  decide

end Probe

end ArmSimulator
