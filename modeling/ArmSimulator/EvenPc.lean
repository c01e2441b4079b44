import ArmSimulator.DataAbort

/-! Even and odd pcs. A read of the pc clears its second bit and leaves the
lowest one, so a fetch is aligned as long as no odd value was put in the pc. -/
namespace ArmSimulator

section Low

variable {w : Nat}

def low (x : BitVec w) : Bool := x.getLsbD 0

theorem low_add (positive : 0 < w) (x y : BitVec w) : low (x + y) = (low x ^^ low y) := by
  rw [low, BitVec.getLsbD_add positive, BitVec.carry_zero, Bool.xor_false]
  rfl

theorem low_sub (positive : 0 < w) (x y : BitVec w) : low (x - y) = (low x ^^ low y) := by
  have back := low_add positive (x - y) y
  rw [BitVec.sub_add_cancel] at back
  rw [back, Bool.xor_assoc, Bool.xor_self, Bool.xor_false]

theorem low_setWidth {v : Nat} (positive : 0 < v) (x : BitVec w) : low (x.setWidth v) = low x := by
  rw [low, BitVec.getLsbD_setWidth, decide_eq_true positive, Bool.true_and, low]

theorem low_and (x y : BitVec w) : low (x &&& y) = (low x && low y) := BitVec.getLsbD_and

theorem low_or (x y : BitVec w) : low (x ||| y) = (low x || low y) := BitVec.getLsbD_or

theorem low_ite {c : Prop} [Decidable c] (x y : BitVec w) {b : Bool} (left : low x = b)
    (right : low y = b) : low (if c then x else y) = b := by
  split
  · exact left
  · exact right

theorem low_not (positive : 0 < w) (x : BitVec w) : low (~~~x) = !low x := by
  rw [low, BitVec.getLsbD_not, decide_eq_true positive, Bool.true_and, low]

theorem low_bit (positive : 0 < w) (b : Bool) : low (bit w b) = b := by
  cases b with
  | false => exact BitVec.getLsbD_zero
  | true => exact (BitVec.getLsbD_one).trans (by simp [positive])

theorem low_shiftLeft (x : BitVec w) {n : Nat} (positive : 0 < n) : low (x <<< n) = false := by
  rw [low, BitVec.getLsbD_shiftLeft, decide_eq_true positive, Bool.not_true, Bool.and_false,
    Bool.false_and]

end Low

def EvenPc (p : ArmCore) : Prop := low (p.registersStorage (usrStorage Reg.pc)) = false

theorem evenPc_iff (p : ArmCore) : EvenPc p ↔ low (p.registersStorage 15) = false := Iff.rfl

theorem fetchAddress_aligned_iff (p : ArmCore) :
    (fetchAddress p).toNat % 4 = 0 ↔ EvenPc p := by
  have clear := fetchAddress_clear p
  have same : low (fetchAddress p) = low (p.registersStorage 15) := by
    rw [fetchAddress, armReadRegister_pc, low_sub (by decide), low_and, low_add (by decide)]
    simp [low]
  have parity : low (fetchAddress p) = decide ((fetchAddress p).toNat % 2 = 1) := by
    rw [low, BitVec.getLsbD, Nat.testBit_zero]
  rw [evenPc_iff, ← same, parity, decide_eq_false_iff_not]
  omega

theorem fetched_even {p : ArmCore} (even : EvenPc p) : EvenPc (fetched p) := by
  have aligned := (fetchAddress_aligned_iff p).mpr even
  rw [← fetchAddress_aligned_iff, fetchAddress_of_clear]
  · rw [fetched_pc, BitVec.toNat_add]
    have size := (fetchAddress p).isLt
    simp only [BitVec.toNat_ofNat]
    omega
  · rw [fetched_pc]
    exact clear_add_four (fetchAddress_clear p)

theorem low_readPc {p : ArmCore} (even : EvenPc p) : low (armReadRegister p Reg.pc) = false := by
  rw [armReadRegister_pc, low_and, low_add (by decide), (evenPc_iff p).mp even]
  rfl

/-- The exceptions an instruction can raise; none of them can be masked. -/
def Raised (e : ArmException) : Prop :=
  e = .undefinedInstruction ∨ e = .softwareInterrupt ∨ e = .prefetchAbort ∨ e = .dataAbort

theorem enterException_even (h : Platform) (p : ArmCore) (mode : Mode) (fiq : Bool) (lr : Word)
    {vector : BitVec 8} (aligned : low (vectorAddress vector) = false) :
    EvenPc (enterException h p mode fiq lr vector) := by
  rw [evenPc_iff, (enterException_entered h p mode fiq lr vector).pc]
  exact aligned

theorem raised_even (h : Platform) (p : ArmCore) {e : ArmException} (raised : Raised e) :
    EvenPc (armException h p e) := by
  rcases raised with rfl | rfl | rfl | rfl
  · exact enterException_even h p _ _ _ rfl
  · exact enterException_even h p _ _ _ rfl
  · exact enterException_even h p _ _ _ rfl
  · exact enterException_even h p _ _ _ rfl

theorem reset_even (h : Platform) (p : ArmCore) : EvenPc (armException h p .reset) := by
  rw [evenPc_iff, armException, handleReset, armBranchExceptionVector, armWriteRegister,
    registers_pc, writeStorage_self]
  rfl

theorem armException_even (h : Platform) {p : ArmCore} (even : EvenPc p) (e : ArmException) :
    EvenPc (armException h p e) := by
  cases e with
  | noException => exact even
  | reset => exact reset_even h p
  | undefinedInstruction => exact raised_even h p (.inl rfl)
  | softwareInterrupt => exact raised_even h p (.inr (.inl rfl))
  | prefetchAbort => exact raised_even h p (.inr (.inr (.inl rfl)))
  | dataAbort => exact raised_even h p (.inr (.inr (.inr rfl)))
  | interrupt =>
    simp only [armException, handleIrq]
    split
    · exact even
    · exact enterException_even h p _ _ _ rfl
  | fastInterrupt =>
    simp only [armException, handleFiq]
    split
    · exact even
    · exact enterException_even h p _ _ _ rfl

/-- How an instruction ends: on a normal return the pc is even exactly if the
instruction was safe, and one that raises an exception was safe. -/
inductive Settles (safe : Prop) : ArmCore × Outcome → Prop where
  | returns {q : ArmCore} : (EvenPc q ↔ safe) → Settles safe (q, .returned .noException)
  | raises {q : ArmCore} {e : ArmException} : Raised e → safe → Settles safe (q, .returned e)
  | exits {q : ArmCore} : Settles safe (q, .exited)
  | fails {q : ArmCore} : Settles safe (q, .assertFailed)

theorem Settles.congr {safe safe' : Prop} {r : ArmCore × Outcome} (same : safe ↔ safe')
    (settles : Settles safe r) : Settles safe' r := by
  cases settles with
  | returns even => exact .returns (even.trans same)
  | raises raised holds => exact .raises raised (same.mp holds)
  | exits => exact .exits
  | fails => exact .fails

theorem Settles.aborts {safe : Prop} {q : ArmCore} (holds : safe) :
    Settles safe (q, .returned .dataAbort) := .raises (.inr (.inr (.inr rfl))) holds

theorem EvenPc.settles {q : ArmCore} (even : EvenPc q) {safe : Prop} (holds : safe) :
    Settles safe (q, .returned .noException) :=
  .returns (iff_of_true even holds)

theorem storage_pc_write (p : ArmCore) (value : Word) :
    (armWriteRegister p Reg.pc value).registersStorage 15 = value := by
  rw [armWriteRegister, registers_pc, writeStorage_self]

theorem storage_pc_other {reg : Reg} (notPc : reg ≠ Reg.pc) (p : ArmCore) (value : Word) :
    (armWriteRegister p reg value).registersStorage 15 = p.registersStorage 15 :=
  armWriteRegister_storage_other p reg value 15 (registers_ne_pc (armMode p) reg notPc).symm

theorem write_even_iff {p : ArmCore} (even : EvenPc p) (reg : Reg) (value : Word) :
    EvenPc (armWriteRegister p reg value) ↔ (reg = Reg.pc → low value = false) := by
  by_cases isPc : reg = Reg.pc
  · rw [isPc, evenPc_iff, storage_pc_write]
    exact ⟨fun holds _ => holds, fun holds => holds rfl⟩
  · rw [evenPc_iff, storage_pc_other isPc]
    exact iff_of_true even (fun pc => absurd pc isPc)

section Operations

variable (p : ArmCore) (rd : Reg) (op1 op2 : Word) (s shiftCarryOut : Bool)

def OpCode.lowBit (op : OpCode) (a b c : Bool) : Bool :=
  match op with
  | .and | .tst => a && b
  | .eor | .teq | .sub | .rsb | .add | .cmp | .cmn => a ^^ b
  | .adc => a ^^ b ^^ c
  | .sbc | .rsc => a ^^ b ^^ !c
  | .orr => a || b
  | .mov => b
  | .bic => a && !b
  | .mvn => !b

theorem run_writes_low {op : OpCode} (writes : op.compares = false) :
    ∃ res c v, op.run p rd op1 op2 s shiftCarryOut = DataProcessing.writeResult p rd s res c v ∧
      low res = op.lowBit (low op1) (low op2) (armReadC p) := by
  have wide {w : Nat} (x : BitVec w) : low (x.setWidth 64) = low x := low_setWidth (by decide) x
  have carry (c : Bool) : low (bit 64 c) = c := low_bit (by decide) c
  cases op with
  | tst | teq | cmp | cmn => cases writes
  | and => exact ⟨_, _, _, rfl, (wide _).trans (low_and _ _)⟩
  | eor => exact ⟨_, _, _, rfl, (wide _).trans BitVec.getLsbD_xor⟩
  | sub => exact ⟨_, _, _, rfl, by rw [low_sub (by decide), wide, wide, OpCode.lowBit]⟩
  | rsb =>
    exact ⟨_, _, _, rfl, by rw [low_sub (by decide), wide, wide, Bool.xor_comm, OpCode.lowBit]⟩
  | add => exact ⟨_, _, _, rfl, by rw [low_add (by decide), wide, wide, OpCode.lowBit]⟩
  | adc =>
    refine ⟨_, _, _, rfl, ?_⟩
    rw [low_add (by decide), low_add (by decide), wide, wide, carry, OpCode.lowBit]
  | sbc =>
    refine ⟨_, _, _, rfl, ?_⟩
    rw [low_sub (by decide), low_sub (by decide), wide, wide, carry, OpCode.lowBit]
  | rsc =>
    refine ⟨_, _, _, rfl, ?_⟩
    rw [low_sub (by decide), low_sub (by decide), wide, wide, carry, Bool.xor_comm (low op2),
      OpCode.lowBit]
  | orr => exact ⟨_, _, _, rfl, (wide _).trans BitVec.getLsbD_or⟩
  | mov => exact ⟨_, _, _, rfl, wide _⟩
  | bic =>
    refine ⟨_, _, _, rfl, ?_⟩
    rw [wide, low_and, low_not (by decide), OpCode.lowBit]
  | mvn => exact ⟨_, _, _, rfl, (wide _).trans (low_not (by decide) _)⟩

theorem writeResult_storage_pc (res : BitVec 64) (c : Bool) (v : Option Bool) :
    (DataProcessing.writeResult p rd s res c v).registersStorage 15 =
      if rd = Reg.pc then res.setWidth 32 else p.registersStorage 15 := by
  by_cases isPc : rd = Reg.pc
  · rw [if_pos isPc, isPc]
    cases s with
    | false => exact storage_pc_write p _
    | true =>
      rw [writeResult_pc]
      exact storage_pc_write _ _
  · rw [if_neg isPc]
    cases s with
    | false => exact storage_pc_other isPc p _
    | true =>
      rw [writeResult_withS p isPc, storage_pc_other isPc, DataProcessing.compareResult,
        updateNzcv_storage]

/-- The result of the operation is even, if it goes to the pc. -/
def EvenOperation (p : ArmCore) (ins : Word) : Prop :=
  getRd ins = Reg.pc → (armGetDpHandler ins).compares = false →
    (armGetDpHandler ins).lowBit (low (dpOp1 p ins)) (low (shifterOperand p ins).1) (armReadC p) =
      false

theorem operation_settles {p : ArmCore} (even : EvenPc p) (ins : Word) :
    Settles (EvenOperation p ins)
      ((armGetDpHandler ins).run p (getRd ins) (dpOp1 p ins) (shifterOperand p ins).1 (getS ins)
        (shifterOperand p ins).2, .returned .noException) := by
  apply Settles.returns
  cases kind : (armGetDpHandler ins).compares with
  | true =>
    obtain ⟨res, c, v, shape⟩ := OpCode.run_compares (getRd ins) (dpOp1 p ins)
      (shifterOperand p ins).1 (getS ins) (shifterOperand p ins).2 kind
    have safe : EvenOperation p ins := fun _ writes => by rw [kind] at writes; cases writes
    refine iff_of_true ?_ safe
    rw [shape, evenPc_iff, DataProcessing.compareResult, updateNzcv_storage]
    exact even
  | false =>
    obtain ⟨res, c, v, shape, bit⟩ := run_writes_low p (getRd ins) (dpOp1 p ins)
      (shifterOperand p ins).1 (getS ins) (shifterOperand p ins).2 kind
    rw [shape, evenPc_iff, writeResult_storage_pc, EvenOperation, kind, ← bit]
    by_cases isPc : getRd ins = Reg.pc
    · rw [if_pos isPc, low_setWidth (by decide)]
      exact ⟨fun holds _ _ => holds, fun holds => holds isPc rfl⟩
    · rw [if_neg isPc]
      exact iff_of_true even (fun pc => absurd pc isPc)

end Operations

end ArmSimulator
