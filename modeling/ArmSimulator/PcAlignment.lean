import ArmSimulator.EvenTransfers
import ArmSimulator.Library.Runs

namespace ArmSimulator

section Step

variable (h : Platform) (junk : Word)

/-- MRS does not put an odd status into the pc. -/
def EvenStatus (p : ArmCore) (ins : Word) : Prop :=
  getReg ins 15 12 = Reg.pc →
    low (if getBit ins 22 then armReadSpsr p else armReadCpsr p) = false

/-- `ins` puts no odd value into the pc. Branches, MSR and SWI never do. -/
def EvenInstruction (p : ArmCore) (ins : Word) : Prop :=
  match instructionGetHandler ins with
  | some .armDataProcessingShift | some .armDataProcessingImmediate => EvenOperation p ins
  | some .armMrs => EvenStatus p ins
  | some .armLoadStore | some .armLoadStoreMiscellaneous => EvenTransfer h junk p ins
  | some .armLoadStoreMultiple => EvenBlock h p ins
  | _ => True

def EvenStep (p : ArmCore) : Prop :=
  outside h p (fetchAddress p) 4 = false →
    instructionCheckCondition p (p.wordAt h (fetchAddress p)) = .passed →
      EvenInstruction h junk (fetched p) (p.wordAt h (fetchAddress p))

variable {h junk} {p : ArmCore}

theorem armBranch_even (even : EvenPc p) (ins : Word) : EvenPc (armBranch p ins).1 := by
  rw [armBranch, evenPc_iff, storage_pc_write, low_add (by decide), low_readPc even,
    low_shiftLeft _ (by decide)]
  rfl

theorem armMsr_even (even : EvenPc p) (ins : Word) : EvenPc (armMsr p ins).1 := by
  unfold armMsr
  extract_lets operand mask mask'
  split
  · split
    · exact even
    · exact even
  · exact even

theorem armMsr_returns (p : ArmCore) (ins : Word) : (armMsr p ins).2 = .noException := by
  unfold armMsr
  extract_lets operand mask mask'
  split
  · split <;> rfl
  · rfl

theorem swi_settles (p : ArmCore) (ins : Word) : Settles True (armCoprocessorOthersSwi p ins) := by
  rw [armCoprocessorOthersSwi]
  split
  · split
    · exact .exits
    · exact .raises (.inr (.inl rfl)) trivial
  · exact undefined_settles p trivial

theorem handler_settles (even : EvenPc p) {ins : Word} {handler : Handler}
    (decoded : instructionGetHandler ins = some handler)
    (passed : instructionCheckCondition p ins = .passed) :
    Settles (EvenInstruction h junk p ins) (executeFetched h junk p ins) := by
  have run : executeFetched h junk p ins = handler.run h junk p ins := by
    rw [executeFetched, passed, decoded]
  cases handler with
  | armLoadStoreMiscellaneous =>
    rw [run, EvenInstruction, decoded]
    exact armLoadStoreMiscellaneous_settles decoded even
  | armMsr =>
    rw [run, EvenInstruction, decoded]
    have ends : Handler.armMsr.run h junk p ins = ((armMsr p ins).1, .returned .noException) := by
      rw [Handler.run, returning, armMsr_returns]
    rw [ends]
    exact (armMsr_even even ins).settles trivial
  | armMrs =>
    rw [run, EvenInstruction, decoded]
    exact .returns (write_even_iff even _ _)
  | armDataProcessingShift =>
    rw [executeFetched_dataProcessing h junk (.inl decoded) passed, EvenInstruction, decoded]
    exact operation_settles even ins
  | armDataProcessingImmediate =>
    rw [executeFetched_dataProcessing h junk (.inr decoded) passed, EvenInstruction, decoded]
    exact operation_settles even ins
  | armLoadStore =>
    rw [run, EvenInstruction, decoded]
    exact armLoadStore_settles decoded even
  | armLoadStoreMultiple =>
    rw [run, EvenInstruction, decoded]
    exact armLoadStoreMultiple_settles even
  | armBranch =>
    rw [run, EvenInstruction, decoded]
    exact (armBranch_even even ins).settles trivial
  | armCoprocessorLoadStore =>
    rw [run, EvenInstruction, decoded]
    exact undefined_settles p trivial
  | armCoprocessorOthersSwi =>
    rw [run, EvenInstruction, decoded]
    exact swi_settles p ins

theorem armExecuteInstruction_settles (even : EvenPc p) :
    Settles (EvenStep h junk p) (armExecuteInstruction h junk p) := by
  have even' := fetched_even even
  rw [armExecuteInstruction, armFetch_eq]
  cases out : outside h p (fetchAddress p) 4 with
  | true =>
    exact .raises (.inr (.inr (.inl rfl))) (fun inside => by rw [out] at inside; cases inside)
  | false =>
    simp only [Bool.false_eq_true, if_false, ne_eq, not_true_eq_false]
    generalize word : p.wordAt h (fetchAddress p) = ins
    have notPassed (other : instructionCheckCondition (fetched p) ins ≠ .passed) :
        EvenStep h junk p := by
      intro _ passed
      rw [word] at passed
      exact absurd passed other
    cases condition : instructionCheckCondition (fetched p) ins with
    | failed =>
      have safe : EvenStep h junk p := notPassed (by rw [condition]; decide)
      rw [executeFetched, condition]
      exact even'.settles safe
    | undefined =>
      have safe : EvenStep h junk p := notPassed (by rw [condition]; decide)
      rw [executeFetched, condition]
      exact undefined_settles _ safe
    | passed =>
      have same : EvenInstruction h junk (fetched p) ins ↔ EvenStep h junk p := by
        rw [EvenStep, word]
        exact ⟨fun safe _ _ => safe, fun safe => safe out condition⟩
      cases decoded : instructionGetHandler ins with
      | some handler => exact (handler_settles even' decoded condition).congr same
      | none =>
        have safe : EvenInstruction h junk (fetched p) ins := by
          rw [EvenInstruction, decoded]
          trivial
        rw [executeFetched, condition, decoded]
        exact undefined_settles _ (same.mp safe)

/-- From an even pc a step leads to an even pc exactly if it is an even step. -/
theorem armStep_even_iff (even : EvenPc p) {e : ArmException}
    (returns : (armStep h junk p).2 = .returned e) :
    EvenPc (armStep h junk p).1 ↔ EvenStep h junk p := by
  have settled : Settles (EvenStep h junk p) (armExecuteInstruction h junk p) :=
    armExecuteInstruction_settles even
  rcases armStep_cases h junk p with ⟨same, normal⟩ | ⟨raised, other, outcome, entry⟩
  · rw [same] at returns ⊢
    obtain rfl := normal e returns
    cases result : armExecuteInstruction h junk p with
    | mk q o =>
      rw [result] at settled returns
      cases settled with
      | returns exact => exact exact
      | raises raised => rcases raised with r | r | r | r <;> cases returns <;> cases r
      | exits => cases returns
      | fails => cases returns
  · rw [entry]
    cases result : armExecuteInstruction h junk p with
    | mk q o =>
      rw [result] at settled outcome
      cases settled with
      | returns exact =>
        cases outcome
        exact absurd rfl other
      | raises raised safe =>
        cases outcome
        exact iff_of_true (raised_even h q raised) safe
      | exits => cases outcome
      | fails => cases outcome

end Step

section Runs

/-- A step that returns, or the delivery of an exception. -/
inductive MachineStep (h : Platform) : ArmCore → ArmCore → Prop where
  | step (junk : Word) {p : ArmCore} {e : ArmException} :
      (armStep h junk p).2 = .returned e → MachineStep h p (armStep h junk p).1
  | exception (p : ArmCore) (e : ArmException) : MachineStep h p (armException h p e)

inductive EvenMachineStep (h : Platform) : ArmCore → ArmCore → Prop where
  | step (junk : Word) {p : ArmCore} {e : ArmException} : EvenStep h junk p →
      (armStep h junk p).2 = .returned e → EvenMachineStep h p (armStep h junk p).1
  | exception (p : ArmCore) (e : ArmException) : EvenMachineStep h p (armException h p e)

theorem evenMachineStep_even (h : Platform) (p q : ArmCore) (step : EvenMachineStep h p q)
    (even : EvenPc p) : EvenPc q := by
  cases step with
  | step junk safe returns => exact (armStep_even_iff even returns).mpr safe
  | exception _ e => exact armException_even h even e

theorem armCreate_even (h : Platform) (block : ArmCore) (mem : Memory) :
    EvenPc (armCreate h block mem) :=
  reset_even h _

/-- In a run of even steps from `arm_create` every fetch is at a multiple of 4;
any other step that returns puts the next fetch elsewhere. -/
theorem fetch_aligned (h : Platform) (block : ArmCore) (mem : Memory) :
    (∀ q, Relation.ReflTransGen (EvenMachineStep h) (armCreate h block mem) q →
      (fetchAddress q).toNat % 4 = 0) ∧
    ∀ p junk e, (fetchAddress p).toNat % 4 = 0 → (armStep h junk p).2 = .returned e →
      ((fetchAddress (armStep h junk p).1).toNat % 4 = 0 ↔ EvenStep h junk p) := by
  simp only [fetchAddress_aligned_iff]
  constructor
  · intro q run
    exact Runs.invariant (evenMachineStep_even h) (armCreate_even h block mem) run
  · intro p junk e even returns
    exact armStep_even_iff even returns

def resetCore (ins : Word) : ArmCore :=
  armCreate lp64 (sampleCore 0#32 0#32) ((repeatedWord 0#32).put lp64 true 0x1000#32 ins)

/-- `mov pc, #1` and then the fetch from the address 1. -/
theorem mov_pc_misaligned :
    Relation.ReflTransGen (MachineStep lp64) (resetCore 0xE3A0F001#32)
      (armStep lp64 0#32 (resetCore 0xE3A0F001#32)).1 ∧
    fetchAddress (armStep lp64 0#32 (resetCore 0xE3A0F001#32)).1 = 1#32 := by
  have returns : (armStep lp64 0#32 (resetCore 0xE3A0F001#32)).2 = .returned .noException := by
    decide +kernel
  exact ⟨.single (.step 0#32 returns), by decide +kernel⟩

theorem fetch_aligned_mov :
    (fetchAddress (armStep lp64 0#32 (resetCore 0xE3A0F004#32)).1).toNat % 4 = 0 := by
  have returns : (armStep lp64 0#32 (resetCore 0xE3A0F004#32)).2 = .returned .noException := by
    decide +kernel
  have word : (resetCore 0xE3A0F004#32).wordAt lp64 (fetchAddress (resetCore 0xE3A0F004#32)) =
      0xE3A0F004#32 := by
    decide +kernel
  have decoded : instructionGetHandler 0xE3A0F004#32 = some .armDataProcessingImmediate := by decide
  have safe : EvenInstruction lp64 0#32 (fetched (resetCore 0xE3A0F004#32)) 0xE3A0F004#32 := by
    rw [EvenInstruction, decoded]
    exact fun _ _ => by decide +kernel
  have even : EvenStep lp64 0#32 (resetCore 0xE3A0F004#32) := by
    rw [EvenStep, word]
    exact fun _ _ => safe
  have run : Relation.ReflTransGen (EvenMachineStep lp64) (resetCore 0xE3A0F004#32)
      (armStep lp64 0#32 (resetCore 0xE3A0F004#32)).1 := .single (.step 0#32 @even returns)
  exact (fetch_aligned lp64 (sampleCore 0#32 0#32)
    ((repeatedWord 0#32).put lp64 true 0x1000#32 0xE3A0F004#32)).1 _ run

end Runs

end ArmSimulator
