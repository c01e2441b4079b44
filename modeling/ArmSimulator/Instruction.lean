import Mathlib.Logic.Relation
import ArmSimulator.Exception
import ArmSimulator.BranchOther

/-! arm_instruction.c: condition field, decoder, and one step of the processor. -/
namespace ArmSimulator

/-- The result of `instruction_check_condition`: 0, 1 or -1. -/
inductive Condition where
  | failed
  | passed
  | undefined
deriving DecidableEq, Repr

def Condition.ofBool (b : Bool) : Condition := if b then .passed else .failed

def conditionSwitch (cpsr condField : Word) : Condition :=
  let n := getBit cpsr Psr.n
  let z := getBit cpsr Psr.z
  let c := getBit cpsr Psr.c
  let v := getBit cpsr Psr.v
  match condField with
  | 0#32 => .ofBool z
  | 1#32 => .ofBool (!z)
  | 2#32 => .ofBool c
  | 3#32 => .ofBool (!c)
  | 4#32 => .ofBool n
  | 5#32 => .ofBool (!n)
  | 6#32 => .ofBool v
  | 7#32 => .ofBool (!v)
  | 8#32 => .ofBool (c && !z)
  | 9#32 => .ofBool (!c || z)
  | 10#32 => .ofBool (n == v)
  | 11#32 => .ofBool (n != v)
  | 12#32 => .ofBool (!z && n == v)
  | 13#32 => .ofBool (z || n != v)
  | 14#32 => .passed
  | 15#32 => .undefined
  | _ => .failed

def instructionCheckCondition (p : ArmCore) (ins : Word) : Condition :=
  conditionSwitch (armReadCpsr p) (getBits ins 31 28)

inductive Handler where
  | armLoadStoreMiscellaneous
  | armMsr
  | armMrs
  | armDataProcessingShift
  | armDataProcessingImmediate
  | armLoadStore
  | armLoadStoreMultiple
  | armBranch
  | armCoprocessorLoadStore
  | armCoprocessorOthersSwi
deriving DecidableEq, Repr

def instructionGetHandler (ins : Word) : Option Handler :=
  match getBits ins 27 25 with
  | 0#32 =>
    if checkMask ins 0x0E000000#32 0x00000090#32 then some .armLoadStoreMiscellaneous
    else if checkMask ins 0x0E900FF0#32 0x0120F000#32 then some .armMsr
    else if checkMask ins 0x0EB00FFF#32 0x010F0000#32 then some .armMrs
    else some .armDataProcessingShift
  | 1#32 =>
    if checkMask ins 0x0C900000#32 0x0320F000#32 then some .armMsr
    else some .armDataProcessingImmediate
  | 2#32 => some .armLoadStore
  | 3#32 => some .armLoadStore
  | 4#32 => some .armLoadStoreMultiple
  | 5#32 => some .armBranch
  | 6#32 => some .armCoprocessorLoadStore
  | 7#32 => some .armCoprocessorOthersSwi
  | _ => none

def returning (r : ArmCore × ArmException) : ArmCore × Outcome := (r.1, .returned r.2)

section Step

variable (h : Platform) (junk : Word) (p : ArmCore)

def Handler.run (handler : Handler) (ins : Word) : ArmCore × Outcome :=
  match handler with
  | .armLoadStoreMiscellaneous => returning (ArmSimulator.armLoadStoreMiscellaneous h junk p ins)
  | .armMsr => returning (ArmSimulator.armMsr p ins)
  | .armMrs => returning (ArmSimulator.armMrs p ins)
  | .armDataProcessingShift => returning (ArmSimulator.armDataProcessingShift p ins)
  | .armDataProcessingImmediate => returning (ArmSimulator.armDataProcessingImmediate p ins)
  | .armLoadStore => returning (ArmSimulator.armLoadStore h junk p ins)
  | .armLoadStoreMultiple => ArmSimulator.armLoadStoreMultiple h junk p ins
  | .armBranch => returning (ArmSimulator.armBranch p ins)
  | .armCoprocessorLoadStore => returning (ArmSimulator.armCoprocessorLoadStore p)
  | .armCoprocessorOthersSwi => ArmSimulator.armCoprocessorOthersSwi p ins

def executeFetched (ins : Word) : ArmCore × Outcome :=
  match instructionCheckCondition p ins with
  | .failed => (p, .returned .noException)
  | .passed =>
    match instructionGetHandler ins with
    | some handler => handler.run h junk p ins
    | none => (p, .returned .undefinedInstruction)
  | .undefined => returning (armMiscellaneous p)

/-- `junk` is what the uninitialised locals of this step happen to hold. -/
def armExecuteInstruction : ArmCore × Outcome :=
  let f := armFetch h p junk
  if f.2.2 ≠ .noException then (f.1, .returned f.2.2)
  else executeFetched h junk f.1 f.2.1

def armStep : ArmCore × Outcome :=
  let r := armExecuteInstruction h junk p
  match r.2 with
  | .returned result =>
    if result ≠ .noException then (armException h r.1 result, .returned result) else r
  | _ => r

/-- A step that returns NO_EXCEPTION, whatever its uninitialised locals held. -/
def NormalStep (p q : ArmCore) : Prop := ∃ junk, armStep h junk p = (q, .returned .noException)

/-- Steps one after the other, each with what its uninitialised locals hold, as
long as they return NO_EXCEPTION. -/
def normalRun : List Word → ArmCore → Option ArmCore
  | [], p => some p
  | junk :: junks, p =>
    let r := armStep h junk p
    if r.2 = .returned .noException then normalRun junks r.1 else none

end Step

section Results

variable (h : Platform) (junk : Word) (p : ArmCore)

theorem armStep_cases :
    armStep h junk p = armExecuteInstruction h junk p ∧
      (∀ e, (armExecuteInstruction h junk p).2 = .returned e → e = .noException) ∨
    ∃ e, e ≠ .noException ∧ (armExecuteInstruction h junk p).2 = .returned e ∧
      armStep h junk p = (armException h (armExecuteInstruction h junk p).1 e, .returned e) := by
  rw [armStep]
  cases outcome : (armExecuteInstruction h junk p).2 with
  | returned result =>
    by_cases normal : result = .noException
    · left
      simp only [normal, ne_eq, not_true_eq_false, if_false, true_and]
      exact fun e same => (Outcome.returned.inj same).symm
    · right
      exact ⟨result, normal, rfl, by simp only [ne_eq, normal, not_false_eq_true, if_true]⟩
  | exited => exact .inl ⟨rfl, nofun⟩
  | assertFailed => exact .inl ⟨rfl, nofun⟩

variable {h junk p}

def Fetches (h : Platform) (p : ArmCore) (ins : Word) : Prop :=
  outside h p (fetchAddress p) 4 = false ∧ p.wordAt h (fetchAddress p) = ins

theorem armExecuteInstruction_fetches {ins : Word} (fetches : Fetches h p ins) :
    armExecuteInstruction h junk p = executeFetched h junk (fetched p) ins := by
  obtain ⟨inside, word⟩ := fetches
  rw [armExecuteInstruction, armFetch_eq]
  simp only [inside, word, Bool.false_eq_true, if_false, ne_eq, not_true_eq_false]

theorem armExecuteInstruction_handled {ins : Word} {handler : Handler} (fetches : Fetches h p ins)
    (passed : instructionCheckCondition p ins = .passed)
    (handled : instructionGetHandler ins = some handler) :
    armExecuteInstruction h junk p = handler.run h junk (fetched p) ins := by
  have passed' : instructionCheckCondition (fetched p) ins = .passed := passed
  rw [armExecuteInstruction_fetches fetches]
  unfold executeFetched
  simp only [passed', handled]

theorem armStep_handled {ins : Word} {handler : Handler} {q : ArmCore} (fetches : Fetches h p ins)
    (passed : instructionCheckCondition p ins = .passed)
    (handled : instructionGetHandler ins = some handler)
    (runs : handler.run h junk (fetched p) ins = (q, .returned .noException)) :
    armStep h junk p = (q, .returned .noException) := by
  unfold armStep
  rw [armExecuteInstruction_handled fetches passed handled, runs]
  rfl

theorem armStep_normal {q : ArmCore} (normal : armStep h junk p = (q, .returned .noException)) :
    armExecuteInstruction h junk p = (q, .returned .noException) := by
  rcases armStep_cases h junk p with ⟨same, _⟩ | ⟨e, other, _, entry⟩
  · exact same ▸ normal
  · rw [normal] at entry
    exact absurd (Outcome.returned.inj (congrArg Prod.snd entry)).symm other

theorem armStep_raised {q : ArmCore} {e : ArmException} (other : e ≠ .noException)
    (raised : armStep h junk p = (q, .returned e)) :
    (armExecuteInstruction h junk p).2 = .returned e ∧
      q = armException h (armExecuteInstruction h junk p).1 e := by
  rcases armStep_cases h junk p with ⟨same, normal⟩ | ⟨e', _, outcome, entry⟩
  · rw [raised] at same
    exact absurd (normal e (congrArg Prod.snd same.symm)) other
  · rw [raised] at entry
    have result := Outcome.returned.inj (congrArg Prod.snd entry)
    exact ⟨result ▸ outcome, result ▸ congrArg Prod.fst entry⟩

theorem normalRun_cons {q : ArmCore} (junks : List Word)
    (normal : armStep h junk p = (q, .returned .noException)) :
    normalRun h (junk :: junks) p = normalRun h junks q := by
  simp only [normalRun, normal, if_true]

theorem normalRun_steps {junks : List Word} {p q : ArmCore} (run : normalRun h junks p = some q) :
    Relation.ReflTransGen (NormalStep h) p q := by
  induction junks generalizing p with
  | nil => exact Option.some.inj run ▸ .refl
  | cons junk junks ih =>
    simp only [normalRun] at run
    split at run
    · rename_i normal
      exact .head ⟨junk, Prod.ext rfl normal⟩ (ih run)
    · contradiction

end Results

section DataProcessingWords

variable (h : Platform) (junk : Word) {p : ArmCore} {ins : Word}

def DataProcessingWord (ins : Word) : Prop :=
  instructionGetHandler ins = some .armDataProcessingShift ∨
    instructionGetHandler ins = some .armDataProcessingImmediate

def shifterOperand (p : ArmCore) (ins : Word) : Word × Bool :=
  if instructionGetHandler ins = some .armDataProcessingImmediate then getImmediate p ins
  else getShifted p ins

theorem executeFetched_dataProcessing (dataProcessing : DataProcessingWord ins)
    (passed : instructionCheckCondition p ins = .passed) :
    executeFetched h junk p ins =
      ((armGetDpHandler ins).run p (getRd ins) (dpOp1 p ins) (shifterOperand p ins).1 (getS ins)
        (shifterOperand p ins).2, .returned .noException) := by
  rcases dataProcessing with shift | immediate
  · simp only [executeFetched, passed, shift, Handler.run, returning, armDataProcessingShift,
      shifterOperand, Option.some.injEq, reduceCtorEq, if_false]
  · simp only [executeFetched, passed, immediate, Handler.run, returning,
      armDataProcessingImmediate, shifterOperand, if_true]

variable {h}

theorem armStep_dataProcessing (dataProcessing : DataProcessingWord ins)
    (fetches : Fetches h p ins) (passed : instructionCheckCondition p ins = .passed) :
    armStep h junk p =
      ((armGetDpHandler ins).run (fetched p) (getRd ins) (dpOp1 (fetched p) ins)
        (shifterOperand (fetched p) ins).1 (getS ins) (shifterOperand (fetched p) ins).2,
        .returned .noException) := by
  have passed' : instructionCheckCondition (fetched p) ins = .passed := passed
  rw [armStep, armExecuteInstruction_fetches fetches,
    executeFetched_dataProcessing h junk dataProcessing passed']
  simp only [ne_eq, not_true_eq_false, if_false]

end DataProcessingWords

section Samples

def repeatedWord (ins : Word) : Memory :=
  ⟨fun a => (ins >>> (8 * (a.toNat % 4))).setWidth 8, 0x10000⟩

def sampleCore (cpsr ins : Word) : ArmCore := ⟨fun _ => 0, fun _ => 0, cpsr, 0, repeatedWord ins⟩

def firstWord (h : Platform) (ins : Word) : Memory := (repeatedWord 0).put h false 0#32 ins

theorem fetches_firstWord {h : Platform} {p : ArmCore} {ins : Word}
    (start : p.registersStorage 15 = 0#32) (littleEndian : getBit p.cpsr Psr.e = false)
    (mem : p.mem = firstWord h ins) : Fetches h p ins := by
  have address : fetchAddress p = 0#32 := by
    rw [fetchAddress_of_clear (by rw [start]; decide), start]
  rw [Fetches, address, outside, ArmCore.wordAt, mem, littleEndian]
  constructor
  · have size : (firstWord h ins).size = 0x10000 := rfl
    exact inBounds_of_inside h _ 0#32 (by decide) (by decide) (by rw [size]; decide)
  · exact Memory.valueAt_put_same h (repeatedWord 0) false 0#32 ins (by decide) (by decide)

end Samples

end ArmSimulator
