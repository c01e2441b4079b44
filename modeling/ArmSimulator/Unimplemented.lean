import ArmSimulator.NoEffect

/-! Words without an implementation: multiplies and swaps, the undefined words
of the scaled load/store class, and the translated forms. The address decoding
with P=0 and W=1 is the only arm of both handlers that ends as undefined. -/
namespace ArmSimulator

/-- P=0 and W=1, which the address decoding takes for no form. -/
def NoForm (ins : Word) : Prop := getBit ins 24 = false ∧ getBit ins 21 = true

instance (ins : Word) : Decidable (NoForm ins) :=
  inferInstanceAs (Decidable (getBit ins 24 = false ∧ getBit ins 21 = true))

section Addressing

variable (h : Platform) (junk : Word) (p : ArmCore) (ins : Word)

theorem indexed_eq_none_iff (rn : Reg) (valRn offset : Word) :
    indexed p ins rn valRn offset = none ↔ NoForm ins := by
  rw [indexed, NoForm]
  cases getBit ins 24 <;> cases getBit ins 21 <;> simp

theorem afterForm_undefined_iff {rn rd : Reg} {valRn offset : Word}
    {operation : ArmCore → Word → ArmCore × ArmException}
    (ends : ∀ q address, Transferred h q rd address (operation q address)) :
    afterForm p (indexed p ins rn valRn offset) operation = (p, .undefinedInstruction) ↔
      NoForm ins := by
  rw [← indexed_eq_none_iff p ins rn valRn offset]
  cases form : indexed p ins rn valRn offset with
  | none => simp only [afterForm]
  | some r =>
    simp only [reduceCtorEq, iff_false]
    intro undefined
    exact transferred_not_unexecuted h (.inl rfl) (ends r.1 r.2) (congrArg Prod.snd undefined)

theorem armLoadStore_undefined_iff :
    armLoadStore h junk p ins = (p, .undefinedInstruction) ↔ NoForm ins := by
  rw [armLoadStore_eq]
  exact afterForm_undefined_iff h p ins fun q => loadStoreSwitch_transferred h junk q ins _

theorem armLoadStoreMiscellaneous_undefined_iff :
    armLoadStoreMiscellaneous h junk p ins = (p, .undefinedInstruction) ↔ NoForm ins := by
  rw [armLoadStoreMiscellaneous_eq]
  exact afterForm_undefined_iff h p ins fun q => miscellaneousSwitch_transferred h junk q ins _

end Addressing

section Execution

variable {h : Platform} {junk : Word} {p : ArmCore} {ins : Word}

theorem transferWord_undefined_iff (fetches : Fetches h p ins)
    (passed : instructionCheckCondition p ins = .passed)
    (transfer : instructionGetHandler ins = some .armLoadStore ∨
      instructionGetHandler ins = some .armLoadStoreMiscellaneous) :
    armExecuteInstruction h junk p = (fetched p, .returned .undefinedInstruction) ↔
      NoForm ins := by
  have returning_iff (r : ArmCore × ArmException) :
      returning r = (fetched p, .returned .undefinedInstruction) ↔
        r = (fetched p, .undefinedInstruction) := by
    simp only [returning, Prod.ext_iff, Outcome.returned.injEq]
  rcases transfer with single | miscellaneous
  · rw [armExecuteInstruction_handled fetches passed single, Handler.run, returning_iff,
      armLoadStore_undefined_iff]
  · rw [armExecuteInstruction_handled fetches passed miscellaneous, Handler.run, returning_iff,
      armLoadStoreMiscellaneous_undefined_iff]

theorem undefined_onlyFetched_iff : ((armExecuteInstruction h junk p).2 =
        .returned .undefinedInstruction ∧
      OnlyFetched p (armExecuteInstruction h junk p).1) ↔
    armExecuteInstruction h junk p = (fetched p, .returned .undefinedInstruction) := by
  constructor
  · rintro ⟨raised, _⟩
    exact Prod.ext (armExecuteInstruction_unexecuted (.inl rfl) raised) raised
  · intro undefined
    rw [undefined]
    exact ⟨rfl, fetched_onlyFetched p⟩

theorem armStep_undefined_iff : armStep h junk p =
      (armException h (fetched p) .undefinedInstruction, .returned .undefinedInstruction) ↔
    armExecuteInstruction h junk p = (fetched p, .returned .undefinedInstruction) := by
  constructor
  · intro raised
    have outcome := (armStep_raised (by decide) raised).1
    exact Prod.ext (armExecuteInstruction_unexecuted (.inl rfl) outcome) outcome
  · intro undefined
    rw [armStep, undefined]
    rfl

end Execution

section Multiplies

structure MultiplyOrSwapWord (ins : Word) : Prop where
  class000 : getBits ins 27 25 = 0#32
  bit7 : getBit ins 7 = true
  bit4 : getBit ins 4 = true
  bits65 : getBits ins 6 5 = 0#32

theorem miscellaneous_handler {ins : Word} (class000 : getBits ins 27 25 = 0#32)
    (bit7 : getBit ins 7 = true) (bit4 : getBit ins 4 = true) :
    instructionGetHandler ins = some .armLoadStoreMiscellaneous := by
  have classMask : ∀ i < 32, (0x0E000000#32).getLsbD i = true → 25 ≤ i ∧ i ≤ 27 := by decide
  have operationMask : ∀ i < 32, (0x00000090#32).getLsbD i = true → i = 4 ∨ i = 7 := by decide
  have mask : checkMask ins 0x0E000000#32 0x00000090#32 = true := by
    rw [checkMask_iff]
    intro i small
    constructor
    · intro masked
      obtain ⟨low, high⟩ := classMask i small masked
      exact getLsbD_of_getBits_zero class000 low high
    · intro masked
      rcases operationMask i small masked with rfl | rfl
      · exact (getBit_eq ins 4).symm.trans bit4
      · exact (getBit_eq ins 7).symm.trans bit7
  simp only [instructionGetHandler, class000, mask, if_true]

theorem MultiplyOrSwapWord.handler {ins : Word} (word : MultiplyOrSwapWord ins) :
    instructionGetHandler ins = some .armLoadStoreMiscellaneous :=
  miscellaneous_handler word.class000 word.bit7 word.bit4

/-- A multiply or swap is rejected, with nothing but the fetch done, exactly
where its bits 24 and 21 make no address form. -/
theorem multiply_rejected_iff (h : Platform) (junk : Word) (p : ArmCore) (ins : Word)
    (word : MultiplyOrSwapWord ins) (fetches : Fetches h p ins)
    (passed : instructionCheckCondition p ins = .passed) :
    ((armExecuteInstruction h junk p).2 = .returned .undefinedInstruction ∧
      OnlyFetched p (armExecuteInstruction h junk p).1) ↔
    getBit ins 24 = false ∧ getBit ins 21 = true :=
  undefined_onlyFetched_iff.trans
    (transferWord_undefined_iff fetches passed (.inr word.handler))

theorem multiply_rejected_mla :
    OnlyFetched (sampleCore 0x10 0xE0203291)
      (armExecuteInstruction lp64 0 (sampleCore 0x10 0xE0203291)).1 :=
  ((multiply_rejected_iff lp64 0 (sampleCore 0x10 0xE0203291) 0xE0203291#32
    ⟨by decide, by decide, by decide, by decide⟩ ⟨by decide, by decide⟩ (by decide)).mpr
    (by decide)).2

/-- `mul r1, r0, r0` ends normally, as a post-indexed transfer with the base r1. -/
theorem multiply_writes_base :
    ¬ ∀ (h : Platform) (junk : Word) (p : ArmCore) (ins : Word), MultiplyOrSwapWord ins →
      Fetches h p ins → instructionCheckCondition p ins = .passed →
      (armExecuteInstruction h junk p).2 = .returned .undefinedInstruction ∧
        OnlyFetched p (armExecuteInstruction h junk p).1 := by
  intro rejected
  have raised := (rejected lp64 0 (sampleCore 0x10 0xE0010090) 0xE0010090#32
    ⟨by decide, by decide, by decide, by decide⟩ ⟨by decide, by decide⟩ (by decide)).1
  exact absurd raised (by decide +kernel)

end Multiplies

section Breakpoints

/-- Bits 27:25 = 011 with bit 4 set, where gdb takes its breakpoint word from. -/
structure UndefinedClassWord (ins : Word) : Prop where
  class011 : getBits ins 27 25 = 3#32
  bit4 : getBit ins 4 = true

theorem UndefinedClassWord.handler {ins : Word} (word : UndefinedClassWord ins) :
    instructionGetHandler ins = some .armLoadStore := by
  simp only [instructionGetHandler, word.class011]

/-- A step onto such a word is the entry to the undefined instruction handler,
from the state that the fetch alone leaves, exactly where its bits 24 and 21
make no address form. -/
theorem breakpoint_undefined_iff (h : Platform) (junk : Word) (p : ArmCore) (ins : Word)
    (word : UndefinedClassWord ins) (fetches : Fetches h p ins)
    (passed : instructionCheckCondition p ins = .passed) :
    armStep h junk p =
      (armException h (fetched p) .undefinedInstruction, .returned .undefinedInstruction) ↔
    getBit ins 24 = false ∧ getBit ins 21 = true :=
  armStep_undefined_iff.trans (transferWord_undefined_iff fetches passed (.inl word.handler))

theorem breakpoint_undefined_example :
    (armStep lp64 0 (sampleCore 0x10 0xE63000F0)).2 = .returned .undefinedInstruction :=
  congrArg Prod.snd ((breakpoint_undefined_iff lp64 0 (sampleCore 0x10 0xE63000F0) 0xE63000F0#32
    ⟨by decide, by decide⟩ ⟨by decide, by decide⟩ (by decide)).mpr (by decide))

theorem breakpoint_loads :
    ¬ ∀ (h : Platform) (junk : Word) (p : ArmCore) (ins : Word), UndefinedClassWord ins →
      Fetches h p ins → instructionCheckCondition p ins = .passed →
      armStep h junk p =
        (armException h (fetched p) .undefinedInstruction, .returned .undefinedInstruction) := by
  intro undefined
  have step := undefined lp64 0 (sampleCore 0x10 0xE7F000F0) 0xE7F000F0#32
    ⟨by decide, by decide⟩ ⟨by decide, by decide⟩ (by decide)
  exact absurd (congrArg Prod.snd step) (by decide +kernel)

end Breakpoints

section Translated

/-- LDRT, STRT, LDRBT and STRBT: class 01 with P=0 and W=1. -/
structure TranslatedWord (ins : Word) : Prop where
  class01 : getBits ins 27 26 = 1#32
  p : getBit ins 24 = false
  w : getBit ins 21 = true

/-- A translated form ends as undefined and its post-indexed form never does. -/
theorem translated_differs (h : Platform) (junk : Word) (p : ArmCore) (ins : Word)
    (word : TranslatedWord ins) :
    armLoadStore h junk p ins ≠ armLoadStore h junk p (clrBit ins 21) := by
  have undefined := (armLoadStore_undefined_iff h junk p ins).mpr ⟨word.p, word.w⟩
  have cleared : getBit (clrBit ins 21) 21 = false := by
    rw [getBit_eq, getLsbD_clrBit, decide_eq_true rfl, Bool.not_true, Bool.and_false]
  intro same
  have noForm := (armLoadStore_undefined_iff h junk p (clrBit ins 21)).mp (same ▸ undefined)
  rw [NoForm, cleared] at noForm
  exact absurd noForm.2 (by decide)

theorem translated_differs_ldrt : armLoadStore lp64 0 (sampleCore 0x10 0) 0xE6B10002#32 ≠
    armLoadStore lp64 0 (sampleCore 0x10 0) (clrBit 0xE6B10002#32 21) :=
  translated_differs lp64 0 (sampleCore 0x10 0) 0xE6B10002#32
    ⟨by decide, by decide, by decide⟩

theorem translated_not_postIndexed :
    ¬ ∀ (h : Platform) (junk : Word) (p : ArmCore) (ins : Word), TranslatedWord ins →
      armLoadStore h junk p ins = armLoadStore h junk p (clrBit ins 21) := by
  intro same
  have results := congrArg Prod.snd (same lp64 0 (sampleCore 0x10 0) 0xE6B10002#32
    ⟨by decide, by decide, by decide⟩)
  exact absurd results (by decide +kernel)

end Translated

end ArmSimulator
