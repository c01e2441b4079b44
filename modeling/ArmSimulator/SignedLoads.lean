import ArmSimulator.DataAbort
import ArmSimulator.Unimplemented

/-! LDRSB and LDRSH. The byte is extended in a variable of its own width; the
half-word in a word of which only half was written, under a mask one digit off. -/
namespace ArmSimulator

structure TransferAt (h : Platform) (p : ArmCore) (handler : Handler) (ins address : Word) :
    Prop where
  fetches : Fetches h p ins
  passed : instructionCheckCondition p ins = .passed
  handler : instructionGetHandler ins = some handler
  form : (singleForm (fetched p) ins).map Prod.snd = some address

structure MiscellaneousAt (h : Platform) (p : ArmCore) (code ins address : Word) : Prop
    extends TransferAt h p .armLoadStoreMiscellaneous ins address where
  operation : codage3Bits ins 20 6 5 = code

theorem singleForm_core (p : ArmCore) (ins : Word) {q : ArmCore} {address : Word}
    (form : singleForm p ins = some (q, address)) : q.mem = p.mem ∧ q.cpsr = p.cpsr := by
  rw [singleForm_eq] at form
  rcases indexed_cases p ins address form with rfl | ⟨_, rfl⟩
  · exact ⟨rfl, rfl⟩
  · exact ⟨rfl, rfl⟩

section Executed

variable {h : Platform} {junk : Word} {p : ArmCore} {ins address : Word} {handler : Handler}

theorem TransferAt.based_form (executed : TransferAt h p handler ins address)
    (single : handler ≠ .armLoadStoreMultiple) :
    singleForm (fetched p) ins = some (based (fetched p) ins, address) := by
  have other : instructionGetHandler ins ≠ some .armLoadStoreMultiple := by
    rw [executed.handler]
    exact fun same => single (Option.some.inj same)
  obtain ⟨⟨q, effective⟩, form, same⟩ := Option.map_eq_some_iff.mp executed.form
  rw [based, if_neg other, form, ← same]
  rfl

theorem TransferAt.core (executed : TransferAt h p handler ins address)
    (single : handler ≠ .armLoadStoreMultiple) :
    (based (fetched p) ins).mem = p.mem ∧ (based (fetched p) ins).cpsr = p.cpsr :=
  singleForm_core (fetched p) ins (executed.based_form single)

theorem TransferAt.run_loadStore (executed : TransferAt h p .armLoadStore ins address) :
    armExecuteInstruction h junk p = returning (loadStoreSwitch h junk
      (based (fetched p) ins) ins (getReg ins 15 12) address) := by
  have form := executed.based_form (by decide)
  rw [armExecuteInstruction_handled executed.fetches executed.passed executed.handler]
  simp only [Handler.run, armLoadStore_form executed.handler, form, afterForm]

theorem TransferAt.run_miscellaneous
    (executed : TransferAt h p .armLoadStoreMiscellaneous ins address) :
    armExecuteInstruction h junk p = returning (miscellaneousSwitch h junk
      (based (fetched p) ins) ins (getReg ins 15 12) address) := by
  have form := executed.based_form (by decide)
  rw [armExecuteInstruction_handled executed.fetches executed.passed executed.handler]
  simp only [Handler.run, armLoadStoreMiscellaneous_form executed.handler, form, afterForm]

theorem TransferAt.outside_based (executed : TransferAt h p handler ins address)
    (single : handler ≠ .armLoadStoreMultiple) (a : Word) (length : Nat) :
    outside h (based (fetched p) ins) a length = outside h p a length := by
  rw [outside, outside, (executed.core single).1]

end Executed

section Bytes

variable {h : Platform} {junk : Word} {p : ArmCore} {rd : Reg} {ins address : Word}

theorem ldrsb_eq (inside : outside h p address 1 = false) : ldrsb h junk p rd address =
    (armWriteRegister p rd ((p.mem.address address).setWidth 32), .noException) := by
  have kept : ∀ b : Byte, (if getBit b 7 then (b.setWidth 32 ||| 0xFFFFFF00#32).setWidth 8
      else (b.setWidth 32 &&& 0x0000F00FF#32).setWidth 8) = b := by
    decide
  rw [ldrsb, armReadByte_eq, inside]
  simp only [Bool.false_eq_true, if_false, kept, Memory.valueAt_byte]
  rfl

theorem zeroExtended_iff :
    ∀ b : Byte, b.setWidth 32 = b.signExtend 32 ↔ getBit b 7 = false := by
  decide

theorem executed_ldrsb (executed : MiscellaneousAt h p 6#32 ins address)
    (notPc : getReg ins 15 12 ≠ Reg.pc) (inside : outside h p address 1 = false) :
    armReadRegister (armExecuteInstruction h junk p).1 (getReg ins 15 12) =
      (p.mem.address address).setWidth 32 := by
  have inside' : outside h (based (fetched p) ins) address 1 = false := by
    rwa [executed.outside_based (by decide)]
  rw [executed.run_miscellaneous, miscellaneousSwitch, executed.operation]
  simp only [ldrsb_eq inside', returning]
  rw [armReadRegister_armWriteRegister_self _ _ _ notPc, (executed.core (by decide)).1]

def storedWord (p : ArmCore) (ins : Word) : Word :=
  armReadRegister (based (fetched p) ins) (getReg ins 15 12)

theorem loadStoreSwitch_forms (form : ¬NoForm ins) : loadStoreSwitch h junk p ins rd address =
    if getBit ins 20 then
      if getBit ins 22 then ldrb h junk p rd address else ldr h junk p rd address
    else if getBit ins 22 then strb h p rd address else str h p rd address := by
  rw [NoForm] at form
  unfold loadStoreSwitch
  rw [codage4Bits_eq]
  simp only [getBit_eq] at form ⊢
  cases p24 : ins.getLsbD 24 <;> cases w21 : ins.getLsbD 21
  case false.true => exact absurd ⟨p24, w21⟩ form
  all_goals
    cases ins.getLsbD 22 <;> cases ins.getLsbD 20 <;> rfl

theorem setWidth_masked {n : Nat} {mask : Word} (low : ∀ i < n, mask.getLsbD i = true) (x : Word) :
    (x &&& mask).setWidth n = x.setWidth n := by
  apply BitVec.eq_of_getLsbD_eq
  intro i small
  rw [BitVec.getLsbD_setWidth, BitVec.getLsbD_setWidth, BitVec.getLsbD_and, low i small,
    Bool.and_true]

theorem executed_strb (junk : Word) (executed : TransferAt h p .armLoadStore ins address)
    (byte : getBit ins 22 = true) (store : getBit ins 20 = false)
    (inside : outside h p address 1 = false) :
    (armExecuteInstruction h junk p).1.mem =
      p.mem.put h true address ((storedWord p ins).setWidth 8) := by
  have form : ¬NoForm ins := by
    have based := executed.based_form (by decide)
    rw [singleForm_eq] at based
    rw [← indexed_eq_none_iff (fetched p) ins (getReg ins 19 16) _ _, based]
    exact Option.some_ne_none _
  rw [executed.run_loadStore, loadStoreSwitch_forms form, store, byte, if_neg Bool.false_ne_true,
    if_pos rfl, returning, strb, armWriteByte_eq, executed.outside_based (by decide), inside,
    if_neg Bool.false_ne_true, setWidth_masked (by decide)]
  simp only [(executed.core (by decide)).1, storedWord]

theorem loadedBack_iff (x : Word) (low : -128 ≤ x.toInt) (high : x.toInt ≤ 127) :
    (x.setWidth 8).setWidth 32 = x ↔ 0 ≤ x.toInt := by
  rw [← BitVec.toNat_inj]
  simp only [BitVec.toNat_setWidth]
  rw [BitVec.toInt_eq_toNat_cond] at *
  split at low <;> omega

end Bytes

/-- LDRSB extends by zeroes in every form: it is right for the bytes below 0x80,
and gives back what STRB has stored just for the values that are not negative. -/
theorem ldrsb_signExtends_iff (h : Platform) :
    (∀ (junk : Word) (p : ArmCore) (ins address : Word), MiscellaneousAt h p 6#32 ins address →
      getReg ins 15 12 ≠ Reg.pc → outside h p address 1 = false →
      (armReadRegister (armExecuteInstruction h junk p).1 (getReg ins 15 12) =
          (p.mem.address address).signExtend 32 ↔
        getBit (p.mem.address address) 7 = false)) ∧
    ∀ (junk junk' : Word) (p q : ArmCore) (strb ldrsb address : Word),
      TransferAt h p .armLoadStore strb address → getBit strb 22 = true → getBit strb 20 = false →
      outside h p address 1 = false → q = (armExecuteInstruction h junk p).1 →
      MiscellaneousAt h q 6#32 ldrsb address → getReg ldrsb 15 12 ≠ Reg.pc →
      -128 ≤ (storedWord p strb).toInt → (storedWord p strb).toInt ≤ 127 →
      (armReadRegister (armExecuteInstruction h junk' q).1 (getReg ldrsb 15 12) =
          storedWord p strb ↔
        0 ≤ (storedWord p strb).toInt) := by
  constructor
  · intro junk p ins address executed notPc inside
    rw [executed_ldrsb executed notPc inside, zeroExtended_iff]
  · intro junk junk' p q strb ldrsb address stored byte store inside after loaded notPc low high
    have mem := executed_strb junk stored byte store inside
    rw [← after] at mem
    have inside' : outside h q address 1 = false := by
      rw [outside, mem]
      exact inside
    have written : q.mem.address address = (storedWord p strb).setWidth 8 := by
      rw [← Memory.valueAt_byte h q.mem true, mem]
      exact Memory.valueAt_put_same h p.mem true address _ (by decide) (by decide)
    rw [executed_ldrsb loaded notPc inside', written, loadedBack_iff _ low high]

def storedByteCore (x : Word) : ArmCore where
  registersStorage := fun k =>
    if k = usrStorage 0#4 then x else if k = usrStorage 1#4 then 0x100#32 else 0#32
  spsr := fun _ => 0#32
  cpsr := 0x10#32
  cycleCount := 0#32
  mem := (repeatedWord 0xE5C10000).put lp64 false 4#32 0xE1D120D0#32

theorem ldrsb_signExtends_five : armReadRegister (armExecuteInstruction lp64 0
      (armExecuteInstruction lp64 0 (storedByteCore 5)).1).1 2 =
    storedWord (storedByteCore 5) 0xE5C10000 :=
  ((ldrsb_signExtends_iff lp64).2 0 0 (storedByteCore 5) _ 0xE5C10000 0xE1D120D0 0x100
    ⟨⟨by decide, by decide⟩, by decide, by decide, by decide⟩ (by decide) (by decide) (by decide)
    rfl
    ⟨⟨⟨by decide +kernel, by decide +kernel⟩, by decide +kernel, by decide, by decide +kernel⟩,
      by decide⟩
    (by decide) (by decide) (by decide)).mpr (by decide)

theorem ldrsb_loses_sign : ¬ ∀ (junk : Word) (p : ArmCore) (ins address : Word),
    MiscellaneousAt lp64 p 6#32 ins address → getReg ins 15 12 ≠ Reg.pc →
    outside lp64 p address 1 = false →
    armReadRegister (armExecuteInstruction lp64 junk p).1 (getReg ins 15 12) =
      (p.mem.address address).signExtend 32 := by
  intro extended
  have loaded := extended 0 (armExecuteInstruction lp64 0 (storedByteCore 0xFFFFFFFF)).1
    0xE1D120D0 0x100
    ⟨⟨⟨by decide +kernel, by decide +kernel⟩, by decide +kernel, by decide, by decide +kernel⟩,
      by decide⟩ (by decide) (by decide +kernel)
  exact absurd loaded (by decide +kernel)

section Halves

variable {h : Platform} {junk : Word} {p : ArmCore} {rd : Reg} {ins address : Word} {half : Half}

/-- What `ldrsh` makes of the half-word and the initial content of its local. -/
def extendHalf (junk : Word) (half : Half) : Word :=
  let value : Word := (junk >>> 16).setWidth 16 ++ half
  if getBit value 15 then value ||| 0xFFFF0000#32 else value &&& 0x000FFFFF#32

theorem ldrsh_eq (littleEndian : h.isBigEndian = false) (inside : outside h p address 2 = false) :
    ldrsh h junk p rd address = (armWriteRegister p rd
      (extendHalf junk (p.mem.valueAt h (getBit p.cpsr Psr.e) 16 address)), .noException) := by
  rw [ldrsh, armReadHalf_eq, inside, littleEndian]
  rfl

theorem readHalf_getLsbD (junk : Word) (half : Half) {i : Nat} (small : i < 32) :
    ((junk >>> 16).setWidth 16 ++ half : Word).getLsbD i =
      if i < 16 then half.getLsbD i else junk.getLsbD i := by
  rw [BitVec.getLsbD_append]
  by_cases low : i < 16
  · simp [low]
  · have high : 16 + (i - 16) = i := by omega
    have inside : i - 16 < 16 := by omega
    simp [low, high, inside]

theorem extendHalf_getLsbD (junk : Word) (half : Half) {i : Nat} (small : i < 32) :
    (extendHalf junk half).getLsbD i =
      if i < 16 then half.getLsbD i
      else half.getLsbD 15 || (decide (i < 20) && junk.getLsbD i) := by
  have set : ∀ i < 32, (0xFFFF0000#32).getLsbD i = decide (16 ≤ i) := by decide
  have kept : ∀ i < 32, (0x000FFFFF#32).getLsbD i = decide (i < 20) := by decide
  have sign : getBit ((junk >>> 16).setWidth 16 ++ half : Word) 15 = half.getLsbD 15 := by
    rw [getBit_eq, readHalf_getLsbD junk half (by decide), if_pos (by decide)]
  rw [extendHalf, sign]
  cases half.getLsbD 15 with
  | true =>
    simp only [if_true, BitVec.getLsbD_or, readHalf_getLsbD junk half small, set i small,
      Bool.true_or]
    split
    · rw [decide_eq_false (by omega), Bool.or_false]
    · rw [decide_eq_true (by omega), Bool.or_true]
  | false =>
    simp only [Bool.false_eq_true, if_false, BitVec.getLsbD_and, readHalf_getLsbD junk half small,
      kept i small, Bool.false_or]
    split
    · rw [decide_eq_true (by omega), Bool.and_true]
    · rw [Bool.and_comm]

theorem getBits_extendHalf (junk : Word) (sign : half.getLsbD 15 = false) :
    getBits (extendHalf junk half) 19 16 = getBits junk 19 16 := by
  apply BitVec.eq_of_getLsbD_eq
  intro i _
  rw [getLsbD_getBits, getLsbD_getBits]
  by_cases field : i < 19 - 16 + 1
  · have surviving : 16 + i < 20 := by omega
    rw [extendHalf_getLsbD junk half (by omega), sign, if_neg (by omega),
      decide_eq_true surviving, Bool.false_or, Bool.true_and]
  · rw [decide_eq_false field, Bool.false_and, Bool.false_and]

/-- Bits 19:16 of the local are the only ones that survive, in a value that is not negative. -/
theorem extendHalf_agree_iff (junk junk' : Word) (half : Half) :
    extendHalf junk half = extendHalf junk' half ↔
      getBit half 15 = true ∨ getBits junk 19 16 = getBits junk' 19 16 := by
  rw [getBit_eq]
  cases sign : half.getLsbD 15 with
  | true =>
    refine iff_of_true (BitVec.eq_of_getLsbD_eq fun i small => ?_) (.inl rfl)
    rw [extendHalf_getLsbD junk half small, extendHalf_getLsbD junk' half small, sign,
      Bool.true_or, Bool.true_or]
  | false =>
    simp only [Bool.false_eq_true, false_or]
    constructor
    · intro same
      rw [← getBits_extendHalf junk sign, same, getBits_extendHalf junk' sign]
    · intro same
      apply BitVec.eq_of_getLsbD_eq
      intro i small
      rw [extendHalf_getLsbD junk half small, extendHalf_getLsbD junk' half small]
      by_cases field : 16 ≤ i ∧ i ≤ 19
      · rw [← getLsbD_field junk field.1 field.2, same, getLsbD_field junk' field.1 field.2]
      · by_cases low : i < 16
        · rw [if_pos low, if_pos low]
        · have masked : ¬i < 20 := by omega
          rw [decide_eq_false masked, Bool.false_and, Bool.false_and]

theorem extendHalf_clean (half : Half) : extendHalf 0#32 half = half.signExtend 32 := by
  apply BitVec.eq_of_getLsbD_eq
  intro i small
  rw [extendHalf_getLsbD 0#32 half small, BitVec.getLsbD_signExtend, decide_eq_true small,
    BitVec.getLsbD_zero, Bool.and_false, Bool.or_false, Bool.true_and,
    BitVec.msb_eq_getLsbD_last]

theorem signExtended_iff (junk : Word) (half : Half) : extendHalf junk half = half.signExtend 32 ↔
    getBit half 15 = true ∨ getBits junk 19 16 = 0#32 := by
  have clean : getBits 0#32 19 16 = 0#32 := by decide
  rw [← extendHalf_clean, extendHalf_agree_iff, clean]

theorem executed_ldrsh (littleEndian : h.isBigEndian = false)
    (executed : MiscellaneousAt h p 7#32 ins address)
    (notPc : getReg ins 15 12 ≠ Reg.pc) (inside : outside h p address 2 = false) :
    armReadRegister (armExecuteInstruction h junk p).1 (getReg ins 15 12) =
      extendHalf junk (p.mem.valueAt h (getBit p.cpsr Psr.e) 16 address) := by
  obtain ⟨mem, cpsr⟩ := executed.core (by decide)
  have inside' : outside h (based (fetched p) ins) address 2 = false := by
    rwa [executed.outside_based (by decide)]
  rw [executed.run_miscellaneous, miscellaneousSwitch, executed.operation]
  simp only [ldrsh_eq littleEndian inside', returning]
  rw [armReadRegister_armWriteRegister_self _ _ _ notPc, mem, cpsr]

end Halves

/-- On a little-endian host LDRSH is right, and two runs of it agree, just when
the half-word is negative or bits 19:16 of the uninitialised local do not count. -/
theorem ldrsh_signExtends_iff (h : Platform) (littleEndian : h.isBigEndian = false) (p : ArmCore)
    (ins address : Word) (executed : MiscellaneousAt h p 7#32 ins address)
    (notPc : getReg ins 15 12 ≠ Reg.pc) (inside : outside h p address 2 = false) :
    let half : Half := p.mem.valueAt h (getBit p.cpsr Psr.e) 16 address
    (∀ junk, armReadRegister (armExecuteInstruction h junk p).1 (getReg ins 15 12) =
        half.signExtend 32 ↔ getBit half 15 = true ∨ getBits junk 19 16 = 0#32) ∧
    ∀ junk junk', armReadRegister (armExecuteInstruction h junk p).1 (getReg ins 15 12) =
        armReadRegister (armExecuteInstruction h junk' p).1 (getReg ins 15 12) ↔
      getBit half 15 = true ∨ getBits junk 19 16 = getBits junk' 19 16 := by
  intro half
  constructor
  · intro junk
    rw [executed_ldrsh littleEndian executed notPc inside, signExtended_iff]
  · intro junk junk'
    rw [executed_ldrsh littleEndian executed notPc inside,
      executed_ldrsh littleEndian executed notPc inside, extendHalf_agree_iff]

theorem ldrsh_sample : MiscellaneousAt lp64 (sampleCore 0x10 0xE1D100F0) 7#32 0xE1D100F0 0 :=
  ⟨⟨⟨by decide, by decide⟩, by decide, by decide, by decide⟩, by decide⟩

theorem ldrsh_signExtends_clean : armReadRegister (armExecuteInstruction lp64 0xFFF00000
    (sampleCore 0x10 0xE1D100F0)).1 0 = 0xF0 :=
  ((ldrsh_signExtends_iff lp64 rfl _ _ _ ldrsh_sample (by decide) (by decide)).1 _).mpr
    (.inr (by decide))

/-- Two runs with different locals load 0x000F00F0 and 0x000000F0. -/
theorem ldrsh_leaks : ¬ ∀ (junk junk' : Word) (p : ArmCore) (ins address : Word),
    MiscellaneousAt lp64 p 7#32 ins address → getReg ins 15 12 ≠ Reg.pc →
    outside lp64 p address 2 = false →
    armReadRegister (armExecuteInstruction lp64 junk p).1 (getReg ins 15 12) =
      armReadRegister (armExecuteInstruction lp64 junk' p).1 (getReg ins 15 12) := by
  intro agree
  have same := agree 0xFFFFFFFF 0 _ _ _ ldrsh_sample (by decide) (by decide)
  exact absurd same (by decide +kernel)

end ArmSimulator
