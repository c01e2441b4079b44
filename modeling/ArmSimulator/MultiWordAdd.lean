import ArmSimulator.Instruction
import ArmSimulator.Library.MultiWord

namespace ArmSimulator

def multiWordValue (words : List Word) : Nat := Nat.ofDigits (2 ^ 32) (words.map BitVec.toNat)

structure IsSum (xs ys zs : List Word) (carryOut : Bool) : Prop where
  lengths : ys.length = xs.length ∧ zs.length = xs.length
  words : multiWordValue zs = (multiWordValue xs + multiWordValue ys) % 2 ^ (32 * xs.length)
  carry : carryOut = true ↔ 2 ^ (32 * xs.length) ≤ multiWordValue xs + multiWordValue ys

section Words

variable (h : Platform) (op : OpCode) (ins : Word) (p q : ArmCore)

structure SumStep : Prop where
  fetches : Fetches h p ins
  passed : instructionCheckCondition p ins = .passed
  dataProcessing : DataProcessingWord ins
  opCode : armGetDpHandler ins = op
  withS : getS ins = true
  notPc : getRd ins ≠ Reg.pc
  step : NormalStep h p q

def sumLeft : Word := dpOp1 (fetched p) ins
def sumRight : Word := (shifterOperand (fetched p) ins).1
def sumWord : Word := armReadRegister q (getRd ins)

end Words

/-- ADDS, then ADCS after ADCS. Between two of them anything may be done that
leaves the carry flag. -/
inductive SumChain (h : Platform) : List Word → List Word → List Word → ArmCore → Prop
  | adds {ins : Word} {p q : ArmCore} : SumStep h .add ins p q →
      SumChain h [sumLeft ins p] [sumRight ins p] [sumWord ins q] q
  | adcs {xs ys zs : List Word} {ins : Word} {o p q : ArmCore} : SumChain h xs ys zs o →
      armReadC p = armReadC o → SumStep h .adc ins p q →
      SumChain h (xs ++ [sumLeft ins p]) (ys ++ [sumRight ins p]) (zs ++ [sumWord ins q]) q

def getRm (ins : Word) : Reg := getReg ins 3 0

structure RegisterOperands (ins : Word) : Prop where
  shift : instructionGetHandler ins = some .armDataProcessingShift
  unshifted : getBits ins 11 4 = 0#32
  rn : getRn ins ≠ Reg.pc
  rm : getRm ins ≠ Reg.pc

/-- The same in a row from `p`, on registers that no earlier word has written. -/
inductive SumCode (h : Platform) (p : ArmCore) : List Word → ArmCore → Prop
  | adds {ins : Word} {q : ArmCore} : SumStep h .add ins p q → RegisterOperands ins →
      SumCode h p [ins] q
  | adcs {code : List Word} {ins : Word} {q r : ArmCore} : SumCode h p code q →
      SumStep h .adc ins q r → RegisterOperands ins →
      (∀ early ∈ code, getRn ins ≠ getRd early ∧ getRm ins ≠ getRd early ∧
        getRd ins ≠ getRd early) →
      SumCode h p (code ++ [ins]) r

namespace SumStep

variable {h : Platform} {op : OpCode} {ins : Word} {p q : ArmCore}

theorem result (step : SumStep h op ins p q) :
    q = op.run (fetched p) (getRd ins) (sumLeft ins p) (sumRight ins p) true
      (shifterOperand (fetched p) ins).2 := by
  obtain ⟨junk, normal⟩ := step.step
  rw [armStep_dataProcessing junk step.dataProcessing step.fetches step.passed, step.opCode,
    step.withS] at normal
  exact (congrArg Prod.fst normal).symm

theorem split (p : ArmCore) {rd : Reg} (notPc : rd ≠ Reg.pc) {res : BitVec 64}
    (small : res.toNat < 2 ^ 33) (v : Option Bool) {q : ArmCore}
    (result : q = DataProcessing.writeResult p rd true res (decide (0xFFFFFFFF#64 < res)) v) :
    (armReadRegister q rd).toNat + 2 ^ 32 * (armReadC q).toNat = res.toNat := by
  rw [result, armReadRegister_withS_self p notPc, armReadC_withS p notPc, BitVec.toNat_setWidth]
  by_cases above : 0xFFFFFFFF#64 < res
  · rw [decide_eq_true above, Bool.toNat_true]
    rw [BitVec.lt_def] at above
    simp only [BitVec.toNat_ofNat] at above
    omega
  · rw [decide_eq_false above, Bool.toNat_false]
    rw [BitVec.lt_def] at above
    simp only [BitVec.toNat_ofNat] at above
    omega

theorem adds_column (step : SumStep h .add ins p q) :
    (sumWord ins q).toNat + 2 ^ 32 * (armReadC q).toNat =
      (sumLeft ins p).toNat + (sumRight ins p).toNat := by
  have left := (sumLeft ins p).isLt
  have right := (sumRight ins p).isLt
  have sum : ((sumLeft ins p).setWidth 64 + (sumRight ins p).setWidth 64).toNat =
      (sumLeft ins p).toNat + (sumRight ins p).toNat := by
    simp only [BitVec.toNat_add, BitVec.toNat_setWidth]
    omega
  rw [← sum]
  exact split (fetched p) step.notPc (by omega) _ step.result

theorem adcs_column (step : SumStep h .adc ins p q) :
    (sumWord ins q).toNat + 2 ^ 32 * (armReadC q).toNat =
      (sumLeft ins p).toNat + (sumRight ins p).toNat + (armReadC p).toNat := by
  have left := (sumLeft ins p).isLt
  have right := (sumRight ins p).isLt
  have carry : (armReadC p).toNat ≤ 1 := Bool.toNat_le _
  have sum : ((sumLeft ins p).setWidth 64 + (sumRight ins p).setWidth 64 +
      bit 64 (armReadC (fetched p))).toNat =
      (sumLeft ins p).toNat + (sumRight ins p).toNat + (armReadC p).toNat := by
    have same : armReadC (fetched p) = armReadC p := rfl
    simp only [BitVec.toNat_add, BitVec.toNat_setWidth, bit, same, BitVec.toNat_ofNat]
    omega
  rw [← sum]
  exact split (fetched p) step.notPc (by omega) _ step.result

theorem keeps (step : SumStep h op ins p q) (writes : op.compares = false) {r : Reg}
    (notPc : r ≠ Reg.pc) (other : r ≠ getRd ins) : armReadRegister q r = armReadRegister p r := by
  obtain ⟨res, c, v, shape⟩ := OpCode.run_writes (fetched p) (getRd ins) (sumLeft ins p)
    (sumRight ins p) true (shifterOperand (fetched p) ins).2 writes
  rw [step.result, shape, armReadRegister_withS_other _ step.notPc other]
  exact armReadRegister_armWriteRegister_other _ _ _ _ notPc

end SumStep

section Chains

variable {h : Platform}

theorem SumChain.ripple {xs ys zs : List Word} {q : ArmCore} (chain : SumChain h xs ys zs q) :
    MultiWord.Ripple (2 ^ 32) (xs.map BitVec.toNat) (ys.map BitVec.toNat) (zs.map BitVec.toNat)
      (armReadC q).toNat := by
  induction chain with
  | adds step => exact .snoc .nil (BitVec.isLt _) step.adds_column
  | adcs _ carried step ih =>
    simp only [List.map_append, List.map_cons, List.map_nil]
    refine ih.snoc (BitVec.isLt _) ?_
    rw [← carried]
    exact step.adcs_column

theorem SumChain.isSum {xs ys zs : List Word} {q : ArmCore} (chain : SumChain h xs ys zs q) :
    IsSum xs ys zs (armReadC q) := by
  have lengths := chain.ripple.lengths
  have words := chain.ripple.words (by decide)
  have carry := chain.ripple.carry_iff (by decide)
  simp only [List.length_map, ← pow_mul] at lengths words carry
  have set : 0 < (armReadC q).toNat ↔ armReadC q = true := by
    cases armReadC q <;> decide
  exact ⟨lengths, words, set.symm.trans carry⟩

section Registers

variable {op : OpCode} {ins : Word} {p q : ArmCore} {code : List Word}

theorem RegisterOperands.right (operands : RegisterOperands ins) (p : ArmCore) :
    sumRight ins p = armReadRegister p (getRm ins) := by
  have shiftImm : getBits ins 11 7 = 0#32 :=
    getBits_zero_inside operands.unshifted (by decide) (by decide) (by decide)
  have shiftCode : getBits ins 6 5 = 0#32 :=
    getBits_zero_inside operands.unshifted (by decide) (by decide) (by decide)
  simp only [sumRight, shifterOperand, operands.shift, Option.some.injEq, reduceCtorEq, if_false,
    getShifted, shiftCode, shiftImm, BitVec.setWidth_zero, if_true]
  exact fetched_reads p operands.rm

theorem RegisterOperands.left (operands : RegisterOperands ins) (p : ArmCore)
    (opCode : armGetDpHandler ins = op) (reads : op ≠ .mov ∧ op ≠ .mvn) :
    sumLeft ins p = armReadRegister p (getRn ins) := by
  rw [sumLeft, dpOp1, opCode, if_pos reads]
  exact fetched_reads p operands.rn

theorem SumCode.notPc (run : SumCode h p code q) : ∀ ins ∈ code, getRd ins ≠ Reg.pc := by
  induction run with
  | adds step _ =>
    intro ins inside
    rw [List.mem_singleton.mp inside]
    exact step.notPc
  | adcs _ step _ _ ih =>
    intro ins inside
    rcases List.mem_append.mp inside with early | last
    · exact ih ins early
    · rw [List.mem_singleton.mp last]
      exact step.notPc

theorem SumCode.keeps (run : SumCode h p code q) {r : Reg} (notPc : r ≠ Reg.pc)
    (other : ∀ ins ∈ code, r ≠ getRd ins) : armReadRegister q r = armReadRegister p r := by
  induction run with
  | adds step _ => exact step.keeps rfl notPc (other _ List.mem_cons_self)
  | adcs _ step _ _ ih =>
    rw [step.keeps rfl notPc (other _ (List.mem_append_right _ List.mem_cons_self))]
    exact ih fun ins early => other ins (List.mem_append_left _ early)

theorem SumCode.chain (run : SumCode h p code q) :
    SumChain h (code.map fun ins => armReadRegister p (getRn ins))
      (code.map fun ins => armReadRegister p (getRm ins))
      (code.map fun ins => armReadRegister q (getRd ins)) q := by
  induction run with
  | adds step operands =>
    have chain := SumChain.adds step
    rw [operands.left p step.opCode (by decide), operands.right p] at chain
    exact chain
  | @adcs code ins q r before step operands fresh ih =>
    have chain := ih.adcs rfl step
    rw [operands.left q step.opCode (by decide), operands.right q,
      before.keeps operands.rn fun early inside => (fresh early inside).1,
      before.keeps operands.rm fun early inside => (fresh early inside).2.1] at chain
    have destinations : (code.map fun early => armReadRegister r (getRd early)) =
        code.map fun early => armReadRegister q (getRd early) := by
      apply List.map_congr_left
      intro early inside
      exact step.keeps rfl (before.notPc early inside) (fresh early inside).2.2.symm
    simp only [List.map_append, List.map_cons, List.map_nil, destinations]
    exact chain

end Registers

section Existence

def addsWord : Word := 0xE0902001#32
def adcsWord : Word := 0xE0B02001#32

def loadedCpsr (carry : Bool) : Word := if carry then 0x20000010#32 else 0x10#32

def loadedState (h : Platform) (ins x y : Word) (carry : Bool) : ArmCore where
  registersStorage := fun k =>
    if k = usrStorage 0#4 then x else if k = usrStorage 1#4 then y else 0#32
  spsr := fun _ => 0#32
  cpsr := loadedCpsr carry
  cycleCount := 0#32
  mem := firstWord h ins

structure LoadedWord (op : OpCode) (ins : Word) : Prop where
  always : getBits ins 31 28 = 14#32
  operands : RegisterOperands ins
  opCode : armGetDpHandler ins = op
  withS : getS ins = true
  rd : getRd ins ≠ Reg.pc
  rn : getRn ins = 0#4
  rm : getRm ins = 1#4

theorem adds_loaded : LoadedWord .add addsWord :=
  ⟨by decide, ⟨by decide, by decide, by decide, by decide⟩, by decide, by decide, by decide,
    by decide, by decide⟩

theorem adcs_loaded : LoadedWord .adc adcsWord :=
  ⟨by decide, ⟨by decide, by decide, by decide, by decide⟩, by decide, by decide, by decide,
    by decide, by decide⟩

variable (h) (x y : Word) (carry : Bool)

theorem loaded_carry (ins : Word) : armReadC (loadedState h ins x y carry) = carry := by
  have flag : ∀ carry, getBit (loadedCpsr carry) Psr.c = carry := by decide
  exact flag carry

theorem loaded_register (ins : Word) {r : Reg} (low : r = 0#4 ∨ r = 1#4) :
    armReadRegister (loadedState h ins x y carry) r = if r = 0#4 then x else y := by
  have mode : ∀ carry, (loadedCpsr carry &&& 0x1f#32).setWidth 5 = Mode.usr := by decide
  have usr : armMode (loadedState h ins x y carry) = Mode.usr := mode carry
  rcases low with rfl | rfl <;>
  · rw [armReadRegister_of_ne (by decide), usr]
    rfl

theorem loaded_step {op : OpCode} {ins : Word} (word : LoadedWord op ins) :
    SumStep h op ins (loadedState h ins x y carry)
      (armStep h 0 (loadedState h ins x y carry)).1 := by
  have littleEndian : ∀ carry, getBit (loadedCpsr carry) Psr.e = false := by decide
  have fetches : Fetches h (loadedState h ins x y carry) ins :=
    fetches_firstWord rfl (littleEndian carry) rfl
  have passed : instructionCheckCondition (loadedState h ins x y carry) ins = .passed := by
    rw [instructionCheckCondition, word.always]
    rfl
  have step := armStep_dataProcessing 0 (.inl word.operands.shift) fetches passed
  exact ⟨fetches, passed, .inl word.operands.shift, word.opCode, word.withS, word.rd, 0,
    by rw [step]⟩

theorem loaded_operands {op : OpCode} {ins : Word} (word : LoadedWord op ins)
    (reads : op ≠ .mov ∧ op ≠ .mvn) :
    sumLeft ins (loadedState h ins x y carry) = x ∧
      sumRight ins (loadedState h ins x y carry) = y := by
  constructor
  · rw [word.operands.left _ word.opCode reads, loaded_register _ _ _ _ _ (.inl word.rn),
      if_pos word.rn]
  · rw [word.operands.right, loaded_register _ _ _ _ _ (.inr word.rm), word.rm]
    rfl

theorem exists_sumChain (h : Platform) (words : List (Word × Word)) (nonempty : words ≠ []) :
    ∃ zs q, SumChain h (words.map Prod.fst) (words.map Prod.snd) zs q := by
  induction words using List.reverseRecOn with
  | nil => exact absurd rfl nonempty
  | append_singleton words last ih =>
    simp only [List.map_append, List.map_cons, List.map_nil]
    cases words with
    | nil =>
      obtain ⟨left, right⟩ := loaded_operands h last.1 last.2 false adds_loaded (by decide)
      have chain := SumChain.adds (loaded_step h last.1 last.2 false adds_loaded)
      rw [left, right] at chain
      exact ⟨_, _, chain⟩
    | cons first words =>
      -- the last words come on top and take the carry of the chain before
      obtain ⟨zs, o, before⟩ := ih (List.cons_ne_nil _ _)
      obtain ⟨left, right⟩ := loaded_operands h last.1 last.2 (armReadC o) adcs_loaded (by decide)
      have chain := before.adcs (loaded_carry h _ _ _ _)
        (loaded_step h last.1 last.2 (armReadC o) adcs_loaded)
      rw [left, right] at chain
      exact ⟨_, _, chain⟩

theorem zip_ne_nil {xs ys : List Word} (nonempty : xs ≠ []) (lengths : ys.length = xs.length) :
    xs.zip ys ≠ [] := by
  rw [ne_eq, List.zip_eq_nil_iff, not_or]
  exact ⟨nonempty, fun none => nonempty (List.length_eq_zero_iff.mp (by rw [← lengths, none]; rfl))⟩

end Existence

/-- Any words can be added by a chain, every chain leaves their sum and the
carry out of it, and so does a row of ADDS and ADCS on the words that the
operand registers held at its start. -/
theorem multi_word_addition (h : Platform) :
    (∀ xs ys : List Word, xs ≠ [] → ys.length = xs.length → ∃ zs q, SumChain h xs ys zs q) ∧
    (∀ xs ys zs q, SumChain h xs ys zs q → IsSum xs ys zs (armReadC q)) ∧
    ∀ p code q, SumCode h p code q →
      IsSum (code.map fun ins => armReadRegister p (getRn ins))
        (code.map fun ins => armReadRegister p (getRm ins))
        (code.map fun ins => armReadRegister q (getRd ins)) (armReadC q) := by
  refine ⟨?_, fun xs ys zs q chain => chain.isSum, fun p code q run => run.chain.isSum⟩
  intro xs ys nonempty lengths
  have chain := exists_sumChain h (xs.zip ys) (zip_ne_nil nonempty lengths)
  rwa [List.map_fst_zip lengths.ge, List.map_snd_zip lengths.le] at chain

/-- r1:r0 and r3:r2 are all ones; `adds r4, r0, r2` and `adcs r5, r1, r3` follow. -/
def twoWordState : ArmCore where
  registersStorage := fun k => if k.val < 4 then 0xFFFFFFFF#32 else 0#32
  spsr := fun _ => 0#32
  cpsr := 0x10#32
  cycleCount := 0#32
  mem := (repeatedWord 0xE0904002).put lp64 false 4#32 0xE0B15003#32

theorem multi_word_addition_two :
    ∃ q, SumCode lp64 twoWordState [0xE0904002#32, 0xE0B15003#32] q ∧ armReadC q = true := by
  have first : SumStep lp64 .add 0xE0904002#32 twoWordState (armStep lp64 0 twoWordState).1 :=
    ⟨⟨by decide, by decide⟩, by decide, .inl (by decide), by decide, by decide, by decide,
      0, Prod.ext rfl (by decide)⟩
  have second : SumStep lp64 .adc 0xE0B15003#32 (armStep lp64 0 twoWordState).1
      (armStep lp64 0 (armStep lp64 0 twoWordState).1).1 :=
    ⟨⟨by decide +kernel, by decide +kernel⟩, by decide, .inl (by decide), by decide, by decide,
      by decide, 0, Prod.ext rfl (by decide +kernel)⟩
  have fresh : ∀ early ∈ [0xE0904002#32], getRn 0xE0B15003#32 ≠ getRd early ∧
      getRm 0xE0B15003#32 ≠ getRd early ∧ getRd 0xE0B15003#32 ≠ getRd early := by
    intro early inside
    rw [List.mem_singleton.mp inside]
    decide
  have run := (SumCode.adds first ⟨by decide, by decide, by decide, by decide⟩).adcs second
    ⟨by decide, by decide, by decide, by decide⟩ fresh
  refine ⟨_, run, ((multi_word_addition lp64).2.2 _ _ _ run).carry.mpr ?_⟩
  decide +kernel

end Chains

end ArmSimulator
