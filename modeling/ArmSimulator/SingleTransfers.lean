import ArmSimulator.HostOrder
import ArmSimulator.ShiftReference
import ArmSimulator.SignedLoads

/-! LDR, STR, LDRB, STRB, LDRH and STRH in all their forms, from one fetch to the
next. The handlers make every transfer as it is described here, in the byte
order that memory.c gives it. -/
namespace ArmSimulator
open ByteStore

/-- The six operations: L, and the width of what they move. -/
structure SingleOp where
  loads : Bool
  width : Width

def Indexed (ins : Word) : Prop := getBit ins 24 = false ∨ getBit ins 21 = true

instance (ins : Word) : Decidable (Indexed ins) := inferInstanceAs (Decidable (_ ∨ _))

def operand (p : ArmCore) (r : Reg) : Word :=
  if r = Reg.pc then fetchAddress p + 8#32 else p.registersStorage (registers (armMode p) r)

namespace SingleOp

variable (op : SingleOp) (p : ArmCore) (ins : Word)

/-- Class 010 or, with bit 4 clear, 011, and B; for half-words class 000 with 1011
in bits 7:4. -/
def Encoded : Prop :=
  (op.width = .half → getBits ins 27 25 = 0#32 ∧ getBits ins 7 4 = 11#32) ∧
    (op.width ≠ .half →
      (getBits ins 27 25 = 2#32 ∨ getBits ins 27 25 = 3#32 ∧ getBit ins 4 = false) ∧
        getBit ins 22 = decide (op.width = .byte))

instance : Decidable (op.Encoded ins) := inferInstanceAs (Decidable (_ ∧ _))

/-- The immediate of 12 or of twice 4 bits, or Rm, which words and bytes scale. -/
def offset : Word :=
  let rm := operand p (getReg ins 3 0)
  if op.width = .half then
    if getBit ins 22 then (ins.extractLsb' 8 4 ++ ins.extractLsb' 0 4).setWidth 32 else rm
  else if getBits ins 27 25 = 3#32 then
    (shiftedByImm rm (getBit p.cpsr Psr.c) (shiftType (getBits ins 6 5)) (getBits ins 11 7).toNat).1
  else (ins.setWidth 12).setWidth 32

def indexedBase : Word :=
  if getBit ins 23 then operand p (getReg ins 19 16) + op.offset p ins
  else operand p (getReg ins 19 16) - op.offset p ins

def address : Word := if getBit ins 24 then op.indexedBase p ins else operand p (getReg ins 19 16)

def low : BitVec op.width.bits := (operand p (getReg ins 15 12)).setWidth op.width.bits

def loadedBytes : List Byte := load p.mem.address (op.address p ins) op.width.bytes

def datum (be : Bool) : Word := BitVec.ofNat 32 (combine be (op.loadedBytes p ins))

def LoadsPc : Prop := op.loads = true ∧ op.width = .word ∧ getReg ins 15 12 = Reg.pc

instance : Decidable (op.LoadsPc ins) := inferInstanceAs (Decidable (_ ∧ _))

end SingleOp

structure SingleWord (op : SingleOp) (ins : Word) : Prop where
  encoded : op.Encoded ins
  load : getBit ins 20 = op.loads
  form : ¬NoForm ins
  notPc : getReg ins 19 16 ≠ Reg.pc
  notRd : Indexed ins → getReg ins 19 16 ≠ getReg ins 15 12

/-- From `p` to `r` the transfer was made, in the order `be`, and nothing else. -/
structure SingleEffect (be : Bool) (op : SingleOp) (ins : Word) (p : ArmCore)
    (r : ArmCore × Outcome) : Prop where
  result : r.2 = .returned .noException
  loaded : op.loads = true → r.1.registersStorage (registers (armMode p) (getReg ins 15 12)) =
    if op.LoadsPc ins then op.datum p ins be &&& 0xFFFFFFFE#32 else op.datum p ins be
  base : Indexed ins → r.1.registersStorage (registers (armMode p) (getReg ins 19 16)) =
    op.indexedBase p ins
  pc : ¬(op.loads = true ∧ getReg ins 15 12 = Reg.pc) →
    r.1.registersStorage 15 = fetchAddress p + 4#32
  others : ∀ k, k ≠ 15 → (op.loads = true → k ≠ registers (armMode p) (getReg ins 15 12)) →
    (Indexed ins → k ≠ registers (armMode p) (getReg ins 19 16)) →
    r.1.registersStorage k = p.registersStorage k
  cpsr : ∀ i < 32, r.1.cpsr.getLsbD i =
    if op.LoadsPc ins ∧ i = Psr.t then (op.datum p ins be).getLsbD 0 else p.cpsr.getLsbD i
  spsr : r.1.spsr = p.spsr
  mem : r.1.mem = if op.loads then p.mem else
    { p.mem with
      address := store p.mem.address (op.address p ins) (spell be op.width (op.low p ins)) }
  cycleCount : r.1.cycleCount = p.cycleCount + 1#32

section Decoding

variable {h : Platform} {p : ArmCore} {op : SingleOp} {ins : Word}

theorem armReadRegister_fetched (p : ArmCore) (r : Reg) :
    armReadRegister (fetched p) r = operand p r := by
  by_cases isPc : r = Reg.pc
  · rw [operand, if_pos isPc, isPc, armReadRegister_afterFetch fetched_pc]
  · rw [operand, if_neg isPc, fetched_reads _ isPc, armReadRegister_of_ne isPc]

def SingleOp.handler (op : SingleOp) : Handler :=
  if op.width = .half then .armLoadStoreMiscellaneous else .armLoadStore

theorem SingleWord.bits7654 (word : SingleWord op ins) (half : op.width = .half) :
    ins.getLsbD 7 = true ∧ ins.getLsbD 6 = false ∧ ins.getLsbD 5 = true ∧ ins.getLsbD 4 = true := by
  have field {i : Nat} (low : 4 ≤ i) (high : i ≤ 7) : ins.getLsbD i = (11#32).getLsbD (i - 4) :=
    getLsbD_of_getBits (word.encoded.1 half).2 low high
  exact ⟨field (by decide) (by decide), field (by decide) (by decide),
    field (by decide) (by decide), field (by decide) (by decide)⟩

theorem SingleWord.handler (word : SingleWord op ins) :
    instructionGetHandler ins = some op.handler := by
  rw [SingleOp.handler]
  by_cases half : op.width = .half
  · obtain ⟨bit7, _, _, bit4⟩ := word.bits7654 half
    rw [if_pos half]
    exact miscellaneous_handler (word.encoded.1 half).1 ((getBit_eq ins 7).trans bit7)
      ((getBit_eq ins 4).trans bit4)
  · rw [if_neg half]
    rcases (word.encoded.2 half).1 with immediate | ⟨register, _⟩
    · simp only [instructionGetHandler, immediate]
    · simp only [instructionGetHandler, register]

theorem splitOffset_eq (ins : Word) : (getBits ins 11 8 <<< 4) ||| getBits ins 3 0 =
    ((ins.extractLsb' 8 4 ++ ins.extractLsb' 0 4).setWidth 32 : Word) := by
  apply BitVec.eq_of_getLsbD_eq
  intro i small
  rw [BitVec.getLsbD_or, BitVec.getLsbD_shiftLeft, getLsbD_getBits, getLsbD_getBits,
    BitVec.getLsbD_setWidth, BitVec.getLsbD_append, BitVec.getLsbD_extractLsb',
    BitVec.getLsbD_extractLsb']
  by_cases low : i < 4
  · simp [low, small]
  · have place : 8 + (i - 4) = i + 4 := by omega
    simp [low, small]

theorem SingleWord.offset (word : SingleWord op ins) (p : ArmCore) :
    transferOffset (fetched p) ins = op.offset p ins := by
  have bit25 : getBit ins 25 = (getBits ins 27 25).getLsbD 0 := by
    rw [getBit_eq, getLsbD_getBits]
    rfl
  rw [transferOffset, word.handler, SingleOp.handler, SingleOp.offset]
  by_cases half : op.width = .half
  · rw [if_pos half, if_neg (by decide), if_pos half, miscellaneousOffset, splitOffset_eq,
      armReadRegister_fetched]
  · rw [if_neg half, if_pos rfl, if_neg half, loadStoreOffset, bit25]
    rcases (word.encoded.2 half).1 with immediate | ⟨register, _⟩
    · rw [immediate, if_pos (by decide), if_neg (by decide), getBits_lowest]
    · rw [register, if_neg (by decide), if_pos rfl, armReadRegister_fetched,
        scaledShift_eq_imm _ _ (shiftImm_lt ins)]
      rfl

theorem indexed_form (form : ¬NoForm ins) (q : ArmCore) (rn : Reg) (valRn offset : Word) :
    indexed q ins rn valRn offset =
      some (if Indexed ins then armWriteRegister q rn (moved ins valRn offset) else q,
        if getBit ins 24 then moved ins valRn offset else valRn) := by
  cases p24 : getBit ins 24 with
  | false =>
    have w21 : getBit ins 21 = false := Bool.eq_false_iff.mpr fun w => form ⟨p24, w⟩
    have postIndexed : Indexed ins := .inl p24
    rw [indexed, p24, w21, if_pos postIndexed]
    rfl
  | true =>
    cases w21 : getBit ins 21 with
    | false =>
      have offsetForm : ¬Indexed ins := by
        rw [Indexed, p24, w21]
        decide
      rw [indexed, p24, w21, if_neg offsetForm]
      rfl
    | true =>
      have preIndexed : Indexed ins := .inr w21
      rw [indexed, p24, w21, if_pos preIndexed]
      rfl

theorem SingleWord.singleForm (word : SingleWord op ins) (p : ArmCore) :
    singleForm (fetched p) ins =
      some (if Indexed ins then
          armWriteRegister (fetched p) (getReg ins 19 16) (op.indexedBase p ins) else fetched p,
        op.address p ins) := by
  rw [singleForm_eq, indexed_form word.form, armReadRegister_fetched, word.offset]
  rfl

theorem SingleWord.transferAt (word : SingleWord op ins) (fetches : Fetches h p ins)
    (passed : instructionCheckCondition p ins = .passed) :
    TransferAt h p op.handler ins (op.address p ins) :=
  ⟨fetches, passed, word.handler, by rw [word.singleForm]; rfl⟩

theorem SingleOp.handler_single (op : SingleOp) : op.handler ≠ .armLoadStoreMultiple := by
  rw [SingleOp.handler]
  split <;> decide

def SingleOp.run (h : Platform) (junk : Word) (p : ArmCore) (rd : Reg) (address : Word) :
    SingleOp → ArmCore × ArmException
  | ⟨true, .word⟩ => ldr h junk p rd address
  | ⟨true, .byte⟩ => ldrb h junk p rd address
  | ⟨true, .half⟩ => ldrh h junk p rd address
  | ⟨false, .word⟩ => str h p rd address
  | ⟨false, .byte⟩ => strb h p rd address
  | ⟨false, .half⟩ => strh h p rd address

theorem SingleWord.loadStoreSwitch (word : SingleWord op ins) (notHalf : op.width ≠ .half)
    (junk : Word) (q : ArmCore) (rd : Reg) (address : Word) :
    loadStoreSwitch h junk q ins rd address = op.run h junk q rd address := by
  rw [loadStoreSwitch_forms word.form, word.load, (word.encoded.2 notHalf).2]
  obtain ⟨loads, width⟩ := op
  cases width with
  | half => exact absurd rfl notHalf
  | byte | word => cases loads <;> rfl

theorem SingleWord.miscellaneousSwitch (word : SingleWord op ins) (half : op.width = .half)
    (junk : Word) (q : ArmCore) (rd : Reg) (address : Word) :
    miscellaneousSwitch h junk q ins rd address = op.run h junk q rd address := by
  obtain ⟨_, bit6, bit5, _⟩ := word.bits7654 half
  have l := word.load
  rw [getBit_eq] at l
  rw [ArmSimulator.miscellaneousSwitch, codage3Bits_eq, l, bit6, bit5]
  obtain ⟨loads, width⟩ := op
  subst half
  cases loads <;> rfl

theorem SingleWord.execute (word : SingleWord op ins) (fetches : Fetches h p ins)
    (passed : instructionCheckCondition p ins = .passed) (junk : Word) :
    armExecuteInstruction h junk p = returning (op.run h junk (based (fetched p) ins)
      (getReg ins 15 12) (op.address p ins)) := by
  have executed := word.transferAt fetches passed
  by_cases half : op.width = .half
  · rw [SingleOp.handler, if_pos half] at executed
    rw [executed.run_miscellaneous, word.miscellaneousSwitch half]
  · rw [SingleOp.handler, if_neg half] at executed
    rw [executed.run_loadStore, word.loadStoreSwitch half]

end Decoding

section Effect

structure Addressed (op : SingleOp) (ins : Word) (p q : ArmCore) : Prop where
  base : Indexed ins → q.registersStorage (registers (armMode p) (getReg ins 19 16)) =
    op.indexedBase p ins
  pc : q.registersStorage 15 = fetchAddress p + 4#32
  others : ∀ k, k ≠ 15 → (Indexed ins → k ≠ registers (armMode p) (getReg ins 19 16)) →
    q.registersStorage k = p.registersStorage k
  rd : armReadRegister q (getReg ins 15 12) = operand p (getReg ins 15 12)
  cpsr : q.cpsr = p.cpsr
  spsr : q.spsr = p.spsr
  mem : q.mem = p.mem
  cycleCount : q.cycleCount = p.cycleCount + 1#32

variable {h : Platform} {junk : Word} {p q : ArmCore} {op : SingleOp} {ins : Word}

theorem SingleWord.addressed (word : SingleWord op ins) (p : ArmCore) :
    Addressed op ins p (based (fetched p) ins) := by
  have single : instructionGetHandler ins ≠ some .armLoadStoreMultiple := by
    rw [word.handler]
    exact fun same => op.handler_single (Option.some.inj same)
  have rn_pc : (15 : Fin 31) ≠ registers (armMode p) (getReg ins 19 16) :=
    (registers_ne_pc _ _ word.notPc).symm
  rw [based, if_neg single, word.singleForm, Option.map_some, Option.getD_some]
  by_cases indexed : Indexed ins
  · rw [if_pos indexed]
    constructor
    case base => exact fun _ => armWriteRegister_self (fetched p) _ _
    case pc => exact (armWriteRegister_storage_other (fetched p) _ _ _ rn_pc).trans fetched_pc
    case others =>
      intro k notPc notRn
      exact (armWriteRegister_storage_other (fetched p) _ _ _ (notRn indexed)).trans
        (fetched_storage notPc)
    case rd =>
      rw [armReadRegister_armWriteRegister_other _ _ _ _ (word.notRd indexed).symm,
        armReadRegister_fetched]
    all_goals rfl
  · rw [if_neg indexed]
    exact ⟨fun other => absurd other indexed, fetched_pc, fun _ notPc _ => fetched_storage notPc,
      armReadRegister_fetched p _, rfl, rfl, rfl, rfl⟩

theorem SingleOp.run_store (stores : op.loads = false) {rd : Reg} {address : Word}
    (inside : outside h q address op.width.bytes = false) :
    op.run h junk q rd address =
      ({ q with
        mem := q.mem.put h (op.width.order (getBit q.cpsr Psr.e)) address
          ((armReadRegister q rd).setWidth op.width.bits) }, .noException) := by
  obtain ⟨loads, width⟩ := op
  subst stores
  cases width with
  | byte =>
    rw [SingleOp.run, strb, armWriteByte_eq, setWidth_masked (by decide)]
    exact if_neg (Bool.eq_false_iff.mp inside)
  | half =>
    rw [SingleOp.run, strh, armWriteHalf_eq, setWidth_masked (by decide)]
    exact if_neg (Bool.eq_false_iff.mp inside)
  | word =>
    rw [SingleOp.run, str, armWriteWord_eq]
    simp only [Width.bits, BitVec.setWidth_eq]
    exact if_neg (Bool.eq_false_iff.mp inside)

theorem SingleOp.run_load (loads : op.loads = true) {address : Word}
    (inside : outside h q address op.width.bytes = false) {value : Word}
    (read : value = (q.mem.valueAt h (op.width.order (getBit q.cpsr Psr.e)) op.width.bits
      address).setWidth 32) :
    op.run h junk q (getReg ins 15 12) address =
      (if op.LoadsPc ins then
        armWriteRegister (updateFlagT q (some (getBit value 0))) (getReg ins 15 12)
          (value &&& 0xFFFFFFFE#32)
      else armWriteRegister q (getReg ins 15 12) value, .noException) := by
  obtain ⟨loads', width⟩ := op
  subst loads
  cases width with
  | byte =>
    have plain : ¬SingleOp.LoadsPc ⟨true, .byte⟩ ins := fun pc => by cases pc.2.1
    have accepted : outside h q address 1 = false := inside
    rw [SingleOp.run, ldrb, armReadByte_eq, accepted, if_neg plain, read]
    rfl
  | half =>
    have plain : ¬SingleOp.LoadsPc ⟨true, .half⟩ ins := fun pc => by cases pc.2.1
    have accepted : outside h q address 2 = false := inside
    rw [SingleOp.run, ldrh, armReadHalf_eq, accepted, if_neg plain, read]
    rfl
  | word =>
    have word : value = q.wordAt h address := by
      rw [read]
      simp only [Width.bits, BitVec.setWidth_eq]
      rfl
    have accepted : outside h q address 4 = false := inside
    rw [SingleOp.run, ldr, armReadWord_eq, accepted, if_neg Bool.false_ne_true, word]
    by_cases pc : getReg ins 15 12 = Reg.pc
    · have loadsPc : SingleOp.LoadsPc ⟨true, .word⟩ ins := ⟨rfl, rfl, pc⟩
      simp only [pc, loadsPc, if_true]
    · have plain : ¬SingleOp.LoadsPc ⟨true, .word⟩ ins := fun loadsPc => pc loadsPc.2.2
      simp only [pc, plain, if_true, if_false]

theorem Addressed.datum (addressed : Addressed op ins p q) (h : Platform) :
    op.datum p ins (swapped h (getBit p.cpsr Psr.e)) =
      (q.mem.valueAt h (op.width.order (getBit q.cpsr Psr.e)) op.width.bits
        (op.address p ins)).setWidth 32 := by
  apply BitVec.eq_of_toNat_eq
  rw [SingleOp.datum, BitVec.toNat_ofNat, BitVec.toNat_setWidth, valueAt_combine, addressed.mem,
    addressed.cpsr]
  rfl

theorem Addressed.store_effect (addressed : Addressed op ins p q) (stores : op.loads = false)
    (inside : outside h q (op.address p ins) op.width.bytes = false) :
    SingleEffect (swapped h (getBit p.cpsr Psr.e)) op ins p
      (returning (op.run h junk q (getReg ins 15 12) (op.address p ins))) := by
  have notLoads : op.loads ≠ true := Bool.eq_false_iff.mp stores
  rw [op.run_store stores inside]
  constructor
  case result => rfl
  case loaded => exact fun loads => absurd loads notLoads
  case base => exact addressed.base
  case pc => exact fun _ => addressed.pc
  case others => exact fun k notPc _ notRn => addressed.others k notPc notRn
  case cpsr =>
    intro i _
    rw [if_neg fun both => notLoads both.1.1]
    exact congrArg (BitVec.getLsbD · i) addressed.cpsr
  case spsr => exact addressed.spsr
  case mem =>
    rw [if_neg notLoads, SingleOp.low, ← addressed.rd, ← addressed.mem, ← addressed.cpsr]
    exact put_spell h q.mem op.width _ _ _
  case cycleCount => exact addressed.cycleCount

theorem Addressed.write_effect (word : SingleWord op ins) (addressed : Addressed op ins p q)
    (loads : op.loads = true) {be : Bool} {cpsr value : Word} (mode : cpsr.setWidth 5 = armMode p)
    (flag : ∀ i < 32, cpsr.getLsbD i =
      if op.LoadsPc ins ∧ i = Psr.t then (op.datum p ins be).getLsbD 0 else p.cpsr.getLsbD i)
    (datum : value = if op.LoadsPc ins then op.datum p ins be &&& 0xFFFFFFFE#32
      else op.datum p ins be) :
    SingleEffect be op ins p
      (armWriteRegister (armWriteCpsr q cpsr) (getReg ins 15 12) value,
      .returned .noException) := by
  have sameMode : armMode (armWriteCpsr q cpsr) = armMode p :=
    (armMode_armWriteCpsr q cpsr).trans mode
  have frame {k : Fin 31} (other : k ≠ registers (armMode p) (getReg ins 15 12)) :
      (armWriteRegister (armWriteCpsr q cpsr) (getReg ins 15 12) value).registersStorage k =
        q.registersStorage k := by
    rw [← sameMode] at other
    rw [armWriteRegister_storage_other _ _ _ _ other, armWriteCpsr_storage]
  constructor
  case result => rfl
  case loaded =>
    intro _
    rw [← sameMode, armWriteRegister_self, datum]
  case base =>
    intro indexed
    rw [frame fun same => word.notRd indexed (registers_inj _ _ _ same), addressed.base indexed]
  case pc =>
    intro notPc
    have other := registers_ne_pc (armMode p) _ fun isPc => notPc ⟨loads, isPc⟩
    rw [frame other.symm, addressed.pc]
  case others =>
    intro k notPc notRd notRn
    rw [frame (notRd loads), addressed.others k notPc notRn]
  case cpsr => exact flag
  case spsr => exact addressed.spsr
  case mem =>
    rw [if_pos loads]
    exact addressed.mem
  case cycleCount => exact addressed.cycleCount

theorem Addressed.load_effect (word : SingleWord op ins) (addressed : Addressed op ins p q)
    (loads : op.loads = true) (inside : outside h q (op.address p ins) op.width.bytes = false) :
    SingleEffect (swapped h (getBit p.cpsr Psr.e)) op ins p
      (returning (op.run h junk q (getReg ins 15 12) (op.address p ins))) := by
  have mode : armMode q = armMode p := armMode_congr addressed.cpsr
  rw [op.run_load loads inside (addressed.datum h)]
  by_cases loadsPc : op.LoadsPc ins
  · rw [if_pos loadsPc]
    refine addressed.write_effect word loads ?_ ?_ (if_pos loadsPc).symm
    · exact (armMode_eq _).symm.trans ((armMode_updateFlagT q _).trans mode)
    · intro i small
      rw [getLsbD_updateFlag _ _ _ _ small, armReadCpsr_eq, addressed.cpsr]
      simp only [loadsPc, true_and, Option.getD_some, getBit_eq, eq_comm]
  · rw [if_neg loadsPc]
    refine addressed.write_effect word loads ?_ ?_ (if_neg loadsPc).symm
    · exact (armMode_eq q).symm.trans mode
    · intro i _
      rw [if_neg fun both => loadsPc both.1]
      exact congrArg (BitVec.getLsbD · i) addressed.cpsr

theorem SingleWord.step_effect (word : SingleWord op ins) (fetches : Fetches h p ins)
    (passed : instructionCheckCondition p ins = .passed)
    (inside : (op.address p ins).toNat + op.width.bytes ≤ p.mem.size) (junk : Word) :
    SingleEffect (swapped h (getBit p.cpsr Psr.e)) op ins p (armStep h junk p) := by
  have addressed := word.addressed p
  have accepted : outside h (based (fetched p) ins) (op.address p ins) op.width.bytes = false := by
    rw [outside, addressed.mem]
    exact inBounds_of_inside h p.mem _ (width_small op.width).1 (width_small op.width).2 inside
  have effect : SingleEffect (swapped h (getBit p.cpsr Psr.e)) op ins p
      (armExecuteInstruction h junk p) := by
    rw [word.execute fetches passed]
    cases loads : op.loads with
    | true => exact addressed.load_effect word loads accepted
    | false => exact addressed.store_effect loads accepted
  have step : armStep h junk p = armExecuteInstruction h junk p := by
    rw [armStep, effect.result]
    rfl
  rw [step]
  exact effect

end Effect

section Order

variable {p : ArmCore} {op : SingleOp} {ins : Word} {be be' : Bool} {r : ArmCore × Outcome}

def SingleOp.movedBytes (op : SingleOp) (p : ArmCore) (ins : Word) : List Byte :=
  if op.loads then op.loadedBytes p ins else leBytes op.width.bytes (op.low p ins)

theorem SingleOp.datum_inj (same : op.datum p ins be = op.datum p ins be') :
    ordered be (op.loadedBytes p ins) = ordered be' (op.loadedBytes p ins) := by
  have number (b : Bool) : combine b (op.loadedBytes p ins) < 2 ^ 32 := by
    have value := leValue_lt (ordered b (op.loadedBytes p ins))
    have space : 256 ^ op.width.bytes ≤ 256 ^ 4 :=
      Nat.pow_le_pow_right (by decide) (width_small op.width).2
    rw [length_ordered, SingleOp.loadedBytes, length_load] at value
    rw [combine, SingleOp.loadedBytes]
    omega
  have values := congrArg BitVec.toNat same
  rw [SingleOp.datum, SingleOp.datum, BitVec.toNat_ofNat, BitVec.toNat_ofNat,
    Nat.mod_eq_of_lt (number be), Nat.mod_eq_of_lt (number be')] at values
  exact leValue_inj (by rw [length_ordered, length_ordered]) values

theorem eq_of_pc_and_flag {x y : Word} (pc : x &&& 0xFFFFFFFE#32 = y &&& 0xFFFFFFFE#32)
    (flag : x.getLsbD 0 = y.getLsbD 0) : x = y := by
  have mask : ∀ i < 32, (0xFFFFFFFE#32).getLsbD i = decide (i ≠ 0) := by decide
  apply BitVec.eq_of_getLsbD_eq
  intro i small
  by_cases zero : i = 0
  · rw [zero, flag]
  · have bit := congrArg (BitVec.getLsbD · i) pc
    simp only [BitVec.getLsbD_and, mask i small, zero, ne_eq, not_false_eq_true, decide_true,
      Bool.and_true] at bit
    exact bit

theorem SingleEffect.datum_eq (loads : op.loads = true) (effect : SingleEffect be op ins p r)
    (effect' : SingleEffect be' op ins p r) : op.datum p ins be = op.datum p ins be' := by
  have written := (effect.loaded loads).symm.trans (effect'.loaded loads)
  by_cases loadsPc : op.LoadsPc ins
  · rw [if_pos loadsPc, if_pos loadsPc] at written
    have flag := (effect.cpsr Psr.t (by decide)).symm.trans (effect'.cpsr Psr.t (by decide))
    rw [if_pos ⟨loadsPc, rfl⟩, if_pos ⟨loadsPc, rfl⟩] at flag
    exact eq_of_pc_and_flag written flag
  · rwa [if_neg loadsPc, if_neg loadsPc] at written

theorem SingleEffect.order_iff (effect : SingleEffect be op ins p r) :
    SingleEffect be' op ins p r ↔
      ordered be (op.movedBytes p ins) = ordered be' (op.movedBytes p ins) := by
  rw [SingleOp.movedBytes]
  cases loads : op.loads with
  | true =>
    rw [if_pos rfl]
    constructor
    · intro effect'
      exact SingleOp.datum_inj (effect.datum_eq loads effect')
    · intro same
      have datum : op.datum p ins be' = op.datum p ins be := by
        rw [SingleOp.datum, combine, ← same]
        rfl
      have mem := effect.mem
      rw [if_pos loads] at mem
      exact ⟨effect.result, datum ▸ effect.loaded, effect.base, effect.pc, effect.others,
        datum ▸ effect.cpsr, effect.spsr, mem.trans (if_pos loads).symm, effect.cycleCount⟩
  | false =>
    have notLoads : op.loads ≠ true := Bool.eq_false_iff.mp loads
    have notPc : ¬op.LoadsPc ins := fun loadsPc => notLoads loadsPc.1
    rw [if_neg Bool.false_ne_true]
    constructor
    · intro effect'
      have cells := congrArg Memory.address (effect.mem.symm.trans effect'.mem)
      rw [if_neg notLoads, if_neg notLoads] at cells
      have small := (width_small op.width).2
      exact store_inj (by rw [length_ordered, length_ordered])
        (by rw [length_ordered, length_leBytes]; omega) cells
    · intro same
      have cells : spell be op.width (op.low p ins) = spell be' op.width (op.low p ins) := same
      have cpsr := effect.cpsr
      have mem := effect.mem
      simp only [notPc, false_and, if_false] at cpsr
      rw [if_neg notLoads, cells] at mem
      refine ⟨effect.result, fun other => absurd other notLoads, effect.base, effect.pc,
        effect.others, ?_, effect.spsr, mem.trans (if_neg notLoads).symm, effect.cycleCount⟩
      simpa only [notPc, false_and, if_false] using cpsr

end Order

/-- Every single load and store is made as the architecture has it on a
little-endian host; on a big-endian host those are that move a byte, or bytes
that read the same from both ends. -/
theorem single_transfers_iff (h : Platform) (junk : Word) (p : ArmCore) (op : SingleOp) (ins : Word)
    (word : SingleWord op ins) (fetches : Fetches h p ins)
    (passed : instructionCheckCondition p ins = .passed)
    (inside : (op.address p ins).toNat + op.width.bytes ≤ p.mem.size) :
    SingleEffect (getBit p.cpsr Psr.e) op ins p (armStep h junk p) ↔
      h.isBigEndian = false ∨ (op.movedBytes p ins).reverse = op.movedBytes p ins := by
  rw [(word.step_effect fetches passed inside junk).order_iff, swapped]
  cases h.isBigEndian with
  | false => simp only [Bool.false_xor, true_or]
  | true => simp only [Bool.true_xor, ordered_reverse, Bool.true_eq_false, false_or]

theorem single_transfers_samples :
    SingleEffect false ⟨true, .word⟩ 0xE7B1F062#32 (sampleCore 0x10#32 0xE7B1F062#32)
      (armStep lp64 0#32 (sampleCore 0x10#32 0xE7B1F062#32)) ∧
    SingleEffect false ⟨true, .byte⟩ 0xE7510042#32 (sampleCore 0x10#32 0xE7510042#32)
      (armStep lp64 0#32 (sampleCore 0x10#32 0xE7510042#32)) ∧
    SingleEffect false ⟨false, .half⟩ 0xE0C100B4#32 (sampleCore 0x10#32 0xE0C100B4#32)
      (armStep lp64 0#32 (sampleCore 0x10#32 0xE0C100B4#32)) :=
  ⟨(single_transfers_iff lp64 0#32 (sampleCore 0x10#32 0xE7B1F062#32) ⟨true, .word⟩ _
      ⟨by decide, by decide, by decide, by decide, by decide⟩ ⟨by decide, by decide⟩ (by decide)
      (by decide)).mpr (.inl rfl),
    (single_transfers_iff lp64 0#32 (sampleCore 0x10#32 0xE7510042#32) ⟨true, .byte⟩ _
      ⟨by decide, by decide, by decide, by decide, by decide⟩ ⟨by decide, by decide⟩ (by decide)
      (by decide)).mpr (.inl rfl),
    (single_transfers_iff lp64 0#32 (sampleCore 0x10#32 0xE0C100B4#32) ⟨false, .half⟩ _
      ⟨by decide, by decide, by decide, by decide, by decide⟩ ⟨by decide, by decide⟩ (by decide)
      (by decide)).mpr (.inl rfl)⟩

theorem single_load_reversed :
    ¬∀ (h : Platform) (junk : Word) (p : ArmCore) (op : SingleOp) (ins : Word), SingleWord op ins →
      Fetches h p ins → instructionCheckCondition p ins = .passed →
      (op.address p ins).toNat + op.width.bytes ≤ p.mem.size →
      SingleEffect (getBit p.cpsr Psr.e) op ins p (armStep h junk p) := by
  intro claimed
  have effect := claimed (onHost lp64 true) 0#32
    { sampleCore 0x10#32 0#32 with mem := firstWord (onHost lp64 true) 0xE5910000#32 } ⟨true, .word⟩
    0xE5910000#32 ⟨by decide, by decide, by decide, by decide, by decide⟩
    (fetches_firstWord rfl rfl rfl) (by decide) (by decide)
  have loaded := effect.loaded rfl
  revert loaded
  decide +kernel

end ArmSimulator
