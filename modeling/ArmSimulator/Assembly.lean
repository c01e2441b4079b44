import ArmSimulator.BlockTransfer
import ArmSimulator.Branches
import ArmSimulator.Conditions
import ArmSimulator.SingleTransfers
import ArmSimulator.Library.StepFunction

/-! The machine an assembly programmer has in mind: sixteen registers, flags and
memory, with the architecture's meaning of the common instructions. The
simulator follows each of its steps, in every mode and whatever its
uninitialised locals hold. -/
namespace ArmSimulator
open ByteStore StepFunction

/-- What a program sees. Register 15 is the address of the next instruction. -/
structure View where
  regs : Reg → Word
  cpsr : Word
  mem : Memory

def ArmCore.view (p : ArmCore) : View where
  regs r := p.registersStorage (registers (armMode p) r)
  cpsr := p.cpsr
  mem := p.mem

namespace Memory

def read (m : Memory) (be : Bool) (width : Width) (a : Word) : Word :=
  BitVec.ofNat 32 (combine be (load m.address a width.bytes))

def write (m : Memory) (be : Bool) (width : Width) (a value : Word) : Memory :=
  { m with address := store m.address a (spell be width (value.setWidth width.bits)) }

end Memory

namespace View

variable (v : View) (ins : Word)

def pc : Word := v.regs Reg.pc

def operand (r : Reg) : Word := if r = Reg.pc then v.pc + 8#32 else v.regs r

def set (r : Reg) (value : Word) : View := { v with regs := Function.update v.regs r value }

def next : View := v.set Reg.pc (v.pc + 4#32)

def rd : Reg := getReg ins 15 12
def rn : Reg := getReg ins 19 16

def shifted : Word :=
  (shiftedByImm (v.operand (getReg ins 3 0)) (getBit v.cpsr Psr.c) (shiftType (getBits ins 6 5))
    (getBits ins 11 7).toNat).1

def operand2 : Word :=
  if getBits ins 27 25 = 1#32 then
    ((ins.setWidth 8).setWidth 32 : Word).rotateRight (2 * (getBits ins 11 8).toNat)
  else v.shifted ins

end View

def OpCode.function : OpCode → Option (Word → Word → Word)
  | .and => some fun a b => a &&& b
  | .eor => some fun a b => a ^^^ b
  | .sub => some fun a b => a - b
  | .rsb => some fun a b => b - a
  | .add => some fun a b => a + b
  | .orr => some fun a b => a ||| b
  | .mov => some fun _ b => b
  | .bic => some fun a b => a &&& ~~~b
  | .mvn => some fun _ b => ~~~b
  | _ => none

/-- An immediate, or a register with an immediate shift. The shifts by 32 are
left out. -/
def PlainOperand (ins : Word) : Prop :=
  instructionGetHandler ins = some .armDataProcessingImmediate ∨
    instructionGetHandler ins = some .armDataProcessingShift ∧ getBit ins 4 = false ∧
      ((getBits ins 11 7).toNat = 0 → getBits ins 6 5 ≠ 1#32 ∧ getBits ins 6 5 ≠ 2#32)

instance (ins : Word) : Decidable (PlainOperand ins) := inferInstanceAs (Decidable (_ ∨ _))

def comparedCpsr (cpsr a b : Word) : Word :=
  let cpsr := updateFlag cpsr Psr.n (a - b).msb
  let cpsr := updateFlag cpsr Psr.z (decide (a = b))
  let cpsr := updateFlag cpsr Psr.c (decide (b ≤ a))
  updateFlag cpsr Psr.v (decide ((a - b).toInt ≠ a.toInt - b.toInt))

namespace View

variable (be : Bool) (v : View) (ins : Word)

def compute : Option View :=
  if PlainOperand ins then
    let a := v.operand (rn ins)
    let b := v.operand2 ins
    if getS ins then
      if armGetDpHandler ins = .cmp then some { v.next with cpsr := comparedCpsr v.cpsr a b }
      else none
    else (armGetDpHandler ins).function.map fun f => v.next.set (rd ins) (f a b)
  else none

def branch : View :=
  (if getBit ins 24 then v.next.set Reg.lr (v.pc + 4#32) else v.next).set Reg.pc
    (branchTarget v.pc ins)

def transferWidth : Width := if getBit ins 22 then .byte else .word

/-- A word or byte transfer with a form, whose register is loaded once and by nobody else. -/
def PlainTransfer : Prop :=
  (getBits ins 27 25 = 2#32 ∨ getBits ins 27 25 = 3#32 ∧ getBit ins 4 = false) ∧ ¬NoForm ins ∧
    (getBit ins 20 = true → rd ins ≠ Reg.pc) ∧
    (Indexed ins → rn ins ≠ Reg.pc ∧ rn ins ≠ rd ins)

instance : Decidable (PlainTransfer ins) := inferInstanceAs (Decidable (_ ∧ _))

def offset : Word :=
  if getBits ins 27 25 = 3#32 then v.shifted ins else (ins.setWidth 12).setWidth 32

def indexedBase : Word :=
  if getBit ins 23 then v.operand (rn ins) + v.offset ins else v.operand (rn ins) - v.offset ins

def transferAddress : Word := if getBit ins 24 then v.indexedBase ins else v.operand (rn ins)

def transfer : Option View :=
  let width := transferWidth ins
  let a := v.transferAddress ins
  let based := if Indexed ins then v.next.set (rn ins) (v.indexedBase ins) else v.next
  if a.toNat + width.bytes ≤ v.mem.size then
    if getBit ins 20 then some (based.set (rd ins) (v.mem.read be width a))
    else some { based with mem := v.mem.write be width a (v.operand (rd ins)) }
  else none

/-- A block transfer without the user bit, of registers other than its base and the pc. -/
def PlainBlock : Prop :=
  getBits ins 27 25 = 4#32 ∧ getBit ins 22 = false ∧ getBit ins 15 = false ∧
    rn ins ≠ Reg.pc ∧ getBit ins (rn ins).toNat = false

instance : Decidable (PlainBlock ins) := inferInstanceAs (Decidable (_ ∧ _))

/-- The block lies above or below the base, with or without the word at the base. -/
def blockStart : Word :=
  let base := v.regs (rn ins)
  let low := if getBit ins 23 then base else base - BitVec.ofNat 32 (4 * blockCount ins)
  if getBit ins 24 = getBit ins 23 then low + 4#32 else low

def blockSlots : List (Reg × Word) := slots (blockList ins) registersTo15 (v.blockStart ins)

def blockBase : Word :=
  let base := v.regs (rn ins)
  let size := BitVec.ofNat 32 (4 * blockCount ins)
  if getBit ins 23 then base + size else base - size

def block : Option View :=
  let based := if getBit ins 21 then v.next.set (rn ins) (v.blockBase ins) else v.next
  if (v.blockStart ins).toNat + 4 * blockCount ins ≤ v.mem.size then
    if getBit ins 20 then
      some ((v.blockSlots ins).foldl (fun w s => w.set s.1 (v.mem.read be .word s.2)) based)
    else
      some { based with
        mem := (v.blockSlots ins).foldl (fun m s => m.write be .word s.2 (v.regs s.1)) v.mem }
  else none

def execute : Option View :=
  match conditionSwitch v.cpsr (getBits ins 31 28) with
  | .failed => some v.next
  | .undefined => none
  | .passed =>
    if getBits ins 27 25 = 5#32 then some (v.branch ins)
    else if PlainTransfer ins then v.transfer be ins
    else if PlainBlock ins then v.block be ins
    else v.compute ins

def step : Option View :=
  if v.pc.toNat % 4 = 0 ∧ v.pc.toNat + 4 ≤ v.mem.size then
    v.execute be (v.mem.read be .word v.pc)
  else none

end View

section Registers

variable (v : View) {r r' : Reg} (value : Word)

@[simp] theorem View.set_self : (v.set r value).regs r = value := Function.update_self ..

theorem View.set_other (other : r' ≠ r) : (v.set r value).regs r' = v.regs r' :=
  Function.update_of_ne other ..

@[simp] theorem View.set_mem : (v.set r value).mem = v.mem := rfl

end Registers

/-- From `p` to `q` the simulator made `n` steps, and what the view leaves out
but for the count of cycles is the same. -/
structure Aside (n : Nat) (p q : ArmCore) : Prop where
  mode : armMode q = armMode p
  spsr : q.spsr = p.spsr
  hidden : ∀ k, (∀ r, registers (armMode p) r ≠ k) → q.registersStorage k = p.registersStorage k
  cycleCount : q.cycleCount = p.cycleCount + BitVec.ofNat 32 n

namespace Aside

variable {m n : Nat} {p q r : ArmCore}

theorem refl (p : ArmCore) : Aside 0 p p := ⟨rfl, rfl, fun _ _ => rfl, (BitVec.add_zero _).symm⟩

theorem trans (pq : Aside m p q) (qr : Aside n q r) : Aside (m + n) p r where
  mode := qr.mode.trans pq.mode
  spsr := qr.spsr.trans pq.spsr
  hidden k apart := (qr.hidden k (pq.mode ▸ apart)).trans (pq.hidden k apart)
  cycleCount := by rw [qr.cycleCount, pq.cycleCount, BitVec.ofNat_add, BitVec.add_assoc]

theorem writeRegister (aside : Aside n p q) (reg : Reg) (value : Word) :
    Aside n p (armWriteRegister q reg value) where
  mode := aside.mode
  spsr := aside.spsr
  hidden k apart := by
    rw [armWriteRegister_storage_other _ _ _ _ (aside.mode ▸ (apart reg).symm),
      aside.hidden k apart]
  cycleCount := aside.cycleCount

theorem setMem (aside : Aside n p q) (mem : Memory) : Aside n p { q with mem := mem } :=
  ⟨aside.mode, aside.spsr, aside.hidden, aside.cycleCount⟩

theorem compare (aside : Aside n p q) (a b : Word) : Aside n p (DataProcessing.cmp q a b) :=
  ⟨(armMode_updateNzcv q _ _ _ _).trans aside.mode, aside.spsr, aside.hidden, aside.cycleCount⟩

theorem fetched (p : ArmCore) : Aside 1 p (fetched p) :=
  have counted : Aside 1 p { p with cycleCount := p.cycleCount + 1#32 } :=
    ⟨rfl, rfl, fun _ _ => rfl, rfl⟩
  counted.writeRegister Reg.pc _

end Aside

section Views

variable {p : ArmCore}

theorem view_armWriteRegister (p : ArmCore) (reg : Reg) (value : Word) :
    (armWriteRegister p reg value).view = p.view.set reg value := by
  have regs : (armWriteRegister p reg value).view.regs = (p.view.set reg value).regs := by
    funext r
    by_cases here : r = reg
    · subst here
      exact (armWriteRegister_self p r value).trans (p.view.set_self value).symm
    · refine (armWriteRegister_storage_other p reg value _ ?_).trans
        (p.view.set_other value here).symm
      exact fun same => here (registers_inj _ _ _ same)
  exact congrArg (fun regs => View.mk regs p.cpsr p.mem) regs

theorem view_pc (p : ArmCore) : p.view.pc = p.registersStorage 15 :=
  congrArg p.registersStorage (registers_pc _)

variable (aligned : p.view.pc.toNat % 4 = 0)
include aligned

theorem fetchAddress_view : fetchAddress p = p.view.pc := by
  rw [view_pc] at aligned ⊢
  exact fetchAddress_of_clear (by omega)

theorem view_fetched : (fetched p).view = p.view.next := by
  rw [fetched, view_armWriteRegister, fetchAddress_view aligned]
  rfl

theorem operand_view (r : Reg) : armReadRegister (fetched p) r = p.view.operand r := by
  rw [armReadRegister_fetched, operand, View.operand, fetchAddress_view aligned]
  rfl

theorem shifted_view (ins : Word) :
    (shiftedByImm (armReadRegister (fetched p) (getReg ins 3 0)) (armReadC (fetched p))
      (shiftType (getBits ins 6 5)) (getBits ins 11 7).toNat).1 = p.view.shifted ins := by
  rw [operand_view aligned]
  rfl

end Views

section Compute

theorem OpCode.run_function {op : OpCode} {f : Word → Word → Word} (plain : op.function = some f)
    (p : ArmCore) (rd : Reg) (a b : Word) (carry : Bool) :
    op.run p rd a b false carry = armWriteRegister p rd (f a b) := by
  have narrow (x : Word) : (x.setWidth 64).setWidth 32 = x := by
    rw [BitVec.setWidth_setWidth_of_le _ (by decide), BitVec.setWidth_eq]
  cases op with
  | adc | sbc | rsc | tst | teq | cmp | cmn => cases plain
  | and | eor | orr | mov | bic | mvn =>
    cases plain
    exact congrArg (armWriteRegister p rd) (narrow _)
  | sub =>
    cases plain
    exact congrArg (armWriteRegister p rd) (low_word_sub a b)
  | rsb =>
    cases plain
    exact congrArg (armWriteRegister p rd) (low_word_sub b a)
  | add =>
    cases plain
    exact congrArg (armWriteRegister p rd) (by bv_omega)

theorem ror_eq_rotateRight_small (value : Word) {n : Nat} (small : n < 32) :
    ror value n = value.rotateRight n := by
  by_cases zero : n = 0
  · subst zero
    have full : shiftCount (32 - (0 : Nat)) = 0 := rfl
    rw [ror, BitVec.rotateRight_def, full, shiftCount_eq_mod, Nat.zero_mod,
      BitVec.ushiftRight_zero, BitVec.shiftLeft_zero, BitVec.or_self,
      BitVec.shiftLeft_eq_zero (by decide), BitVec.or_zero]
  · exact ror_eq_rotateRight value (by omega)

theorem plainShift_eq {q : ArmCore} {ins : Word} (byImm : getBit ins 4 = false)
    (plain : (getBits ins 11 7).toNat = 0 → getBits ins 6 5 ≠ 1#32 ∧ getBits ins 6 5 ≠ 2#32) :
    getShifted q ins = shiftedByImm (armReadRegister q (getReg ins 3 0)) (armReadC q)
      (shiftType (getBits ins 6 5)) (getBits ins 11 7).toNat := by
  rw [getShifted_immediate q ins byImm]
  by_cases zero : (getBits ins 11 7).toNat = 0
  · rw [(shiftImm_byte_zero ins).mpr zero, zero, zero_imm_iff]
    obtain ⟨notLsr, notAsr⟩ := plain zero
    unfold shiftType
    split
    · trivial
    · contradiction
    · contradiction
    · trivial
  · have byte : (getBits ins 11 7).setWidth 8 ≠ 0#8 := mt (shiftImm_byte_zero ins).mp zero
    rw [shiftHelper_eq_reg q _ _ _ (fun _ => byte),
      ← shiftedByImm_eq_reg _ (armReadC q) _ zero (shiftImm_lt ins)]

theorem handler_class {ins : Word} :
    (instructionGetHandler ins = some .armDataProcessingImmediate → getBits ins 27 25 = 1#32) ∧
      (instructionGetHandler ins = some .armDataProcessingShift → getBits ins 27 25 = 0#32) := by
  unfold instructionGetHandler
  constructor
  · intro handler
    split at handler
    · split_ifs at handler <;> cases handler
    · assumption
    all_goals cases handler
  · intro handler
    split at handler
    · assumption
    · split_ifs at handler <;> cases handler
    all_goals cases handler

/-- One step of the simulator takes it to the view, whatever its locals held. -/
def StepsTo (h : Platform) (p : ArmCore) (v : View) : Prop :=
  ∃ q, (∀ junk, armStep h junk p = (q, .returned .noException)) ∧ q.view = v ∧ Aside 1 p q

variable {h : Platform} {p : ArmCore} {ins : Word} {v : View}

theorem operand2_view (aligned : p.view.pc.toNat % 4 = 0) (plain : PlainOperand ins) :
    (shifterOperand (fetched p) ins).1 = p.view.operand2 ins := by
  rcases plain with immediate | ⟨shift, byImm, counts⟩
  · have small := getBits_toNat_lt ins 11 8
    rw [shifterOperand, if_pos immediate, View.operand2, if_pos (handler_class.1 immediate),
      getImmediate, getBits_lowest, Nat.mul_comm, ror_eq_rotateRight_small _ (by omega)]
  · have notImmediate : instructionGetHandler ins ≠ some .armDataProcessingImmediate := by
      rw [shift]
      decide
    have register : getBits ins 27 25 ≠ 1#32 := by
      rw [handler_class.2 shift]
      decide
    rw [shifterOperand, if_neg notImmediate, View.operand2, if_neg register,
      plainShift_eq byImm counts, shifted_view aligned]

theorem compared_view (p : ArmCore) (a b : Word) :
    (DataProcessing.cmp p a b).view = { p.view with cpsr := comparedCpsr p.cpsr a b } := by
  have flags : (DataProcessing.cmp p a b).cpsr = comparedCpsr p.cpsr a b := by
    have zero : (a - b == 0#32) = decide (a = b) := by
      rw [beq_eq_decide]
      exact decide_eq_decide.mpr sub_eq_zero
    have overflow : (a.msb != b.msb && a.msb != (a - b).msb) =
        decide ((a - b).toInt ≠ a.toInt - b.toInt) :=
      Bool.eq_iff_iff.mpr ((overflow_iff a b).trans decide_eq_true_iff.symm)
    simp only [DataProcessing.cmp, DataProcessing.compareResult, updateNzcv, getBit_eq, bit31_sub,
      low_word_sub, zero, overflowFromSub_eq, overflow, armReadCpsr_eq, armWriteCpsr_cpsr,
      comparedCpsr]
  have mode : armMode (DataProcessing.cmp p a b) = armMode p := armMode_updateNzcv p _ _ _ _
  rw [ArmCore.view, flags, mode]
  rfl

theorem function_dpOp1 {f : Word → Word → Word} (aligned : p.view.pc.toNat % 4 = 0)
    (plain : (armGetDpHandler ins).function = some f) (b : Word) :
    f (dpOp1 (fetched p) ins) b = f (p.view.operand (View.rn ins)) b := by
  by_cases unary : armGetDpHandler ins = .mov ∨ armGetDpHandler ins = .mvn
  · rcases unary with mov | mvn
    · rw [mov] at plain
      cases plain
      rfl
    · rw [mvn] at plain
      cases plain
      rfl
  · rw [dpOp1, if_pos (not_or.mp unary), operand_view aligned]
    rfl

theorem compute_steps (aligned : p.view.pc.toNat % 4 = 0) (fetches : Fetches h p ins)
    (passed : instructionCheckCondition p ins = .passed) (computed : p.view.compute ins = some v) :
    StepsTo h p v := by
  unfold View.compute at computed
  split at computed
  · rename_i plain
    have dataProcessing : DataProcessingWord ins := plain.elim .inr fun shift => .inl shift.1
    have step := fun junk => armStep_dataProcessing junk dataProcessing fetches passed
    rw [operand2_view aligned plain] at step
    split at computed
    · split at computed
      · rename_i cmp
        cases computed
        rw [cmp, dpOp1, cmp, if_pos (by decide), operand_view aligned] at step
        refine ⟨_, step, ?_, (Aside.fetched p).compare _ _⟩
        rw [OpCode.run, compared_view, view_fetched aligned]
        rfl
      · contradiction
    · rename_i s
      obtain ⟨f, plain', rfl⟩ := Option.map_eq_some_iff.mp computed
      rw [Bool.eq_false_iff.mpr s] at step
      simp only [OpCode.run_function plain', function_dpOp1 aligned plain'] at step
      refine ⟨_, step, ?_, (Aside.fetched p).writeRegister _ _⟩
      rw [view_armWriteRegister, view_fetched aligned]
      rfl
  · contradiction

end Compute

section Transfers

variable {h : Platform} {p : ArmCore} {ins : Word} {v : View}

theorem branch_steps (aligned : p.view.pc.toNat % 4 = 0) (fetches : Fetches h p ins)
    (passed : instructionCheckCondition p ins = .passed) (branch : getBits ins 27 25 = 5#32) :
    StepsTo h p (p.view.branch ins) := by
  have step := fun junk => armStep_branch junk branch fetches passed
  have link := (Aside.fetched p).writeRegister Reg.lr (p.view.pc + 4#32)
  rw [armBranch_fetched, fetchAddress_view aligned] at step
  refine ⟨_, step, ?_, ?_⟩
  · rw [view_armWriteRegister, View.branch]
    split
    · rw [view_armWriteRegister, view_fetched aligned]
    · rw [view_fetched aligned]
  · split
    · exact link.writeRegister Reg.pc _
    · exact (Aside.fetched p).writeRegister Reg.pc _

def View.transferOp (ins : Word) : SingleOp := ⟨getBit ins 20, View.transferWidth ins⟩

theorem transferOp_run (form : ¬NoForm ins) (junk : Word) (q : ArmCore) (rd : Reg)
    (address : Word) :
    loadStoreSwitch h junk q ins rd address = (View.transferOp ins).run h junk q rd address := by
  rw [loadStoreSwitch_forms form, View.transferOp, View.transferWidth]
  cases getBit ins 20 <;> cases getBit ins 22 <;> rfl

theorem offset_view (aligned : p.view.pc.toNat % 4 = 0)
    (class_ : getBits ins 27 25 = 2#32 ∨ getBits ins 27 25 = 3#32 ∧ getBit ins 4 = false) :
    loadStoreOffset (fetched p) ins = p.view.offset ins := by
  have bit25 : getBit ins 25 = (getBits ins 27 25).getLsbD 0 := by
    rw [getBit_eq, getLsbD_getBits]
    rfl
  rw [loadStoreOffset, bit25, View.offset]
  rcases class_ with immediate | ⟨register, _⟩
  · rw [immediate, if_pos (by decide), if_neg (by decide), getBits_lowest]
  · rw [register, if_neg (by decide), if_pos rfl, scaledShift_eq_imm _ _ (shiftImm_lt ins),
      shifted_view aligned]

def basedCore (p : ArmCore) (ins : Word) : ArmCore :=
  if Indexed ins then armWriteRegister (fetched p) (View.rn ins) (p.view.indexedBase ins)
  else fetched p

theorem basedCore_view (aligned : p.view.pc.toNat % 4 = 0) : (basedCore p ins).view =
    if Indexed ins then p.view.next.set (View.rn ins) (p.view.indexedBase ins)
    else p.view.next := by
  unfold basedCore
  split
  · rw [view_armWriteRegister, view_fetched aligned]
  · rw [view_fetched aligned]

theorem basedCore_aside (p : ArmCore) (ins : Word) : Aside 1 p (basedCore p ins) := by
  unfold basedCore
  split
  · exact (Aside.fetched p).writeRegister _ _
  · exact .fetched p

theorem transfer_executed (aligned : p.view.pc.toNat % 4 = 0) (plain : View.PlainTransfer ins)
    (junk : Word) : armLoadStore h junk (fetched p) ins = (View.transferOp ins).run h junk
      (basedCore p ins) (View.rd ins) (p.view.transferAddress ins) := by
  obtain ⟨class_, form, _⟩ := plain
  rw [armLoadStore_eq, indexed_form form, offset_view aligned class_, operand_view aligned]
  exact transferOp_run form junk _ _ _

theorem basedCore_reads (aligned : p.view.pc.toNat % 4 = 0) (plain : View.PlainTransfer ins) :
    armReadRegister (basedCore p ins) (View.rd ins) = p.view.operand (View.rd ins) := by
  unfold basedCore
  split
  · rename_i indexed
    rw [armReadRegister_armWriteRegister_other _ _ _ _ (plain.2.2.2 indexed).2.symm,
      operand_view aligned]
  · exact operand_view aligned _

theorem basedCore_mem (p : ArmCore) (ins : Word) : (basedCore p ins).mem = p.mem := by
  unfold basedCore
  split <;> rfl

theorem basedCore_cpsr (p : ArmCore) (ins : Word) : (basedCore p ins).cpsr = p.cpsr := by
  unfold basedCore
  split <;> rfl

def ArmCore.order (p : ArmCore) (h : Platform) : Bool := swapped h (getBit p.cpsr Psr.e)

theorem read_eq_valueAt (width : Width) (a : Word) : p.mem.read (p.order h) width a =
    (p.mem.valueAt h (width.order (getBit p.cpsr Psr.e)) width.bits a).setWidth 32 := by
  apply BitVec.eq_of_toNat_eq
  rw [Memory.read, BitVec.toNat_ofNat, BitVec.toNat_setWidth, valueAt_combine]
  rfl

theorem read_eq_wordAt (a : Word) : p.mem.read (p.order h) .word a = p.wordAt h a := by
  rw [read_eq_valueAt]
  exact BitVec.setWidth_eq _

theorem transfer_bounds
    (inside : (p.view.transferAddress ins).toNat + (View.transferWidth ins).bytes ≤ p.mem.size) :
    outside h (basedCore p ins) (p.view.transferAddress ins)
      (View.transferOp ins).width.bytes = false := by
  have small := width_small (View.transferWidth ins)
  rw [outside, basedCore_mem]
  exact inBounds_of_inside h p.mem _ small.1 small.2 inside

section Executed

variable (aligned : p.view.pc.toNat % 4 = 0) (fetches : Fetches h p ins)
  (passed : instructionCheckCondition p ins = .passed) (plain : View.PlainTransfer ins)
include aligned fetches passed plain

theorem transfer_handled (junk : Word) {q : ArmCore}
    (ran : (View.transferOp ins).run h junk (basedCore p ins) (View.rd ins)
      (p.view.transferAddress ins) = (q, .noException)) :
    armStep h junk p = (q, .returned .noException) := by
  have handler : instructionGetHandler ins = some .armLoadStore := by
    rcases plain.1 with immediate | ⟨register, _⟩
    · simp only [instructionGetHandler, immediate]
    · simp only [instructionGetHandler, register]
  refine armStep_handled fetches passed handler ?_
  rw [Handler.run, transfer_executed aligned plain, ran]
  rfl

variable
  (inside : (p.view.transferAddress ins).toNat + (View.transferWidth ins).bytes ≤ p.mem.size)
include inside

theorem load_step (junk : Word) (loads : getBit ins 20 = true) :
    armStep h junk p = (armWriteRegister (basedCore p ins) (View.rd ins)
      (p.mem.read (p.order h) (View.transferWidth ins) (p.view.transferAddress ins)),
      .returned .noException) := by
  have notPc : ¬(View.transferOp ins).LoadsPc ins := fun pc => plain.2.2.1 loads pc.2.2
  have datum := read_eq_valueAt (h := h) (p := p) (View.transferWidth ins)
    (p.view.transferAddress ins)
  rw [← basedCore_cpsr p ins, ← basedCore_mem p ins] at datum
  apply transfer_handled aligned fetches passed plain
  rw [← basedCore_mem p ins]
  refine ((View.transferOp ins).run_load loads
    (transfer_bounds inside) datum).trans ?_
  exact congrArg (·, ArmException.noException) (if_neg notPc)

theorem store_step (junk : Word) (stores : getBit ins 20 = false) :
    armStep h junk p = ({ basedCore p ins with
      mem := p.mem.write (p.order h) (View.transferWidth ins) (p.view.transferAddress ins)
        (p.view.operand (View.rd ins)) }, .returned .noException) := by
  have stored (x : Word) :
      (basedCore p ins).mem.put h ((View.transferWidth ins).order
          (getBit (basedCore p ins).cpsr Psr.e)) (p.view.transferAddress ins)
          (x.setWidth (View.transferWidth ins).bits) =
        p.mem.write (p.order h) (View.transferWidth ins) (p.view.transferAddress ins) x := by
    rw [basedCore_cpsr, basedCore_mem]
    exact put_spell h p.mem (View.transferWidth ins) _ _ _
  apply transfer_handled aligned fetches passed plain
  refine ((View.transferOp ins).run_store stores (transfer_bounds inside)).trans ?_
  rw [basedCore_reads aligned plain]
  exact congrArg (fun mem => ({ basedCore p ins with mem := mem }, ArmException.noException))
    (stored _)

end Executed

theorem transfer_steps (aligned : p.view.pc.toNat % 4 = 0) (fetches : Fetches h p ins)
    (passed : instructionCheckCondition p ins = .passed) (plain : View.PlainTransfer ins)
    (transferred : p.view.transfer (p.order h) ins = some v) : StepsTo h p v := by
  have view : (basedCore p ins).view = if Indexed ins then
      p.view.next.set (View.rn ins) (p.view.indexedBase ins) else p.view.next :=
    basedCore_view aligned
  have aside := basedCore_aside p ins
  simp only [View.transfer] at transferred
  split at transferred
  · rename_i inside
    split at transferred
    · rename_i loads
      cases transferred
      refine ⟨_, fun junk => load_step aligned fetches passed plain inside junk loads, ?_,
        aside.writeRegister _ _⟩
      rw [view_armWriteRegister, view]
      rfl
    · rename_i stores
      cases transferred
      refine ⟨_, fun junk => store_step aligned fetches passed plain inside junk
        (Bool.eq_false_iff.mpr stores), ?_, aside.setMem _⟩
      rw [← view]
      rfl
  · contradiction

end Transfers

section Blocks

variable {h : Platform} {p : ArmCore} {ins : Word} {v : View}

theorem view_loadSlots (words : Word → Word) (done : List (Reg × Word)) (q : ArmCore) :
    (loadSlots (registers (armMode q)) words q done).view =
      done.foldl (fun w s => w.set s.1 (words s.2)) q.view := by
  induction done generalizing q with
  | nil => rfl
  | cons s done ih =>
    have step := ih (armWriteRegister q s.1 (words s.2))
    rw [view_armWriteRegister] at step
    exact step

theorem aside_loadSlots {n : Nat} (words : Word → Word) (done : List (Reg × Word)) {q : ArmCore}
    (aside : Aside n p q) : Aside n p (loadSlots (registers (armMode q)) words q done) := by
  induction done generalizing q with
  | nil => exact aside
  | cons s done ih => exact ih (aside.writeRegister s.1 (words s.2))

theorem storeSlots_mem (h : Platform) {value value' : Reg → Word} {q : ArmCore}
    (done : List (Reg × Word)) (same : ∀ s ∈ done, value s.1 = value' s.1) :
    (storeSlots h value q done).mem =
      done.foldl (fun m s => m.write (q.order h) .word s.2 (value' s.1)) q.mem := by
  have pairs : done.map (fun s => (s.2, value s.1)) = done.map fun s => (s.2, value' s.1) :=
    List.map_congr_left fun s inside => by rw [same s inside]
  have put (m : Memory) (a x : Word) :
      m.put h (getBit q.cpsr Psr.e) a x = m.write (q.order h) .word a x := by
    rw [Memory.write, show x.setWidth Width.word.bits = x from BitVec.setWidth_eq x]
    exact put_spell h m .word (getBit q.cpsr Psr.e) a x
  simp only [storeSlots, pairs, KeyedStore.writeAll, List.foldl_map, put]

section Executed

variable (aligned : p.view.pc.toNat % 4 = 0) (plain : View.PlainBlock ins)
include aligned plain

theorem blockRn_view : armReadRegister (fetched p) (blockRn ins) = p.view.regs (View.rn ins) := by
  obtain ⟨_, _, _, notPc, _⟩ := plain
  rw [operand_view aligned]
  exact if_neg notPc

theorem blockStart_view : blockStart (fetched p) ins = p.view.blockStart ins := by
  rw [blockStart, blockRn_view aligned plain, blockBounds, View.blockStart, Nat.mul_comm]
  cases getBit ins 23 <;> cases getBit ins 24 <;> rfl

theorem blockSlots_view : blockSlots (fetched p) ins = p.view.blockSlots ins := by
  rw [blockSlots, blockStart_view aligned plain]
  rfl

theorem writtenBack_view : (writtenBack (fetched p) ins).view =
    if getBit ins 21 then p.view.next.set (View.rn ins) (p.view.blockBase ins)
    else p.view.next := by
  rw [writtenBack, blockRn_view aligned plain, blockBase, Nat.mul_comm]
  split
  · rw [view_armWriteRegister, view_fetched aligned]
    rfl
  · exact view_fetched aligned

omit aligned plain in
theorem writtenBack_aside (p : ArmCore) (ins : Word) : Aside 1 p (writtenBack (fetched p) ins) := by
  unfold writtenBack
  split
  · exact (Aside.fetched p).writeRegister _ _
  · exact .fetched p

theorem writtenBack_reads {r : Reg} (listed : getBit ins r.toNat = true) :
    armReadRegister (writtenBack (fetched p) ins) r = p.view.regs r := by
  obtain ⟨_, _, withoutPc, _, withoutRn⟩ := plain
  have notPc : r ≠ Reg.pc := by
    rintro rfl
    exact Bool.false_ne_true (withoutPc.symm.trans listed)
  have notRn : r ≠ blockRn ins := by
    rintro rfl
    exact Bool.false_ne_true (withoutRn.symm.trans listed)
  have kept : armReadRegister (fetched p) r = p.view.regs r :=
    (operand_view aligned r).trans (if_neg notPc)
  unfold writtenBack
  split
  · rw [armReadRegister_armWriteRegister_other _ _ _ _ notRn, kept]
  · exact kept

theorem block_fits
    (inside : (p.view.blockStart ins).toNat + 4 * blockCount ins ≤ p.mem.size) :
    ∀ s ∈ blockSlots (fetched p) ins,
      outOfBounds h (writtenBack (fetched p) ins).mem s.2 4 = false := by
  intro s listed
  obtain ⟨k, small, address⟩ := blockSlots_address (fetched p) ins listed
  rw [blockStart_view aligned plain] at address
  have mem : (writtenBack (fetched p) ins).mem = p.mem := writtenBack_mem _ _
  rw [mem]
  apply inBounds_of_inside h p.mem s.2 (by decide) (by decide)
  have reduced := Nat.mod_le ((p.view.blockStart ins).toNat + 4 * k % 2 ^ 32) (2 ^ 32)
  have reduced' := Nat.mod_le (4 * k) (2 ^ 32)
  rw [address, BitVec.toNat_add, BitVec.toNat_ofNat]
  omega

omit aligned in
theorem block_executed (junk : Word) : armLoadStoreMultiple h junk (fetched p) ins =
    if getBit ins 20 then
      endTransfer (loadLoop h armWriteRegister (blockList ins) registersTo14
        (writtenBack (fetched p) ins) (blockStart (fetched p) ins) junk) (blockEnd (fetched p) ins)
    else
      endTransfer (storeLoop h armReadRegister (blockList ins) registersTo15
        (writtenBack (fetched p) ins) (blockStart (fetched p) ins) junk)
        (blockEnd (fetched p) ins) := by
  obtain ⟨_, withoutUser, withoutPc, _⟩ := plain
  have unlisted : getBit (blockList ins) 15 = false := by
    rw [getBit_blockList ins (by decide), withoutPc]
  have noPc (t : Transfer) : ldm1Pc h (blockList ins) t = t := by
    rw [ldm1Pc, unlisted]
    exact if_neg fun both => Bool.false_ne_true both.2
  rw [armLoadStoreMultiple_eq, multipleSwitch_eq, withoutUser, if_neg Bool.false_ne_true, ldm1,
    noPc, stm1]

theorem block_load_step (fetches : Fetches h p ins)
    (passed : instructionCheckCondition p ins = .passed) (loads : getBit ins 20 = true)
    (inside : (p.view.blockStart ins).toNat + 4 * blockCount ins ≤ p.mem.size) (junk : Word) :
    armStep h junk p =
      (loadSlots (registers (armMode (writtenBack (fetched p) ins))) (p.mem.read (p.order h) .word)
        (writtenBack (fetched p) ins) (p.view.blockSlots ins), .returned .noException) := by
  have handler : instructionGetHandler ins = some .armLoadStoreMultiple := by
    simp only [instructionGetHandler, plain.1]
  have words : (writtenBack (fetched p) ins).wordAt h = p.mem.read (p.order h) .word := by
    funext a
    rw [read_eq_wordAt]
    exact wordAt_congr h p a (writtenBack_mem _ _) (by rw [writtenBack_cpsr]; rfl)
  rw [← words, ← blockSlots_view aligned plain]
  refine armStep_handled fetches passed handler ?_
  rw [Handler.run, block_executed plain, if_pos loads]
  refine loadBlock (fun r i value same => ?_) plain.2.2.1 (block_fits aligned plain inside)
  exact congrArg (fun mode => writeStorage r (registers mode i) value) (armMode_congr same)

theorem block_store_step (fetches : Fetches h p ins)
    (passed : instructionCheckCondition p ins = .passed) (stores : getBit ins 20 = false)
    (inside : (p.view.blockStart ins).toNat + 4 * blockCount ins ≤ p.mem.size) (junk : Word) :
    armStep h junk p = ({ writtenBack (fetched p) ins with
      mem := (p.view.blockSlots ins).foldl
        (fun m s => m.write (p.order h) .word s.2 (p.view.regs s.1)) p.mem },
      .returned .noException) := by
  have handler : instructionGetHandler ins = some .armLoadStoreMultiple := by
    simp only [instructionGetHandler, plain.1]
  have order : (writtenBack (fetched p) ins).order h = p.order h := by
    rw [ArmCore.order, writtenBack_cpsr]
    rfl
  have cells := storeSlots_mem h (q := writtenBack (fetched p) ins) (blockSlots (fetched p) ins)
    fun s inside => writtenBack_reads aligned plain (blockSlots_listed _ _ inside)
  have mem : (writtenBack (fetched p) ins).mem = p.mem := writtenBack_mem _ _
  rw [order, mem, blockSlots_view aligned plain] at cells
  rw [← cells, ← blockSlots_view aligned plain]
  refine armStep_handled fetches passed handler ?_
  rw [Handler.run, block_executed plain, if_neg (Bool.eq_false_iff.mp stores)]
  exact storeBlock (fun mem i => rfl) (block_fits aligned plain inside)

theorem block_steps (fetches : Fetches h p ins)
    (passed : instructionCheckCondition p ins = .passed)
    (transferred : p.view.block (p.order h) ins = some v) : StepsTo h p v := by
  have view := writtenBack_view aligned plain
  have aside := writtenBack_aside p ins
  simp only [View.block] at transferred
  split at transferred
  · rename_i inside
    split at transferred
    · rename_i loads
      cases transferred
      refine ⟨_, block_load_step aligned plain fetches passed loads inside, ?_,
        aside_loadSlots _ _ aside⟩
      rw [view_loadSlots, view]
      rfl
    · rename_i stores
      cases transferred
      refine ⟨_, block_store_step aligned plain fetches passed
        (Bool.eq_false_iff.mpr stores) inside, ?_, aside.setMem _⟩
      rw [← view]
      rfl
  · contradiction

end Executed

end Blocks

section Kept

variable {be : Bool} {v w : View} {ins : Word}

structure View.Kept (v w : View) : Prop where
  cpsr : ∀ i < 28, w.cpsr.getLsbD i = v.cpsr.getLsbD i
  size : w.mem.size = v.mem.size

theorem View.Kept.of_eq (cpsr : w.cpsr = v.cpsr) (size : w.mem.size = v.mem.size) : v.Kept w :=
  ⟨fun i _ => congrArg (BitVec.getLsbD · i) cpsr, size⟩

theorem View.Kept.trans {u : View} (uv : u.Kept v) (vw : v.Kept w) : u.Kept w :=
  ⟨fun i low => (vw.cpsr i low).trans (uv.cpsr i low), vw.size.trans uv.size⟩

theorem View.kept_set (v : View) (r : Reg) (value : Word) : v.Kept (v.set r value) :=
  .of_eq rfl rfl

theorem comparedCpsr_low (cpsr a b : Word) {i : Nat} (low : i < 28) :
    (comparedCpsr cpsr a b).getLsbD i = cpsr.getLsbD i := by
  have small : i < 32 := by omega
  simp only [comparedCpsr, getLsbD_updateFlag _ _ _ _ small]
  rw [if_neg (by simp only [Psr.v]; omega), if_neg (by simp only [Psr.c]; omega),
    if_neg (by simp only [Psr.z]; omega), if_neg (by simp only [Psr.n]; omega)]

theorem set_foldl_kept (words : Reg × Word → Word) (l : List (Reg × Word)) (v : View) :
    v.Kept (l.foldl (fun w s => w.set s.1 (words s)) v) := by
  induction l generalizing v with
  | nil => exact .of_eq rfl rfl
  | cons s l ih => exact (v.kept_set s.1 (words s)).trans (ih _)

theorem write_foldl_size (be : Bool) (words : Reg × Word → Word) (l : List (Reg × Word))
    (m : Memory) : (l.foldl (fun m s => m.write be .word s.2 (words s)) m).size = m.size := by
  induction l generalizing m with
  | nil => rfl
  | cons s l ih => exact ih (m.write be .word s.2 (words s))

theorem execute_kept (executed : v.execute be ins = some w) : v.Kept w := by
  unfold View.execute at executed
  split at executed
  · cases executed
    exact .of_eq rfl rfl
  · contradiction
  · split_ifs at executed
    · cases executed
      unfold View.branch
      split <;> exact .of_eq rfl rfl
    · simp only [View.transfer] at executed
      split_ifs at executed <;> cases executed <;> exact .of_eq rfl rfl
    · simp only [View.block] at executed
      have next := v.kept_set Reg.pc (v.pc + 4#32)
      split_ifs at executed
      · cases executed
        exact (next.trans (View.kept_set _ _ _)).trans
          (set_foldl_kept (fun s => v.mem.read be .word s.2) _ _)
      · cases executed
        exact next.trans (set_foldl_kept (fun s => v.mem.read be .word s.2) _ _)
      · cases executed
        exact .of_eq rfl (write_foldl_size _ _ _ _)
      · cases executed
        exact .of_eq rfl (write_foldl_size _ _ _ _)
    · unfold View.compute at executed
      split_ifs at executed
      · cases executed
        exact ⟨fun i low => comparedCpsr_low _ _ _ low, rfl⟩
      · obtain ⟨f, _, rfl⟩ := Option.map_eq_some_iff.mp executed
        exact .of_eq rfl rfl

theorem step_kept (taken : v.step be = some w) : v.Kept w := by
  unfold View.step at taken
  split at taken
  · exact execute_kept taken
  · contradiction

theorem runs_kept {n : Nat} (run : runs (View.step be) n v = some w) : v.Kept w := by
  have keeps : ∀ s t, View.step be s = some t → v.Kept s → v.Kept t := fun _ _ taken kept =>
    kept.trans (step_kept taken)
  exact runs_invariant keeps (.of_eq rfl rfl) run

variable {p q : ArmCore} (kept : p.view.Kept q.view)
include kept

theorem View.Kept.bit {i : Nat} (low : i < 28) : getBit q.cpsr i = getBit p.cpsr i := by
  rw [getBit_eq, getBit_eq]
  exact kept.cpsr i low

theorem View.Kept.order (h : Platform) : q.order h = p.order h :=
  congrArg (swapped h) (kept.bit (by decide))

theorem View.Kept.mode : armMode q = armMode p := by
  rw [armMode_eq, armMode_eq]
  apply BitVec.eq_of_getLsbD_eq
  intro i small
  rw [BitVec.getLsbD_setWidth, BitVec.getLsbD_setWidth]
  exact congrArg _ (kept.cpsr i (by omega))

end Kept

section Refinement

variable {h : Platform} {p : ArmCore} {v : View}

theorem execute_steps {ins : Word} (aligned : p.view.pc.toNat % 4 = 0) (fetches : Fetches h p ins)
    (executed : p.view.execute (p.order h) ins = some v) : StepsTo h p v := by
  have condition : conditionSwitch p.view.cpsr (getBits ins 31 28) =
    instructionCheckCondition p ins := rfl
  unfold View.execute at executed
  rw [condition] at executed
  split at executed
  · rename_i failed
    cases executed
    have failed' : instructionCheckCondition (fetched p) ins = .failed := failed
    refine ⟨fetched p, fun junk => ?_, view_fetched aligned, .fetched p⟩
    rw [armStep, armExecuteInstruction_fetches fetches, executeFetched, failed']
    rfl
  · contradiction
  · rename_i passed
    split_ifs at executed with branch transfer block
    · cases executed
      exact branch_steps aligned fetches passed branch
    · exact transfer_steps aligned fetches passed transfer executed
    · exact block_steps aligned block fetches passed executed
    · exact compute_steps aligned fetches passed executed

theorem fetches_word (aligned : p.view.pc.toNat % 4 = 0)
    (inside : p.view.pc.toNat + 4 ≤ p.mem.size) :
    Fetches h p (p.mem.read (p.order h) .word p.view.pc) := by
  have address := fetchAddress_view aligned
  constructor
  · rw [address]
    exact inBounds_of_inside h p.mem _ (by decide) (by decide) inside
  · rw [address, ← read_eq_wordAt]

theorem step_steps (taken : p.view.step (p.order h) = some v) : StepsTo h p v := by
  unfold View.step at taken
  split at taken
  · rename_i fetchable
    exact execute_steps fetchable.1 (fetches_word fetchable.1 fetchable.2) taken
  · contradiction

theorem runs_follow {n : Nat} (run : runs (View.step (p.order h)) n p.view = some v) :
    ∃ q, (∀ junks : List Word, junks.length = n → normalRun h junks p = some q) ∧ q.view = v ∧
      Aside n p q := by
  induction n generalizing p with
  | zero =>
    refine ⟨p, fun junks none => ?_, Option.some.inj run, .refl p⟩
    rw [List.eq_nil_of_length_eq_zero none]
    rfl
  | succ n ih =>
    obtain ⟨w, taken, rest⟩ := Option.bind_eq_some_iff.mp run
    obtain ⟨q, step, view, aside⟩ := step_steps taken
    have kept := step_kept taken
    rw [← view] at kept
    rw [← view, ← kept.order h] at rest
    obtain ⟨r, follows, view', aside'⟩ := ih rest
    refine ⟨r, fun junks length => ?_, view', Nat.add_comm 1 n ▸ aside.trans aside'⟩
    cases junks with
    | nil => cases length
    | cons junk junks =>
      rw [normalRun_cons junks (step junk)]
      exact follows junks (Nat.succ.inj length)

theorem leads_follow {Q : View → Prop} (leads : Leads (View.step (p.order h)) Q p.view) :
    ∃ n q, (∀ junks : List Word, junks.length = n → normalRun h junks p = some q) ∧ Q q.view ∧
      Aside n p q := by
  obtain ⟨n, v, run, holds⟩ := leads
  obtain ⟨q, follows, rfl, aside⟩ := runs_follow run
  exact ⟨n, q, follows, holds, aside⟩

/-- Every run of the machine is a run of the simulator of as many steps, and the
only one: what the uninitialised locals hold does not matter, and beside what
the machine shows the simulator changes the count of cycles only. -/
theorem assembly_refined (h : Platform) (p : ArmCore) (v : View) (junks : List Word)
    (run : runs (View.step (p.order h)) junks.length p.view = some v) :
    ∃ q, normalRun h junks p = some q ∧ q.view = v ∧ Aside junks.length p q ∧
      ∀ junks' : List Word, junks'.length = junks.length →
        normalRun h junks' p = normalRun h junks p := by
  obtain ⟨q, follows, view, aside⟩ := runs_follow run
  refine ⟨q, follows junks rfl, view, aside, fun junks' length => ?_⟩
  rw [follows junks' length, follows junks rfl]

theorem assembly_refined_add : ∃ q, normalRun lp64 [7, 8] (sampleCore 0x10 0xE2800001) = some q ∧
    q.registersStorage 0 = 2#32 := by
  have twice : (runs (View.step ((sampleCore 0x10 0xE2800001).order lp64)) 2
      (sampleCore 0x10 0xE2800001).view).map (fun v => v.regs 0) = some 2#32 := by
    decide +kernel
  obtain ⟨v, run, value⟩ := Option.map_eq_some_iff.mp twice
  obtain ⟨q, follows, view, aside, _⟩ :=
    assembly_refined lp64 (sampleCore 0x10 0xE2800001) v [7, 8] run
  have mode : armMode q = Mode.usr := aside.mode.trans (by decide)
  refine ⟨q, follows, ?_⟩
  rw [← value, ← view, ArmCore.view, mode]
  rfl

end Refinement

end ArmSimulator
