import ArmSimulator.UserMode

/-! What an instruction can read: the registers of its mode and of user mode,
the SPSR of its mode, the CPSR and the memory. Two states that agree there run
alike, whatever the rest holds. -/
namespace ArmSimulator

structure Agree (regs : Set (Fin 31)) (modes : Set Mode) (p q : ArmCore) : Prop where
  cpsr : q.cpsr = p.cpsr
  mem : q.mem = p.mem
  storage : ∀ k ∈ regs, q.registersStorage k = p.registersStorage k
  spsr : ∀ mode ∈ modes, q.spsr mode = p.spsr mode

/-- The places cover what an instruction of `mode` can read. -/
structure Covers (regs : Set (Fin 31)) (modes : Set Mode) (mode : Mode) : Prop where
  current : ∀ reg, registers mode reg ∈ regs
  usr : ∀ reg, usrStorage reg ∈ regs
  spsr : mode ∈ modes

structure Alike {α : Type} (regs : Set (Fin 31)) (modes : Set Mode) (r r' : ArmCore × α) :
    Prop where
  core : Agree regs modes r.1 r'.1
  result : r'.2 = r.2

variable {regs : Set (Fin 31)} {modes : Set Mode} {p q : ArmCore}

namespace Agree

variable (same : Agree regs modes p q)
include same

theorem mode : armMode q = armMode p := armMode_congr same.cpsr

theorem flag (i : Nat) : getBit q.cpsr i = getBit p.cpsr i := by rw [same.cpsr]

theorem carry : armReadC q = armReadC p := same.flag Psr.c

theorem hasSpsr : armCurrentModeHasSpsr q = armCurrentModeHasSpsr p := by
  rw [armCurrentModeHasSpsr, armCurrentModeHasSpsr, same.mode]

theorem read (covers : Covers regs modes (armMode p)) (reg : Reg) :
    armReadRegister q reg = armReadRegister p reg := by
  rw [armReadRegister, armReadRegister, same.mode, same.storage _ (covers.current reg)]

theorem readUsr (covers : Covers regs modes (armMode p)) (reg : Reg) :
    armReadUsrRegister q reg = armReadUsrRegister p reg := by
  rw [armReadUsrRegister, armReadUsrRegister, same.storage _ (covers.usr reg)]

theorem readSpsr (covers : Covers regs modes (armMode p)) : armReadSpsr q = armReadSpsr p := by
  rw [armReadSpsr, armReadSpsr, same.mode, same.spsr _ covers.spsr]

theorem readByte (h : Platform) (address : Word) (value : Byte) :
    armReadByte h q address value = armReadByte h p address value := by
  rw [armReadByte, armReadByte, same.mem]

theorem readHalf (h : Platform) (address : Word) (value : Half) :
    armReadHalf h q address value = armReadHalf h p address value := by
  rw [armReadHalf, armReadHalf, same.mem, same.cpsr]

theorem readWord (h : Platform) (address value : Word) :
    armReadWord h q address value = armReadWord h p address value := by
  rw [armReadWord, armReadWord, same.mem, same.cpsr]

theorem setMem (mem : Memory) : Agree regs modes { p with mem := mem } { q with mem := mem } :=
  ⟨same.cpsr, rfl, same.storage, same.spsr⟩

theorem setCycleCount (m n : Word) :
    Agree regs modes { p with cycleCount := m } { q with cycleCount := n } :=
  ⟨same.cpsr, same.mem, same.storage, same.spsr⟩

theorem writeStorage (k : Fin 31) (value : Word) :
    Agree regs modes (writeStorage p k value) (writeStorage q k value) := by
  refine ⟨same.cpsr, same.mem, fun j inside => ?_, same.spsr⟩
  by_cases here : j = k
  · rw [here, writeStorage_self, writeStorage_self]
  · rw [writeStorage_other p value _ _ here, writeStorage_other q value _ _ here,
      same.storage j inside]

theorem writeRegister (reg : Reg) (value : Word) :
    Agree regs modes (armWriteRegister p reg value) (armWriteRegister q reg value) := by
  rw [armWriteRegister, armWriteRegister, same.mode]
  exact same.writeStorage _ value

theorem writeUsrRegister (reg : Reg) (value : Word) :
    Agree regs modes (armWriteUsrRegister p reg value) (armWriteUsrRegister q reg value) :=
  same.writeStorage _ value

theorem writeCpsr (value : Word) :
    Agree regs modes (armWriteCpsr p value) (armWriteCpsr q value) :=
  ⟨rfl, same.mem, same.storage, same.spsr⟩

theorem writeSpsr (value : Word) :
    Agree regs modes (armWriteSpsr p value) (armWriteSpsr q value) := by
  refine ⟨same.cpsr, same.mem, same.storage, fun mode inside => ?_⟩
  simp only [armWriteSpsr, same.mode]
  by_cases here : mode = armMode p
  · rw [here, Function.update_self, Function.update_self]
  · rw [Function.update_of_ne here, Function.update_of_ne here, same.spsr mode inside]

theorem nzcv (n z c v : Option Bool) :
    Agree regs modes (updateNzcv p n z c v) (updateNzcv q n z c v) := by
  simp only [updateNzcv, armReadCpsr_eq, same.cpsr]
  exact same.writeCpsr _

theorem flagT (t : Option Bool) : Agree regs modes (updateFlagT p t) (updateFlagT q t) := by
  simp only [updateFlagT, armReadCpsr_eq, same.cpsr]
  exact same.writeCpsr _

theorem writeByte (h : Platform) (address : Word) (value : Byte) :
    Alike regs modes (armWriteByte h p address value) (armWriteByte h q address value) := by
  rw [armWriteByte, armWriteByte, same.mem]
  exact ⟨same.setMem _, rfl⟩

theorem writeHalf (h : Platform) (address : Word) (value : Half) :
    Alike regs modes (armWriteHalf h p address value) (armWriteHalf h q address value) := by
  rw [armWriteHalf, armWriteHalf, same.mem, same.flag]
  exact ⟨same.setMem _, rfl⟩

theorem writeWord (h : Platform) (address value : Word) :
    Alike regs modes (armWriteWord h p address value) (armWriteWord h q address value) := by
  rw [armWriteWord, armWriteWord, same.mem, same.flag]
  exact ⟨same.setMem _, rfl⟩

end Agree

section DataProcessing

variable (same : Agree regs modes p q) (covers : Covers regs modes (armMode p))
include same covers

theorem agree_writeResult (rd : Reg) (s : Bool) (res : BitVec 64) (c : Bool) (v : Option Bool) :
    Agree regs modes (DataProcessing.writeResult p rd s res c v)
      (DataProcessing.writeResult q rd s res c v) := by
  unfold DataProcessing.writeResult
  cases s with
  | false => exact same.writeRegister rd _
  | true =>
    simp only [if_true]
    split
    · exact (same.nzcv _ _ _ _).writeRegister rd _
    · rw [same.hasSpsr, same.readSpsr covers]
      split
      · exact (same.writeCpsr _).writeRegister rd _
      · exact same.writeRegister rd _

theorem agree_opCode (op : OpCode) (rd : Reg) (op1 op2 : Word) (s sc : Bool) :
    Agree regs modes (op.run p rd op1 op2 s sc) (op.run q rd op1 op2 s sc) := by
  have carry := same.carry
  cases op with
  | tst | teq | cmp | cmn => exact same.nzcv _ _ _ _
  | adc | sbc | rsc =>
    simp only [OpCode.run, DataProcessing.adc, DataProcessing.sbc, DataProcessing.rsc, carry]
    exact agree_writeResult same covers rd s _ _ _
  | and | eor | sub | rsb | add | orr | mov | bic | mvn =>
    exact agree_writeResult same covers rd s _ _ _

theorem alike_armDataProcessingShift (ins : Word) :
    Alike regs modes (armDataProcessingShift p ins) (armDataProcessingShift q ins) := by
  simp only [armDataProcessingShift, getShifted_congr (same.read covers) same.carry,
    dpOp1_congr (same.read covers)]
  exact ⟨agree_opCode same covers _ _ _ _ _ _, rfl⟩

theorem alike_armDataProcessingImmediate (ins : Word) :
    Alike regs modes (armDataProcessingImmediate p ins) (armDataProcessingImmediate q ins) := by
  simp only [armDataProcessingImmediate, getImmediate_congr same.carry,
    dpOp1_congr (same.read covers)]
  exact ⟨agree_opCode same covers _ _ _ _ _ _, rfl⟩

end DataProcessing

section SingleTransfers

variable (h : Platform) (junk : Word) (same : Agree regs modes p q)
include same

theorem alike_writeLoaded (rd : Reg) (value : Word) (result : ArmException) :
    Alike regs modes (writeLoaded p rd value result) (writeLoaded q rd value result) := by
  unfold writeLoaded
  split
  · exact ⟨same.writeRegister rd value, rfl⟩
  · exact ⟨same, rfl⟩

theorem alike_ldr (rd : Reg) (address : Word) :
    Alike regs modes (ldr h junk p rd address) (ldr h junk q rd address) := by
  simp only [ldr, same.readWord h]
  split
  · split
    · exact ⟨(same.flagT _).writeRegister rd _, rfl⟩
    · exact ⟨same.writeRegister rd _, rfl⟩
  · exact ⟨same, rfl⟩

theorem alike_ldrd (rd : Reg) (address : Word) :
    Alike regs modes (ldrd h junk p rd address) (ldrd h junk q rd address) := by
  simp only [ldrd, same.readWord h]
  split
  · exact ⟨same, rfl⟩
  · split
    · rw [(same.writeRegister rd _).readWord h]
      exact alike_writeLoaded (same.writeRegister rd _) _ _ _
    · exact ⟨same, rfl⟩

variable (covers : Covers regs modes (armMode p)) (ins : Word)
include covers

theorem alike_strd (rd : Reg) (address : Word) :
    Alike regs modes (strd h p rd address) (strd h q rd address) := by
  have first := same.writeWord h address (armReadRegister p rd)
  simp only [strd, same.read covers, first.result]
  split
  · exact ⟨same, rfl⟩
  · split
    · have mode : armMode (armWriteWord h p address (armReadRegister p rd)).1 = armMode p := rfl
      rw [first.core.read (mode ▸ covers)]
      exact first.core.writeWord h _ _
    · exact ⟨first.core, first.result⟩

theorem alike_loadStoreSwitch (rd : Reg) (address : Word) :
    Alike regs modes (loadStoreSwitch h junk p ins rd address)
      (loadStoreSwitch h junk q ins rd address) := by
  have storeWord : Alike regs modes (str h p rd address) (str h q rd address) := by
    rw [str, str, same.read covers]
    exact same.writeWord h _ _
  have storeByte : Alike regs modes (strb h p rd address) (strb h q rd address) := by
    rw [strb, strb, same.read covers]
    exact same.writeByte h _ _
  have loadWord : Alike regs modes (ldrt h junk p rd address) (ldrt h junk q rd address) := by
    rw [ldrt, ldrt, same.readWord h]
    exact alike_writeLoaded same rd _ _
  have loadByte : Alike regs modes (ldrb h junk p rd address) (ldrb h junk q rd address) := by
    rw [ldrb, ldrb, same.readByte h]
    exact alike_writeLoaded same rd _ _
  unfold loadStoreSwitch
  split <;> first
    | exact storeWord | exact storeByte | exact loadByte | exact loadWord
    | exact alike_ldr h junk same rd address | exact ⟨same, rfl⟩

theorem alike_miscellaneousSwitch (rd : Reg) (address : Word) :
    Alike regs modes (miscellaneousSwitch h junk p ins rd address)
      (miscellaneousSwitch h junk q ins rd address) := by
  have storeHalf : Alike regs modes (strh h p rd address) (strh h q rd address) := by
    rw [strh, strh, same.read covers]
    exact same.writeHalf h _ _
  have loadHalf : Alike regs modes (ldrh h junk p rd address) (ldrh h junk q rd address) := by
    rw [ldrh, ldrh, same.readHalf h]
    exact alike_writeLoaded same rd _ _
  have signedByte : Alike regs modes (ldrsb h junk p rd address) (ldrsb h junk q rd address) := by
    rw [ldrsb, ldrsb, same.readByte h]
    exact alike_writeLoaded same rd _ _
  have signedHalf : Alike regs modes (ldrsh h junk p rd address) (ldrsh h junk q rd address) := by
    rw [ldrsh, ldrsh, same.readHalf h]
    exact alike_writeLoaded same rd _ _
  unfold miscellaneousSwitch
  split <;> first
    | exact storeHalf | exact loadHalf | exact signedByte | exact signedHalf
    | exact alike_ldrd h junk same rd address | exact alike_strd h same covers rd address
    | exact ⟨same, rfl⟩

omit covers in
theorem alike_afterForm {rn : Reg} {valRn offset : Word}
    {operation : ArmCore → Word → ArmCore × ArmException}
    (alike : ∀ p' q' address, Agree regs modes p' q' → armMode p' = armMode p →
      Alike regs modes (operation p' address) (operation q' address)) :
    Alike regs modes (afterForm p (indexed p ins rn valRn offset) operation)
      (afterForm q (indexed q ins rn valRn offset) operation) := by
  have written := same.writeRegister rn (moved ins valRn offset)
  unfold indexed
  split
  · exact alike _ _ _ same rfl
  · split
    · exact alike _ _ _ written rfl
    · split
      · exact alike _ _ _ written rfl
      · exact ⟨same, rfl⟩

theorem alike_armLoadStore :
    Alike regs modes (armLoadStore h junk p ins) (armLoadStore h junk q ins) := by
  have shifted : ∀ shift n valRm, scaledShift q shift n valRm = scaledShift p shift n valRm := by
    intro shift n valRm
    unfold scaledShift
    rw [armReadCpsr_eq, armReadCpsr_eq, same.cpsr]
  have offset : loadStoreOffset q ins = loadStoreOffset p ins := by
    rw [loadStoreOffset, loadStoreOffset, same.read covers, shifted]
  rw [armLoadStore_eq, armLoadStore_eq, offset, same.read covers]
  exact alike_afterForm same ins fun p' q' address same' mode =>
    alike_loadStoreSwitch h junk same' (mode ▸ covers) ins _ address

theorem alike_armLoadStoreMiscellaneous :
    Alike regs modes (armLoadStoreMiscellaneous h junk p ins)
      (armLoadStoreMiscellaneous h junk q ins) := by
  have offset : miscellaneousOffset q ins = miscellaneousOffset p ins := by
    simp only [miscellaneousOffset, same.read covers]
  rw [armLoadStoreMiscellaneous_eq, armLoadStoreMiscellaneous_eq, offset, same.read covers]
  exact alike_afterForm same ins fun p' q' address same' mode =>
    alike_miscellaneousSwitch h junk same' (mode ▸ covers) ins _ address

end SingleTransfers

section BlockTransfers

structure Transfer.Alike (regs : Set (Fin 31)) (modes : Set Mode) (t t' : Transfer) : Prop where
  core : Agree regs modes t.core t'.core
  address : t'.address = t.address
  value : t'.value = t.value
  result : t'.result = t.result

variable (h : Platform) (rList : Half)

theorem alike_loadLoop {write : ArmCore → Reg → Word → ArmCore}
    (writes : ∀ {p q : ArmCore}, Agree regs modes p q → ∀ i value,
      Agree regs modes (write p i value) (write q i value))
    (is : List Reg) (same : Agree regs modes p q) (address value : Word) :
    (loadLoop h write rList is p address value).Alike regs modes
      (loadLoop h write rList is q address value) := by
  induction is generalizing p q address value with
  | nil => exact ⟨same, rfl, rfl, rfl⟩
  | cons i is ih =>
    simp only [loadLoop, same.readWord h]
    split
    · split
      · exact ih (writes same i _) _ _
      · exact ⟨same, rfl, rfl, rfl⟩
    · exact ih same address value

theorem alike_storeLoop {read : ArmCore → Reg → Word}
    (reads : ∀ {p q : ArmCore}, Agree regs modes p q → Covers regs modes (armMode p) → ∀ i,
      read q i = read p i)
    (is : List Reg) (same : Agree regs modes p q) (covers : Covers regs modes (armMode p))
    (address value : Word) :
    (storeLoop h read rList is p address value).Alike regs modes
      (storeLoop h read rList is q address value) := by
  induction is generalizing p q address value with
  | nil => exact ⟨same, rfl, rfl, rfl⟩
  | cons i is ih =>
    have written := same.writeWord h address (read p i)
    simp only [storeLoop, reads same covers, written.result]
    split
    · split
      · exact ih written.core covers _ _
      · exact ⟨written.core, rfl, rfl, rfl⟩
    · exact ih same covers address value

theorem alike_endTransfer {t t' : Transfer} (alike : t.Alike regs modes t') (eAdd : Word) :
    Alike regs modes (endTransfer t eAdd) (endTransfer t' eAdd) := by
  unfold endTransfer
  rw [alike.address, alike.result]
  split
  · exact ⟨alike.core, rfl⟩
  · exact ⟨alike.core, rfl⟩

theorem alike_ldm1Pc {t t' : Transfer} (alike : t.Alike regs modes t') :
    (ldm1Pc h rList t).Alike regs modes (ldm1Pc h rList t') := by
  simp only [ldm1Pc, alike.result, alike.address, alike.value, alike.core.readWord h]
  split
  · exact ⟨(alike.core.flagT _).writeRegister Reg.pc _, rfl, rfl, rfl⟩
  · exact alike

theorem alike_ldm3Pc {t t' : Transfer} (alike : t.Alike regs modes t')
    (covers : Covers regs modes (armMode t.core)) :
    (ldm3Pc h t).Alike regs modes (ldm3Pc h t') := by
  have restored := alike.core.writeCpsr (armReadSpsr t.core)
  simp only [ldm3Pc, alike.result, alike.address, alike.value, alike.core.hasSpsr,
    alike.core.readSpsr covers]
  split
  · split
    · rw [restored.readWord h]
      split
      · exact ⟨restored.writeRegister Reg.pc _, rfl, rfl, rfl⟩
      · exact ⟨restored, rfl, rfl, rfl⟩
    · rw [alike.core.readWord h]
      split
      · exact ⟨alike.core.writeRegister Reg.pc _, rfl, rfl, rfl⟩
      · exact ⟨alike.core, rfl, rfl, rfl⟩
  · exact alike

variable (junk : Word) (same : Agree regs modes p q) (covers : Covers regs modes (armMode p))
  (ins : Word)
include same covers

theorem alike_multipleSwitch (rList : Half) (sAdd eAdd : Word) :
    Alike regs modes (multipleSwitch h junk p ins rList sAdd eAdd)
      (multipleSwitch h junk q ins rList sAdd eAdd) := by
  have loaded := alike_loadLoop h rList (fun same => same.writeRegister) registersTo14
    same sAdd junk
  have loadedUsr :=
    alike_loadLoop h rList (fun same => same.writeUsrRegister) registersTo14 same sAdd junk
  have stored :=
    alike_storeLoop h rList (fun same => same.read) registersTo15 same covers sAdd junk
  have storedUsr :=
    alike_storeLoop h rList (fun same => same.readUsr) registersTo15 same covers sAdd junk
  have mode : armMode (loadLoop h armWriteRegister rList registersTo14 p sAdd junk).core =
      armMode p :=
    loadLoop_keeps h rList (fun p q => armMode q = armMode p) (fun _ => rfl)
      (fun pq qr => qr.trans pq) (fun i _ q value => armMode_armWriteRegister q i value) p sAdd junk
  have ldm1 : Alike regs modes (ldm1 h junk p rList sAdd eAdd) (ldm1 h junk q rList sAdd eAdd) :=
    alike_endTransfer (alike_ldm1Pc h rList loaded) eAdd
  have stm1 : Alike regs modes (stm1 h junk p rList sAdd eAdd) (stm1 h junk q rList sAdd eAdd) :=
    alike_endTransfer stored eAdd
  unfold multipleSwitch
  split
  · exact stm1
  · exact stm1
  · exact ldm1
  · exact ldm1
  · exact alike_endTransfer storedUsr eAdd
  · exact alike_endTransfer loadedUsr eAdd
  · exact alike_endTransfer (alike_ldm3Pc h loaded (mode ▸ covers)) eAdd
  · exact ⟨same, rfl⟩

theorem alike_armLoadStoreMultiple :
    Alike regs modes (armLoadStoreMultiple h junk p ins) (armLoadStoreMultiple h junk q ins) := by
  simp only [armLoadStoreMultiple, same.read covers]
  split
  · exact alike_multipleSwitch h junk (same.writeRegister _ _) covers ins _ _ _
  · exact alike_multipleSwitch h junk same covers ins _ _ _

end BlockTransfers

section BranchOther

variable (same : Agree regs modes p q) (covers : Covers regs modes (armMode p)) (ins : Word)
include same covers

theorem alike_armBranch : Alike regs modes (armBranch p ins) (armBranch q ins) := by
  simp only [armBranch, same.read covers]
  split
  · exact ⟨(same.writeRegister Reg.lr _).writeRegister Reg.pc _, rfl⟩
  · exact ⟨same.writeRegister Reg.pc _, rfl⟩

theorem alike_armMrs : Alike regs modes (armMrs p ins) (armMrs q ins) := by
  simp only [armMrs, same.readSpsr covers, armReadCpsr_eq, same.cpsr]
  exact ⟨same.writeRegister _ _, rfl⟩

theorem alike_armMsr : Alike regs modes (armMsr p ins) (armMsr q ins) := by
  have operand : msrOperand q ins = msrOperand p ins := by
    rw [msrOperand, msrOperand, same.read covers]
  have mask : ∀ operand, msrCpsrMask q ins operand = msrCpsrMask p ins operand := by
    intro operand
    rw [msrCpsrMask, msrCpsrMask, armInAPrivilegedMode, armInAPrivilegedMode, same.mode]
  simp only [armMsr, operand, mask, same.hasSpsr, same.readSpsr covers, armReadCpsr_eq, same.cpsr]
  split
  · split
    · exact ⟨same.writeSpsr _, rfl⟩
    · exact ⟨same, rfl⟩
  · exact ⟨same.writeCpsr _, rfl⟩

end BranchOther

section Step

variable (h : Platform) (junk : Word) (same : Agree regs modes p q)
  (covers : Covers regs modes (armMode p))
include same covers

theorem alike_handler (handler : Handler) (ins : Word) :
    Alike regs modes (handler.run h junk p ins) (handler.run h junk q ins) := by
  have returned : ∀ {r r' : ArmCore × ArmException}, Alike regs modes r r' →
      Alike regs modes (returning r) (returning r') :=
    fun alike => ⟨alike.core, congrArg Outcome.returned alike.result⟩
  cases handler with
  | armLoadStoreMiscellaneous =>
    exact returned (alike_armLoadStoreMiscellaneous h junk same covers ins)
  | armMsr => exact returned (alike_armMsr same covers ins)
  | armMrs => exact returned (alike_armMrs same covers ins)
  | armDataProcessingShift => exact returned (alike_armDataProcessingShift same covers ins)
  | armDataProcessingImmediate => exact returned (alike_armDataProcessingImmediate same covers ins)
  | armLoadStore => exact returned (alike_armLoadStore h junk same covers ins)
  | armLoadStoreMultiple => exact alike_armLoadStoreMultiple h junk same covers ins
  | armBranch => exact returned (alike_armBranch same covers ins)
  | armCoprocessorLoadStore => exact ⟨same, rfl⟩
  | armCoprocessorOthersSwi =>
    rw [Handler.run, Handler.run, armCoprocessorOthersSwi, armCoprocessorOthersSwi]
    split
    · split <;> exact ⟨same, rfl⟩
    · exact ⟨same, rfl⟩

theorem alike_executeFetched (ins : Word) :
    Alike regs modes (executeFetched h junk p ins) (executeFetched h junk q ins) := by
  have condition : instructionCheckCondition q ins = instructionCheckCondition p ins := by
    rw [instructionCheckCondition, instructionCheckCondition, armReadCpsr_eq, same.cpsr]
    rfl
  unfold executeFetched
  rw [condition]
  split
  · exact ⟨same, rfl⟩
  · split
    · exact alike_handler h junk same covers _ ins
    · exact ⟨same, rfl⟩
  · exact ⟨same, rfl⟩

theorem alike_armExecuteInstruction :
    Alike regs modes (armExecuteInstruction h junk p) (armExecuteInstruction h junk q) := by
  have address : fetchAddress q = fetchAddress p := by
    rw [fetchAddress, fetchAddress, same.read covers]
  have start : Agree regs modes (fetched p) (fetched q) := by
    rw [fetched, fetched, address]
    exact (same.setCycleCount _ _).writeRegister Reg.pc _
  have bounds : outside h q (fetchAddress p) 4 = outside h p (fetchAddress p) 4 := by
    rw [outside, outside, same.mem]
  have word : q.wordAt h (fetchAddress p) = p.wordAt h (fetchAddress p) :=
    wordAt_congr h p _ same.mem (same.flag Psr.e)
  simp only [armExecuteInstruction, armFetch_eq, address, bounds, word]
  split
  · simp only [ne_eq, reduceCtorEq, not_false_eq_true, if_true]
    exact ⟨start, rfl⟩
  · simp only [ne_eq, not_true_eq_false, if_false]
    exact alike_executeFetched h junk start covers _

omit covers in
theorem agree_resetStack (cpsr sp : Word) :
    Agree regs modes (resetStack p cpsr sp) (resetStack q cpsr sp) :=
  (same.writeCpsr cpsr).writeRegister Reg.sp sp

theorem agree_enterException (mode : Mode) (disableFiq : Bool) (lr : Word) (vector : BitVec 8) :
    Agree regs modes (enterException h p mode disableFiq lr vector)
      (enterException h q mode disableFiq lr vector) := by
  simp only [enterException, armReadCpsr_eq, same.cpsr, same.read covers]
  exact ((((same.writeCpsr _).writeRegister Reg.lr lr).writeRegister Reg.sp _).writeSpsr
    _).writeRegister Reg.pc _

theorem agree_armException (e : ArmException) :
    Agree regs modes (armException h p e) (armException h q e) := by
  have entry := agree_enterException h same covers
  cases e with
  | noException => exact same
  | reset =>
    simp only [armException, handleReset, armReadCpsr_eq, same.cpsr]
    refine Agree.writeRegister (Agree.writeCpsr ?_ _) Reg.pc _
    iterate 7 refine agree_resetStack ?_ _ _
    exact same
  | undefinedInstruction | softwareInterrupt =>
    simp only [armException, handleUndefinedInstruction, handleSoftwareInterrup,
      armAddressNextInstruction, same.read covers]
    exact entry _ _ _ _
  | prefetchAbort | dataAbort =>
    simp only [armException, handlePrefetchAbord, handleDataAbort, armAddressCurrentInstruction,
      same.read covers]
    exact entry _ _ _ _
  | interrupt =>
    rw [armException, armException, handleIrq, handleIrq, armReadCpsr_eq, armReadCpsr_eq,
      same.cpsr, armAddressNextInstruction, armAddressNextInstruction, same.read covers]
    split
    · exact same
    · exact entry _ _ _ _
  | fastInterrupt =>
    rw [armException, armException, handleFiq, handleFiq, armReadCpsr_eq, armReadCpsr_eq,
      same.cpsr, armAddressNextInstruction, armAddressNextInstruction, same.read covers]
    split
    · exact same
    · exact entry _ _ _ _

theorem alike_armStep (modeKept : armMode (armExecuteInstruction h junk p).1 = armMode p) :
    Alike regs modes (armStep h junk p) (armStep h junk q) := by
  have execution := alike_armExecuteInstruction h junk same covers
  simp only [armStep, execution.result]
  split
  · split
    · exact ⟨agree_armException h execution.core (modeKept ▸ covers) _, rfl⟩
    · exact execution
  · exact execution

end Step

section User

def userRegs : Set (Fin 31) := Set.range usrStorage

def userModes : Set Mode := {Mode.usr}

theorem covers_user : Covers userRegs userModes Mode.usr :=
  ⟨fun reg => ⟨reg, (registers_usr reg).symm⟩, fun reg => ⟨reg, rfl⟩, rfl⟩

variable {h : Platform}

theorem user_alike_step (same : Agree userRegs userModes p q) (user : armMode p = Mode.usr)
    (junk : Word) : Alike userRegs userModes (armStep h junk p) (armStep h junk q) :=
  alike_armStep h junk same (user ▸ covers_user) (user_armExecuteInstruction h junk user).mode

theorem user_alike_run (junks : List Word) (same : Agree userRegs userModes p q)
    (user : armMode p = Mode.usr) :
    (normalRun h junks q).isSome = (normalRun h junks p).isSome ∧
      ∀ p' q', normalRun h junks p = some p' → normalRun h junks q = some q' →
        Agree userRegs userModes p' q' := by
  induction junks generalizing p q with
  | nil =>
    refine ⟨rfl, fun p' q' run run' => ?_⟩
    rw [← Option.some.inj run, ← Option.some.inj run']
    exact same
  | cons junk junks ih =>
    -- user mode reads nothing in which the two states may differ
    have step := user_alike_step (h := h) same user junk
    by_cases normal : (armStep h junk p).2 = .returned .noException
    · have still := (user_normalStep user ⟨junk, Prod.ext rfl normal⟩).mode.trans user
      simp only [normalRun, step.result, normal, if_true]
      exact ih step.core still
    · simp only [normalRun, step.result, normal, if_false, reduceCtorEq, false_implies,
        implies_true, and_self]

/-- User mode learns nothing privileged. From two states that agree on what user
mode may read, the same steps are normal, they reach states that still agree,
each with its own privileged part untouched, and whatever step comes then ends
in both with the same result. -/
theorem user_mode_isolated (h : Platform) (p q : ArmCore) (user : armMode p = Mode.usr)
    (same : Agree userRegs userModes p q) (junks : List Word) :
    (normalRun h junks q).isSome = (normalRun h junks p).isSome ∧
      ∀ p' q', normalRun h junks p = some p' → normalRun h junks q = some q' →
        Agree userRegs userModes p' q' ∧ UserKeeps p p' ∧ UserKeeps q q' ∧
          ∀ junk, Alike userRegs userModes (armStep h junk p') (armStep h junk q') := by
  have run := user_alike_run (h := h) junks same user
  refine ⟨run.1, fun p' q' ends ends' => ?_⟩
  have keeps := user_run user (normalRun_steps ends)
  have keeps' := user_run (same.mode.trans user) (normalRun_steps ends')
  have still := run.2 p' q' ends ends'
  exact ⟨still, keeps, keeps', user_alike_step still (keeps.mode.trans user)⟩

def withSecrets (p : ArmCore) : ArmCore where
  registersStorage k := if k.val < 16 then p.registersStorage k else 7#32
  spsr mode := if mode = Mode.usr then p.spsr mode else 7#32
  cpsr := p.cpsr
  cycleCount := p.cycleCount
  mem := p.mem

theorem agree_withSecrets (p : ArmCore) : Agree userRegs userModes p (withSecrets p) := by
  have small : ∀ reg, (usrStorage reg).val < 16 := by decide
  refine ⟨rfl, rfl, ?_, ?_⟩
  · rintro _ ⟨reg, rfl⟩
    exact if_pos (small reg)
  · rintro mode rfl
    simp only [withSecrets, if_true]

theorem user_mode_isolated_add : ∃ p' q',
    normalRun lp64 [0, 0] (sampleCore 0x10 0xE2800001) = some p' ∧
      normalRun lp64 [0, 0] (withSecrets (sampleCore 0x10 0xE2800001)) = some q' ∧
      p'.registersStorage 0 = 2#32 ∧ Agree userRegs userModes p' q' := by
  obtain ⟨ends, agree⟩ := user_mode_isolated lp64 (sampleCore 0x10 0xE2800001)
    (withSecrets (sampleCore 0x10 0xE2800001)) (by decide) (agree_withSecrets _) [0, 0]
  have sum : (normalRun lp64 [0, 0] (sampleCore 0x10 0xE2800001)).map
      (fun p => p.registersStorage 0) = some 2#32 := by
    decide +kernel
  obtain ⟨p', ran, result⟩ := Option.map_eq_some_iff.mp sum
  rw [ran] at ends
  obtain ⟨q', ran'⟩ := Option.isSome_iff_exists.mp ends
  exact ⟨p', q', ran, ran', result, (agree p' q' ran ran').1⟩

end User

end ArmSimulator
