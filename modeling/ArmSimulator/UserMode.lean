import ArmSimulator.Instruction
import ArmSimulator.Library.Runs

/-! User mode is contained: no instruction that runs to its end in user mode
leaves it, or touches what belongs to another mode. -/
namespace ArmSimulator

def Banked (mode : Mode) (reg : Reg) : Prop := registers mode reg ≠ usrStorage reg

theorem banked_ne_usrStorage (mode : Mode) (reg reg' : Reg) (banked : Banked mode reg) :
    registers mode reg ≠ usrStorage reg' := by
  intro same
  obtain rfl : reg' = reg := by
    rw [← storageReg_registers Mode.usr reg', registers_usr, ← same, storageReg_registers]
  exact banked same

/-- What user mode may not change: the CPSR outside N, Z, C, V and T, every
SPSR, and the banked registers of the other modes. -/
structure UserKeeps (p q : ArmCore) : Prop where
  cpsr : ∀ i < 28, i ≠ Psr.t → q.cpsr.getLsbD i = p.cpsr.getLsbD i
  spsr : q.spsr = p.spsr
  banked : ∀ mode reg, Banked mode reg →
    q.registersStorage (registers mode reg) = p.registersStorage (registers mode reg)

namespace UserKeeps

variable {p q r : ArmCore}

theorem refl (p : ArmCore) : UserKeeps p p := ⟨fun _ _ _ => rfl, rfl, fun _ _ _ => rfl⟩

theorem trans (pq : UserKeeps p q) (qr : UserKeeps q r) : UserKeeps p r :=
  ⟨fun i low other => (qr.cpsr i low other).trans (pq.cpsr i low other), qr.spsr.trans pq.spsr,
    fun mode reg own => (qr.banked mode reg own).trans (pq.banked mode reg own)⟩

theorem mode (keeps : UserKeeps p q) : armMode q = armMode p :=
  armMode_of_bits fun i small => keeps.cpsr i (by omega) (by simp only [Psr.t]; omega)

theorem writeRegister (user : armMode p = Mode.usr) (reg : Reg) (value : Word) :
    UserKeeps p (armWriteRegister p reg value) := by
  refine ⟨fun _ _ _ => rfl, rfl, ?_⟩
  intro mode reg' own
  apply armWriteRegister_storage_other
  rw [user, registers_usr]
  exact banked_ne_usrStorage mode reg' reg own

theorem writeUsrRegister (p : ArmCore) (reg : Reg) (value : Word) :
    UserKeeps p (armWriteUsrRegister p reg value) :=
  ⟨fun _ _ _ => rfl, rfl,
    fun mode reg' own => writeStorage_other p value _ _ (banked_ne_usrStorage mode reg' reg own)⟩

theorem setMem (p : ArmCore) (mem : Memory) : UserKeeps p { p with mem := mem } :=
  ⟨fun _ _ _ => rfl, rfl, fun _ _ _ => rfl⟩

theorem nzcv (p : ArmCore) (n z c v : Option Bool) : UserKeeps p (updateNzcv p n z c v) :=
  ⟨fun _ low _ => updateNzcv_getLsbD p n z c v low, rfl, fun _ _ _ => rfl⟩

theorem flagT (p : ArmCore) (t : Option Bool) : UserKeeps p (updateFlagT p t) :=
  ⟨fun _ low other => updateFlagT_getLsbD p t (by omega) (Ne.symm other), rfl, fun _ _ _ => rfl⟩

end UserKeeps

theorem user_has_no_spsr {p : ArmCore} (user : armMode p = Mode.usr) :
    armCurrentModeHasSpsr p = false := by
  simp [armCurrentModeHasSpsr, user]

section DataProcessing

variable {p : ArmCore} (user : armMode p = Mode.usr)
include user

theorem user_writeResult (rd : Reg) (s : Bool) (res : BitVec 64) (c : Bool) (v : Option Bool) :
    UserKeeps p (DataProcessing.writeResult p rd s res c v) := by
  cases s with
  | false => exact .writeRegister user rd _
  | true =>
    by_cases isPc : rd = Reg.pc
    · rw [isPc, writeResult_pc, user_has_no_spsr user]
      exact .writeRegister user _ _
    · rw [writeResult_withS p isPc]
      have flags := UserKeeps.nzcv p (some (getBit res 31)) (some (res.setWidth 32 == 0#32)) c v
      exact flags.trans (.writeRegister (flags.mode.trans user) rd _)

theorem user_opCode (op : OpCode) (rd : Reg) (op1 op2 : Word) (s sc : Bool) :
    UserKeeps p (op.run p rd op1 op2 s sc) := by
  cases kind : op.compares with
  | false =>
    obtain ⟨res, c, v, shape⟩ := OpCode.run_writes p rd op1 op2 s sc kind
    rw [shape]
    exact user_writeResult user rd s res c v
  | true =>
    obtain ⟨res, c, v, shape⟩ := OpCode.run_compares rd op1 op2 s sc kind
    rw [shape]
    exact .nzcv p _ _ _ _

end DataProcessing

section LoadStore

variable (h : Platform) (junk : Word) {p : ArmCore} (user : armMode p = Mode.usr) (ins : Word)
include user

theorem user_transferred {rd : Reg} {address : Word} {r : ArmCore × ArmException}
    (ends : Transferred h p rd address r) : UserKeeps p r.1 := by
  cases ends with
  | skipped => exact .refl p
  | aborted => exact .refl p
  | stored mem => exact .setMem p mem
  | storedFirst mem => exact .setMem p mem
  | loaded value => exact .writeRegister user rd value
  | loadedPc t value _ =>
    exact (UserKeeps.flagT p t).trans (.writeRegister (by simpa using user) rd value)
  | loadedFirst => exact .writeRegister user rd _
  | loadedPair value value' =>
    have first := UserKeeps.writeRegister user rd value
    exact first.trans (.writeRegister (first.mode.trans user) _ value')

theorem user_indexed {rn : Reg} {valRn offset address : Word} {q : ArmCore}
    (form : indexed p ins rn valRn offset = some (q, address)) : UserKeeps p q := by
  rcases indexed_cases p ins address form with rfl | ⟨_, rfl⟩
  · exact .refl _
  · exact .writeRegister user rn _

theorem user_afterForm {rn rd : Reg} {valRn offset : Word}
    {operation : ArmCore → Word → ArmCore × ArmException}
    (ends : ∀ q address, Transferred h q rd address (operation q address)) :
    UserKeeps p (afterForm p (indexed p ins rn valRn offset) operation).1 := by
  cases form : indexed p ins rn valRn offset with
  | none => exact .refl p
  | some r =>
    have base := user_indexed user ins form
    exact base.trans (user_transferred h (base.mode.trans user) (ends r.1 r.2))

theorem user_armLoadStore : UserKeeps p (armLoadStore h junk p ins).1 := by
  rw [armLoadStore_eq]
  exact user_afterForm h user ins fun q => loadStoreSwitch_transferred h junk q ins _

theorem user_armLoadStoreMiscellaneous :
    UserKeeps p (armLoadStoreMiscellaneous h junk p ins).1 := by
  rw [armLoadStoreMiscellaneous_eq]
  exact user_afterForm h user ins fun q => miscellaneousSwitch_transferred h junk q ins _

theorem user_loadLoop (rList : Half) (is : List Reg) (address value : Word) :
    UserKeeps p (loadLoop h armWriteRegister rList is p address value).core :=
  loadLoop_keeps h rList (fun p q => armMode p = Mode.usr → UserKeeps p q) (fun p _ => .refl p)
    (fun pq qr user => (pq user).trans (qr ((pq user).mode.trans user)))
    (fun i _ _ value user => .writeRegister user i value) p address value user

theorem user_ldm1 (rList : Half) (sAdd eAdd : Word) :
    UserKeeps p (ldm1 h junk p rList sAdd eAdd).1 := by
  have loop := user_loadLoop h user rList registersTo14 sAdd junk
  rw [ldm1, endTransfer_core, ldm1Pc]
  split
  · have pc := fun t value =>
      UserKeeps.writeRegister ((armMode_updateFlagT _ t).trans (loop.mode.trans user)) Reg.pc value
    exact loop.trans ((UserKeeps.flagT _ _).trans (pc _ _))
  · exact loop

theorem user_ldm3 (rList : Half) (sAdd eAdd : Word) :
    UserKeeps p (ldm3 h junk p rList sAdd eAdd).1 := by
  have loop := user_loadLoop h user rList registersTo14 sAdd junk
  have user' := loop.mode.trans user
  rw [ldm3, endTransfer_core, ldm3Pc]
  split
  · simp only [user_has_no_spsr user', Bool.false_eq_true, if_false]
    split
    · exact loop.trans (.writeRegister user' Reg.pc _)
    · exact loop
  · exact loop

omit user in
theorem userBank_ldm2 (rList : Half) (sAdd eAdd : Word) :
    UserKeeps p (ldm2 h junk p rList sAdd eAdd).1 := by
  rw [ldm2, endTransfer_core]
  exact loadLoop_keeps h rList UserKeeps UserKeeps.refl UserKeeps.trans
    (fun i _ q value => .writeUsrRegister q i value) p sAdd junk

omit user in
theorem user_stm (read : ArmCore → Reg → Word) (rList : Half) (is : List Reg)
    (sAdd eAdd : Word) :
    UserKeeps p (endTransfer (storeLoop h read rList is p sAdd junk) eAdd).1 := by
  obtain ⟨mem, stored⟩ := storeLoop_core h rList read is p sAdd junk
  rw [endTransfer_core, stored]
  exact .setMem p mem

theorem user_armLoadStoreMultiple : UserKeeps p (armLoadStoreMultiple h junk p ins).1 := by
  unfold armLoadStoreMultiple
  extract_lets rn valRn regList n b q
  have base : UserKeeps p q := by
    unfold q
    split
    · exact .writeRegister user rn _
    · exact .refl p
  have user' := base.mode.trans user
  refine base.trans ?_
  unfold multipleSwitch
  split
  · exact user_stm h junk armReadRegister _ _ _ _
  · exact user_stm h junk armReadRegister _ _ _ _
  · exact user_ldm1 h junk user' _ _ _
  · exact user_ldm1 h junk user' _ _ _
  · exact user_stm h junk armReadUsrRegister _ _ _ _
  · exact userBank_ldm2 h junk _ _ _
  · exact user_ldm3 h junk user' _ _ _
  · exact .refl q

end LoadStore

section BranchOther

variable {p : ArmCore} (user : armMode p = Mode.usr) (ins : Word)
include user

theorem user_armBranch : UserKeeps p (armBranch p ins).1 := by
  unfold armBranch
  extract_lets valPc q signedImmed address
  have link : UserKeeps p q := by
    unfold q
    split
    · exact .writeRegister user Reg.lr _
    · exact .refl p
  exact link.trans (.writeRegister (link.mode.trans user) Reg.pc address)

theorem user_armMsr : UserKeeps p (armMsr p ins).1 := by
  have flagsOnly : ∀ i < 28, userMask.getLsbD i = false := by decide
  have noPrivilege : armInAPrivilegedMode p = false := by simp [armInAPrivilegedMode, user]
  unfold armMsr
  simp only [user_has_no_spsr user, Bool.false_eq_true, if_false]
  split
  · exact .refl p
  · refine ⟨fun i low _ => ?_, rfl, fun _ _ _ => rfl⟩
    simp only [armWriteCpsr_cpsr, armReadCpsr_eq, msrCpsrMask, noPrivilege, Bool.false_eq_true,
      if_false, BitVec.getLsbD_or, BitVec.getLsbD_and, BitVec.getLsbD_not, flagsOnly i low,
      Bool.and_false, Bool.not_false, Bool.and_true, Bool.or_false]
    simp only [show i < 32 by omega, decide_true, Bool.and_true]

end BranchOther

section Step

variable (h : Platform) (junk : Word) {p : ArmCore} (user : armMode p = Mode.usr)
include user

theorem user_fetched : UserKeeps p (fetched p) := by
  have counted : armMode { p with cycleCount := p.cycleCount + 1#32 } = Mode.usr := user
  obtain ⟨cpsr, spsr, banked⟩ := UserKeeps.writeRegister counted Reg.pc (fetchAddress p + 4#32)
  exact ⟨cpsr, spsr, banked⟩

theorem user_handler (handler : Handler) (ins : Word) :
    UserKeeps p (handler.run h junk p ins).1 := by
  cases handler with
  | armLoadStoreMiscellaneous => exact user_armLoadStoreMiscellaneous h junk user ins
  | armMsr => exact user_armMsr user ins
  | armMrs => exact .writeRegister user _ _
  | armDataProcessingShift => exact user_opCode user _ _ _ _ _ _
  | armDataProcessingImmediate => exact user_opCode user _ _ _ _ _ _
  | armLoadStore => exact user_armLoadStore h junk user ins
  | armLoadStoreMultiple => exact user_armLoadStoreMultiple h junk user ins
  | armBranch => exact user_armBranch user ins
  | armCoprocessorLoadStore => exact .refl p
  | armCoprocessorOthersSwi =>
    rw [Handler.run, armCoprocessorOthersSwi]
    split
    · split <;> exact .refl p
    · exact .refl p

theorem user_executeFetched (ins : Word) : UserKeeps p (executeFetched h junk p ins).1 := by
  unfold executeFetched
  split
  · exact .refl p
  · split
    · exact user_handler h junk user _ ins
    · exact .refl p
  · exact .refl p

/-- Whatever the step returns, user mode is contained up to the point where
`arm_exception` would run. -/
theorem user_armExecuteInstruction : UserKeeps p (armExecuteInstruction h junk p).1 := by
  have start := user_fetched user
  rw [armExecuteInstruction, armFetch_eq]
  split <;> simp only [ne_eq, not_true_eq_false, if_false, not_false_eq_true, if_true, reduceCtorEq]
  · exact start
  · exact start.trans (user_executeFetched h junk (start.mode.trans user) _)

end Step

section Runs

variable {h : Platform} {p q : ArmCore}

theorem user_normalStep (user : armMode p = Mode.usr) (step : NormalStep h p q) :
    UserKeeps p q := by
  obtain ⟨junk, step⟩ := step
  have execution := user_armExecuteInstruction h junk user
  rwa [armStep_normal step] at execution

theorem user_run (user : armMode p = Mode.usr) (run : Relation.ReflTransGen (NormalStep h) p q) :
    UserKeeps p q :=
  Runs.invariant (fun _ _ step keeps => keeps.trans (user_normalStep (keeps.mode.trans user) step))
    (.refl p) run

theorem user_exit (user : armMode p = Mode.usr) {junk : Word}
    (left : armMode (armStep h junk p).1 ≠ Mode.usr) :
    ∃ e, e ≠ .noException ∧ armStep h junk p =
      (armException h (armExecuteInstruction h junk p).1 e, .returned e) := by
  rcases armStep_cases h junk p with ⟨same, _⟩ | ⟨e, other, _, entry⟩
  · rw [same] at left
    exact absurd ((user_armExecuteInstruction h junk user).mode.trans user) left
  · exact ⟨e, other, entry⟩

/-- User mode is left by an exception entry only, and until then nothing
privileged changes. -/
theorem user_mode_contained (h : Platform) (p q : ArmCore) (user : armMode p = Mode.usr)
    (run : Relation.ReflTransGen (NormalStep h) p q) :
    armMode q = Mode.usr ∧ UserKeeps p q ∧
      ∀ junk, armMode (armStep h junk q).1 ≠ Mode.usr → ∃ e, e ≠ .noException ∧
        armStep h junk q = (armException h (armExecuteInstruction h junk q).1 e, .returned e) := by
  have keeps := user_run user run
  have still := keeps.mode.trans user
  exact ⟨still, keeps, fun _ left => user_exit still left⟩

theorem user_mode_contained_msr :
    armMode (armStep lp64 0 (sampleCore 0x10 0xE321F013)).1 = Mode.usr := by
  have normal : (armStep lp64 0 (sampleCore 0x10 0xE321F013)).2 = .returned .noException := by
    decide +kernel
  exact (user_mode_contained lp64 (sampleCore 0x10 0xE321F013) _ (by decide)
    (.single ⟨0, Prod.ext rfl normal⟩)).1

end Runs

end ArmSimulator
