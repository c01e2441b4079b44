import ArmSimulator.Instruction

/-! Instructions that do not take effect. A handler that neither succeeds nor
reports a data abort has changed nothing. -/
namespace ArmSimulator

/-- The results that stand for an instruction which was not carried out. -/
def Unexecuted (e : ArmException) : Prop :=
  e = .undefinedInstruction ∨ e = .softwareInterrupt ∨ e = .prefetchAbort

structure OnlyFetched (p q : ArmCore) : Prop where
  mem : q.mem = p.mem
  cpsr : q.cpsr = p.cpsr
  spsr : q.spsr = p.spsr
  storage : ∀ mode reg, reg ≠ Reg.pc →
    q.registersStorage (registers mode reg) = p.registersStorage (registers mode reg)
  pc : q.registersStorage (registers (armMode p) Reg.pc) = fetchAddress p + 4#32
  cycleCount : q.cycleCount = p.cycleCount + 1#32

theorem fetched_onlyFetched (p : ArmCore) : OnlyFetched p (fetched p) where
  mem := rfl
  cpsr := rfl
  spsr := rfl
  storage mode reg notPc := fetched_storage (registers_ne_pc mode reg notPc)
  pc := by rw [registers_pc, fetched_pc]
  cycleCount := rfl

section Handlers

variable (h : Platform) (junk : Word) {p : ArmCore} (ins : Word) {e : ArmException}
  (kind : Unexecuted e)
include kind

theorem not_unexecuted {result : ArmException}
    (ends : result = .noException ∨ result = .dataAbort) : result ≠ e := by
  rcases ends with rfl | rfl <;> rcases kind with rfl | rfl | rfl <;> decide

theorem transferred_not_unexecuted {rd : Reg} {address : Word} {r : ArmCore × ArmException}
    (ends : Transferred h p rd address r) : r.2 ≠ e := by
  apply not_unexecuted kind
  cases ends <;> first | exact .inl rfl | exact .inr rfl

theorem afterForm_unexecuted {rd : Reg} {form : Option (ArmCore × Word)}
    {operation : ArmCore → Word → ArmCore × ArmException}
    (ends : ∀ q address, Transferred h q rd address (operation q address))
    (raised : (afterForm p form operation).2 = e) : (afterForm p form operation).1 = p := by
  cases form with
  | none => rfl
  | some r => exact absurd raised (transferred_not_unexecuted h kind (ends r.1 r.2))

theorem armLoadStore_unexecuted (raised : (armLoadStore h junk p ins).2 = e) :
    (armLoadStore h junk p ins).1 = p := by
  rw [armLoadStore_eq] at raised ⊢
  exact afterForm_unexecuted h kind (fun q => loadStoreSwitch_transferred h junk q ins _) raised

theorem armLoadStoreMiscellaneous_unexecuted
    (raised : (armLoadStoreMiscellaneous h junk p ins).2 = e) :
    (armLoadStoreMiscellaneous h junk p ins).1 = p := by
  rw [armLoadStoreMiscellaneous_eq] at raised ⊢
  exact afterForm_unexecuted h kind (fun q => miscellaneousSwitch_transferred h junk q ins _) raised

theorem endTransfer_not_unexecuted {t : Transfer} {eAdd : Word}
    (ends : t.Ends) : (endTransfer t eAdd).2 ≠ .returned e := by
  unfold endTransfer
  split
  · exact fun raised => not_unexecuted kind ends (Outcome.returned.inj raised)
  · simp only [ne_eq, reduceCtorEq, not_false_eq_true]

theorem armLoadStoreMultiple_not_unexecuted :
    (armLoadStoreMultiple h junk p ins).2 ≠ .returned e := by
  unfold armLoadStoreMultiple
  extract_lets rn valRn regList n b q
  unfold multipleSwitch
  split
  · exact endTransfer_not_unexecuted kind (storeLoop_ends h _ _ _ q _ junk)
  · exact endTransfer_not_unexecuted kind (storeLoop_ends h _ _ _ q _ junk)
  · exact endTransfer_not_unexecuted kind (ldm1Pc_ends h _ (loadLoop_ends h _ _ _ q _ junk))
  · exact endTransfer_not_unexecuted kind (ldm1Pc_ends h _ (loadLoop_ends h _ _ _ q _ junk))
  · exact endTransfer_not_unexecuted kind (storeLoop_ends h _ _ _ q _ junk)
  · exact endTransfer_not_unexecuted kind (loadLoop_ends h _ _ _ q _ junk)
  · exact endTransfer_not_unexecuted kind (ldm3Pc_ends h (loadLoop_ends h _ _ _ q _ junk))
  · exact fun raised => not_unexecuted kind (.inl rfl) (Outcome.returned.inj raised)

theorem handler_unexecuted (handler : Handler)
    (raised : (handler.run h junk p ins).2 = .returned e) : (handler.run h junk p ins).1 = p := by
  cases handler with
  | armLoadStoreMiscellaneous =>
    exact armLoadStoreMiscellaneous_unexecuted h junk ins kind (Outcome.returned.inj raised)
  | armLoadStore => exact armLoadStore_unexecuted h junk ins kind (Outcome.returned.inj raised)
  | armLoadStoreMultiple =>
    exact absurd raised (armLoadStoreMultiple_not_unexecuted h junk ins kind)
  | armCoprocessorLoadStore => rfl
  | armCoprocessorOthersSwi =>
    rw [Handler.run, armCoprocessorOthersSwi]
    split
    · split <;> rfl
    · rfl
  | armMsr =>
    rw [Handler.run, returning, armMsr] at raised
    refine absurd (Outcome.returned.inj raised) (not_unexecuted kind (.inl ?_))
    split
    · split <;> rfl
    · rfl
  | armMrs | armDataProcessingShift | armDataProcessingImmediate | armBranch =>
    exact absurd (Outcome.returned.inj raised) (not_unexecuted kind (.inl rfl))

theorem executeFetched_unexecuted (raised : (executeFetched h junk p ins).2 = .returned e) :
    (executeFetched h junk p ins).1 = p := by
  rw [executeFetched] at raised ⊢
  split
  · rfl
  · split
    · rename_i passed _ handler decoded
      rw [passed, decoded] at raised
      exact handler_unexecuted h junk ins kind handler raised
    · rfl
  · rfl

end Handlers

section Execution

variable {h : Platform} {junk : Word} {p : ArmCore}

theorem armExecuteInstruction_unexecuted {e : ArmException} (kind : Unexecuted e)
    (raised : (armExecuteInstruction h junk p).2 = .returned e) :
    (armExecuteInstruction h junk p).1 = fetched p := by
  rw [armExecuteInstruction] at raised ⊢
  rw [armFetch_eq] at raised ⊢
  split
  · rfl
  · rename_i inside
    simp only [inside, Bool.false_eq_true, if_false, ne_eq, not_true_eq_false] at raised
    exact executeFetched_unexecuted h junk _ kind raised

/-- An instruction whose condition is false, or which ends as undefined, as a
software interrupt or as a prefetch abort, has only been fetched. -/
theorem unexecuted_changes_nothing (h : Platform) (junk : Word) (p : ArmCore)
    (noEffect : (∃ ins, Fetches h p ins ∧ instructionCheckCondition p ins = .failed) ∨
      ∃ e, Unexecuted e ∧ (armExecuteInstruction h junk p).2 = .returned e) :
    OnlyFetched p (armExecuteInstruction h junk p).1 := by
  rcases noEffect with ⟨ins, fetches, failed⟩ | ⟨e, kind, raised⟩
  · have failed' : instructionCheckCondition (fetched p) ins = .failed := failed
    rw [armExecuteInstruction_fetches fetches, executeFetched, failed']
    exact fetched_onlyFetched p
  · rw [armExecuteInstruction_unexecuted kind raised]
    exact fetched_onlyFetched p

theorem unexecuted_changes_nothing_test :
    (armExecuteInstruction lp64 0 (sampleCore 0x10 0xE6310002)).1.registersStorage 1 = 0 := by
  have raised : (armExecuteInstruction lp64 0 (sampleCore 0x10 0xE6310002)).2 =
      .returned .undefinedInstruction := by
    decide +kernel
  exact (unexecuted_changes_nothing lp64 0 (sampleCore 0x10 0xE6310002)
    (.inr ⟨_, .inl rfl, raised⟩)).storage Mode.usr 1 (by decide)

end Execution

end ArmSimulator
