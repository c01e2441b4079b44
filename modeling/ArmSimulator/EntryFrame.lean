import ArmSimulator.Instruction

/-! What an exception entry leaves alone. The stack pointer of the target mode is
not: each entry carries the interrupted one over, so the stacks RESET sets up are
lost one by one as their modes are entered. -/
namespace ArmSimulator

def takenInto (p : ArmCore) : ArmException → Option Mode
  | .noException | .reset => none
  | .undefinedInstruction => some Mode.und
  | .softwareInterrupt => some Mode.svc
  | .prefetchAbort | .dataAbort => some Mode.abt
  | .interrupt => if getBit p.cpsr Psr.i then none else some Mode.irq
  | .fastInterrupt => if getBit p.cpsr Psr.f then none else some Mode.fiq

/-- From `p` to `q` only CPSR and pc changed, and in the bank of `mode` the link,
the SPSR and the stack pointer, which is the one of `p`'s own mode. -/
structure EntryFrame (mode : Mode) (p q : ArmCore) : Prop where
  storage : ∀ k, k ≠ 15 → k ≠ registers mode Reg.lr → k ≠ registers mode Reg.sp →
    q.registersStorage k = p.registersStorage k
  stack : q.registersStorage (registers mode Reg.sp) = armReadRegister p Reg.sp
  spsr : ∀ other, other ≠ mode → q.spsr other = p.spsr other
  mem : q.mem = p.mem
  cycleCount : q.cycleCount = p.cycleCount

def enteredModes (h : Platform) (p : ArmCore) : List ArmException → List Mode
  | [] => []
  | e :: es => (takenInto p e).toList ++ enteredModes h (armException h p e) es

structure StacksCarried (entered : List Mode) (p q : ArmCore) : Prop where
  carried : ∀ m ∈ entered, q.registersStorage (registers m Reg.sp) = armReadRegister p Reg.sp
  storage : ∀ k, k ≠ 15 → (∀ m ∈ entered, k ≠ registers m Reg.lr ∧ k ≠ registers m Reg.sp) →
    q.registersStorage k = p.registersStorage k
  spsr : ∀ m, m ∉ entered → q.spsr m = p.spsr m
  mem : q.mem = p.mem

section Step

variable {h : Platform} {p : ArmCore} {e : ArmException} {m : Mode}

theorem takenInto_mem (taken : takenInto p e = some m) : m ∈ exceptionModes := by
  cases e with
  | noException | reset => cases taken
  | undefinedInstruction | softwareInterrupt | prefetchAbort | dataAbort =>
    cases taken
    decide
  | interrupt | fastInterrupt =>
    simp only [takenInto] at taken
    split at taken
    · cases taken
    · cases taken
      decide

theorem armException_taken (taken : takenInto p e = some m) :
    ∃ disableFiq lr vector, armException h p e = enterException h p m disableFiq lr vector := by
  cases e with
  | noException | reset => cases taken
  | undefinedInstruction | softwareInterrupt | prefetchAbort | dataAbort =>
    cases taken
    exact ⟨_, _, _, rfl⟩
  | interrupt | fastInterrupt =>
    simp only [takenInto] at taken
    split at taken
    · cases taken
    · rename_i enabled
      cases taken
      exact ⟨_, _, _, if_neg enabled⟩

theorem armException_notTaken (notTaken : takenInto p e = none) (notReset : e ≠ .reset) :
    armException h p e = p := by
  cases e with
  | noException => rfl
  | reset => exact absurd rfl notReset
  | undefinedInstruction | softwareInterrupt | prefetchAbort | dataAbort => cases notTaken
  | interrupt | fastInterrupt =>
    simp only [takenInto] at notTaken
    split at notTaken
    · rename_i masked
      exact if_pos masked
    · cases notTaken

theorem entry_frame (taken : takenInto p e = some m) : EntryFrame m p (armException h p e) := by
  obtain ⟨disableFiq, lr, vector, entry⟩ := armException_taken (h := h) taken
  have entered := enterException_entered h p m disableFiq lr vector
  rw [← entry] at entered
  constructor
  · exact entered.storage
  · exact entered.sp
  · intro other different
    rw [entered.spsr, Function.update_of_ne different]
  · exact entered.mem
  · exact entered.cycleCount

theorem armMode_taken (taken : takenInto p e = some m) : armMode (armException h p e) = m := by
  obtain ⟨disableFiq, lr, vector, entry⟩ := armException_taken (h := h) taken
  rw [entry, armMode_eq, (enterException_entered h p m disableFiq lr vector).cpsr, entryCpsr_mode]

theorem armException_sp (notReset : e ≠ .reset) :
    armReadRegister (armException h p e) Reg.sp = armReadRegister p Reg.sp := by
  cases taken : takenInto p e with
  | none => rw [armException_notTaken taken notReset]
  | some m =>
    rw [armReadRegister_of_ne (by decide), armMode_taken taken]
    exact (entry_frame taken).stack

end Step

section Rows

variable {h : Platform}

theorem enteredModes_mem (es : List ArmException) (p : ArmCore) {m : Mode}
    (entered : m ∈ enteredModes h p es) : m ∈ exceptionModes := by
  induction es generalizing p with
  | nil => cases entered
  | cons e es ih =>
    rcases List.mem_append.mp entered with first | later
    · exact takenInto_mem (Option.mem_toList.mp first)
    · exact ih _ later

theorem stack_apart {m m' : Mode} (inside : m' ∈ exceptionModes) (different : m ≠ m') :
    registers m Reg.sp ≠ registers m' Reg.lr ∧ registers m Reg.sp ≠ registers m' Reg.sp :=
  (registers_other_mode m' inside m Reg.sp different (by decide)).symm

theorem row_carried (es : List ArmException) (p : ArmCore) (notReset : ArmException.reset ∉ es) :
    StacksCarried (enteredModes h p es) p (es.foldl (armException h) p) := by
  induction es generalizing p with
  | nil => exact ⟨fun m entered => (List.not_mem_nil entered).elim,
      fun _ _ _ => rfl, fun _ _ => rfl, rfl⟩
  | cons e es ih =>
    have first : e ≠ .reset := fun same => notReset (same ▸ List.mem_cons_self)
    have rest := ih (armException h p e) fun later => notReset (List.mem_cons_of_mem _ later)
    rw [List.foldl_cons, enteredModes]
    cases taken : takenInto p e with
    | none =>
      rw [armException_notTaken taken first] at rest ⊢
      exact rest
    | some t =>
      have frame := entry_frame (h := h) taken
      constructor
      · intro m entered
        -- a mode entered again has its stack from the later entry
        by_cases again : m ∈ enteredModes h (armException h p e) es
        · rw [rest.carried m again, armException_sp first]
        · have here : m = t := by
            rcases List.mem_append.mp entered with now | later
            · exact List.mem_singleton.mp now
            · exact absurd later again
          have kept := rest.storage (registers m Reg.sp) (registers_ne_pc m Reg.sp (by decide))
            fun m' later => stack_apart (enteredModes_mem es _ later)
              fun same => again (same ▸ later)
          rw [kept, here, frame.stack]
      · intro k notPc apart
        have now := apart t (List.mem_append_left _ (List.mem_singleton_self t))
        rw [rest.storage k notPc fun m later => apart m (List.mem_append_right _ later),
          frame.storage k notPc now.1 now.2]
      · intro m apart
        rw [rest.spsr m fun later => apart (List.mem_append_right _ later),
          frame.spsr m fun same => apart
            (same ▸ List.mem_append_left _ (List.mem_singleton_self _))]
      · exact rest.mem.trans frame.mem

end Rows

/-- One exception changes its own bank only, where the stack pointer becomes the
one of the interrupted mode; after a row of them every mode entered has the
stack pointer the row began with, and the other modes have kept their banks. -/
theorem exception_entry_frame (h : Platform) :
    (∀ p e m, takenInto p e = some m → EntryFrame m p (armException h p e)) ∧
    ∀ p es, ArmException.reset ∉ es →
      StacksCarried (enteredModes h p es) p (es.foldl (armException h) p) :=
  ⟨fun _ _ _ taken => entry_frame taken, fun p es notReset => row_carried es p notReset⟩

def createdCore : ArmCore := armCreate lp64 (sampleCore 0#32 0#32) (repeatedWord 0#32)

theorem undefined_entry_replaces_stack :
    takenInto createdCore .undefinedInstruction = some Mode.und ∧
    createdCore.registersStorage (registers Mode.und Reg.sp) = 0x10500#32 ∧
    (armException lp64 createdCore .undefinedInstruction).registersStorage
      (registers Mode.und Reg.sp) = 0x10300#32 := by
  decide

theorem exception_entry_frame_created :
    EntryFrame Mode.und createdCore (armException lp64 createdCore .undefinedInstruction) ∧
    StacksCarried [Mode.und, Mode.fiq] createdCore
      ([ArmException.undefinedInstruction, .interrupt, .fastInterrupt].foldl (armException lp64)
        createdCore) :=
  ⟨(exception_entry_frame lp64).1 createdCore .undefinedInstruction Mode.und (by decide),
    (exception_entry_frame lp64).2 createdCore [.undefinedInstruction, .interrupt, .fastInterrupt]
      (by decide)⟩

end ArmSimulator
