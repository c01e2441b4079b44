import ArmSimulator.Replies

namespace ArmSimulator
open CString Outcomes

def IsBreakpoint (ins : Word) : Prop := ins &&& 0xFFF000F0#32 = 0xE7F000F0#32

instance (ins : Word) : Decidable (IsBreakpoint ins) := inferInstanceAs (Decidable (_ = _))

section Runs

variable (h : Platform) (e : Locals) (g : Gdb)

def Readable (p : ArmCore) : Prop := outside h p (fetchAddress p) 4 = false

def AtBreakpoint (p : ArmCore) : Prop := ∃ ins, Fetches h p ins ∧ IsBreakpoint ins

def Gdb.after : Nat → Answer
  | 0 => .ok g
  | k + 1 => do
    let g ← Gdb.after k
    g.armStepOf h e k

/-- After `k` steps the processor is at a breakpoint for the first time. -/
structure FirstBreakpoint (k : Nat) (s : Gdb) : Prop where
  reached : g.after h e k = .ok s
  here : AtBreakpoint h s.arm
  first : ∀ j < k, ∀ t, g.after h e j = .ok t → ¬AtBreakpoint h t.arm

variable {h e g} {k n : Nat} {s t : Gdb}

theorem FirstBreakpoint.unique (one : FirstBreakpoint h e g k s)
    (other : FirstBreakpoint h e g n t) :
    s = t := by
  rcases Nat.lt_trichotomy k n with before | same | behind
  · exact absurd one.here (other.first k before s one.reached)
  · exact Except.ok.inj ((same ▸ one.reached).symm.trans other.reached)
  · exact absurd other.here (one.first n behind t other.reached)

theorem after_calls (reached : g.after h e k = .ok s) : s.calls = g.calls := by
  have kept (k : Nat) : Ends (g.after h e k) (fun _ => True) fun s => s.calls = g.calls := by
    induction k with
    | zero => rfl
    | succ k ih =>
      apply ih.bind
      intro t same
      exact (armStepOf_ends h e t k).mono (fun _ _ => trivial) fun _ stepped => stepped.trans same
  have ends := kept k
  rw [reached] at ends
  exact ends

theorem lookAhead_readable {p : ArmCore} (readable : Readable h p) (instruction : Word) :
    (armReadWord h p (fetchAddress p) instruction).1 = p.wordAt h (fetchAddress p) := by
  rw [armReadWord_eq, readable]
  rfl

theorem lookAhead_unreadable {p : ArmCore} (unreadable : ¬Readable h p) (instruction : Word) :
    (armReadWord h p (fetchAddress p) instruction).1 = instruction := by
  rw [armReadWord_eq, if_pos (Bool.eq_true_of_not_eq_false unreadable)]

theorem atBreakpoint_iff {p : ArmCore} (readable : Readable h p) :
    AtBreakpoint h p ↔ IsBreakpoint (p.wordAt h (fetchAddress p)) := by
  constructor
  · rintro ⟨ins, ⟨-, rfl⟩, breakpoint⟩
    exact breakpoint
  · exact fun breakpoint => ⟨_, ⟨readable, rfl⟩, breakpoint⟩

/-- The local holds no breakpoint that was not read, so the next decision is about memory. -/
def Decided (h : Platform) (p : ArmCore) (instruction : Word) : Prop :=
  Readable h p ∨ ¬IsBreakpoint instruction

theorem lookAhead_iff {p : ArmCore} {instruction : Word} (decided : Decided h p instruction) :
    IsBreakpoint (armReadWord h p (fetchAddress p) instruction).1 ↔ AtBreakpoint h p := by
  by_cases readable : Readable h p
  · rw [lookAhead_readable readable, atBreakpoint_iff readable]
  · rw [lookAhead_unreadable readable]
    refine iff_of_false (decided.resolve_left readable) ?_
    rintro ⟨ins, fetches, -⟩
    exact readable fetches.1

theorem contLoop_returns {fuel : Nat} {instruction : Word} {g' : Gdb}
    (reached : g.after h e k = .ok s)
    (before : ∀ j < k, ∀ t, g.after h e j = .ok t → ¬AtBreakpoint h t.arm)
    (decided : Decided h s.arm instruction)
    (returned : Gdb.contLoop h e fuel k instruction s = .ok g') :
    ∃ n t, FirstBreakpoint h e g n t ∧ gdbSendStopReason t = .ok g' := by
  induction fuel generalizing k s instruction with
  | zero => cases returned
  | succ fuel ih =>
    have look := lookAhead_iff decided
    simp only [Gdb.contLoop] at returned
    split at returned
    · rename_i breakpoint
      exact ⟨k, s, ⟨reached, look.mp breakpoint, before⟩, returned⟩
    · rename_i other
      have notHere : ¬AtBreakpoint h s.arm := fun here => other (look.mpr here)
      cases stepped : s.armStepOf h e k with
      | error fault =>
        rw [stepped] at returned
        cases returned
      | ok next =>
        rw [stepped] at returned
        have reached' : g.after h e (k + 1) = .ok next := by
          simp only [Gdb.after, reached, bind, Except.bind, stepped]
        -- the look-ahead has read memory by now, so the next round does not depend on the local
        refine ih reached' ?_ (.inr other) returned
        intro j less t found
        rcases Nat.lt_succ_iff_lt_or_eq.mp less with earlier | rfl
        · exact before j earlier t found
        · obtain rfl := Except.ok.inj (reached.symm.trans found)
          exact notHere

theorem after_earlier (reached : g.after h e n = .ok t) (within : k ≤ n) :
    ∃ s, g.after h e k = .ok s := by
  induction n generalizing t with
  | zero =>
    obtain rfl : k = 0 := Nat.le_zero.mp within
    exact ⟨t, reached⟩
  | succ n ih =>
    rcases Nat.lt_or_eq_of_le within with before | rfl
    · cases earlier : g.after h e n with
      | error fault =>
        rw [Gdb.after, earlier] at reached
        cases reached
      | ok s => exact ih earlier (Nat.le_of_lt_succ before)
    · exact ⟨t, reached⟩

theorem contLoop_reaches {instruction : Word} (first : FirstBreakpoint h e g n t)
    (reached : g.after h e k = .ok s) (within : k ≤ n) (decided : Decided h s.arm instruction)
    {fuel : Nat} (rounds : n < k + fuel) :
    Gdb.contLoop h e fuel k instruction s = gdbSendStopReason t := by
  induction fuel generalizing k s instruction with
  | zero => omega
  | succ fuel ih =>
    have look := lookAhead_iff decided
    simp only [Gdb.contLoop]
    rcases Nat.lt_or_eq_of_le within with before | rfl
    · have other : ¬IsBreakpoint (armReadWord h s.arm (fetchAddress s.arm) instruction).1 :=
        fun breakpoint => first.first k before s reached (look.mp breakpoint)
      obtain ⟨next, reached'⟩ := after_earlier first.reached (Nat.succ_le_of_lt before)
      have stepped : s.armStepOf h e k = .ok next := by
        have onward := reached'
        rw [Gdb.after, reached] at onward
        exact onward
      refine (if_neg other).trans ?_
      rw [stepped]
      exact ih reached' before (.inr other) (by omega)
    · obtain rfl := Except.ok.inj (reached.symm.trans first.reached)
      exact if_pos (look.mpr first.here)

end Runs

section Answers

def stopText : ArmException → List Byte
  | .undefinedInstruction => text "S04"
  | .prefetchAbort => text "S10"
  | .dataAbort => text "S10"
  | _ => text "S05"

theorem gdbSendStopReason_replies (g : Gdb) :
    ∃ g', gdbSendStopReason g = .ok g' ∧ Replied g (stopText g.targetException) g' := by
  have sends : gdbSendStopReason g = gdbSendData g (stopText g.targetException) := by
    cases recorded : g.targetException <;> simp only [gdbSendStopReason, stopText, recorded]
  have fits (result : ArmException) :
      0#8 ∉ stopText result ∧ (stopText result).length + 5 ≤ maxPacketSize := by
    cases result <;> decide
  rw [sends]
  exact gdbSendData_replies (fits _).1 (fits _).2

def NotTrap (result : ArmException) : Prop :=
  result = .undefinedInstruction ∨ result = .prefetchAbort ∨ result = .dataAbort

instance (result : ArmException) : Decidable (NotTrap result) :=
  inferInstanceAs (Decidable (_ ∨ _ ∨ _))

theorem stopText_trap_iff (result : ArmException) :
    stopText result = text "S05" ↔ ¬NotTrap result := by
  unfold NotTrap
  cases result <;> decide

end Answers

/-- The request ended at the first breakpoint of the run, before its word was executed, and was
answered with the trap. -/
def StopsWithTrap (h : Platform) (e : Locals) (g g' : Gdb) : Prop :=
  ∃ n s, FirstBreakpoint h e g n s ∧ g'.arm = s.arm ∧
    g'.calls = g.calls ++ [.write (frame (text "S05"))]

section Continue

variable {h : Platform} {e : Locals} {g g' : Gdb} {fuel n : Nat} {s : Gdb}

theorem stopsWithTrap_iff_text (first : FirstBreakpoint h e g n s)
    (sent : gdbSendStopReason s = .ok g') :
    StopsWithTrap h e g g' ↔ ¬NotTrap s.targetException := by
  obtain ⟨g'', sent', replied⟩ := gdbSendStopReason_replies s
  obtain rfl := Except.ok.inj (sent.symm.trans sent')
  rw [← stopText_trap_iff]
  have calls := after_calls first.reached
  constructor
  · rintro ⟨m, t, -, -, answered⟩
    rw [replied.calls, calls] at answered
    have same : frame (stopText s.targetException) = frame (text "S05") := by simpa using answered
    exact frame_inj same
  · intro trap
    exact ⟨n, s, first, replied.arm, by rw [replied.calls, calls, trap]⟩

theorem cont_undecided (undecided : ¬Decided h g.arm e.instruction)
    (returned : g.cont h e fuel = .ok g') : ¬Readable h g.arm ∧ g'.arm = g.arm := by
  rw [Decided, not_or, not_not] at undecided
  obtain ⟨unreadable, stale⟩ := undecided
  refine ⟨unreadable, ?_⟩
  cases fuel with
  | zero => cases returned
  | succ fuel =>
    have look := lookAhead_unreadable unreadable e.instruction
    have stops : IsBreakpoint (armReadWord h g.arm (fetchAddress g.arm) e.instruction).1 := by
      rw [look]
      exact stale
    simp only [Gdb.cont, Gdb.contLoop] at returned
    have sent := (if_pos stops).symm.trans returned
    obtain ⟨g'', sent', replied⟩ := gdbSendStopReason_replies g
    obtain rfl := Except.ok.inj (sent.symm.trans sent')
    exact replied.arm

end Continue

theorem cont_stops_iff (h : Platform) (e : Locals) (fuel : Nat) (g g' : Gdb)
    (returned : g.cont h e fuel = .ok g') :
    StopsWithTrap h e g g' ↔ (Readable h g.arm ∨ ¬IsBreakpoint e.instruction) ∧
      ∀ n s, FirstBreakpoint h e g n s → ¬NotTrap s.targetException := by
  by_cases decided : Decided h g.arm e.instruction
  · obtain ⟨n, s, first, sent⟩ := contLoop_returns (g := g) (k := 0) rfl (by simp) decided returned
    rw [stopsWithTrap_iff_text first sent]
    constructor
    · intro trap
      refine ⟨decided, ?_⟩
      intro m t other
      exact first.unique other ▸ trap
    · exact fun all => all.2 n s first
  · obtain ⟨unreadable, same⟩ := cont_undecided decided returned
    refine iff_of_false ?_ fun all => decided all.1
    rintro ⟨n, s, first, arm, -⟩
    obtain ⟨ins, fetches, -⟩ := first.here
    rw [← arm, same] at fetches
    exact unreadable fetches.1

def breakpointGdb (targetException : ArmException) : Gdb :=
  { sampleGdb with
    arm := { sampleCore 0x13#32 0#32 with mem := firstWord lp64 0xE7F000F0#32 }
    targetException := targetException }

theorem breakpointGdb_first (e : Locals) (targetException : ArmException) :
    FirstBreakpoint lp64 e (breakpointGdb targetException) 0 (breakpointGdb targetException) where
  reached := rfl
  here := by
    have littleEndian : getBit 0x13#32 Psr.e = false := by decide
    exact ⟨0xE7F000F0#32, fetches_firstWord rfl littleEndian rfl, by decide⟩
  first := by simp

def addGdb : Gdb :=
  { sampleGdb with
    arm := { sampleCore 0x10#32 0#32 with
      mem := ⟨fun x => ([0xE2800001#32, 0xE7F000F0#32].getD (x.toNat / 4) 0#32 >>>
        (8 * (x.toNat % 4))).setWidth 8, 0x10000⟩ } }

theorem addGdb_first : ∃ s, FirstBreakpoint lp64 sampleLocals addGdb 1 s ∧
    s.targetException = .noException := by
  have stepped : addGdb.armStepOf lp64 sampleLocals 0 = .ok { addGdb with
      arm := (armStep lp64 0#32 addGdb.arm).1, targetException := .noException } := by
    have result : (armStep lp64 0#32 addGdb.arm).2 = .returned .noException := by decide +kernel
    rw [Gdb.armStepOf, show sampleLocals.step 0 = 0#32 from rfl]
    generalize armStep lp64 0#32 addGdb.arm = r at result ⊢
    obtain ⟨arm, outcome⟩ := r
    obtain rfl : outcome = _ := result
    rfl
  have here : Fetches lp64 (armStep lp64 0#32 addGdb.arm).1 0xE7F000F0#32 :=
    ⟨by decide +kernel, by decide +kernel⟩
  refine ⟨_, ⟨stepped, ⟨_, here, by decide⟩, ?_⟩, rfl⟩
  intro k before t reached breakpoint
  obtain rfl : k = 0 := Nat.lt_one_iff.mp before
  obtain rfl := Except.ok.inj reached
  obtain ⟨ins, fetches, stops⟩ := breakpoint
  have word : addGdb.arm.wordAt lp64 (fetchAddress addGdb.arm) = 0xE2800001#32 := by decide +kernel
  rw [← fetches.2, word] at stops
  exact absurd stops (by decide)

theorem cont_stops_after_add : ∃ g', addGdb.cont lp64 sampleLocals 2 = .ok g' ∧
    StopsWithTrap lp64 sampleLocals addGdb g' := by
  obtain ⟨s, first, recorded⟩ := addGdb_first
  obtain ⟨g', sent, -⟩ := gdbSendStopReason_replies s
  have returned : addGdb.cont lp64 sampleLocals 2 = .ok g' :=
    (contLoop_reaches first rfl (Nat.zero_le 1) (.inr (by decide)) (by decide)).trans sent
  refine ⟨g', returned, ?_⟩
  apply (cont_stops_iff lp64 sampleLocals 2 addGdb g' returned).mpr
  refine ⟨.inr (by decide), ?_⟩
  intro n t other
  obtain rfl := first.unique other
  rw [recorded]
  decide

theorem cont_reports_old_exception :
    ¬∀ (h : Platform) (e : Locals) (fuel : Nat) (g g' : Gdb), g.cont h e fuel = .ok g' →
      StopsWithTrap h e g g' := by
  intro claimed
  have first := breakpointGdb_first sampleLocals .undefinedInstruction
  obtain ⟨g', sent, -⟩ := gdbSendStopReason_replies (breakpointGdb .undefinedInstruction)
  have returned : (breakpointGdb .undefinedInstruction).cont lp64 sampleLocals 1 = .ok g' :=
    (contLoop_reaches first rfl (Nat.zero_le 0) (.inr (by decide)) (by decide)).trans sent
  have stops := claimed lp64 sampleLocals 1 _ g' returned
  exact (stopsWithTrap_iff_text first sent).mp stops (.inl rfl)

end ArmSimulator
