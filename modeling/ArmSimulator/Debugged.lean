import ArmSimulator.Pgcd
import ArmSimulator.SingleRegister
import ArmSimulator.Target

/-! Programs under gdb: a continue request takes a program of the assembly machine to its
breakpoint, and a request for a register gets what the program has computed. -/
namespace ArmSimulator
open CString StepFunction

structure View.Stopped (be : Bool) (v : View) : Prop where
  aligned : v.pc.toNat % 4 = 0
  inside : v.pc.toNat + 4 ≤ v.mem.size
  word : IsBreakpoint (v.mem.read be .word v.pc)

section Breakpoints

variable {h : Platform} {p : ArmCore} {ins : Word} {v w : View}

theorem getBits_masked {mask word : Word} (masked : ins &&& mask = word) {hi lo : Nat}
    (covered : ∀ i < hi - lo + 1, mask.getLsbD (lo + i) = true) :
    getBits ins hi lo = getBits word hi lo := by
  apply BitVec.eq_of_getLsbD_eq
  intro i _
  rw [← masked, getLsbD_getBits, getLsbD_getBits, BitVec.getLsbD_and]
  by_cases inside : i < hi - lo + 1
  · rw [covered i inside, Bool.and_true]
  · rw [decide_eq_false inside, Bool.false_and, Bool.false_and]

theorem execute_breakpoint (be : Bool) (breakpoint : IsBreakpoint ins) :
    v.execute be ins = none := by
  have always : getBits ins 31 28 = 14#32 :=
    (getBits_masked breakpoint (by decide)).trans (by decide)
  have class3 : getBits ins 27 25 = 3#32 :=
    (getBits_masked breakpoint (by decide)).trans (by decide)
  have bit4 : getBits ins 4 4 = 1#32 := (getBits_masked breakpoint (by decide)).trans (by decide)
  have set : getBit ins 4 = true := by
    have bit := congrArg (BitVec.getLsbD · 0) bit4
    simp only [getLsbD_getBits] at bit
    rw [getBit_eq]
    exact bit
  have notTransfer : ¬View.PlainTransfer ins := by
    rintro ⟨class_, _⟩
    rw [class3, set] at class_
    exact absurd class_ (by decide)
  have notBlock : ¬View.PlainBlock ins := by
    rintro ⟨class_, _⟩
    exact absurd (class3.symm.trans class_) (by decide)
  have notPlain : ¬PlainOperand ins := by
    rintro (immediate | shift)
    · exact absurd (class3.symm.trans (handler_class.1 immediate)) (by decide)
    · exact absurd (class3.symm.trans (handler_class.2 shift.1)) (by decide)
  unfold View.execute
  rw [always, class3, show conditionSwitch v.cpsr 14#32 = .passed from rfl]
  exact (if_neg (by decide)).trans ((if_neg notTransfer).trans ((if_neg notBlock).trans
    (if_neg notPlain)))

theorem step_not_breakpoint (taken : p.view.step (p.order h) = some w) : ¬AtBreakpoint h p := by
  rintro ⟨ins, fetches, breakpoint⟩
  unfold View.step at taken
  split at taken
  · rename_i fetchable
    have same := (fetches_word (h := h) fetchable.1 fetchable.2).2.symm.trans fetches.2
    rw [show p.view.mem = p.mem from rfl, same, execute_breakpoint _ breakpoint] at taken
    cases taken
  · contradiction

theorem View.Stopped.here (stopped : p.view.Stopped (p.order h)) : AtBreakpoint h p :=
  ⟨_, fetches_word stopped.aligned stopped.inside, stopped.word⟩

end Breakpoints

section Runs

variable {h : Platform} {e : Locals} {g : Gdb} {n : Nat} {v : View}

/-- What a connection is after `n` steps of a program to `v`. -/
structure Arrived (g : Gdb) (n : Nat) (v : View) (s : Gdb) : Prop where
  view : s.arm.view = v
  aside : Aside n g.arm s.arm
  recorded : s.targetException = if n = 0 then g.targetException else .noException

theorem program_after (run : runs (View.step (g.arm.order h)) n g.arm.view = some v) :
    ∃ s, g.after h e n = .ok s ∧ Arrived g n v s := by
  induction n generalizing v with
  | zero =>
    obtain rfl := Option.some.inj run
    exact ⟨g, rfl, rfl, .refl _, rfl⟩
  | succ n ih =>
    obtain ⟨w, first, last⟩ := runs_split run
    rw [runs_one] at last
    obtain ⟨s, reached, view, aside, _⟩ := ih first
    have kept : g.arm.view.Kept s.arm.view := view ▸ runs_kept first
    rw [← view, ← kept.order h] at last
    obtain ⟨q, step, view', aside'⟩ := step_steps last
    have stepped : s.armStepOf h e n =
        .ok { s with arm := q, targetException := .noException } := by
      rw [Gdb.armStepOf, step]
    refine ⟨{ s with arm := q, targetException := .noException }, ?_, view', aside.trans aside',
      (if_neg n.succ_ne_zero).symm⟩
    simp only [Gdb.after, reached, bind, Except.bind, stepped]

theorem program_breakpoint (run : runs (View.step (g.arm.order h)) n g.arm.view = some v)
    (stopped : v.Stopped (g.arm.order h)) :
    ∃ s, FirstBreakpoint h e g n s ∧ Arrived g n v s := by
  obtain ⟨s, reached, arrived⟩ := program_after (e := e) run
  have kept : g.arm.view.Kept s.arm.view := arrived.view ▸ runs_kept run
  refine ⟨s, ⟨reached, ?_, ?_⟩, arrived⟩
  · rw [← arrived.view, ← kept.order h] at stopped
    exact stopped.here
  · intro k before t found
    obtain ⟨d, rfl⟩ := Nat.exists_eq_add_of_lt before
    rw [Nat.add_assoc] at run
    obtain ⟨w, first, rest⟩ := runs_split run
    obtain ⟨t', reached', arrived'⟩ := program_after (e := e) first
    obtain rfl := Except.ok.inj (found.symm.trans reached')
    obtain ⟨next, taken, _⟩ := Option.bind_eq_some_iff.mp rest
    have kept' : g.arm.view.Kept t.arm.view := arrived'.view ▸ runs_kept first
    rw [← arrived'.view, ← kept'.order h] at taken
    exact step_not_breakpoint taken

theorem program_readable (run : runs (View.step (g.arm.order h)) n g.arm.view = some v)
    (stopped : v.Stopped (g.arm.order h)) : Readable h g.arm := by
  cases n with
  | zero =>
    obtain rfl := Option.some.inj run
    obtain ⟨_, fetches, _⟩ := stopped.here
    exact fetches.1
  | succ n =>
    obtain ⟨w, taken, _⟩ := Option.bind_eq_some_iff.mp run
    unfold View.step at taken
    split at taken
    · rename_i fetchable
      exact (fetches_word fetchable.1 fetchable.2).1
    · contradiction

theorem continue_arrives {fuel : Nat} (data : List Byte)
    (run : runs (View.step (g.arm.order h)) n g.arm.view = some v)
    (stopped : v.Stopped (g.arm.order h)) (enough : n < fuel) :
    ∃ g', gdbDispatch h e fuel g (ch 'c') data = .ok g' ∧ Arrived g n v g' ∧
      g'.calls = g.calls ++ [.write (frame (stopText g'.targetException))] := by
  have dispatched : gdbDispatch h e fuel g (ch 'c') data =
      Gdb.contLoop h e fuel 0 e.instruction g := rfl
  obtain ⟨s, first, view, aside, recorded⟩ := program_breakpoint (e := e) run stopped
  have decided : Decided h g.arm e.instruction := .inl (program_readable run stopped)
  have reaches := contLoop_reaches first rfl (Nat.zero_le n) decided (by omega : n < 0 + fuel)
  obtain ⟨g', sent, replied⟩ := gdbSendStopReason_replies s
  refine ⟨g', dispatched.trans (reaches.trans sent), ⟨?_, ?_, ?_⟩, ?_⟩
  · rw [replied.arm, view]
  · rw [replied.arm]
    exact aside
  · rw [replied.targetException, recorded]
  · rw [replied.calls, replied.targetException, after_calls first.reached]

end Runs

/-- The breakpoint is where `pgcd` returns to, apart from the stack words of its calls. -/
structure ReturnsToGdb (be : Bool) (a b : Nat) (v : View) : Prop where
  aligned : (v.regs Reg.lr).toNat % 4 = 0
  inside : (v.regs Reg.lr).toNat + 4 ≤ v.mem.size
  space : (v.regs Reg.lr).toNat + 4 ≤ 2 ^ 32
  word : IsBreakpoint (v.mem.read be .word (v.regs Reg.lr))
  apart : (v.regs Reg.lr).toNat + 4 ≤ (v.regs Reg.sp).toNat + 4 - 4 * calls a b ∨
    (v.regs Reg.sp).toNat + 4 ≤ (v.regs Reg.lr).toNat

theorem Returned.stopped {be : Bool} {a b : Nat} {v w : View} (returned : Returned a b v w)
    (back : ReturnsToGdb be a b v) : w.Stopped be := by
  have word : w.mem.read be .word w.pc = v.mem.read be .word (v.regs Reg.lr) := by
    rw [returned.place]
    exact read_sameOutside returned.mem back.space back.apart
  constructor
  · rw [returned.place]
    exact back.aligned
  · rw [returned.place, returned.mem.size]
    exact back.inside
  · rw [word]
    exact back.word

theorem called_not_stopped {be : Bool} {base : Word} {a b : Nat} {v : View}
    (called : Called be base a b v) : ¬v.Stopped be := by
  intro stopped
  have first := called.loaded.words 0 (by decide)
  have word := stopped.word
  rw [called.place] at word
  rw [show base + BitVec.ofNat 32 (4 * 0) = base from BitVec.add_zero base] at first
  rw [first] at word
  exact absurd word (by decide)

/-- A continue request with rounds enough takes the program to its breakpoint and says so. What the
uninitialised locals hold changes nothing. -/
theorem continue_runs_program (h : Platform) (e : Locals) (fuel : Nat) (data : List Byte) (g : Gdb)
    (n : Nat) (v : View) (run : runs (View.step (g.arm.order h)) n g.arm.view = some v)
    (stopped : v.Stopped (g.arm.order h)) (enough : n < fuel) :
    ∃ g', gdbDispatch h e fuel g (ch 'c') data = .ok g' ∧ Arrived g n v g' ∧
      g'.calls = g.calls ++ [.write (frame (stopText g'.targetException))] :=
  continue_arrives data run stopped enough

theorem continue_runs_program_add : ∃ g',
    gdbDispatch lp64 sampleLocals 2 addGdb (ch 'c') [] = .ok g' ∧
      g'.arm.view.regs 0#4 = addGdb.arm.view.regs 0#4 + 1#32 ∧
      g'.calls = [.write (frame (stopText g'.targetException))] := by
  have taken : addGdb.arm.view.step (addGdb.arm.order lp64) =
      some (addGdb.arm.view.next.set 0#4 (addGdb.arm.view.regs 0#4 + 1#32)) := by
    have word : addGdb.arm.view.mem.read (addGdb.arm.order lp64) .word addGdb.arm.view.pc =
        0xE2800001#32 := by
      decide +kernel
    rw [View.step, if_pos (by decide), word]
    rfl
  have run := (runs_one addGdb.arm.view).trans taken
  obtain ⟨g', done, arrived, calls⟩ := continue_runs_program lp64 sampleLocals 2 [] addGdb 1 _ run
    ⟨by decide, by decide, by decide +kernel⟩ (by decide)
  refine ⟨g', done, ?_, calls⟩
  rw [arrived.view]
  rfl

/-- Called under gdb, `pgcd` is run by a continue request to the breakpoint at its return, and the
request for r2 is answered with the divisor. -/
theorem gcd_debugged (h : Platform) (e e' : Locals) (data rest : List Byte) (g : Gdb) (base : Word)
    (a b fuel' : Nat) (called : Called (g.arm.order h) base a b g.arm.view)
    (back : ReturnsToGdb (g.arm.order h) a b g.arm.view) :
    ∃ rounds, ∀ fuel, rounds ≤ fuel → ∃ g' g'',
      gdbDispatch h e fuel g (ch 'c') data = .ok g' ∧
      gdbDispatch h e' fuel' g' (ch 'p') (text "2" ++ 0#8 :: rest) = .ok g'' ∧
      g''.arm = g'.arm ∧ g''.calls = g.calls ++ [.write (frame (text "S05")),
        .write (frame (wordText h.bigEndianSimulator (BitVec.ofNat 32 (a.gcd b))))] := by
  obtain ⟨n, v, run, returned⟩ := pgcd_leads called
  have more : n ≠ 0 := by
    rintro rfl
    exact called_not_stopped called (Option.some.inj run ▸ returned.stopped back)
  refine ⟨n + 1, fun fuel enough => ?_⟩
  obtain ⟨g', done, arrived, calls⟩ := continue_arrives data run (returned.stopped back) enough
  have number : RegisterText (text "2") 2#4 := ⟨by decide, by decide, by decide⟩
  obtain ⟨g'', read, replied⟩ := readRegister_replies (h := h) number g' rest
  have value : armReadRegister g'.arm (numberRead 2#4) = BitVec.ofNat 32 (a.gcd b) := by
    have seen : armReadRegister g'.arm (numberRead 2#4) = g'.arm.view.regs 2#4 :=
      armReadRegister_of_ne (by decide)
    rw [seen, arrived.view, ← returned.result, BitVec.ofNat_toNat, BitVec.setWidth_eq]
  refine ⟨g', g'', done, read, replied.arm, ?_⟩
  rw [replied.calls, calls, arrived.recorded, if_neg more, value, List.append_assoc]
  rfl

def pgcdGdb : Gdb :=
  { sampleGdb with
    arm := { pgcdCore with
      mem := ⟨fun x => ((if x.toNat / 4 = 16 then 0xE7F000F0#32 else
        pgcdListing.getD (x.toNat / 4) 0#32) >>> (8 * (x.toNat % 4))).setWidth 8, 0x10000⟩ } }

theorem gcd_debugged_12_18 : ∃ fuel g' g'',
    gdbDispatch lp64 sampleLocals fuel pgcdGdb (ch 'c') [] = .ok g' ∧
      gdbDispatch lp64 sampleLocals 0 g' (ch 'p') (text "2" ++ [0#8]) = .ok g'' ∧
      g''.calls = [.write (frame (text "S05")), .write (frame (wordText true 6#32))] := by
  have three : calls 12 18 = 3 := by
    rw [calls_lt (by decide) (by decide), calls_gt (by decide) (by decide), calls_self]
  have loaded : Loaded (pgcdGdb.arm.order lp64) pgcdListing 0#32 pgcdGdb.arm.view.mem :=
    ⟨by decide, by decide, by decide, by decide +kernel⟩
  have called : Called (pgcdGdb.arm.order lp64) 0#32 12 18 pgcdGdb.arm.view :=
    ⟨by decide, loaded, by decide, by decide, by decide, by decide, by decide,
      three ▸ by decide, three ▸ by decide⟩
  have back : ReturnsToGdb (pgcdGdb.arm.order lp64) 12 18 pgcdGdb.arm.view :=
    ⟨by decide, by decide, by decide, by decide +kernel, three ▸ by decide⟩
  obtain ⟨rounds, all⟩ :=
    gcd_debugged lp64 sampleLocals sampleLocals [] [] pgcdGdb 0#32 12 18 0 called back
  obtain ⟨g', g'', done, read, _, calls⟩ := all rounds (Nat.le_refl rounds)
  exact ⟨rounds, g', g'', done, read, calls⟩

end ArmSimulator
