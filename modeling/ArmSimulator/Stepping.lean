import ArmSimulator.Connection

/-! A continue request against single steps: the processor and the answer are those of as many
step requests as it takes to the first breakpoint. -/
namespace ArmSimulator
open CString

/-- The locals of a step request that takes the place of step `k` of a continue request. -/
def Locals.atStep (e : Locals) (k : Nat) : Locals := { e with step := fun _ => e.step k }

section Steps

variable (h : Platform) (e : Locals) (data : List Byte) (fuel : Nat) (g : Gdb)

def Gdb.stepping : Nat → Answer
  | 0 => .ok g
  | n + 1 => do
    let g ← Gdb.stepping n
    gdbDispatch h (e.atStep n) fuel g (ch 's') data

/-- After `n` step requests the processor is at a breakpoint for the first time. -/
structure FirstStop (n : Nat) (s : Gdb) : Prop where
  reached : g.stepping h e data fuel n = .ok s
  here : AtBreakpoint h s.arm
  first : ∀ k < n, ∀ t, g.stepping h e data fuel k = .ok t → ¬AtBreakpoint h t.arm

theorem map_bind_target {x y : Answer} {f k : Gdb → Answer}
    (first : x.map Gdb.target = y.map Gdb.target)
    (next : ∀ g g' : Gdb, g.target = g'.target → (f g).map Gdb.target = (k g').map Gdb.target) :
    (x >>= f).map Gdb.target = (y >>= k).map Gdb.target := by
  cases x with
  | error fault =>
    cases y with
    | error fault' => exact first
    | ok g' => cases first
  | ok g =>
    cases y with
    | error fault => cases first
    | ok g' => exact next g g' (Except.ok.inj first)

theorem stepping_target (n : Nat) :
    (g.stepping h e data fuel n).map Gdb.target = (g.after h e n).map Gdb.target := by
  induction n with
  | zero => rfl
  | succ n ih =>
    refine map_bind_target ih fun g g' same => ?_
    have letter : gdbHandlers.lookup (ch 's') = some .step := by decide
    rw [gdbDispatch_target, letter, armStepOf_eq, same]
    have step : g'.target.stepOf h (e.atStep n) 0 = g'.target.stepOf h e n := rfl
    simp only [Target.request, step]
    cases g'.target.stepOf h e n <;> rfl

variable {h e data fuel g} {n : Nat} {s : Gdb}

theorem after_of_stepping (reached : g.stepping h e data fuel n = .ok s) :
    ∃ t, g.after h e n = .ok t ∧ t.target = s.target := by
  have target := stepping_target h e data fuel g n
  rw [reached] at target
  cases after : g.after h e n with
  | error fault =>
    rw [after] at target
    cases target
  | ok t =>
    rw [after] at target
    exact ⟨t, rfl, (Except.ok.inj target).symm⟩

theorem stepping_of_after {t : Gdb} (reached : g.after h e n = .ok t) (data : List Byte)
    (fuel : Nat) : ∃ s, g.stepping h e data fuel n = .ok s ∧ t.target = s.target := by
  have target := stepping_target h e data fuel g n
  rw [reached] at target
  cases stepped : g.stepping h e data fuel n with
  | error fault =>
    rw [stepped] at target
    cases target
  | ok s =>
    rw [stepped] at target
    exact ⟨s, rfl, (Except.ok.inj target).symm⟩

theorem FirstStop.breakpoint (stop : FirstStop h e data fuel g n s) :
    ∃ t, FirstBreakpoint h e g n t ∧ t.target = s.target := by
  obtain ⟨t, reached, same⟩ := after_of_stepping stop.reached
  have arm : t.arm = s.arm := congrArg Target.arm same
  refine ⟨t, ⟨reached, arm ▸ stop.here, ?_⟩, same⟩
  intro k before u found
  obtain ⟨v, stepped, same'⟩ := stepping_of_after found data fuel
  have arm' : u.arm = v.arm := congrArg Target.arm same'
  exact arm' ▸ stop.first k before v stepped

theorem FirstBreakpoint.stop {t : Gdb} (first : FirstBreakpoint h e g n t) (data : List Byte)
    (fuel : Nat) : ∃ s, FirstStop h e data fuel g n s ∧ t.target = s.target := by
  obtain ⟨s, stepped, same⟩ := stepping_of_after first.reached data fuel
  have arm : t.arm = s.arm := congrArg Target.arm same
  refine ⟨s, ⟨stepped, arm ▸ first.here, ?_⟩, same⟩
  intro k before v found
  obtain ⟨u, after, same'⟩ := after_of_stepping found
  have arm' : u.arm = v.arm := congrArg Target.arm same'
  exact arm' ▸ first.first k before u after

theorem step_answered {g' : Gdb} (done : gdbDispatch h e fuel g (ch 's') data = .ok g') :
    g'.calls = g.calls ++ [.write (frame (stopText g'.targetException))] := by
  obtain ⟨r, answered, link⟩ := request_of_dispatch done
  have letter : gdbHandlers.lookup (ch 's') = some .step := by decide
  rw [letter] at answered
  simp only [Target.request] at answered
  cases stepped : g.target.stepOf h e 0 with
  | error fault =>
    rw [stepped] at answered
    cases answered
  | ok t =>
    rw [stepped] at answered
    cases answered
    have recorded : g'.targetException = t.recorded := congrArg (fun l => l.target.recorded) link
    rw [recorded]
    exact congrArg Link.calls link

theorem stepping_calls (reached : g.stepping h e data fuel n = .ok s) :
    ∃ replies, s.calls = g.calls ++ replies ∧ replies.length = n ∧
      (0 < n → replies.getLast? = some (.write (frame (stopText s.targetException)))) := by
  induction n generalizing s with
  | zero =>
    obtain rfl := Except.ok.inj reached
    exact ⟨[], (List.append_nil _).symm, rfl, fun positive => absurd positive (Nat.lt_irrefl 0)⟩
  | succ n ih =>
    cases before : g.stepping h e data fuel n with
    | error fault =>
      rw [Gdb.stepping, before] at reached
      cases reached
    | ok t =>
      rw [Gdb.stepping, before] at reached
      obtain ⟨replies, calls, length, -⟩ := ih before
      have stepped : gdbDispatch h (e.atStep n) fuel t (ch 's') data = .ok s := reached
      have last := step_answered stepped
      rw [calls, List.append_assoc] at last
      exact ⟨_, last, by simp [length], fun _ => by simp⟩

end Steps

/-- A continue request ends only where step requests, one after the other, come to a breakpoint, and
there it does if its rounds are enough; it leaves the processor and the recorded exception as they
do, and answers once what the last of them answers. -/
theorem continue_is_stepping (h : Platform) (e : Locals) (fuel : Nat) (data : List Byte) (g : Gdb)
    (decided : Readable h g.arm ∨ ¬IsBreakpoint e.instruction) :
    (∀ n s, FirstStop h e data fuel g n s → n < fuel →
      ∃ g', gdbDispatch h e fuel g (ch 'c') data = .ok g' ∧ g'.target = s.target ∧
        ∃ reply replies, g'.calls = g.calls ++ [reply] ∧ s.calls = g.calls ++ replies ∧
          replies.length = n ∧ (0 < n → replies.getLast? = some reply)) ∧
    ∀ g', gdbDispatch h e fuel g (ch 'c') data = .ok g' → ∃ n s, FirstStop h e data fuel g n s := by
  have dispatched : gdbDispatch h e fuel g (ch 'c') data =
      Gdb.contLoop h e fuel 0 e.instruction g := rfl
  constructor
  · intro n s stop rounds
    obtain ⟨t, first, same⟩ := stop.breakpoint
    have reaches := contLoop_reaches first rfl (Nat.zero_le n) decided (by omega : n < 0 + fuel)
    obtain ⟨g', sent, replied⟩ := gdbSendStopReason_replies t
    have recorded : t.targetException = s.targetException := congrArg Target.recorded same
    obtain ⟨replies, calls, length, last⟩ := stepping_calls stop.reached
    refine ⟨g', dispatched.trans (reaches.trans sent), ?_, _, replies,
      replied.calls.trans (congrArg (· ++ _) (after_calls first.reached)), calls, length, ?_⟩
    · rw [← same, Gdb.target, replied.arm, replied.targetException]
      rfl
    · rw [recorded]
      exact last
  · intro g' done
    obtain ⟨n, t, first, -⟩ := contLoop_returns (g := g) (k := 0) rfl
      (fun j before => absurd before (Nat.not_lt_zero j)) decided (dispatched.symm.trans done)
    obtain ⟨s, stop, -⟩ := first.stop data fuel
    exact ⟨n, s, stop⟩

theorem continue_is_stepping_add : ∃ g' s reply,
    gdbDispatch lp64 sampleLocals 2 addGdb (ch 'c') [] = .ok g' ∧
      addGdb.stepping lp64 sampleLocals [] 2 1 = .ok s ∧ g'.target = s.target ∧
      g'.calls = [reply] ∧ s.calls = [reply] := by
  obtain ⟨t, first, -⟩ := addGdb_first
  obtain ⟨s, stop, -⟩ := first.stop [] 2
  obtain ⟨g', done, same, reply, replies, once, calls, length, last⟩ :=
    (continue_is_stepping lp64 sampleLocals 2 [] addGdb (.inr (by decide))).1 1 s stop (by decide)
  obtain ⟨r, rfl⟩ := List.length_eq_one_iff.mp length
  obtain rfl := Option.some.inj (last (by decide))
  exact ⟨g', s, r, done, stop.reached, same, once, calls⟩

end ArmSimulator
