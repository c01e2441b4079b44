import Mathlib.Tactic.Common

/-! Machines given by a partial step function, and the rules of total
correctness for them: `Leads step Q s` says that from `s` the machine gets, in
finitely many steps none of which is stuck, to a state where `Q` holds. -/
namespace StepFunction

variable {State : Type*}

def runs (step : State → Option State) : Nat → State → Option State
  | 0, s => some s
  | n + 1, s => (step s).bind (runs step n)

variable {step : State → Option State} {s t u : State} {m n : Nat}

theorem runs_succ (n : Nat) (taken : step s = some t) : runs step (n + 1) s = runs step n t := by
  rw [runs, taken, Option.bind_some]

theorem runs_one (s : State) : runs step 1 s = step s := Option.bind_fun_some _

theorem runs_add (first : runs step m s = some t) : runs step (m + n) s = runs step n t := by
  induction m generalizing s with
  | zero => rw [Nat.zero_add, Option.some.inj first]
  | succ m ih =>
    obtain ⟨next, taken, rest⟩ := Option.bind_eq_some_iff.mp first
    rw [Nat.add_right_comm, runs_succ _ taken, ih rest]

theorem runs_split (run : runs step (m + n) s = some u) :
    ∃ t, runs step m s = some t ∧ runs step n t = some u := by
  induction m generalizing s with
  | zero => exact ⟨s, rfl, Nat.zero_add n ▸ run⟩
  | succ m ih =>
    rw [Nat.add_right_comm] at run
    obtain ⟨next, taken, rest⟩ := Option.bind_eq_some_iff.mp run
    obtain ⟨t, first, last⟩ := ih rest
    exact ⟨t, (runs_succ m taken).trans first, last⟩

/-- What each step of a machine keeps, its runs keep. -/
theorem runs_invariant {Inv : State → Prop} (keeps : ∀ s t, step s = some t → Inv s → Inv t)
    (start : Inv s) (run : runs step n s = some t) : Inv t := by
  induction n generalizing s with
  | zero => exact Option.some.inj run ▸ start
  | succ n ih =>
    obtain ⟨next, taken, rest⟩ := Option.bind_eq_some_iff.mp run
    exact ih (keeps s next taken start) rest

def Leads (step : State → Option State) (Q : State → Prop) (s : State) : Prop :=
  ∃ n t, runs step n s = some t ∧ Q t

namespace Leads

variable {Q R : State → Prop}

theorem here (holds : Q s) : Leads step Q s := ⟨0, s, rfl, holds⟩

theorem next (taken : step s = some t) (leads : Leads step Q t) : Leads step Q s := by
  obtain ⟨n, u, run, holds⟩ := leads
  exact ⟨n + 1, u, (runs_succ n taken).trans run, holds⟩

theorem trans (leads : Leads step Q s) (onward : ∀ t, Q t → Leads step R t) : Leads step R s := by
  obtain ⟨m, t, first, mid⟩ := leads
  obtain ⟨n, u, second, holds⟩ := onward t mid
  exact ⟨m + n, u, (runs_add first).trans second, holds⟩

end Leads

end StepFunction
