import Mathlib.Logic.Function.Basic
import Mathlib.Logic.Relation

/-! Threads with one mutex. A thread takes steps on what it owns, and steps on the
shared state while it holds the mutex. Whatever the interleaving, the sections under
the mutex are as good as indivisible. -/
namespace Mutex

universe u v w

/-- A part of a thread: a step on its own state, or the steps between a lock and its unlock. A
step without a result is one that does not come to its end. -/
inductive Block (Shared : Type u) (Own : Type v) where
  | own (step : Own → Option Own)
  | locked (steps : List (Shared × Own → Option (Shared × Own)))

variable {ι : Type w} {Shared : Type u} {Own : ι → Type v}

/-- The threads with what each has still to do, and the holder of the mutex with the steps it
has still to take before it unlocks. -/
structure Threads (ι : Type w) (Shared : Type u) (Own : ι → Type v) where
  shared : Shared
  own : ∀ i, Own i
  todo : ∀ i, List (Block Shared (Own i))
  holder : Option ((i : ι) × List (Shared × Own i → Option (Shared × Own i)))

def runSteps {State : Type*} (steps : List (State → Option State)) (s : State) : Option State :=
  steps.foldlM (fun s step => step s) s

@[simp] theorem runSteps_cons {State : Type*} (step : State → Option State)
    (steps : List (State → Option State)) (s : State) :
    runSteps (step :: steps) s = (step s).bind (runSteps steps) := rfl

variable [DecidableEq ι]

namespace Threads

def update (c : Threads ι Shared Own) (i : ι) (shared : Shared) (own : Own i) :
    Threads ι Shared Own :=
  { c with shared := shared, own := Function.update c.own i own }

def goOn (c : Threads ι Shared Own) (i : ι) (rest : List (Block Shared (Own i))) :
    Threads ι Shared Own :=
  { c with todo := Function.update c.todo i rest }

section Fields

variable (c : Threads ι Shared Own) (i : ι) {j : ι} (shared : Shared) (o : Own i)
  (rest : List (Block Shared (Own i)))

@[simp] theorem update_own : (c.update i shared o).own i = o := Function.update_self i o c.own

theorem update_other (other : j ≠ i) : (c.update i shared o).own j = c.own j :=
  Function.update_of_ne other o c.own

@[simp] theorem update_todo : (c.update i shared o).todo = c.todo := rfl

@[simp] theorem goOn_todo : (c.goOn i rest).todo i = rest := by
  simp only [goOn, Function.update_self]

theorem goOn_other (other : j ≠ i) : (c.goOn i rest).todo j = c.todo j := by
  simp only [goOn, Function.update_of_ne other]

end Fields

end Threads

inductive Step : Threads ι Shared Own → Threads ι Shared Own → Prop
  | own {c : Threads ι Shared Own} {i step rest o} (next : c.todo i = .own step :: rest)
      (free : ∀ j steps, c.holder = some ⟨j, steps⟩ → j ≠ i) (taken : step (c.own i) = some o) :
      Step c ((c.goOn i rest).update i c.shared o)
  | lock {c : Threads ι Shared Own} {i steps rest} (next : c.todo i = .locked steps :: rest)
      (free : c.holder = none) : Step c { c.goOn i rest with holder := some ⟨i, steps⟩ }
  | inside {c : Threads ι Shared Own} {i step steps s o} (held : c.holder = some ⟨i, step :: steps⟩)
      (taken : step (c.shared, c.own i) = some (s, o)) :
      Step c { c.update i s o with holder := some ⟨i, steps⟩ }
  | unlock {c : Threads ι Shared Own} {i} (held : c.holder = some ⟨i, []⟩) :
      Step c { c with holder := none }

inductive Serial : Threads ι Shared Own → Threads ι Shared Own → Prop
  | own {c : Threads ι Shared Own} {i step rest o} (next : c.todo i = .own step :: rest)
      (taken : step (c.own i) = some o) : Serial c ((c.goOn i rest).update i c.shared o)
  | locked {c : Threads ι Shared Own} {i steps rest s o} (next : c.todo i = .locked steps :: rest)
      (taken : runSteps steps (c.shared, c.own i) = some (s, o)) :
      Serial c ((c.goOn i rest).update i s o)

/-- `d` is `c` after the holder of the mutex has gone on to its unlock. -/
inductive Completes : Threads ι Shared Own → Threads ι Shared Own → Prop
  | free {c : Threads ι Shared Own} (free : c.holder = none) : Completes c c
  | held {c : Threads ι Shared Own} {i steps s o} (held : c.holder = some ⟨i, steps⟩)
      (taken : runSteps steps (c.shared, c.own i) = some (s, o)) :
      Completes c { c.update i s o with holder := none }

variable {c c' d : Threads ι Shared Own}

theorem Completes.of_free (completes : Completes c d) (free : c.holder = none) : d = c := by
  cases completes with
  | free _ => rfl
  | held held _ => rw [free] at held; cases held

theorem Completes.of_held {i : ι} {steps} (completes : Completes c d)
    (held : c.holder = some ⟨i, steps⟩) :
    ∃ s o, runSteps steps (c.shared, c.own i) = some (s, o) ∧
      d = { c.update i s o with holder := none } := by
  cases completes with
  | free free => rw [free] at held; cases held
  | held held' taken =>
    rw [held] at held'
    cases held'
    exact ⟨_, _, taken, rfl⟩

/-- A step of a thread is a whole block of it, or the holder's business. -/
theorem Completes.step (step : Step c c') (completes : Completes c' d) :
    ∃ b, Completes c b ∧ (b = d ∨ Serial b d) := by
  cases step with
  | @own i f rest o next free taken =>
    cases completes with
    | free unheld => exact ⟨c, .free unheld, .inr (.own next taken)⟩
    | @held j steps s p held ran =>
      have other : j ≠ i := free j steps held
      -- the two threads own different states, so the step can come behind the section
      have before : runSteps steps (c.shared, c.own j) = some (s, p) := by
        have ran := ran
        rw [Threads.update_other _ _ _ _ other] at ran
        exact ran
      have mine : f (({ c.update j s p with holder := none } : Threads ι Shared Own).own i) =
          some o :=
        (congrArg f (c.update_other j s p other.symm)).trans taken
      have apart : ({ ((c.goOn i rest).update i c.shared o).update j s p with holder := none } :
          Threads ι Shared Own) =
          (({ c.update j s p with holder := none } : Threads ι Shared Own).goOn i rest).update i
          s o := by
        simp only [Threads.update, Threads.goOn, Function.update_comm other]
      refine ⟨_, .held held before, .inr ?_⟩
      rw [apart]
      exact .own next mine
  | @lock i steps rest next free =>
    obtain ⟨s, o, ran, rfl⟩ := completes.of_held rfl
    -- the lock stands for the whole section
    have whole : ({ ({ c.goOn i rest with holder := some ⟨i, steps⟩ } : Threads ι Shared Own).update
        i s o with holder := none } : Threads ι Shared Own) = (c.goOn i rest).update i s o := by
      simp only [Threads.update, Threads.goOn, free]
    refine ⟨c, .free free, .inr ?_⟩
    rw [whole]
    exact .locked next ran
  | @inside i f steps s o held taken =>
    obtain ⟨s', o', ran, rfl⟩ := completes.of_held rfl
    have rest : runSteps steps (s, o) = some (s', o') := by
      simpa only [Threads.update, Function.update_self] using ran
    refine ⟨_, .held held (by rw [runSteps_cons, taken, Option.bind_some, rest]), .inl ?_⟩
    simp only [Threads.update, Function.update_idem]
  | unlock held =>
    obtain rfl := completes.of_free rfl
    refine ⟨_, .held held rfl, .inl ?_⟩
    simp only [Threads.update, Function.update_eq_self]

theorem completes_run (run : Relation.ReflTransGen Step c c') (free : c'.holder = none) :
    ∃ d, Completes c d ∧ Relation.ReflTransGen Serial d c' := by
  -- from the end, where nobody holds the mutex
  induction run using Relation.ReflTransGen.head_induction_on with
  | refl => exact ⟨c', .free free, .refl⟩
  | head step _ ih =>
    obtain ⟨d, completes, serial⟩ := ih
    obtain ⟨b, before, same | first⟩ := completes.step step
    · exact ⟨d, same ▸ before, serial⟩
    · exact ⟨b, before, .head first serial⟩

/-- Whenever the mutex is free, the threads are where whole blocks, one after the other, take
them. -/
theorem serialised (run : Relation.ReflTransGen Step c c') (start : c.holder = none)
    (free : c'.holder = none) : Relation.ReflTransGen Serial c c' := by
  obtain ⟨d, completes, serial⟩ := completes_run run free
  exact completes.of_free start ▸ serial

end Mutex
