import Mathlib.Logic.Basic

/-! Computations that call operations of their host. What they give depends on the
host through the operations they reach only: two hosts that agree on these cannot
be told apart. -/
namespace HostCalls

/-- A computation with calls of operations `Op` that the host answers with a `Res`. -/
inductive Calls (Op Res α : Type) where
  | done (result : α)
  | call (op : Op) (rest : Res → Calls Op Res α)

namespace Calls

variable {Op Res α β : Type}

def bind : Calls Op Res α → (α → Calls Op Res β) → Calls Op Res β
  | done result, next => next result
  | call op rest, next => call op fun answer => (rest answer).bind next

instance : Monad (Calls Op Res) where
  pure := done
  bind := bind

def ask (op : Op) : Calls Op Res Res := call op done

def run (host : Op → Res) : Calls Op Res α → α
  | done result => result
  | call op rest => (rest (host op)).run host

def trace (host : Op → Res) : Calls Op Res α → List Op
  | done _ => []
  | call op rest => op :: (rest (host op)).trace host

def Within (ok : Op → Prop) (host : Op → Res) (c : Calls Op Res α) : Prop :=
  ∀ op ∈ c.trace host, ok op

section Rules

variable (host : Op → Res)

@[simp] theorem run_bind (c : Calls Op Res α) (next : α → Calls Op Res β) :
    (c >>= next).run host = (next (c.run host)).run host := by
  induction c with
  | done result => rfl
  | call op rest ih => exact ih (host op)

theorem trace_bind (c : Calls Op Res α) (next : α → Calls Op Res β) :
    (c >>= next).trace host = c.trace host ++ (next (c.run host)).trace host := by
  induction c with
  | done result => rfl
  | call op rest ih => exact congrArg (op :: ·) (ih (host op))

variable (ok : Op → Prop)

@[simp] theorem within_pure (result : α) : Within ok host (pure result : Calls Op Res α) := by
  intro op called
  cases called

@[simp] theorem within_ask (op : Op) : Within ok host (ask op : Calls Op Res Res) ↔ ok op :=
  List.forall_mem_singleton

@[simp] theorem within_bind (c : Calls Op Res α) (next : α → Calls Op Res β) :
    Within ok host (c >>= next) ↔ Within ok host c ∧ Within ok host (next (c.run host)) := by
  rw [Within, trace_bind, List.forall_mem_append]
  rfl

end Rules

section Agreement

variable {ok : Op → Prop} {host host' : Op → Res}

theorem agree (c : Calls Op Res α) (same : ∀ op ∈ c.trace host, host' op = host op) :
    c.run host' = c.run host ∧ c.trace host' = c.trace host := by
  induction c with
  | done result => exact ⟨rfl, rfl⟩
  | call op rest ih =>
    have first : host' op = host op := same op List.mem_cons_self
    obtain ⟨result, later⟩ := ih (host op) fun op' called =>
      same op' (List.mem_cons_of_mem op called)
    constructor
    · rw [run, run, first, result]
    · rw [trace, trace, first, later]

/-- Within the operations that hosts agree on, the result is that of any of them. -/
theorem Within.run_eq {c : Calls Op Res α} (within : Within ok host c)
    (same : ∀ op, ok op → host' op = host op) : c.run host' = c.run host :=
  (agree c fun op called => same op (within op called)).1

end Agreement

end Calls

end HostCalls
