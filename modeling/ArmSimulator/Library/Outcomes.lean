import Mathlib.Tactic.Common

/-! Postconditions of computations that return or fail: what holds of a value
that is returned, and how the computation may fail. -/
namespace Outcomes

universe u

variable {ε : Type*} {α β : Type u}

/-- A value that is returned satisfies `post`, a failure satisfies `fails`. -/
def Ends (x : Except ε α) (fails : ε → Prop) (post : α → Prop) : Prop :=
  match x with
  | .ok a => post a
  | .error fault => fails fault

variable {x : Except ε α} {fails fails' : ε → Prop} {mid post post' : α → Prop}

theorem Ends.bind {f : α → Except ε β} {post : β → Prop} (first : Ends x fails mid)
    (next : ∀ a, mid a → Ends (f a) fails post) : Ends (x >>= f) fails post := by
  cases x with
  | error fault => exact first
  | ok a => exact next a first

theorem Ends.mono (ends : Ends x fails post) (weaker : ∀ fault, fails fault → fails' fault)
    (implied : ∀ a, post a → post' a) : Ends x fails' post' := by
  cases x with
  | error fault => exact weaker fault ends
  | ok a => exact implied a ends

theorem Ends.of_eq {a : α} (result : x = .ok a) (holds : post a) : Ends x fails post := by
  subst result
  exact holds

theorem Ends.of_error {fault : ε} (allowed : fails fault) :
    Ends (.error fault : Except ε α) fails post := allowed

section Sides

variable {α' β' : Type u} {R : α → β → Prop} {R' : α' → β' → Prop}

inductive Matches (R : α → β → Prop) : Except ε α → Except ε β → Prop where
  | error (fault : ε) : Matches R (.error fault) (.error fault)
  | ok {a : α} {b : β} (related : R a b) : Matches R (.ok a) (.ok b)

theorem Matches.bind {x : Except ε α} {y : Except ε β} {f : α → Except ε α'} {k : β → Except ε β'}
    (first : Matches R x y) (next : ∀ a b, R a b → Matches R' (f a) (k b)) :
    Matches R' (x >>= f) (y >>= k) := by
  cases first with
  | error fault => exact .error fault
  | ok related => exact next _ _ related

theorem Matches.mono {x : Except ε α} {y : Except ε β} {S : α → β → Prop} (both : Matches R x y)
    (implied : ∀ a b, R a b → S a b) : Matches S x y := by
  cases both with
  | error fault => exact .error fault
  | ok holds => exact .ok (implied _ _ holds)

theorem Matches.map_right {x : Except ε α} {y : Except ε β} {S : α → β' → Prop} {k : β → β'}
    (both : Matches R x y) (related : ∀ a b, R a b → S a (k b)) : Matches S x (y.map k) := by
  cases both with
  | error fault => exact .error fault
  | ok holds => exact .ok (related _ _ holds)

theorem Matches.map_eq {γ : Type u} {x : Except ε α} {y : Except ε β} {f : α → γ} {k : β → γ}
    (both : Matches R x y) (same : ∀ a b, R a b → f a = k b) : x.map f = y.map k := by
  cases both with
  | error fault => rfl
  | ok related => exact congrArg Except.ok (same _ _ related)

end Sides

end Outcomes
