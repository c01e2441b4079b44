import Mathlib.Logic.Relation

namespace Runs

variable {State : Type*} {Step : State → State → Prop} {Inv : State → Prop} {s t : State}

theorem invariant (preserves : ∀ s t, Step s t → Inv s → Inv t) (start : Inv s)
    (run : Relation.ReflTransGen Step s t) : Inv t := by
  induction run with
  | refl => exact start
  | tail _ last ih => exact preserves _ _ last ih

end Runs
