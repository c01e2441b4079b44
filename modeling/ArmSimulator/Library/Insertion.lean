import Mathlib.Algebra.Group.End
import Mathlib.Order.Interval.Set.Defs
import Mathlib.Order.Monotone.Defs
import Mathlib.Tactic.Common

/-! Insertion sort of a table in its place, by a key. -/
namespace Insertion

variable {α β : Type*} [LinearOrder β] (key : α → β)

/-- `x` comes into the table from place `j` down, below all that is greater. -/
def insert (x : α) : Nat → (Nat → α) → Nat → α
  | 0, t => Function.update t 0 x
  | j + 1, t =>
    if key x < key (t j) then insert x j (Function.update t (j + 1) (t j))
    else Function.update t (j + 1) x

/-- The `n` entries from place `i` on are inserted. -/
def sortFrom : Nat → Nat → (Nat → α) → Nat → α
  | 0, _, t => t
  | n + 1, i, t => sortFrom n (i + 1) (insert key (t i) i t)

variable {key} {x : α} {t : Nat → α} {i j n : Nat}

theorem insert_greater (greater : key x < key (t j)) :
    insert key x (j + 1) t = insert key x j (Function.update t (j + 1) (t j)) := by
  rw [insert, if_pos greater]

theorem insert_stays (stays : j = 0 ∨ key (t (j - 1)) ≤ key x) :
    insert key x j t = Function.update t j x := by
  cases j with
  | zero => rfl
  | succ j =>
    have small : key (t j) ≤ key x := stays.resolve_left (Nat.succ_ne_zero j)
    rw [insert, if_neg (not_lt.mpr small)]

structure Inserted (key : α → β) (x : α) (j : Nat) (t : Nat → α) (m : Nat) (t' : Nat → α) :
    Prop where
  place : m ≤ j
  here : t' m = x
  below : ∀ k < m, t' k = t k ∧ key (t k) ≤ key x
  moved : ∀ k, m ≤ k → k < j → t' (k + 1) = t k ∧ key x < key (t k)
  above : ∀ k, j < k → t' k = t k

theorem inserted (sorted : MonotoneOn (key ∘ t) (Set.Iio j)) :
    ∃ m, Inserted key x j t m (insert key x j t) := by
  induction j generalizing t with
  | zero => exact ⟨0, Nat.le_refl 0, Function.update_self .., by simp, by simp, fun k above =>
      Function.update_of_ne (by omega) ..⟩
  | succ j ih =>
    by_cases greater : key x < key (t j)
    · have same (k : Nat) (low : k ≤ j) : Function.update t (j + 1) (t j) k = t k :=
        Function.update_of_ne (by omega) ..
      have lower : MonotoneOn (key ∘ Function.update t (j + 1) (t j)) (Set.Iio j) := by
        intro a inA b inB le
        simp only [Set.mem_Iio] at inA inB
        simp only [Function.comp_apply, same a (by omega), same b (by omega)]
        exact sorted (Set.mem_Iio.mpr (by omega)) (Set.mem_Iio.mpr (by omega)) le
      obtain ⟨m, place, here, below, moved, above⟩ := ih lower
      rw [insert_greater greater]
      refine ⟨m, by omega, here, ?_, ?_, ?_⟩
      · intro k low
        rw [← same k (by omega)]
        exact below k low
      · intro k high low
        rcases Nat.lt_succ_iff_lt_or_eq.mp low with inside | rfl
        · rw [← same k (by omega)]
          exact moved k high inside
        · rw [above _ (Nat.lt_succ_self k), Function.update_self]
          exact ⟨rfl, greater⟩
      · intro k high
        rw [above k (by omega)]
        exact Function.update_of_ne (by omega) ..
    · have small : key (t j) ≤ key x := not_lt.mp greater
      rw [insert_stays (.inr small)]
      refine ⟨j + 1, Nat.le_refl _, Function.update_self .., ?_, by omega, ?_⟩
      · intro k low
        refine ⟨Function.update_of_ne (by omega) .., ?_⟩
        have last := sorted (Set.mem_Iio.mpr low) (Set.mem_Iio.mpr (Nat.lt_succ_self j)) (by omega)
        exact last.trans small
      · intro k high
        exact Function.update_of_ne (by omega) ..

theorem Inserted.sorted {m : Nat} {t' : Nat → α} (inserted : Inserted key x j t m t')
    (sorted : MonotoneOn (key ∘ t) (Set.Iio j)) : MonotoneOn (key ∘ t') (Set.Iio (j + 1)) := by
  obtain ⟨place, here, below, moved, -⟩ := inserted
  intro a inA b inB le
  rw [Set.mem_Iio] at inA inB
  simp only [Function.comp_apply]
  rcases Nat.lt_trichotomy b m with low | rfl | high
  · rw [(below a (by omega)).1, (below b low).1]
    exact sorted (Set.mem_Iio.mpr (by omega)) (Set.mem_Iio.mpr (by omega)) le
  · rcases Nat.lt_or_eq_of_le le with low | rfl
    · rw [(below a low).1, here]
      exact (below a low).2
    · exact le_refl _
  · obtain ⟨b, rfl⟩ := Nat.exists_eq_succ_of_ne_zero (Nat.ne_of_gt (Nat.zero_lt_of_lt high))
    obtain ⟨valueB, greater⟩ := moved b (by omega) (by omega)
    rw [valueB]
    rcases Nat.lt_trichotomy a m with low | rfl | high'
    · rw [(below a low).1]
      exact (below a low).2.trans greater.le
    · rw [here]
      exact greater.le
    · obtain ⟨a, rfl⟩ := Nat.exists_eq_succ_of_ne_zero (Nat.ne_of_gt (Nat.zero_lt_of_lt high'))
      rw [(moved a (by omega) (by omega)).1]
      exact sorted (Set.mem_Iio.mpr (by omega)) (Set.mem_Iio.mpr (by omega)) (by omega)

theorem sortFrom_sorted (sorted : MonotoneOn (key ∘ t) (Set.Iio i)) :
    MonotoneOn (key ∘ sortFrom key n i t) (Set.Iio (i + n)) := by
  induction n generalizing i t with
  | zero => exact sorted
  | succ n ih =>
    obtain ⟨m, inserted⟩ := inserted (x := t i) sorted
    have onward := ih (inserted.sorted sorted)
    rwa [Nat.add_assoc, Nat.add_comm 1 n] at onward

section Places

variable (key)

theorem insert_places (x : α) (j : Nat) (t : Nat → α) :
    ∃ σ : Equiv.Perm Nat, insert key x j t = Function.update t j x ∘ σ ∧ ∀ k, j < k → σ k = k := by
  induction j generalizing t with
  | zero => exact ⟨1, rfl, fun _ _ => rfl⟩
  | succ j ih =>
    by_cases greater : key x < key (t j)
    · obtain ⟨σ, same, fixed⟩ := ih (Function.update t (j + 1) (t j))
      have swapped : Function.update (Function.update t (j + 1) (t j)) j x =
          Function.update t (j + 1) x ∘ Equiv.swap j (j + 1) := by
        funext k
        simp only [Function.comp_apply, Function.update_apply, Equiv.swap_apply_def]
        grind
      refine ⟨Equiv.swap j (j + 1) * σ, ?_, fun k high => ?_⟩
      · rw [insert_greater greater, same, swapped]
        rfl
      · rw [Equiv.Perm.mul_apply, fixed k (by omega)]
        exact Equiv.swap_apply_of_ne_of_ne (by omega) (by omega)
    · rw [insert_stays (.inr (not_lt.mp greater))]
      exact ⟨1, rfl, fun _ _ => rfl⟩

theorem sortFrom_places (n i : Nat) (t : Nat → α) :
    ∃ σ : Equiv.Perm Nat, sortFrom key n i t = t ∘ σ ∧ ∀ k, i + n ≤ k → σ k = k := by
  induction n generalizing i t with
  | zero => exact ⟨1, rfl, fun _ _ => rfl⟩
  | succ n ih =>
    obtain ⟨σ, same, fixed⟩ := insert_places key (t i) i t
    obtain ⟨τ, same', fixed'⟩ := ih (i + 1) (insert key (t i) i t)
    rw [Function.update_eq_self] at same
    refine ⟨σ * τ, ?_, fun k high => ?_⟩
    · rw [sortFrom, same', same]
      rfl
    · rw [Equiv.Perm.mul_apply, fixed' k (by omega), fixed k (by omega)]

end Places

end Insertion
