import Mathlib.Data.List.Sort

/-! Sorted tables: where a new entry is put so that a list stays sorted, and which
indices are left when a search has compared one of them. -/
namespace SortedTable

variable {α : Type*} {l : List α} {a : α}

section Insertion

variable [LinearOrder α] {n : Nat}

/-- The entries before place `n` are below `a` and the one there, if any, is not. -/
structure IsPlace (l : List α) (a : α) (n : Nat) : Prop where
  inside : n ≤ l.length
  before : ∀ i < n, ∀ b, l[i]? = some b → b < a
  here : ∀ b, l[n]? = some b → a ≤ b

theorem IsPlace.insertIdx (place : IsPlace l a n) :
    l.insertIdx n a = l.orderedInsert (· ≤ ·) a := by
  induction l generalizing n with
  | nil =>
    obtain rfl : n = 0 := Nat.le_zero.mp place.inside
    rfl
  | cons b l ih =>
    cases n with
    | zero =>
      have first : a ≤ b := place.here b rfl
      rw [List.insertIdx_zero, List.orderedInsert_cons_of_le _ l first]
    | succ n =>
      have first : b < a := place.before 0 (Nat.succ_pos n) b rfl
      have rest : IsPlace l a n :=
        ⟨Nat.le_of_succ_le_succ place.inside,
          fun i less => place.before (i + 1) (Nat.succ_lt_succ less), place.here⟩
      rw [List.insertIdx_succ_cons, ih rest, List.orderedInsert_of_not_le _ l first.not_ge]

theorem IsPlace.sorted (place : IsPlace l a n) (sorted : l.SortedLE) :
    (l.insertIdx n a).SortedLE := by
  rw [place.insertIdx]
  exact (sorted.pairwise.orderedInsert a l).sortedLE

theorem IsPlace.at_end_iff (place : IsPlace l a n) : n = l.length ↔ ∀ b ∈ l, b < a := by
  constructor
  · rintro rfl b member
    obtain ⟨i, inside, rfl⟩ := List.getElem_of_mem member
    exact place.before i inside _ (List.getElem?_eq_getElem inside)
  · intro below
    by_contra other
    have inside : n < l.length := Nat.lt_of_le_of_ne place.inside other
    have least := place.here _ (List.getElem?_eq_getElem inside)
    exact absurd (below _ (List.getElem_mem inside)) least.not_gt

end Insertion

section Windows

def OnlyWithin (l : List α) (a : α) (low high : Int) : Prop :=
  ∀ i : Nat, l[i]? = some a → low ≤ i ∧ i ≤ high

variable {low high : Int}

theorem onlyWithin_all (l : List α) (a : α) : OnlyWithin l a 0 (l.length - 1) := by
  intro i found
  obtain ⟨inside, -⟩ := List.getElem?_eq_some_iff.mp found
  omega

theorem OnlyWithin.mem_iff (only : OnlyWithin l a low high) (narrow : high ≤ low) :
    a ∈ l ↔ low = high ∧ 0 ≤ low ∧ l[low.toNat]? = some a := by
  constructor
  · intro member
    obtain ⟨i, inside, here⟩ := List.getElem_of_mem member
    have found : l[i]? = some a := by rw [List.getElem?_eq_getElem inside, here]
    have bounds := only i found
    obtain rfl : low = i := by omega
    exact ⟨by omega, by omega, by simpa using found⟩
  · rintro ⟨-, -, found⟩
    exact List.mem_of_getElem? found

end Windows

section Search

variable [LinearOrder α] {low high : Int} {m : Nat} {b : α}

theorem getElem?_mono (sorted : l.SortedLE) {i j : Nat} {c d : α} (order : i ≤ j)
    (first : l[i]? = some c) (second : l[j]? = some d) : c ≤ d := by
  obtain ⟨insideI, rfl⟩ := List.getElem?_eq_some_iff.mp first
  obtain ⟨insideJ, rfl⟩ := List.getElem?_eq_some_iff.mp second
  exact sorted.getElem_le_getElem_of_le order

theorem OnlyWithin.above (only : OnlyWithin l a low high) (sorted : l.SortedLE)
    (there : l[m]? = some b) (below : b < a) : OnlyWithin l a (m + 1) high := by
  intro i found
  have bounds := only i found
  have behind : m < i := by
    by_contra before
    exact below.not_ge (getElem?_mono sorted (Nat.le_of_not_lt before) found there)
  omega

theorem OnlyWithin.below (only : OnlyWithin l a low high) (sorted : l.SortedLE)
    (there : l[m]? = some b) (above : a < b) : OnlyWithin l a low (m - 1) := by
  intro i found
  have bounds := only i found
  have before : i < m := by
    by_contra behind
    exact above.not_ge (getElem?_mono sorted (Nat.le_of_not_lt behind) there found)
  omega

end Search

end SortedTable
