import Mathlib.Data.List.Induction
import Mathlib.Data.Nat.Digits.Defs
import Mathlib.Tactic.Ring

namespace MultiWord

/-- The words `zs` and the carry out of them, from the least word up: in each
column the word and the carry out make up what goes in. -/
inductive Ripple (b : Nat) : List Nat → List Nat → List Nat → Nat → Prop
  | nil : Ripple b [] [] [] 0
  | snoc {xs ys zs : List Nat} {c x y z d : Nat} : Ripple b xs ys zs c → z < b →
      z + b * d = x + y + c → Ripple b (xs ++ [x]) (ys ++ [y]) (zs ++ [z]) d

namespace Ripple

variable {b : Nat} {xs ys zs : List Nat} {c : Nat}

theorem lengths (ripple : Ripple b xs ys zs c) :
    ys.length = xs.length ∧ zs.length = xs.length := by
  induction ripple with
  | nil => exact ⟨rfl, rfl⟩
  | snoc before _ _ ih =>
    simp only [List.length_append, List.length_singleton]
    omega

theorem sum (ripple : Ripple b xs ys zs c) :
    Nat.ofDigits b zs + b ^ xs.length * c = Nat.ofDigits b xs + Nat.ofDigits b ys := by
  induction ripple with
  | nil => rfl
  | @snoc xs ys zs c x y z d before small column ih =>
    obtain ⟨ysLength, zsLength⟩ := before.lengths
    simp only [Nat.ofDigits_append, Nat.ofDigits_singleton, List.length_append,
      List.length_singleton, ysLength, zsLength]
    calc Nat.ofDigits b zs + b ^ xs.length * z + b ^ (xs.length + 1) * d
        = Nat.ofDigits b zs + b ^ xs.length * (z + b * d) := by ring
      _ = Nat.ofDigits b zs + b ^ xs.length * c + b ^ xs.length * (x + y) := by
        rw [column]
        ring
      _ = Nat.ofDigits b xs + Nat.ofDigits b ys + b ^ xs.length * (x + y) := by rw [ih]
      _ = Nat.ofDigits b xs + b ^ xs.length * x + (Nat.ofDigits b ys + b ^ xs.length * y) := by
        ring

theorem digits (ripple : Ripple b xs ys zs c) : ∀ z ∈ zs, z < b := by
  induction ripple with
  | nil => exact nofun
  | snoc before small _ ih =>
    intro w inside
    rcases List.mem_append.mp inside with inside | last
    · exact ih w inside
    · rw [List.mem_singleton.mp last]
      exact small

theorem ofDigits_lt (ripple : Ripple b xs ys zs c) (base : 1 < b) :
    Nat.ofDigits b zs < b ^ xs.length := by
  rw [← ripple.lengths.2]
  exact Nat.ofDigits_lt_base_pow_length base ripple.digits

theorem words (ripple : Ripple b xs ys zs c) (base : 1 < b) :
    Nat.ofDigits b zs = (Nat.ofDigits b xs + Nat.ofDigits b ys) % b ^ xs.length := by
  rw [← ripple.sum, Nat.add_mul_mod_self_left, Nat.mod_eq_of_lt (ripple.ofDigits_lt base)]

theorem carry_iff (ripple : Ripple b xs ys zs c) (base : 1 < b) :
    0 < c ↔ b ^ xs.length ≤ Nat.ofDigits b xs + Nat.ofDigits b ys := by
  rw [← ripple.sum]
  constructor
  · intro carried
    exact (Nat.le_mul_of_pos_right _ carried).trans (Nat.le_add_left _ _)
  · intro full
    by_contra none
    rw [Nat.eq_zero_of_not_pos none, Nat.mul_zero, Nat.add_zero] at full
    exact absurd (ripple.ofDigits_lt base) (Nat.not_lt.mpr full)

theorem exists_ripple (pos : 0 < b) {xs ys : List Nat} (lengths : ys.length = xs.length) :
    ∃ zs c, Ripple b xs ys zs c := by
  induction xs using List.reverseRecOn generalizing ys with
  | nil =>
    rw [List.length_eq_zero_iff.mp lengths]
    exact ⟨[], 0, .nil⟩
  | append_singleton xs x ih =>
    rcases List.eq_nil_or_concat ys with none | ⟨init, y, rfl⟩
    · rw [none, List.length_append] at lengths
      cases lengths
    · rw [List.concat_eq_append, List.length_append, List.length_append] at lengths
      rw [List.concat_eq_append]
      obtain ⟨zs, c, before⟩ := ih (Nat.add_right_cancel lengths)
      exact ⟨_, _, before.snoc (Nat.mod_lt _ pos) (Nat.mod_add_div _ _)⟩

theorem of_sum (base : 1 < b) (lengths : ys.length = xs.length ∧ zs.length = xs.length)
    (digits : ∀ z ∈ zs, z < b)
    (sum : Nat.ofDigits b zs + b ^ xs.length * c = Nat.ofDigits b xs + Nat.ofDigits b ys) :
    Ripple b xs ys zs c := by
  obtain ⟨words, carry, ripple⟩ := exists_ripple (Nat.zero_lt_of_lt base) lengths.1
  have power : 0 < b ^ xs.length := Nat.pow_pos (Nat.zero_lt_of_lt base)
  have small : Nat.ofDigits b zs < b ^ xs.length := by
    rw [← lengths.2]
    exact Nat.ofDigits_lt_base_pow_length base digits
  have value : Nat.ofDigits b zs = Nat.ofDigits b words := by
    rw [ripple.words base, ← sum, Nat.add_mul_mod_self_left, Nat.mod_eq_of_lt small]
  have same : zs = words := Nat.ofDigits_inj_of_len_eq base
    (lengths.2.trans ripple.lengths.2.symm) digits ripple.digits value
  have weighted : b ^ xs.length * c = b ^ xs.length * carry := by
    have total := sum.trans ripple.sum.symm
    rw [value] at total
    exact Nat.add_left_cancel total
  rw [same, Nat.eq_of_mul_eq_mul_left power weighted]
  exact ripple

theorem last_column {x y z d : Nat} (ripple : Ripple b (xs ++ [x]) (ys ++ [y]) (zs ++ [z]) d) :
    ∃ c, Ripple b xs ys zs c ∧ z + b * d = x + y + c := by
  generalize left : xs ++ [x] = lefts at ripple
  generalize right : ys ++ [y] = rights at ripple
  generalize word : zs ++ [z] = words at ripple
  cases ripple with
  | nil => exact absurd left (by simp)
  | snoc before small column =>
    obtain ⟨rfl, last⟩ := List.append_inj' left rfl
    obtain ⟨rfl, last'⟩ := List.append_inj' right rfl
    obtain ⟨rfl, last''⟩ := List.append_inj' word rfl
    cases last
    cases last'
    cases last''
    exact ⟨_, before, column⟩

theorem carry_le_one (ripple : Ripple b xs ys zs c) (left : ∀ x ∈ xs, x < b)
    (right : ∀ y ∈ ys, y < b) : c ≤ 1 := by
  induction ripple with
  | nil => exact Nat.zero_le 1
  | @snoc xs ys zs c x y z d before small column ih =>
    have carried := ih (fun x inside => left x (List.mem_append_left _ inside))
      fun y inside => right y (List.mem_append_left _ inside)
    have xSmall := left x (List.mem_append_right _ List.mem_cons_self)
    have ySmall := right y (List.mem_append_right _ List.mem_cons_self)
    by_contra more
    have twice : b * 2 ≤ b * d := Nat.mul_le_mul_left b (Nat.lt_of_not_le more)
    omega

end Ripple

end MultiWord
