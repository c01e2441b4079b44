import Mathlib.Data.BitVec

/-! Words of one width added and subtracted with a carry, and what the
unsigned carry and the signed overflow say about the exact values. -/
namespace CarryArithmetic

variable {w : Nat}

def Fits (w : Nat) (v : Int) : Prop := -2 ^ (w - 1) ≤ v ∧ v < 2 ^ (w - 1)

def addCarry (x y : BitVec w) (c : Bool) : BitVec w := x + y + BitVec.ofNat w c.toNat

def subBorrow (x y : BitVec w) (d : Bool) : BitVec w := x - y - BitVec.ofNat w d.toNat

/-- The sign test on the operands and the result of an addition. -/
def addOverflow (x y z : BitVec w) : Prop := x.msb = y.msb ∧ x.msb ≠ z.msb

def subOverflow (x y z : BitVec w) : Prop := x.msb ≠ y.msb ∧ x.msb ≠ z.msb

theorem toNat_addCarry (x y : BitVec w) (c : Bool) :
    (addCarry x y c).toNat = (x.toNat + y.toNat + c.toNat) % 2 ^ w := by
  simp only [addCarry, BitVec.toNat_add, BitVec.toNat_ofNat, Nat.add_mod_mod, Nat.mod_add_mod]

theorem addCarry_split (x y : BitVec w) (c : Bool) :
    (addCarry x y c).toNat = x.toNat + y.toNat + c.toNat ∧
        x.toNat + y.toNat + c.toNat < 2 ^ w ∨
      (addCarry x y c).toNat + 2 ^ w = x.toNat + y.toNat + c.toNat ∧
        2 ^ w ≤ x.toNat + y.toNat + c.toNat := by
  have left := x.isLt
  have right := y.isLt
  have carry : c.toNat ≤ 1 := Bool.toNat_le c
  rw [toNat_addCarry]
  by_cases small : x.toNat + y.toNat + c.toNat < 2 ^ w
  · exact .inl ⟨Nat.mod_eq_of_lt small, small⟩
  · rw [Nat.mod_eq_sub_mod (Nat.le_of_not_lt small), Nat.mod_eq_of_lt (by omega)]
    omega

theorem subBorrow_eq_addCarry (x y : BitVec w) (d : Bool) :
    subBorrow x y d = addCarry x (~~~y) (!d) := by
  have complement : BitVec.ofNat w (!d).toNat = 1#w - BitVec.ofNat w d.toNat := by
    cases d
    · simp
    · simp
  rw [subBorrow, addCarry, complement, BitVec.sub_eq_add_neg x y, BitVec.neg_eq_not_add]
  simp only [BitVec.sub_eq_add_neg, BitVec.add_assoc]

theorem subOverflow_iff_addOverflow (pos : 0 < w) (x y z : BitVec w) :
    subOverflow x y z ↔ addOverflow x (~~~y) z := by
  have complement : (~~~y).msb = !y.msb := by
    rw [BitVec.msb_not, decide_eq_true pos, Bool.true_and]
  rw [subOverflow, addOverflow, complement, Bool.eq_not]

theorem toInt_cases (x : BitVec w) :
    x.msb = false ∧ x.toNat < 2 ^ (w - 1) ∧ x.toInt = x.toNat ∨
      x.msb = true ∧ 2 ^ (w - 1) ≤ x.toNat ∧ x.toInt = x.toNat - 2 ^ w := by
  have msb := BitVec.msb_eq_decide x
  by_cases low : 2 ^ (w - 1) ≤ x.toNat
  · rw [decide_eq_true low] at msb
    exact .inr ⟨msb, low, by rw [BitVec.toInt_eq_msb_cond, if_pos msb]; norm_cast⟩
  · rw [decide_eq_false low] at msb
    refine .inl ⟨msb, Nat.lt_of_not_le low, ?_⟩
    rw [BitVec.toInt_eq_msb_cond, if_neg (by rw [msb]; decide)]

theorem addOverflow_iff (pos : 0 < w) (x y : BitVec w) (c : Bool) :
    addOverflow x y (addCarry x y c) ↔ ¬ Fits w (x.toInt + y.toInt + c.toNat) := by
  have width : 2 ^ w = 2 * 2 ^ (w - 1) := (mul_pow_sub_one pos.ne' 2).symm
  have half : (2 : Int) ^ (w - 1) = (2 ^ (w - 1) : Nat) := by norm_cast
  have whole : (2 : Int) ^ w = (2 * 2 ^ (w - 1) : Nat) := by rw [← width]; norm_cast
  have left := toInt_cases x
  have right := toInt_cases y
  have sum := toInt_cases (addCarry x y c)
  have split := addCarry_split x y c
  have carry : c.toNat ≤ 1 := Bool.toNat_le c
  rw [addOverflow, Fits, half]
  rw [whole] at left right sum
  rw [width] at split
  generalize 2 ^ (w - 1) = m at *
  rcases left with ⟨xs, xn, xi⟩ | ⟨xs, xn, xi⟩ <;> rcases right with ⟨ys, yn, yi⟩ | ⟨ys, yn, yi⟩ <;>
    rcases sum with ⟨zs, zn, zi⟩ | ⟨zs, zn, zi⟩ <;>
    simp only [xs, ys, zs, xi, yi, ne_eq, reduceCtorEq, not_true_eq_false, not_false_eq_true,
      and_true, and_false, true_iff, false_iff, not_not] <;> omega

theorem toInt_not (x : BitVec w) (pos : 0 < w) : (~~~x).toInt = -x.toInt - 1 := by
  have width : 2 ^ w = 2 * 2 ^ (w - 1) := (mul_pow_sub_one pos.ne' 2).symm
  have whole : (2 : Int) ^ w = (2 * 2 ^ (w - 1) : Nat) := by rw [← width]; norm_cast
  have word := toInt_cases x
  have complement := toInt_cases (~~~x)
  have bound := x.isLt
  rw [BitVec.toNat_not] at complement
  rw [whole] at word complement
  rw [width] at bound complement
  omega

theorem subBorrow_split (x y : BitVec w) (d : Bool) :
    (subBorrow x y d).toNat + y.toNat + d.toNat = x.toNat ∧ y.toNat + d.toNat ≤ x.toNat ∨
      (subBorrow x y d).toNat + y.toNat + d.toNat = x.toNat + 2 ^ w ∧
        x.toNat < y.toNat + d.toNat := by
  have bound := y.isLt
  have carry : (!d).toNat = 1 - d.toNat := by cases d <;> rfl
  have small : d.toNat ≤ 1 := Bool.toNat_le d
  have split := addCarry_split x (~~~y) (!d)
  rw [subBorrow_eq_addCarry]
  rw [BitVec.toNat_not, carry] at split
  omega

theorem subOverflow_iff (pos : 0 < w) (x y : BitVec w) (d : Bool) :
    subOverflow x y (subBorrow x y d) ↔ ¬ Fits w (x.toInt - y.toInt - d.toNat) := by
  have exact : x.toInt + (~~~y).toInt + ((!d).toNat : Int) = x.toInt - y.toInt - d.toNat := by
    rw [toInt_not y pos]
    cases d
    · simp only [Bool.not_false, Bool.toNat_true, Bool.toNat_false]
      omega
    · simp only [Bool.not_true, Bool.toNat_true, Bool.toNat_false]
      omega
  rw [subBorrow_eq_addCarry, subOverflow_iff_addOverflow pos, addOverflow_iff pos, exact]

end CarryArithmetic
