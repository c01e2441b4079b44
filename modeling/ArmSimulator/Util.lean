import Mathlib.Data.BitVec
import Mathlib.Tactic.Common

/-! util.h and util.c: words, the bit macros, and the shift helpers.
Macros are generic over the width of the value they are applied to. -/
namespace ArmSimulator

abbrev Byte := BitVec 8
abbrev Half := BitVec 16
abbrev Word := BitVec 32

/-- What the sources leave to the host and to the build: the width of size_t,
the byte order `is_big_endian` detects, and the BIG_ENDIAN_SIMULATOR macro. -/
structure Platform where
  sizeTBits : Nat
  sizeTBits_ge : 32 ≤ sizeTBits
  isBigEndian : Bool
  bigEndianSimulator : Bool

def lp64 : Platform := ⟨64, by decide, false, true⟩

section Macros

variable {w : Nat}

/-- `get_bit`, taken by every caller for a truth value or for 0 and 1. -/
def getBit (x : BitVec w) (i : Nat) : Bool := (x >>> i).getLsbD 0

def setBit (x : BitVec w) (i : Nat) : BitVec w := x ||| (1#w <<< i)

def clrBit (x : BitVec w) (i : Nat) : BitVec w := x &&& ~~~(1#w <<< i)

def chgBit (x : BitVec w) (i : Nat) (v : Bool) : BitVec w :=
  (x &&& ~~~(1#w <<< i)) ||| (if v then 1#w <<< i else 0#w)

/-- `((~0) >> n) << n`, an arithmetic shift of -1 and back. -/
def highMask (w n : Nat) : BitVec w := ((BitVec.allOnes w).sshiftRight n) <<< n

def getBits (x : BitVec w) (h l : Nat) : BitVec w := (x >>> l) &&& ~~~highMask w (h - l + 1)

def setBits (x : BitVec w) (h l : Nat) (bits : BitVec w) : BitVec w :=
  (x &&& ~~~highMask w l) ||| (x &&& highMask w (h + 1)) ||| (bits <<< l)

def codage2Bits (v : BitVec w) (x y : Nat) : BitVec w :=
  (((v >>> x) &&& 1#w) <<< 1) ||| ((v >>> y) &&& 1#w)

def codage3Bits (v : BitVec w) (x y z : Nat) : BitVec w :=
  (((v >>> x) &&& 1#w) <<< 2) ||| (((v >>> y) &&& 1#w) <<< 1) ||| ((v >>> z) &&& 1#w)

def codage4Bits (v : BitVec w) (a x y z : Nat) : BitVec w :=
  (((v >>> a) &&& 1#w) <<< 3) ||| ((((v >>> x) &&& 1#w) <<< 2) |||
    (((v >>> y) &&& 1#w) <<< 1) ||| ((v >>> z) &&& 1#w))

def checkMask (ins m0 m1 : BitVec w) : Bool := ins &&& m0 == 0#w && ins &&& m1 == m1

end Macros

def bit (w : Nat) (b : Bool) : BitVec w := BitVec.ofNat w b.toNat

def numberOfSetBits (bitsField : Word) : Nat :=
  (List.range 16).foldl (fun n i => if getBit bitsField i then n + 1 else n) 0

/-- The count a 32-bit shift of the host uses. C defines it from 0 to 31 only;
beyond that the low five bits count, as in the shift instructions of x86. -/
def shiftCount (n : Int) : Nat := (n % 32).toNat

def asr (value : Word) (shift : Nat) : Word :=
  (value >>> shiftCount shift) |||
    (if getBit value 31 then BitVec.allOnes 32 <<< shiftCount (32 - shift) else 0#32)

def ror (value : Word) (rotation : Nat) : Word :=
  (value >>> shiftCount rotation) ||| (value <<< shiftCount (32 - rotation))

def signExtend24To30 (value : Word) : Word := asr (value <<< 8) 8

section Lemmas

variable {w : Nat}

@[simp] theorem getBit_eq (x : BitVec w) (i : Nat) : getBit x i = x.getLsbD i := by
  simp [getBit]

@[simp] theorem getLsbD_highMask (n i : Nat) :
    (highMask w n).getLsbD i = (decide (n ≤ i) && decide (i < w)) := by
  by_cases low : i < n
  · simp [highMask, low, Nat.not_le_of_lt low]
  · by_cases inside : i < w
    · have shifted : i - n < w := by omega
      by_cases top : n + (i - n) < w <;>
        simp [highMask, BitVec.getLsbD_sshiftRight, low, Nat.le_of_not_lt low, inside, top, shifted]
      omega
    · simp [highMask, inside]

theorem getLsbD_one_shift (i j : Nat) :
    (1#w <<< i).getLsbD j = (decide (j < w) && decide (i = j)) := by
  rw [← BitVec.twoPow_eq, BitVec.getLsbD_twoPow]
  by_cases h : i = j <;> simp [h]

@[simp] theorem getLsbD_setBit (x : BitVec w) (i j : Nat) :
    (setBit x i).getLsbD j = (x.getLsbD j || (decide (j < w) && decide (i = j))) := by
  simp only [setBit, BitVec.getLsbD_or, getLsbD_one_shift]

@[simp] theorem getLsbD_clrBit (x : BitVec w) (i j : Nat) :
    (clrBit x i).getLsbD j = (x.getLsbD j && !decide (i = j)) := by
  simp only [clrBit, BitVec.getLsbD_and, BitVec.getLsbD_not, getLsbD_one_shift]
  by_cases inside : j < w
  · simp [inside]
  · simp [inside, BitVec.getLsbD_of_ge x j (by omega)]

@[simp] theorem getLsbD_chgBit (x : BitVec w) (i j : Nat) (v : Bool) :
    (chgBit x i v).getLsbD j = if i = j then v && decide (j < w) else x.getLsbD j := by
  have cleared : (chgBit x i v).getLsbD j =
      ((x.getLsbD j && !decide (i = j)) || (v && (decide (j < w) && decide (i = j)))) := by
    rw [chgBit, BitVec.getLsbD_or, ← clrBit, getLsbD_clrBit]
    cases v <;> simp only [Bool.false_eq_true, ite_false, ite_true, BitVec.getLsbD_zero,
      getLsbD_one_shift, Bool.false_and, Bool.true_and]
  rw [cleared]
  by_cases here : i = j <;> simp [here]

@[simp] theorem getLsbD_setBits (x : BitVec w) (h l j : Nat) (bits : BitVec w) :
    (setBits x h l bits).getLsbD j =
      (((decide (j < l) || decide (h + 1 ≤ j)) && x.getLsbD j) ||
        (decide (j < w) && !decide (j < l) && bits.getLsbD (j - l))) := by
  simp only [setBits, BitVec.getLsbD_or, BitVec.getLsbD_and, BitVec.getLsbD_not,
    BitVec.getLsbD_shiftLeft, getLsbD_highMask]
  by_cases inside : j < w
  · by_cases below : j < l
    · simp [inside, below, Nat.not_le_of_lt below]
      exact fun set _ => set
    · simp [inside, below, Nat.le_of_not_lt below, Bool.and_comm]
  · simp [inside, BitVec.getLsbD_of_ge x j (Nat.le_of_not_lt inside)]

@[simp] theorem getLsbD_getBits (x : BitVec w) (h l j : Nat) :
    (getBits x h l).getLsbD j = (decide (j < h - l + 1) && x.getLsbD (l + j)) := by
  simp only [getBits, BitVec.getLsbD_and, BitVec.getLsbD_not, BitVec.getLsbD_ushiftRight,
    getLsbD_highMask]
  by_cases inside : j < w
  · by_cases field : j < h - l + 1
    · simp [inside, field, Nat.not_le_of_lt field]
    · simp [inside, field, Nat.le_of_not_lt field]
  · simp [inside, BitVec.getLsbD_of_ge x (l + j) (by omega)]

theorem getBits_eq_extractLsb' (x : BitVec w) (h l : Nat) :
    getBits x h l = (x.extractLsb' l (h - l + 1)).setWidth w := by
  apply BitVec.eq_of_getLsbD_eq
  intro i small
  simp only [getLsbD_getBits, BitVec.getLsbD_setWidth, BitVec.getLsbD_extractLsb', small,
    decide_true, Bool.true_and]

theorem getBits_lowest (x : BitVec w) (h : Nat) :
    getBits x h 0 = (x.setWidth (h + 1)).setWidth w := by
  apply BitVec.eq_of_getLsbD_eq
  intro i small
  rw [getLsbD_getBits, BitVec.getLsbD_setWidth, BitVec.getLsbD_setWidth, decide_eq_true small,
    Nat.zero_add, Bool.true_and, Nat.sub_zero]

theorem getBits_toNat_lt (x : BitVec w) (h l : Nat) :
    (getBits x h l).toNat < 2 ^ (h - l + 1) := by
  rw [getBits_eq_extractLsb', BitVec.toNat_setWidth]
  exact Nat.lt_of_le_of_lt (Nat.mod_le _ _) (x.extractLsb' l (h - l + 1)).isLt

theorem getLsbD_field (x : BitVec w) {h l i : Nat} (low : l ≤ i) (high : i ≤ h) :
    (getBits x h l).getLsbD (i - l) = x.getLsbD i := by
  have inside : i - l < h - l + 1 := by omega
  have back : l + (i - l) = i := by omega
  rw [getLsbD_getBits, decide_eq_true inside, Bool.true_and, back]

theorem getLsbD_of_getBits {x v : BitVec w} {h l i : Nat} (field : getBits x h l = v)
    (low : l ≤ i) (high : i ≤ h) : x.getLsbD i = v.getLsbD (i - l) := by
  rw [← getLsbD_field x low high, field]

theorem getLsbD_of_getBits_zero {x : BitVec w} {h l i : Nat} (zero : getBits x h l = 0#w)
    (low : l ≤ i) (high : i ≤ h) : x.getLsbD i = false :=
  (getLsbD_of_getBits zero low high).trans BitVec.getLsbD_zero

theorem getBits_zero_inside {x : BitVec w} {h l h' l' : Nat} (zero : getBits x h l = 0#w)
    (low : l ≤ l') (ordered : l' ≤ h') (high : h' ≤ h) : getBits x h' l' = 0#w := by
  apply BitVec.eq_of_getLsbD_eq
  intro j _
  rw [getLsbD_getBits, BitVec.getLsbD_zero]
  by_cases field : j < h' - l' + 1
  · have bit : x.getLsbD (l' + j) = false := getLsbD_of_getBits_zero zero (by omega) (by omega)
    rw [bit, Bool.and_false]
  · rw [decide_eq_false field, Bool.false_and]

theorem checkMask_iff (ins m0 m1 : BitVec w) : checkMask ins m0 m1 = true ↔
    ∀ i < w, (m0.getLsbD i = true → ins.getLsbD i = false) ∧
      (m1.getLsbD i = true → ins.getLsbD i = true) := by
  rw [checkMask, Bool.and_eq_true, beq_iff_eq, beq_iff_eq]
  constructor
  · rintro ⟨clear, set⟩ i small
    have clearBit := congrArg (BitVec.getLsbD · i) clear
    have setBit := congrArg (BitVec.getLsbD · i) set
    simp only [BitVec.getLsbD_and, BitVec.getLsbD_zero] at clearBit setBit
    constructor
    · intro masked
      rwa [masked, Bool.and_true] at clearBit
    · intro masked
      rwa [masked, Bool.and_true] at setBit
  · intro bits
    constructor
    · apply BitVec.eq_of_getLsbD_eq
      intro i small
      rw [BitVec.getLsbD_and, BitVec.getLsbD_zero]
      cases masked : m0.getLsbD i with
      | false => rw [Bool.and_false]
      | true => rw [(bits i small).1 masked, Bool.false_and]
    · apply BitVec.eq_of_getLsbD_eq
      intro i small
      rw [BitVec.getLsbD_and]
      cases masked : m1.getLsbD i with
      | false => rw [Bool.and_false]
      | true => rw [(bits i small).2 masked, Bool.true_and]

theorem codage2Bits_eq (v : Word) (x y : Nat) : codage2Bits v x y =
    BitVec.ofNat 32 (2 * (v.getLsbD x).toNat + (v.getLsbD y).toNat) := by
  have isolated (i : Nat) := BitVec.and_one_eq_setWidth_ofBool_getLsbD (x := v >>> i)
  simp only [BitVec.getLsbD_ushiftRight, Nat.add_zero] at isolated
  simp only [codage2Bits, isolated]
  cases v.getLsbD x <;> cases v.getLsbD y <;> rfl

theorem codage3Bits_eq (v : Word) (x y z : Nat) : codage3Bits v x y z =
    BitVec.ofNat 32 (4 * (v.getLsbD x).toNat + 2 * (v.getLsbD y).toNat + (v.getLsbD z).toNat) := by
  have isolated (i : Nat) := BitVec.and_one_eq_setWidth_ofBool_getLsbD (x := v >>> i)
  simp only [BitVec.getLsbD_ushiftRight, Nat.add_zero] at isolated
  simp only [codage3Bits, isolated]
  cases v.getLsbD x <;> cases v.getLsbD y <;> cases v.getLsbD z <;> rfl

theorem codage4Bits_eq (v : Word) (a x y z : Nat) : codage4Bits v a x y z =
    BitVec.ofNat 32 (8 * (v.getLsbD a).toNat + 4 * (v.getLsbD x).toNat + 2 * (v.getLsbD y).toNat +
      (v.getLsbD z).toNat) := by
  have isolated (i : Nat) := BitVec.and_one_eq_setWidth_ofBool_getLsbD (x := v >>> i)
  simp only [BitVec.getLsbD_ushiftRight, Nat.add_zero] at isolated
  simp only [codage4Bits, isolated]
  cases v.getLsbD a <;> cases v.getLsbD x <;> cases v.getLsbD y <;> cases v.getLsbD z <;> rfl

end Lemmas

end ArmSimulator
