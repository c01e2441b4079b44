import ArmSimulator.StatusMoves
import ArmSimulator.Library.HostCalls

/-! The shifts that are evaluated for an operand, each with its count. C defines
them for counts from 0 to 31; for the rest the result is up to the host. -/
namespace ArmSimulator

open HostCalls

/-- `<<`, and `>>` of an unsigned and of a signed value. -/
inductive ShiftOp where
  | left
  | right
  | arithmetic
deriving DecidableEq, Repr

structure Shift where
  op : ShiftOp
  value : Word
  count : Int

namespace Shift

def Defined (s : Shift) : Prop := 0 ≤ s.count ∧ s.count ≤ 31

instance (s : Shift) : Decidable s.Defined := inferInstanceAs (Decidable (_ ∧ _))

def result (s : Shift) (n : Nat) : Word :=
  match s.op with
  | .left => s.value <<< n
  | .right => s.value >>> n
  | .arithmetic => s.value.sshiftRight n

end Shift

/-- What a host computes for each shift; it is free where C leaves it so. -/
structure Host where
  shift : Shift → Word
  defined : ∀ s : Shift, s.Defined → shift s = s.result s.count.toNat

/-- The low five bits of the count. -/
def x86 : Host where
  shift s := s.result (shiftCount s.count)
  defined s inside := by
    have count : shiftCount s.count = s.count.toNat := by
      rw [shiftCount, Int.emod_eq_of_lt inside.1 (by have := inside.2; omega)]
    rw [count]

abbrev Shifting := Calls Shift Word

/- The C functions with their shifts as calls of the host. -/
namespace Counted

def shl (x : Word) (n : Int) : Shifting Word := .ask ⟨.left, x, n⟩
def shr (x : Word) (n : Int) : Shifting Word := .ask ⟨.right, x, n⟩
def sar (x : Word) (n : Int) : Shifting Word := .ask ⟨.arithmetic, x, n⟩

def getBit (x : Word) (i : Int) : Shifting Bool := do
  let low ← shr x i
  return low.getLsbD 0

def getBits (x : Word) (h l : Int) : Shifting Word := do
  let low ← shr x l
  let ones ← sar (BitVec.allOnes 32) (h - l + 1)
  let mask ← shl ones (h - l + 1)
  return low &&& ~~~mask

def asr (value : Word) (shift : Int) : Shifting Word := do
  let low ← shr value shift
  let sign ← getBit value 31
  let high ← (if sign then shl (BitVec.allOnes 32) (32 - shift) else pure 0#32)
  return low ||| high

def ror (value : Word) (rotation : Int) : Shifting Word := do
  let low ← shr value rotation
  let high ← shl value (32 - rotation)
  return low ||| high

variable (p : ArmCore)

def armReadC : Shifting Bool := getBit (armReadCpsr p) 29

def dpLsl (op : Word) (value : Byte) : Shifting (Word × Bool) :=
  if value = 0#8 then do
    let c ← armReadC p
    return (op, c)
  else if value < 32#8 then do
    let carry ← getBit op (32 - value.toNat)
    let op ← shl op value.toNat
    return (op, carry)
  else do
    let carry ← (if value = 32#8 then getBit op 0 else pure false)
    return (0#32, carry)

def dpLsr (op : Word) (value : Byte) : Shifting (Word × Bool) :=
  if value = 0#8 then do
    let c ← armReadC p
    return (op, c)
  else if value < 32#8 then do
    let carry ← getBit op (value.toNat - 1)
    let op ← shr op value.toNat
    return (op, carry)
  else do
    let carry ← (if value = 32#8 then getBit op 31 else pure false)
    return (0#32, carry)

def dpAsr (op : Word) (value : Byte) : Shifting (Word × Bool) :=
  if value = 0#8 then do
    let c ← armReadC p
    return (op, c)
  else if value < 32#8 then do
    let carry ← getBit op (value.toNat - 1)
    let op ← asr op value.toNat
    return (op, carry)
  else do
    let carry ← getBit op 31
    let sign ← getBit op 31
    return (if sign then 0xFFFFFFFF#32 else 0#32, carry)

def dpRorRrx (op : Word) (value : Byte) : Shifting (Word × Bool) :=
  if value = 0#8 then do
    let carry ← getBit op 0
    let c ← armReadC p
    let high ← shl (bit 32 c) 31
    let low ← shr op 1
    return (high ||| low, carry)
  else do
    let low ← getBits (value.setWidth 32) 4 0
    if low = 0#32 then do
      let carry ← getBit op 31
      return (op, carry)
    else do
      let amount ← getBits (value.setWidth 32) 4 0
      let carry ← getBit op (amount.toNat - 1)
      let op ← ror op value.toNat
      return (op, carry)

def getImmediate (ins : Word) : Shifting (Word × Bool) := do
  let imm8 ← getBits ins 7 0
  let rotateImm ← getBits ins 11 8
  let res ← ror imm8 (rotateImm.toNat * 2)
  let carry ← (if rotateImm = 0#32 then armReadC p else getBit res 31)
  return (res, carry)

/-- The switch of `get_shifted`. -/
def shiftSwitch (shiftCode shiftImm res : Word) (shiftValue : Byte) : Shifting (Word × Bool) :=
  match shiftCode with
  | 0#32 =>
    if shiftImm.setWidth 8 = 0#8 then do
      let c ← armReadC p
      return (res, c)
    else dpLsl p res shiftValue
  | 1#32 => dpLsr p res shiftValue
  | 2#32 => dpAsr p res shiftValue
  | _ => dpRorRrx p res shiftValue

def getShifted (ins : Word) : Shifting (Word × Bool) := do
  let shiftImm ← getBits ins 11 7
  let shiftCode ← getBits ins 6 5
  let rm ← getBits ins 3 0
  let res := armReadRegister p (rm.setWidth 4)
  let byRegister ← getBit ins 4
  if byRegister then do
    let rs ← getBits ins 11 8
    shiftSwitch p shiftCode shiftImm res ((armReadRegister p (rs.setWidth 4)).setWidth 8)
  else shiftSwitch p shiftCode shiftImm res (shiftImm.setWidth 8)

def scaledShift (shift : Word) (shiftImm : Nat) (valRm : Word) : Shifting Word :=
  match shift with
  | 0#32 => shl valRm shiftImm
  | 1#32 => if shiftImm ≠ 0 then shr valRm shiftImm else pure 0#32
  | 2#32 =>
    if shiftImm ≠ 0 then asr valRm shiftImm
    else do
      let sign ← getBit valRm 31
      return if sign then 0xFFFFFFFF#32 else 0#32
  | _ =>
    if shiftImm = 0 then do
      let c ← getBit (armReadCpsr p) 29
      let high ← shl (bit 32 c) 31
      let low ← shr valRm 1
      return high ||| low
    else ror valRm shiftImm

def scaledIndex (ins : Word) : Shifting Word := do
  let rm ← getBits ins 3 0
  let shift ← getBits ins 6 5
  let shiftImm ← getBits ins 11 7
  scaledShift p shift shiftImm.toNat (armReadRegister p (rm.setWidth 4))

def msrOperand (ins : Word) : Shifting Word := do
  let immediateForm ← getBit ins 25
  if immediateForm then do
    let imm8 ← getBits ins 7 0
    let rotateImm ← getBits ins 11 8
    let immediate : Byte := imm8.setWidth 8
    ror (immediate.signExtend 32) (rotateImm.toNat * 2)
  else do
    let rm ← getBits ins 3 0
    return armReadRegister p (rm.setWidth 4)

end Counted

/-- Every shift that the computation evaluates on the host has a count from 0 to 31. -/
def CountsDefined {α : Type} (host : Host) (c : Shifting α) : Prop :=
  Calls.Within Shift.Defined host.shift c

namespace Counted

section Helpers

variable (host : Host) (x : Word)

theorem run_shl {n : Int} (inside : 0 ≤ n ∧ n ≤ 31) : (shl x n).run host.shift = x <<< n.toNat :=
  host.defined ⟨.left, x, n⟩ inside

theorem run_shr {n : Int} (inside : 0 ≤ n ∧ n ≤ 31) : (shr x n).run host.shift = x >>> n.toNat :=
  host.defined ⟨.right, x, n⟩ inside

theorem run_sar {n : Int} (inside : 0 ≤ n ∧ n ≤ 31) :
    (sar x n).run host.shift = x.sshiftRight n.toNat :=
  host.defined ⟨.arithmetic, x, n⟩ inside

variable {host} in
@[simp] theorem defined_pure {α : Type} (a : α) : CountsDefined host (pure a) :=
  Calls.within_pure host.shift Shift.Defined a

variable {host} in
@[simp] theorem defined_bind {α β : Type} (c : Shifting α) (next : α → Shifting β) :
    CountsDefined host (c >>= next) ↔
      CountsDefined host c ∧ CountsDefined host (next (c.run host.shift)) :=
  Calls.within_bind host.shift Shift.Defined c next

theorem defined_shl (n : Int) : CountsDefined host (shl x n) ↔ 0 ≤ n ∧ n ≤ 31 :=
  Calls.within_ask host.shift Shift.Defined _

theorem defined_shr (n : Int) : CountsDefined host (shr x n) ↔ 0 ≤ n ∧ n ≤ 31 :=
  Calls.within_ask host.shift Shift.Defined _

theorem defined_sar (n : Int) : CountsDefined host (sar x n) ↔ 0 ≤ n ∧ n ≤ 31 :=
  Calls.within_ask host.shift Shift.Defined _

theorem defined_getBit (i : Int) : CountsDefined host (getBit x i) ↔ 0 ≤ i ∧ i ≤ 31 := by
  unfold getBit
  rw [defined_bind, defined_shr]
  exact and_iff_left (defined_pure _)

theorem run_getBit {i : Int} (inside : 0 ≤ i ∧ i ≤ 31) :
    (getBit x i).run host.shift = ArmSimulator.getBit x i.toNat := by
  rw [getBit, Calls.run_bind, run_shr host x inside]
  rfl

def Field (h l : Int) : Prop := 0 ≤ l ∧ l ≤ h ∧ h ≤ 31 ∧ h - l < 31

instance (h l : Int) : Decidable (Field h l) := inferInstanceAs (Decidable (_ ∧ _))

theorem defined_getBits {h l : Int} (field : Field h l) : CountsDefined host (getBits x h l) := by
  obtain ⟨low, ordered, high, short⟩ := field
  unfold getBits
  simp only [defined_bind, defined_shr, defined_sar, defined_shl]
  refine ⟨?_, ?_, ?_, defined_pure _⟩ <;> omega

theorem run_getBits {h l : Int} (field : Field h l) :
    (getBits x h l).run host.shift = ArmSimulator.getBits x h.toNat l.toNat := by
  obtain ⟨low, ordered, high, short⟩ := field
  have width : (h - l + 1).toNat = h.toNat - l.toNat + 1 := by omega
  unfold getBits
  simp only [Calls.run_bind]
  rw [run_shr host x (by omega), run_sar host _ (by omega), run_shl host _ (by omega), width]
  rfl

theorem defined_asr {n : Nat} (positive : 0 < n) (small : n < 32) :
    CountsDefined host (asr x n) := by
  unfold asr
  simp only [defined_bind, defined_shr, defined_getBit]
  refine ⟨by omega, by omega, ?_, defined_pure _⟩
  split
  · rw [defined_shl]
    omega
  · exact defined_pure _

theorem defined_ror (n : Nat) : CountsDefined host (ror x n) ↔ 0 < n ∧ n < 32 := by
  unfold ror
  simp only [defined_bind, defined_shr, defined_shl]
  constructor
  · rintro ⟨right, left, _⟩
    omega
  · rintro ⟨positive, small⟩
    exact ⟨by omega, by omega, defined_pure _⟩

theorem x86_asr (n : Nat) : (asr x n).run x86.shift = ArmSimulator.asr x n := by
  unfold asr
  simp only [Calls.run_bind]
  rw [run_getBit x86 x (by decide)]
  cases sign : ArmSimulator.getBit x (31 : Int).toNat <;>
    · replace sign : ArmSimulator.getBit x 31 = _ := sign
      rw [ArmSimulator.asr, sign]
      rfl

theorem x86_ror (n : Nat) : (ror x n).run x86.shift = ArmSimulator.ror x n := rfl

end Helpers

section Amounts

variable (host : Host) (p : ArmCore) (op : Word) (value : Byte)

theorem defined_armReadC : CountsDefined host (armReadC p) :=
  (defined_getBit host _ _).mpr (by decide)

theorem run_armReadC : (armReadC p).run host.shift = ArmSimulator.armReadC p :=
  run_getBit host _ (by decide)

variable {value} in
theorem amount_inside (positive : value ≠ 0#8) (small : value < 32#8) :
    0 < value.toNat ∧ value.toNat < 32 := by
  simp only [ne_eq, ← BitVec.toNat_inj, BitVec.lt_def, BitVec.toNat_ofNat] at positive small
  omega

theorem defined_guarded {inside beyond : Shifting (Word × Bool)}
    (below : 0 < value.toNat → value.toNat < 32 → CountsDefined host inside)
    (past : CountsDefined host beyond) :
    CountsDefined host (if value = 0#8 then do
        let c ← armReadC p
        return (op, c)
      else if value < 32#8 then inside else beyond) := by
  split
  · exact (defined_bind _ _).mpr ⟨defined_armReadC host p, defined_pure _⟩
  · rename_i positive
    split
    · rename_i small
      have amount := amount_inside positive small
      exact below amount.1 amount.2
    · exact past

theorem x86_guarded {inside beyond : Shifting (Word × Bool)} {a b : Word × Bool}
    (below : 0 < value.toNat → value.toNat < 32 → inside.run x86.shift = a)
    (past : beyond.run x86.shift = b) :
    Calls.run x86.shift (if value = 0#8 then do
        let c ← armReadC p
        return (op, c)
      else if value < 32#8 then inside else beyond) =
    if value = 0#8 then (op, ArmSimulator.armReadC p) else if value < 32#8 then a else b := by
  split
  · rw [Calls.run_bind, run_armReadC]
    rfl
  · rename_i positive
    split
    · rename_i small
      have amount := amount_inside positive small
      exact below amount.1 amount.2
    · exact past

theorem defined_lastCarry {i : Int} (inside : 0 ≤ i ∧ i ≤ 31) : CountsDefined host (do
    let carry ← (if value = 32#8 then getBit op i else pure false)
    return (0#32, carry)) := by
  rw [defined_bind]
  refine ⟨?_, defined_pure _⟩
  split
  · exact (defined_getBit host _ _).mpr inside
  · exact defined_pure _

theorem x86_lastCarry {i : Int} (inside : 0 ≤ i ∧ i ≤ 31) : Calls.run x86.shift (do
    let carry ← (if value = 32#8 then getBit op i else pure false)
    return (0#32, carry)) =
    (0#32, if value = 32#8 then ArmSimulator.getBit op i.toNat else false) := by
  rw [Calls.run_bind]
  split
  · rw [run_getBit x86 _ inside]
    rfl
  · rfl

theorem defined_dpLsl : CountsDefined host (dpLsl p op value) := by
  apply defined_guarded
  · intro positive small
    simp only [defined_bind, defined_getBit, defined_shl]
    refine ⟨?_, ?_, defined_pure _⟩ <;> omega
  · exact defined_lastCarry host op value (by decide)

theorem x86_dpLsl : (dpLsl p op value).run x86.shift = ArmSimulator.dpLsl p op value := by
  apply x86_guarded
  · intro positive small
    have complement : (32 - (value.toNat : Int)).toNat = 32 - value.toNat := by omega
    simp only [Calls.run_bind]
    rw [run_getBit x86 _ (by omega), run_shl x86 _ (by omega), complement]
    rfl
  · exact x86_lastCarry op value (by decide)

theorem defined_dpLsr : CountsDefined host (dpLsr p op value) := by
  apply defined_guarded
  · intro positive small
    simp only [defined_bind, defined_getBit, defined_shr]
    refine ⟨?_, ?_, defined_pure _⟩ <;> omega
  · exact defined_lastCarry host op value (by decide)

theorem x86_dpLsr : (dpLsr p op value).run x86.shift = ArmSimulator.dpLsr p op value := by
  apply x86_guarded
  · intro positive small
    have last : ((value.toNat : Int) - 1).toNat = value.toNat - 1 := by omega
    simp only [Calls.run_bind]
    rw [run_getBit x86 _ (by omega), run_shr x86 _ (by omega), last]
    rfl
  · exact x86_lastCarry op value (by decide)

theorem defined_dpAsr : CountsDefined host (dpAsr p op value) := by
  have sign : CountsDefined host (getBit op 31) := (defined_getBit host _ _).mpr (by decide)
  apply defined_guarded
  · intro positive small
    simp only [defined_bind, defined_getBit]
    exact ⟨by omega, defined_asr host op positive small, defined_pure _⟩
  · simp only [defined_bind]
    exact ⟨sign, sign, defined_pure _⟩

theorem x86_dpAsr : (dpAsr p op value).run x86.shift = ArmSimulator.dpAsr p op value := by
  apply x86_guarded
  · intro positive small
    have last : ((value.toNat : Int) - 1).toNat = value.toNat - 1 := by omega
    simp only [Calls.run_bind]
    rw [run_getBit x86 _ (by omega), x86_asr, last]
    rfl
  · simp only [Calls.run_bind]
    rw [run_getBit x86 _ (by decide)]
    rfl

theorem run_lowFive : (getBits (value.setWidth 32) 4 0).run host.shift =
    (ArmSimulator.getBits value 4 0).setWidth 32 := by
  refine (run_getBits host _ (by decide)).trans ?_
  apply BitVec.eq_of_toNat_eq
  have byte : (value.setWidth 32).toNat = value.toNat := by
    have size := value.isLt
    rw [BitVec.toNat_setWidth]
    omega
  have field : (ArmSimulator.getBits (value.setWidth 32) 4 0).toNat = value.toNat % 32 := by
    rw [getBits_eq_extractLsb', BitVec.toNat_setWidth, BitVec.extractLsb'_toNat,
      Nat.shiftRight_zero, byte]
    omega
  rw [BitVec.toNat_setWidth, toNat_getBits_low_five]
  refine Eq.trans field ?_
  omega

theorem lowFive_zero_iff :
    (ArmSimulator.getBits value 4 0).setWidth 32 = 0#32 ↔ ArmSimulator.getBits value 4 0 = 0#8 := by
  have size := (ArmSimulator.getBits value 4 0).isLt
  simp only [← BitVec.toNat_inj, BitVec.toNat_setWidth, BitVec.toNat_ofNat]
  omega

theorem defined_dpRorRrx_iff : CountsDefined host (dpRorRrx p op value) ↔
    ¬(32 < value.toNat ∧ value.toNat % 32 ≠ 0) := by
  have low := toNat_getBits_low_five value
  have size := value.isLt
  have field : CountsDefined host (getBits (value.setWidth 32) 4 0) :=
    defined_getBits host _ (by decide)
  unfold dpRorRrx
  split
  · rename_i zero
    simp [zero, defined_getBit, defined_shl, defined_shr, defined_armReadC]
  · rename_i positive
    replace positive : value.toNat ≠ 0 := fun zero => positive (BitVec.eq_of_toNat_eq zero)
    rw [defined_bind, run_lowFive]
    simp only [lowFive_zero_iff]
    split
    · rename_i whole
      rw [whole] at low
      rw [defined_bind, defined_getBit]
      have multiple : value.toNat % 32 = 0 := by
        rw [← low]
        rfl
      simp [field, multiple]
    · rename_i part
      replace part : value.toNat % 32 ≠ 0 := by
        rw [← low]
        exact fun zero => part (BitVec.eq_of_toNat_eq zero)
      have amount : ((ArmSimulator.getBits value 4 0).setWidth 32).toNat = value.toNat % 32 := by
        rw [BitVec.toNat_setWidth, low]
        omega
      simp only [defined_bind, run_lowFive, defined_getBit, defined_ror, amount]
      constructor
      · rintro ⟨_, _, _, rotation, _⟩
        omega
      · intro small
        exact ⟨field, field, by omega, by omega, defined_pure _⟩

theorem x86_dpRorRrx : (dpRorRrx p op value).run x86.shift = ArmSimulator.dpRorRrx p op value := by
  rw [dpRorRrx, ArmSimulator.dpRorRrx]
  split
  · simp only [Calls.run_bind, run_armReadC]
    rw [run_getBit x86 _ (by decide)]
    rfl
  · rw [Calls.run_bind, run_lowFive]
    simp only [lowFive_zero_iff]
    split
    · rw [Calls.run_bind, run_getBit x86 _ (by decide)]
      rfl
    · rename_i part
      have low := toNat_getBits_low_five value
      have positive : (ArmSimulator.getBits value 4 0).toNat ≠ 0 :=
        fun zero => part (BitVec.eq_of_toNat_eq zero)
      have amount : ((ArmSimulator.getBits value 4 0).setWidth 32).toNat =
          (ArmSimulator.getBits value 4 0).toNat := by
        rw [BitVec.toNat_setWidth]
        omega
      have last : (((ArmSimulator.getBits value 4 0).setWidth 32).toNat - 1 : Int).toNat =
          (ArmSimulator.getBits value 4 0).toNat - 1 := by omega
      simp only [Calls.run_bind, run_lowFive]
      rw [run_getBit x86 _ (by omega), x86_ror, last]
      rfl

end Amounts

section Operands

variable (host : Host) (p : ArmCore) (ins : Word)

theorem run_fields : (getBits ins 3 0).run host.shift = ArmSimulator.getBits ins 3 0 ∧
    (getBits ins 6 5).run host.shift = ArmSimulator.getBits ins 6 5 ∧
    (getBits ins 11 7).run host.shift = ArmSimulator.getBits ins 11 7 ∧
    (getBits ins 11 8).run host.shift = ArmSimulator.getBits ins 11 8 ∧
    (getBits ins 7 0).run host.shift = ArmSimulator.getBits ins 7 0 :=
  ⟨run_getBits host ins (by decide), run_getBits host ins (by decide),
    run_getBits host ins (by decide), run_getBits host ins (by decide),
    run_getBits host ins (by decide)⟩

theorem defined_fields : CountsDefined host (getBits ins 3 0) ∧
    CountsDefined host (getBits ins 6 5) ∧
    CountsDefined host (getBits ins 11 7) ∧ CountsDefined host (getBits ins 11 8) ∧
    CountsDefined host (getBits ins 7 0) :=
  ⟨defined_getBits host ins (by decide), defined_getBits host ins (by decide),
    defined_getBits host ins (by decide), defined_getBits host ins (by decide),
    defined_getBits host ins (by decide)⟩

theorem rotation_cast (rotateImm : Word) :
    (rotateImm.toNat : Int) * 2 = ((rotateImm.toNat * 2 : Nat) : Int) := rfl

theorem rotateImm_lt : (ArmSimulator.getBits ins 11 8).toNat < 16 := getBits_toNat_lt ins 11 8

theorem defined_rotation_iff (value : Word) :
    CountsDefined host (ror value ((ArmSimulator.getBits ins 11 8).toNat * 2)) ↔
      ArmSimulator.getBits ins 11 8 ≠ 0#32 := by
  have small := rotateImm_lt ins
  rw [rotation_cast, defined_ror, ne_eq, ← BitVec.toNat_inj, BitVec.toNat_ofNat]
  omega

theorem defined_getImmediate_iff :
    CountsDefined host (getImmediate p ins) ↔ ArmSimulator.getBits ins 11 8 ≠ 0#32 := by
  obtain ⟨_, _, _, rotateImm, _⟩ := run_fields host ins
  obtain ⟨_, _, _, field, imm8⟩ := defined_fields host ins
  unfold getImmediate
  simp only [defined_bind, rotateImm, defined_rotation_iff]
  constructor
  · intro counts
    exact counts.2.2.1
  · intro positive
    rw [if_neg positive, defined_getBit]
    exact ⟨imm8, field, positive, by decide, defined_pure _⟩

theorem x86_getImmediate :
    (getImmediate p ins).run x86.shift = ArmSimulator.getImmediate p ins := by
  obtain ⟨_, _, _, rotateImm, imm8⟩ := run_fields x86 ins
  unfold getImmediate ArmSimulator.getImmediate
  simp only [Calls.run_bind, rotateImm, imm8, rotation_cast, x86_ror]
  split
  · rw [run_armReadC]
    rfl
  · rw [run_getBit x86 _ (by decide)]
    rfl

theorem defined_scaledShift (shift : Word) {shiftImm : Nat} (small : shiftImm < 32) (valRm : Word) :
    CountsDefined host (scaledShift p shift shiftImm valRm) := by
  unfold scaledShift
  split
  · rw [defined_shl]
    omega
  · split
    · rw [defined_shr]
      omega
    · exact defined_pure _
  · split
    · rename_i positive
      exact defined_asr host valRm (Nat.pos_of_ne_zero positive) small
    · rw [defined_bind, defined_getBit]
      exact ⟨by decide, defined_pure _⟩
  · split
    · simp only [defined_bind, defined_getBit, defined_shl, defined_shr]
      exact ⟨by decide, by decide, by decide, defined_pure _⟩
    · rename_i positive
      rw [defined_ror]
      omega

theorem x86_scaledShift (shift : Word) {shiftImm : Nat} (small : shiftImm < 32) (valRm : Word) :
    (scaledShift p shift shiftImm valRm).run x86.shift =
      ArmSimulator.scaledShift p shift shiftImm valRm := by
  unfold scaledShift
  split
  · exact run_shl x86 valRm (by omega)
  · rw [ArmSimulator.scaledShift]
    split
    · rw [run_shr x86 _ (by omega)]
      rfl
    · rfl
  · rw [ArmSimulator.scaledShift]
    split
    · exact x86_asr valRm shiftImm
    · rw [Calls.run_bind, run_getBit x86 _ (by decide)]
      rfl
  · rename_i notLsl notLsr notAsr
    have rotation : ArmSimulator.scaledShift p shift shiftImm valRm =
        if shiftImm = 0 then
          (bit 32 (ArmSimulator.getBit (armReadCpsr p) Psr.c) <<< 31) ||| (valRm >>> 1)
        else ArmSimulator.ror valRm shiftImm := by
      unfold ArmSimulator.scaledShift
      split
      · exact (notLsl rfl).elim
      · exact (notLsr rfl).elim
      · exact (notAsr rfl).elim
      · rfl
    rw [rotation]
    split
    · simp only [Calls.run_bind]
      rw [run_getBit x86 _ (by decide)]
      rfl
    · exact x86_ror valRm shiftImm

theorem defined_scaledIndex : CountsDefined host (scaledIndex p ins) := by
  obtain ⟨rm, shift, shiftImm, _, _⟩ := run_fields host ins
  obtain ⟨rmDefined, shiftDefined, immDefined, _, _⟩ := defined_fields host ins
  unfold scaledIndex
  simp only [defined_bind, rm, shift, shiftImm]
  exact ⟨rmDefined, shiftDefined, immDefined, defined_scaledShift host p _ (shiftImm_lt ins) _⟩

theorem x86_scaledIndex (register : ArmSimulator.getBit ins 25 = true) :
    (scaledIndex p ins).run x86.shift = loadStoreOffset p ins := by
  obtain ⟨rm, shift, shiftImm, _, _⟩ := run_fields x86 ins
  unfold scaledIndex loadStoreOffset
  simp only [Calls.run_bind, rm, shift, shiftImm]
  rw [x86_scaledShift p _ (shiftImm_lt ins), register]
  rfl

theorem defined_msrOperand_iff : CountsDefined host (msrOperand p ins) ↔
    ¬(ArmSimulator.getBit ins 25 = true ∧ ArmSimulator.getBits ins 11 8 = 0#32) := by
  obtain ⟨_, _, _, rotateImm, imm8⟩ := run_fields host ins
  obtain ⟨rmDefined, _, _, rotateDefined, immDefined⟩ := defined_fields host ins
  have form : (getBit ins 25).run host.shift = ArmSimulator.getBit ins 25 :=
    run_getBit host ins (by decide)
  rw [msrOperand, defined_bind, defined_getBit, form]
  cases ArmSimulator.getBit ins 25 with
  | true =>
    rw [if_pos rfl, defined_bind, defined_bind, rotateImm, defined_rotation_iff]
    simp [immDefined, rotateDefined]
  | false =>
    rw [if_neg (by decide), defined_bind]
    simp [rmDefined]

theorem x86_msrOperand : (msrOperand p ins).run x86.shift = ArmSimulator.msrOperand p ins := by
  obtain ⟨rm, _, _, rotateImm, imm8⟩ := run_fields x86 ins
  have form : (getBit ins 25).run x86.shift = ArmSimulator.getBit ins 25 :=
    run_getBit x86 ins (by decide)
  rw [msrOperand, Calls.run_bind, form, ArmSimulator.msrOperand]
  split
  · rw [Calls.run_bind, Calls.run_bind, rotateImm, imm8, rotation_cast, x86_ror]
    simp only [rotateImm_toNat]
  · rw [Calls.run_bind, rm]
    rfl

def LongRotation : Prop :=
  ArmSimulator.getBits ins 6 5 = 3#32 ∧ ArmSimulator.getBit ins 4 = true ∧
    32 < ((armReadRegister p (getReg ins 11 8)).setWidth 8).toNat ∧
    ((armReadRegister p (getReg ins 11 8)).setWidth 8).toNat % 32 ≠ 0

theorem shiftCode_cases : ArmSimulator.getBits ins 6 5 = 0#32 ∨
    ArmSimulator.getBits ins 6 5 = 1#32 ∨
    ArmSimulator.getBits ins 6 5 = 2#32 ∨ ArmSimulator.getBits ins 6 5 = 3#32 := by
  have field := getBits_toNat_lt ins 6 5
  simp only [← BitVec.toNat_inj, BitVec.toNat_ofNat]
  omega

theorem defined_shiftSwitch_iff (shiftImm res : Word) (shiftValue : Byte) :
    CountsDefined host (shiftSwitch p (ArmSimulator.getBits ins 6 5) shiftImm res shiftValue) ↔
      ¬(ArmSimulator.getBits ins 6 5 = 3#32 ∧ 32 < shiftValue.toNat ∧
        shiftValue.toNat % 32 ≠ 0) := by
  rcases shiftCode_cases ins with lsl | lsr | asr | ror
  · have lslDefined : CountsDefined host (shiftSwitch p 0#32 shiftImm res shiftValue) := by
      rw [shiftSwitch]
      split
      · exact (defined_bind _ _).mpr ⟨defined_armReadC host p, defined_pure _⟩
      · exact defined_dpLsl host p res shiftValue
    rw [lsl]
    exact iff_of_true lslDefined fun rotation => absurd rotation.1 (by decide)
  · rw [lsr]
    exact iff_of_true (defined_dpLsr host p res shiftValue)
      fun rotation => absurd rotation.1 (by decide)
  · rw [asr]
    exact iff_of_true (defined_dpAsr host p res shiftValue)
      fun rotation => absurd rotation.1 (by decide)
  · rw [ror]
    refine (defined_dpRorRrx_iff host p res shiftValue).trans ?_
    simp only [true_and]

theorem defined_getShifted_iff : CountsDefined host (getShifted p ins) ↔ ¬LongRotation p ins := by
  obtain ⟨rm, shiftCode, shiftImm, rs, _⟩ := run_fields host ins
  obtain ⟨rmDefined, codeDefined, immDefined, rsDefined, _⟩ := defined_fields host ins
  have byRegister : (getBit ins 4).run host.shift = ArmSimulator.getBit ins 4 :=
    run_getBit host ins (by decide)
  have formDefined : CountsDefined host (getBit ins 4) :=
    (defined_getBit host ins _).mpr (by decide)
  unfold getShifted LongRotation
  simp only [defined_bind, rm, shiftCode, shiftImm, byRegister, immDefined, codeDefined, rmDefined,
    formDefined, true_and]
  cases ArmSimulator.getBit ins 4 with
  | true =>
    rw [if_pos rfl, defined_bind, rs, defined_shiftSwitch_iff]
    simp only [rsDefined, true_and]
    rfl
  | false =>
    have small : ((ArmSimulator.getBits ins 11 7).setWidth 8 : Byte).toNat < 32 := by
      have field := shiftImm_lt ins
      rw [BitVec.toNat_setWidth]
      omega
    rw [if_neg (by decide), defined_shiftSwitch_iff]
    simp only [Bool.false_eq_true, false_and, and_false, not_false_eq_true, iff_true, not_and]
    omega

theorem x86_shiftSwitch (shiftImm res : Word) (shiftValue : Byte) :
    (shiftSwitch p (ArmSimulator.getBits ins 6 5) shiftImm res shiftValue).run x86.shift =
      if shiftType (ArmSimulator.getBits ins 6 5) = .lsl ∧ shiftImm.setWidth 8 = 0#8 then
        (res, ArmSimulator.armReadC p)
      else shiftHelper (shiftType (ArmSimulator.getBits ins 6 5)) p res shiftValue := by
  rcases shiftCode_cases ins with lsl | lsr | asr | ror
  · have type : shiftType 0#32 = .lsl := rfl
    rw [lsl, type, shiftSwitch]
    by_cases none : shiftImm.setWidth 8 = 0#8
    · rw [if_pos none, if_pos ⟨rfl, none⟩, Calls.run_bind, run_armReadC]
      rfl
    · rw [if_neg none, if_neg fun both => none both.2]
      exact x86_dpLsl p res shiftValue
  · rw [lsr, if_neg fun both => absurd both.1 (by decide)]
    exact x86_dpLsr p res shiftValue
  · rw [asr, if_neg fun both => absurd both.1 (by decide)]
    exact x86_dpAsr p res shiftValue
  · rw [ror, if_neg fun both => absurd both.1 (by decide)]
    exact x86_dpRorRrx p res shiftValue

theorem x86_getShifted : (getShifted p ins).run x86.shift = ArmSimulator.getShifted p ins := by
  obtain ⟨rm, shiftCode, shiftImm, rs, _⟩ := run_fields x86 ins
  have byRegister : (getBit ins 4).run x86.shift = ArmSimulator.getBit ins 4 :=
    run_getBit x86 ins (by decide)
  rw [getShifted_eq]
  unfold getShifted
  simp only [Calls.run_bind, rm, shiftCode, shiftImm, byRegister]
  cases ArmSimulator.getBit ins 4 with
  | true =>
    rw [if_pos rfl, Calls.run_bind, rs, x86_shiftSwitch]
    rfl
  | false =>
    rw [if_neg (by decide), x86_shiftSwitch]
    rfl

end Operands

end Counted

theorem CountsDefined.run_eq {α : Type} {host : Host} {c : Shifting α}
    (counts : CountsDefined host c) :
    c.run host.shift = c.run x86.shift := by
  have agree : ∀ s : Shift, s.Defined → x86.shift s = host.shift s := by
    intro s inside
    rw [x86.defined s inside, host.defined s inside]
  exact (Calls.Within.run_eq counts agree).symm

structure OperandCounts (host : Host) (p : ArmCore) (ins : Word) : Prop where
  shifted : instructionGetHandler ins = some .armDataProcessingShift →
    CountsDefined host (Counted.getShifted p ins)
  immediate : instructionGetHandler ins = some .armDataProcessingImmediate →
    CountsDefined host (Counted.getImmediate p ins)
  index : instructionGetHandler ins = some .armLoadStore → getBit ins 25 = true →
    CountsDefined host (Counted.scaledIndex p ins)
  msr : instructionGetHandler ins = some .armMsr → CountsDefined host (Counted.msrOperand p ins)

/-- No rotation by 0 or by more than 31. -/
structure CountsMet (p : ArmCore) (ins : Word) : Prop where
  shifted : instructionGetHandler ins = some .armDataProcessingShift → ¬Counted.LongRotation p ins
  immediate : instructionGetHandler ins = some .armDataProcessingImmediate →
    getBits ins 11 8 ≠ 0#32
  msr : instructionGetHandler ins = some .armMsr →
    ¬(getBit ins 25 = true ∧ getBits ins 11 8 = 0#32)

structure OperandsFixed (host : Host) (p : ArmCore) (ins : Word) : Prop where
  shifted : instructionGetHandler ins = some .armDataProcessingShift →
    (Counted.getShifted p ins).run host.shift = getShifted p ins
  immediate : instructionGetHandler ins = some .armDataProcessingImmediate →
    (Counted.getImmediate p ins).run host.shift = getImmediate p ins
  index : instructionGetHandler ins = some .armLoadStore → getBit ins 25 = true →
    (Counted.scaledIndex p ins).run host.shift = loadStoreOffset p ins
  msr : instructionGetHandler ins = some .armMsr →
    (Counted.msrOperand p ins).run host.shift = msrOperand p ins

section Hosts

variable (host : Host) (p : ArmCore) (ins : Word)

theorem x86_operands : OperandsFixed x86 p ins :=
  ⟨fun _ => Counted.x86_getShifted p ins, fun _ => Counted.x86_getImmediate p ins,
    fun _ register => Counted.x86_scaledIndex p ins register, fun _ => Counted.x86_msrOperand p ins⟩

theorem operandCounts_iff : OperandCounts host p ins ↔ CountsMet p ins := by
  constructor
  · intro counts
    exact ⟨fun handler => (Counted.defined_getShifted_iff host p ins).mp (counts.shifted handler),
      fun handler => (Counted.defined_getImmediate_iff host p ins).mp (counts.immediate handler),
      fun handler => (Counted.defined_msrOperand_iff host p ins).mp (counts.msr handler)⟩
  · intro met
    exact ⟨fun handler => (Counted.defined_getShifted_iff host p ins).mpr (met.shifted handler),
      fun handler => (Counted.defined_getImmediate_iff host p ins).mpr (met.immediate handler),
      fun _ _ => Counted.defined_scaledIndex host p ins,
      fun handler => (Counted.defined_msrOperand_iff host p ins).mpr (met.msr handler)⟩

variable {host p ins} in
theorem OperandCounts.fixed (counts : OperandCounts host p ins) : OperandsFixed host p ins := by
  have model := x86_operands p ins
  constructor
  · intro handler
    exact (counts.shifted handler).run_eq.trans (model.shifted handler)
  · intro handler
    exact (counts.immediate handler).run_eq.trans (model.immediate handler)
  · intro handler register
    exact (counts.index handler register).run_eq.trans (model.index handler register)
  · intro handler
    exact (counts.msr handler).run_eq.trans (model.msr handler)

end Hosts

/-- Which words and registers keep all shift counts of their operand between 0 and
31, on every host; there the operand is the same on all of them, and on x86 it is
the one of the model for every word. -/
theorem shift_counts_defined_iff (host : Host) (p : ArmCore) (ins : Word) :
    (OperandCounts host p ins ↔ CountsMet p ins) ∧
    (CountsMet p ins → OperandsFixed host p ins) ∧ OperandsFixed x86 p ins :=
  ⟨operandCounts_iff host p ins, fun met => ((operandCounts_iff host p ins).mpr met).fixed,
    x86_operands p ins⟩

def zeroHost : Host where
  shift s := if s.Defined then s.result s.count.toNat else 0#32
  defined _ inside := if_pos inside

theorem shift_counts_rotation :
    (Counted.getShifted { sampleCore 0x13#32 0#32 with registersStorage := fun _ => 31#32 }
      0xE1A00271#32).run zeroHost.shift = (0x3E#32, false) := by
  have rotation : CountsMet { sampleCore 0x13#32 0#32 with registersStorage := fun _ => 31#32 }
      0xE1A00271#32 := by
    refine ⟨fun _ long => absurd long.2.2.1 (by decide), fun other => ?_, fun other => ?_⟩
    · exact absurd other (by decide)
    · exact absurd other (by decide)
  rw [((shift_counts_defined_iff zeroHost _ _).2.1 rotation).shifted (by decide)]
  decide

/-- `mov r0, #1` rotates by 0, which shifts left by 32. -/
theorem shift_count_thirty_two :
    ¬∀ (host : Host) (p : ArmCore) (ins : Word), OperandCounts host p ins := by
  intro counts
  have rotated := (counts x86 (sampleCore 0x13#32 0#32) 0xE3A00001#32).immediate (by decide)
  exact absurd ((Counted.defined_getImmediate_iff x86 _ _).mp rotated) (by decide)

end ArmSimulator
