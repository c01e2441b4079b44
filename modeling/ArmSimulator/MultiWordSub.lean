import ArmSimulator.CarryFlags
import ArmSimulator.Conditions

namespace ArmSimulator

open CarryArithmetic

structure IsDifference (xs ys zs : List Word) (carryOut : Bool) : Prop where
  lengths : ys.length = xs.length ∧ zs.length = xs.length
  words : (multiWordValue zs : Int) =
    (multiWordValue xs - multiWordValue ys) % 2 ^ (32 * xs.length)
  carry : carryOut = true ↔ multiWordValue ys ≤ multiWordValue xs

structure BorrowColumn where
  left : Word
  right : Word
  carryIn : Bool

/-- SUBS, then SBCS after SBCS. Between two of them anything may be done that
leaves the carry flag. -/
inductive DifferenceChain (h : Platform) :
    List Word → List Word → List Word → List BorrowColumn → ArmCore → Prop
  | subs {ins : Word} {p q : ArmCore} : SumStep h .sub ins p q →
      DifferenceChain h [sumLeft ins p] [sumRight ins p] [sumWord ins q] [] q
  | sbcs {xs ys zs : List Word} {columns : List BorrowColumn} {ins : Word} {o p q : ArmCore} :
      DifferenceChain h xs ys zs columns o → armReadC p = armReadC o → SumStep h .sbc ins p q →
      DifferenceChain h (xs ++ [sumLeft ins p]) (ys ++ [sumRight ins p]) (zs ++ [sumWord ins q])
        (columns ++ [⟨sumLeft ins p, sumRight ins p, armReadC p⟩]) q

section Borrows

variable {xs ys zs : List Word} {c : Bool}

theorem digits_lt (words : List Word) : ∀ digit ∈ words.map BitVec.toNat, digit < 2 ^ 32 := by
  intro digit inside
  obtain ⟨word, _, rfl⟩ := List.mem_map.mp inside
  exact word.isLt

theorem multiWordValue_lt (words : List Word) :
    multiWordValue words < 2 ^ (32 * words.length) := by
  have bound := Nat.ofDigits_lt_base_pow_length (by decide) (digits_lt words)
  rwa [List.length_map, ← pow_mul] at bound

theorem difference_iff {m x y z : Nat} (xSmall : x < m) (ySmall : y < m) (zSmall : z < m)
    (c : Bool) : ((z : Int) = (x - y) % m ∧ (c = true ↔ y ≤ x)) ↔ x + m * (!c).toNat = z + y := by
  have word : ((x : Int) - y) % m = if y ≤ x then (x : Int) - y else x - y + m := by
    by_cases above : y ≤ x
    · rw [if_pos above, Int.emod_eq_of_lt (by omega) (by omega)]
    · rw [if_neg above, ← Int.add_emod_right, Int.emod_eq_of_lt (by omega) (by omega)]
  rw [word]
  cases c
  · simp only [Bool.false_eq_true, false_iff, Bool.not_false, Bool.toNat_true, mul_one]
    split <;> omega
  · simp only [true_iff, Bool.not_true, Bool.toNat_false, mul_zero, add_zero]
    split <;> omega

theorem isDifference_iff_ripple : IsDifference xs ys zs c ↔
    MultiWord.Ripple (2 ^ 32) (zs.map BitVec.toNat) (ys.map BitVec.toNat) (xs.map BitVec.toNat)
      (!c).toNat := by
  have power : (2 ^ 32) ^ zs.length = 2 ^ (32 * zs.length) := (pow_mul 2 32 _).symm
  have exact : ys.length = xs.length → zs.length = xs.length →
      (((multiWordValue zs : Int) =
          (multiWordValue xs - multiWordValue ys) % 2 ^ (32 * xs.length) ∧
        (c = true ↔ multiWordValue ys ≤ multiWordValue xs)) ↔
      multiWordValue xs + (2 ^ 32) ^ zs.length * (!c).toNat =
        multiWordValue zs + multiWordValue ys) := by
    intro ysLength zsLength
    have left := multiWordValue_lt xs
    have right := multiWordValue_lt ys
    have word := multiWordValue_lt zs
    rw [ysLength] at right
    rw [zsLength] at word
    rw [power, zsLength, ← difference_iff left right word, Nat.cast_pow, Nat.cast_ofNat]
  constructor
  · rintro ⟨⟨ysLength, zsLength⟩, words, carry⟩
    refine .of_sum (by decide) ?_ (digits_lt xs) ?_
    · simp only [List.length_map]
      omega
    · rw [List.length_map]
      exact (exact ysLength zsLength).mp ⟨words, carry⟩
  · intro ripple
    have lengths := ripple.lengths
    have sum := ripple.sum
    simp only [List.length_map] at lengths sum
    have split := (exact (by omega) (by omega)).mpr sum
    exact ⟨by omega, split.1, split.2⟩

end Borrows

section Steps

variable {h : Platform} {ins : Word} {p q : ArmCore}

theorem SumStep.subs_column (step : SumStep h .sub ins p q) :
    (sumLeft ins p).toNat + 2 ^ 32 * (!armReadC q).toNat =
      (sumWord ins q).toNat + (sumRight ins p).toNat := by
  have word : sumWord ins q = sumLeft ins p - sumRight ins p := by
    rw [sumWord, step.result]
    exact (armReadRegister_withS_self _ step.notPc _ _ _).trans (low_word_sub _ _)
  have carry : armReadC q = decide (sumRight ins p ≤ sumLeft ins p) := by
    rw [step.result]
    exact armReadC_withS _ step.notPc _ _ _
  have left := (sumLeft ins p).isLt
  have right := (sumRight ins p).isLt
  rw [word, carry, BitVec.toNat_sub]
  by_cases above : sumRight ins p ≤ sumLeft ins p
  · rw [decide_eq_true above, Bool.not_true, Bool.toNat_false]
    rw [BitVec.le_def] at above
    omega
  · rw [decide_eq_false above, Bool.not_false, Bool.toNat_true]
    rw [BitVec.le_def] at above
    omega

theorem SumStep.sbcs_column (step : SumStep h .sbc ins p q) :
    ∃ d ≤ 1, (sumLeft ins p).toNat + 2 ^ 32 * d =
        (sumWord ins q).toNat + (sumRight ins p).toNat + (!armReadC p).toNat ∧
      (d = (!armReadC q).toNat ↔ CarryMet (sumLeft ins p) (sumRight ins p) (armReadC p)) := by
  have word : sumWord ins q = subBorrow (sumLeft ins p) (sumRight ins p) (!armReadC p) := by
    rw [sumWord, step.result]
    exact sbc_word (fetched p) _ _ step.notPc
  have carry : armReadC q = true ↔
      sumRight ins p + bit 32 (armReadC p) ≤ sumLeft ins p := by
    rw [step.result]
    exact sbc_carry (fetched p) _ _ step.notPc
  have borrow : (!armReadC p).toNat = 1 - (armReadC p).toNat := by cases armReadC p <;> rfl
  have out : (!armReadC q).toNat = if armReadC q = true then 0 else 1 := by
    cases armReadC q <;> rfl
  rw [← carryMet_iff, ← carry, word, out, ← borrow]
  rcases subBorrow_split (sumLeft ins p) (sumRight ins p) (!armReadC p) with
    ⟨split, none⟩ | ⟨split, borrowed⟩
  · refine ⟨0, by omega, by omega, ?_⟩
    rw [iff_true_right none]
    by_cases set : armReadC q = true <;> simp [set]
  · refine ⟨1, by omega, by omega, ?_⟩
    rw [iff_false_right (Nat.not_le_of_lt borrowed)]
    by_cases set : armReadC q = true <;> simp [set]

end Steps

section Chains

variable {h : Platform} {xs ys zs : List Word} {columns : List BorrowColumn} {q : ArmCore}

theorem DifferenceChain.isDifference_iff (chain : DifferenceChain h xs ys zs columns q) :
    IsDifference xs ys zs (armReadC q) ↔
      ∀ column ∈ columns, CarryMet column.left column.right column.carryIn := by
  induction chain with
  | subs step =>
    refine ⟨fun _ _ inside => absurd inside List.not_mem_nil, fun _ => ?_⟩
    exact isDifference_iff_ripple.mpr (.snoc .nil (BitVec.isLt _) step.subs_column)
  | @sbcs xs ys zs columns ins o p q before carried step ih =>
    obtain ⟨d, small, column, met⟩ := step.sbcs_column
    rw [isDifference_iff_ripple]
    simp only [List.map_append, List.map_cons, List.map_nil, List.forall_mem_append,
      List.forall_mem_singleton]
    rw [← met, ← ih, isDifference_iff_ripple, ← carried]
    constructor
    · intro ripple
      obtain ⟨c, rest, last⟩ := ripple.last_column
      have carryIn : c ≤ 1 := rest.carry_le_one (digits_lt zs) (digits_lt ys)
      have carryOut : (!armReadC q).toNat ≤ 1 := Bool.toNat_le _
      have borrow : (!armReadC p).toNat ≤ 1 := Bool.toNat_le _
      have same : c = (!armReadC p).toNat ∧ d = (!armReadC q).toNat := by omega
      rw [← same.1]
      exact ⟨rest, same.2⟩
    · rintro ⟨rest, rfl⟩
      exact rest.snoc (BitVec.isLt _) column

end Chains

section Existence

def subsWord : Word := 0xE0502001#32
def sbcsWord : Word := 0xE0D02001#32

theorem subs_loaded : LoadedWord .sub subsWord :=
  ⟨by decide, ⟨by decide, by decide, by decide, by decide⟩, by decide, by decide, by decide,
    by decide, by decide⟩

theorem sbcs_loaded : LoadedWord .sbc sbcsWord :=
  ⟨by decide, ⟨by decide, by decide, by decide, by decide⟩, by decide, by decide, by decide,
    by decide, by decide⟩

theorem DifferenceChain.subs_words (h : Platform) (x y : Word) :
    ∃ z q, DifferenceChain h [x] [y] [z] [] q := by
  obtain ⟨left, right⟩ := loaded_operands h x y false subs_loaded (by decide)
  have chain := DifferenceChain.subs (loaded_step h x y false subs_loaded)
  rw [left, right] at chain
  exact ⟨_, _, chain⟩

theorem DifferenceChain.sbcs_words {h : Platform} {xs ys zs : List Word}
    {columns : List BorrowColumn} {o : ArmCore} (before : DifferenceChain h xs ys zs columns o)
    (x y : Word) : ∃ z q, DifferenceChain h (xs ++ [x]) (ys ++ [y]) (zs ++ [z])
      (columns ++ [⟨x, y, armReadC o⟩]) q := by
  obtain ⟨left, right⟩ := loaded_operands h x y (armReadC o) sbcs_loaded (by decide)
  have chain := before.sbcs (loaded_carry h _ _ _ _)
    (loaded_step h x y (armReadC o) sbcs_loaded)
  rw [left, right, loaded_carry] at chain
  exact ⟨_, _, chain⟩

theorem exists_differenceChain (h : Platform) (words : List (Word × Word))
    (nonempty : words ≠ []) : ∃ zs columns q,
      DifferenceChain h (words.map Prod.fst) (words.map Prod.snd) zs columns q := by
  induction words using List.reverseRecOn with
  | nil => exact absurd rfl nonempty
  | append_singleton words last ih =>
    simp only [List.map_append, List.map_cons, List.map_nil]
    cases words with
    | nil =>
      obtain ⟨z, q, chain⟩ := DifferenceChain.subs_words h last.1 last.2
      exact ⟨_, _, _, chain⟩
    | cons first words =>
      obtain ⟨zs, columns, o, before⟩ := ih (List.cons_ne_nil _ _)
      obtain ⟨z, q, chain⟩ := before.sbcs_words last.1 last.2
      exact ⟨_, _, _, chain⟩

end Existence

/-- SBCS and RSCS are exact at the operands that meet both conditions and at no
others, and a chain of SUBS and SBCS leaves the difference and its borrow just
when each of its SBCS meets the condition of the carry. -/
theorem borrow_exact_iff (h : Platform) :
    (∀ (p : ArmCore) (rd : Reg) (op1 op2 : Word), rd ≠ Reg.pc →
      (Subtracted rd op1 op2 (armReadC p) (DataProcessing.sbc p rd op1 op2 true) ↔
        CarryMet op1 op2 (armReadC p) ∧ OverflowMet op1 op2 (armReadC p))) ∧
    (∀ (p : ArmCore) (rd : Reg) (op1 op2 : Word), rd ≠ Reg.pc →
      (Subtracted rd op2 op1 (armReadC p) (DataProcessing.rsc p rd op1 op2 true) ↔
        CarryMet op2 op1 (armReadC p) ∧ OverflowMet op2 op1 (armReadC p))) ∧
    (∀ xs ys : List Word, xs ≠ [] → ys.length = xs.length →
      ∃ zs columns q, DifferenceChain h xs ys zs columns q) ∧
    ∀ xs ys zs columns q, DifferenceChain h xs ys zs columns q →
      (IsDifference xs ys zs (armReadC q) ↔
        ∀ column ∈ columns, CarryMet column.left column.right column.carryIn) := by
  refine ⟨fun p rd op1 op2 notPc => sbc_subtracted_iff p op1 op2 notPc,
    fun p rd op1 op2 notPc => sbc_subtracted_iff p op2 op1 notPc, ?_,
    fun xs ys zs columns q chain => chain.isDifference_iff⟩
  intro xs ys nonempty lengths
  obtain ⟨zs, columns, q, chain⟩ := exists_differenceChain h (xs.zip ys)
    (zip_ne_nil nonempty lengths)
  rw [List.map_fst_zip lengths.ge, List.map_snd_zip lengths.le] at chain
  exact ⟨zs, columns, q, chain⟩

def subtractedState (x y : Word) (carry : Bool) : ArmCore :=
  (armStep lp64 0 (loadedState lp64 sbcsWord x y carry)).1

theorem subtracted_chain (x y x' y' : Word) (carry : Bool)
    (carried : armReadC (armStep lp64 0 (loadedState lp64 subsWord x y false)).1 = carry) :
    DifferenceChain lp64 [x, x'] [y, y']
      [sumWord subsWord (armStep lp64 0 (loadedState lp64 subsWord x y false)).1,
        sumWord sbcsWord (subtractedState x' y' carry)] [⟨x', y', carry⟩]
      (subtractedState x' y' carry) := by
  obtain ⟨leftLow, rightLow⟩ := loaded_operands lp64 x y false subs_loaded (by decide)
  obtain ⟨leftHigh, rightHigh⟩ := loaded_operands lp64 x' y' carry sbcs_loaded (by decide)
  have chain := (DifferenceChain.subs (loaded_step lp64 x y false subs_loaded)).sbcs
    ((loaded_carry lp64 x' y' carry sbcsWord).trans carried.symm)
    (loaded_step lp64 x' y' carry sbcs_loaded)
  rw [leftLow, rightLow, leftHigh, rightHigh, loaded_carry] at chain
  exact chain

theorem borrow_exact_two : IsDifference [0#32, 2#32] [1#32, 1#32] [0xFFFFFFFF#32, 0#32]
    (armReadC (subtractedState 2#32 1#32 false)) := by
  have chain := subtracted_chain 0#32 1#32 2#32 1#32 false (by decide)
  have low : sumWord subsWord (armStep lp64 0 (loadedState lp64 subsWord 0#32 1#32 false)).1 =
      0xFFFFFFFF#32 := by decide
  have high : sumWord sbcsWord (subtractedState 2#32 1#32 false) = 0#32 := by decide
  rw [low, high] at chain
  exact ((borrow_exact_iff lp64).2.2.2 _ _ _ _ _ chain).mpr (by decide)

theorem borrow_invented :
    (¬ ∀ (ins : Word) (p q : ArmCore), SumStep lp64 .sbc ins p q →
      Subtracted (getRd ins) (sumLeft ins p) (sumRight ins p) (armReadC p) q) ∧
    ¬ ∀ xs ys zs columns q, DifferenceChain lp64 xs ys zs columns q →
      IsDifference xs ys zs (armReadC q) := by
  constructor
  · intro exact
    obtain ⟨left, right⟩ := loaded_operands lp64 1#32 1#32 true sbcs_loaded (by decide)
    have carry := (exact _ _ _ (loaded_step lp64 1#32 1#32 true sbcs_loaded)).carry
    rw [left, right, loaded_carry] at carry
    exact absurd (carry.mpr (by decide)) (by decide)
  · intro exact
    have chain := subtracted_chain 1#32 0#32 1#32 1#32 true (by decide)
    exact absurd ((exact _ _ _ _ _ chain).carry.mpr (by decide)) (by decide)

end ArmSimulator
