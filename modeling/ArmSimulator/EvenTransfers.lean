import ArmSimulator.EvenPc

/-! The transfers that can leave an odd pc: narrow loads, the base writeback, and LDM(3). LDR and
LDM(1) clear the lowest bit. -/
namespace ArmSimulator

section Single

variable {h : Platform} {junk : Word} {q : ArmCore} {ins : Word} {rd : Reg} {address : Word}
  {base : Bool} (before : low (q.registersStorage 15) = base)

/-- The lowest bit of what a load of this kind puts in `rd`; LDR clears it in the pc. -/
def loadStoreDatum (h : Platform) (q : ArmCore) (ins address : Word) : Option Bool :=
  match codage4Bits ins 24 22 21 20 with
  | 1#32 | 9#32 | 11#32 => some false
  | 3#32 => some (low (q.wordAt h address))
  | 5#32 | 6#32 | 7#32 | 13#32 | 15#32 => some (low (q.mem.valueAt h true 8 address))
  | _ => none

def loadStoreInside (h : Platform) (q : ArmCore) (ins address : Word) : Prop :=
  outside h q address (if getBit ins 22 then 1 else 4) = false

/-- LDRSH reads into half of a word, on a big-endian host into the high one. -/
def miscellaneousDatum (h : Platform) (junk : Word) (q : ArmCore) (ins address : Word) :
    Option Bool :=
  match codage3Bits ins 20 6 5 with
  | 5#32 => some (low (q.mem.valueAt h (getBit q.cpsr Psr.e) 16 address))
  | 6#32 => some (low (q.mem.valueAt h true 8 address))
  | 7#32 =>
    some (if h.isBigEndian then low junk
      else low (q.mem.valueAt h (getBit q.cpsr Psr.e) 16 address))
  | _ => none

/-- The words of a double transfer are inside, or it is one that does nothing. -/
def miscellaneousInside (h : Platform) (q : ArmCore) (ins : Word) (rd : Reg) (address : Word) :
    Prop :=
  match codage3Bits ins 20 6 5 with
  | 1#32 | 5#32 | 7#32 => outside h q address 2 = false
  | 6#32 => outside h q address 1 = false
  | 2#32 =>
    ¬(getBit rd 0 = true ∨ rd = Reg.lr ∨ address &&& 3#32 ≠ 0#32) →
      outside h q address 4 = false ∧ outside h q (address + 4#32) 4 = false
  | 3#32 =>
    ¬(getBit rd 0 = true ∨ rd = Reg.lr ∨ address &&& 3#32 ≠ 0#32 ∨ address &&& 4#32 ≠ 0#32) →
      outside h q address 4 = false ∧ outside h q (address + 4#32) 4 = false
  | _ => True

def leftInPc (rd : Reg) (datum : Option Bool) (base : Bool) : Bool :=
  if rd = Reg.pc then datum.getD base else base

include before

theorem loaded_even_iff {value : Word} {bit : Bool} (same : low value = bit) :
    EvenPc (armWriteRegister q rd value) ↔ leftInPc rd (some bit) base = false := by
  by_cases isPc : rd = Reg.pc
  · rw [evenPc_iff, isPc, storage_pc_write, same]
    exact Iff.rfl
  · rw [evenPc_iff, storage_pc_other isPc, before, leftInPc, if_neg isPc]

theorem load_settles {α : Type} {r : α × ArmException} {old new : α} {out bit : Bool}
    (shape : r = if out then (old, .dataAbort) else (new, .noException)) (extend : α → Word)
    (same : low (extend new) = bit) :
    Settles (out = false → leftInPc rd (some bit) base = false)
      (returning (writeLoaded q rd (extend r.1) r.2)) := by
  rw [shape]
  cases out with
  | true => exact .aborts (fun inside => absurd inside (by decide))
  | false =>
    show Settles _ (armWriteRegister q rd (extend new), .returned .noException)
    apply Settles.returns
    rw [loaded_even_iff before same]
    exact ⟨fun holds _ => holds, fun holds => holds rfl⟩

theorem store_settles {r : ArmCore × ArmException} {out : Bool} {mem : Memory}
    (shape : r = if out then (q, .dataAbort) else ({ q with mem := mem }, .noException)) :
    Settles (out = false → leftInPc rd none base = false) (returning r) := by
  have left : leftInPc rd none base = base := ite_self _
  rw [shape, left]
  cases out with
  | true => exact .aborts (fun inside => absurd inside (by decide))
  | false =>
    have kept : EvenPc { q with mem := mem } ↔ base = false := by
      rw [← before]
      exact Iff.rfl
    apply Settles.returns
    exact ⟨fun holds _ => kept.mp holds, fun holds => kept.mpr (holds rfl)⟩

theorem ldr_settles : Settles (outside h q address 4 = false →
    leftInPc rd (some false) base = false) (returning (ldr h junk q rd address)) := by
  rw [ldr, armReadWord_eq]
  cases out : outside h q address 4 with
  | true => exact .aborts (fun inside => absurd inside (by decide))
  | false =>
    simp only [Bool.false_eq_true, if_false, if_true]
    by_cases isPc : rd = Reg.pc
    · rw [if_pos isPc, isPc]
      apply Settles.returns
      refine iff_of_true ?_ (fun _ => rfl)
      rw [evenPc_iff, storage_pc_write, low_and]
      exact Bool.and_false _
    · rw [if_neg isPc]
      apply Settles.returns
      rw [evenPc_iff, storage_pc_other isPc, before, leftInPc, if_neg isPc]
      exact ⟨fun holds _ => holds, fun holds => holds trivial⟩

theorem loadStoreSwitch_settles :
    Settles (loadStoreInside h q ins address →
        leftInPc rd (loadStoreDatum h q ins address) base = false)
      (returning (loadStoreSwitch h junk q ins rd address)) := by
  have word : Settles (outside h q address 4 = false → leftInPc rd none base = false)
      (returning (str h q rd address)) := store_settles before (armWriteWord_eq h q address _)
  have byte : Settles (outside h q address 1 = false → leftInPc rd none base = false)
      (returning (strb h q rd address)) := store_settles before (armWriteByte_eq h q address _)
  have loadByte : Settles (outside h q address 1 = false →
      leftInPc rd (some (low (q.mem.valueAt h true 8 address))) base = false)
      (returning (ldrb h junk q rd address)) :=
    load_settles before (armReadByte_eq h q address _) (BitVec.setWidth 32)
      (low_setWidth (by decide) _)
  have loadWord : Settles (outside h q address 4 = false →
      leftInPc rd (some (low (q.wordAt h address))) base = false)
      (returning (ldrt h junk q rd address)) :=
    load_settles before (armReadWord_eq h q address _) id rfl
  have loadPc : Settles (outside h q address 4 = false → leftInPc rd (some false) base = false)
      (returning (ldr h junk q rd address)) := ldr_settles before
  rw [loadStoreInside, loadStoreDatum, loadStoreSwitch, codage4Bits_eq, getBit_eq]
  cases ins.getLsbD 24 <;> cases ins.getLsbD 22 <;> cases ins.getLsbD 21 <;>
    cases ins.getLsbD 20 <;>
    first | exact word | exact byte | exact loadByte | exact loadWord | exact loadPc

theorem ldrsb_settles : Settles (outside h q address 1 = false →
    leftInPc rd (some (low (q.mem.valueAt h true 8 address))) base = false)
    (returning (ldrsb h junk q rd address)) := by
  have masked (r : Byte) : low (if getBit r 7 then (r.setWidth 32 ||| 0xFFFFFF00#32).setWidth 8
      else (r.setWidth 32 &&& 0x0000F00FF#32).setWidth 8 : Byte) = low r := by
    apply low_ite
    · rw [low_setWidth (by decide), low_or, low_setWidth (by decide)]
      exact Bool.or_false _
    · rw [low_setWidth (by decide), low_and, low_setWidth (by decide)]
      exact Bool.and_true _
  exact load_settles before (armReadByte_eq h q address _)
    (fun r => (if getBit r 7 then (r.setWidth 32 ||| 0xFFFFFF00#32).setWidth 8
      else (r.setWidth 32 &&& 0x0000F00FF#32).setWidth 8 : Byte).setWidth 32)
    ((low_setWidth (by decide) _).trans (masked _))

theorem ldrsh_settles : Settles (outside h q address 2 = false →
    leftInPc rd (some (if h.isBigEndian then low junk
      else low (q.mem.valueAt h (getBit q.cpsr Psr.e) 16 address))) base = false)
    (returning (ldrsh h junk q rd address)) := by
  have extended (x : Word) :
      low (if getBit x 15 then x ||| 0xFFFF0000#32 else x &&& 0x000FFFFF#32) = low x := by
    apply low_ite
    · rw [low_or]
      exact Bool.or_false _
    · rw [low_and]
      exact Bool.and_true _
  have joined (x y : Half) : low (x ++ y : Word) = low y := by
    rw [low, BitVec.getLsbD_append]
    rfl
  have placed (r : Half) : low (if h.isBigEndian then r ++ junk.setWidth 16
      else (junk >>> 16).setWidth 16 ++ r : Word) = if h.isBigEndian then low junk else low r := by
    split
    · rw [joined, low_setWidth (by decide)]
    · rw [joined]
  exact load_settles before (armReadHalf_eq h q address _)
    (fun r =>
      let value : Word :=
        if h.isBigEndian then r ++ junk.setWidth 16 else (junk >>> 16).setWidth 16 ++ r
      if getBit value 15 then value ||| 0xFFFF0000#32 else value &&& 0x000FFFFF#32)
    ((extended _).trans (placed _))

theorem kept_settles {r : ArmCore × ArmException} {inside : Prop}
    (ends : (r.2 = .noException ∧ r.1.registersStorage 15 = q.registersStorage 15 ∧ inside) ∨
      (r.2 = .dataAbort ∧ ¬inside)) :
    Settles (inside → leftInPc rd none base = false) (returning r) := by
  have left : leftInPc rd none base = base := ite_self _
  rw [left]
  obtain ⟨core, result⟩ := r
  rcases ends with ⟨rfl, kept, holds⟩ | ⟨rfl, fails⟩
  · apply Settles.returns
    rw [evenPc_iff, kept, before]
    exact ⟨fun even _ => even, fun even => even holds⟩
  · exact .aborts (fun holds => absurd holds fails)

theorem ldrd_settles :
    Settles ((¬(getBit rd 0 = true ∨ rd = Reg.lr ∨ address &&& 3#32 ≠ 0#32) →
        outside h q address 4 = false ∧ outside h q (address + 4#32) 4 = false) →
      leftInPc rd none base = false) (returning (ldrd h junk q rd address)) := by
  apply kept_settles before
  unfold ldrd
  split
  · rename_i skips
    exact .inl ⟨rfl, rfl, fun valid => absurd skips valid⟩
  · rename_i valid
    have both := valid
    simp only [not_or, Bool.not_eq_true] at both
    obtain ⟨notPc, notPc'⟩ := pair_ne_pc rd both.1 both.2.1
    simp only [valid, not_false_eq_true, true_implies, armReadWord_eq]
    cases out : outside h q address 4 with
    | true => exact .inr ⟨rfl, fun inside => absurd inside.1 (by decide)⟩
    | false =>
      have second : outside h (armWriteRegister q rd (q.wordAt h address)) (address + 4#32) 4 =
          outside h q (address + 4#32) 4 := rfl
      simp only [Bool.false_eq_true, if_false, if_true, second]
      cases out' : outside h q (address + 4#32) 4 with
      | true => exact .inr ⟨rfl, fun inside => absurd inside.2 (by decide)⟩
      | false =>
        exact .inl ⟨rfl, (storage_pc_other notPc' _ _).trans (storage_pc_other notPc _ _),
          trivial, rfl⟩

theorem strd_settles :
    Settles ((¬(getBit rd 0 = true ∨ rd = Reg.lr ∨ address &&& 3#32 ≠ 0#32 ∨
          address &&& 4#32 ≠ 0#32) →
        outside h q address 4 = false ∧ outside h q (address + 4#32) 4 = false) →
      leftInPc rd none base = false) (returning (strd h q rd address)) := by
  apply kept_settles before
  unfold strd
  split
  · rename_i skips
    exact .inl ⟨rfl, rfl, fun valid => absurd skips valid⟩
  · rename_i valid
    simp only [valid, not_false_eq_true, true_implies, armWriteWord_eq h q address]
    cases out : outside h q address 4 with
    | true => exact .inr ⟨rfl, fun inside => absurd inside.1 (by decide)⟩
    | false =>
      simp only [Bool.false_eq_true, if_false, if_true, armWriteWord_eq]
      have second (mem : Memory) (size : mem.size = q.mem.size) :
          outside h { q with mem := mem } (address + 4#32) 4 = outside h q (address + 4#32) 4 := by
        rw [outside, outside, outOfBounds, outOfBounds, size]
      rw [second (q.mem.put h (getBit q.cpsr Psr.e) address (armReadRegister q rd)) rfl]
      cases out' : outside h q (address + 4#32) 4 with
      | true => exact .inr ⟨rfl, fun inside => absurd inside.2 (by decide)⟩
      | false => exact .inl ⟨rfl, rfl, trivial, rfl⟩

theorem miscellaneousSwitch_settles :
    Settles (miscellaneousInside h q ins rd address →
        leftInPc rd (miscellaneousDatum h junk q ins address) base = false)
      (returning (miscellaneousSwitch h junk q ins rd address)) := by
  have half : Settles (outside h q address 2 = false → leftInPc rd none base = false)
      (returning (strh h q rd address)) := store_settles before (armWriteHalf_eq h q address _)
  have loadHalf : Settles (outside h q address 2 = false →
      leftInPc rd (some (low (q.mem.valueAt h (getBit q.cpsr Psr.e) 16 address))) base = false)
      (returning (ldrh h junk q rd address)) :=
    load_settles before (armReadHalf_eq h q address _) (BitVec.setWidth 32)
      (low_setWidth (by decide) _)
  have skipped : Settles (True → leftInPc rd none base = false) (q, .returned .noException) := by
    apply Settles.returns
    rw [evenPc_iff, before]
    exact ⟨fun holds _ => (ite_self _).trans holds,
      fun holds => (ite_self _).symm.trans (holds trivial)⟩
  have signedByte : Settles _ (returning (ldrsb h junk q rd address)) := ldrsb_settles before
  have signedHalf : Settles _ (returning (ldrsh h junk q rd address)) := ldrsh_settles before
  have loadDouble : Settles _ (returning (ldrd h junk q rd address)) := ldrd_settles before
  have storeDouble : Settles _ (returning (strd h q rd address)) := strd_settles before
  rw [miscellaneousInside, miscellaneousDatum, miscellaneousSwitch, codage3Bits_eq]
  cases ins.getLsbD 20 <;> cases ins.getLsbD 6 <;> cases ins.getLsbD 5 <;>
    first
    | exact half | exact loadHalf | exact signedByte | exact signedHalf | exact loadDouble
    | exact storeDouble | exact skipped

end Single

section Forms

variable {h : Platform} {junk : Word} {p : ArmCore} {ins : Word}

/-- The offset goes into the pc with the base, and is odd. -/
def oddBase (p : ArmCore) (ins : Word) : Bool :=
  if writesBack ins = true ∧ getReg ins 19 16 = Reg.pc then low (transferOffset p ins) else false

def EvenTransfer (h : Platform) (junk : Word) (p : ArmCore) (ins : Word) : Prop :=
  ∀ q address, singleForm p ins = some (q, address) →
    if instructionGetHandler ins = some .armLoadStore then
      loadStoreInside h q ins address →
        leftInPc (getReg ins 15 12) (loadStoreDatum h q ins address) (oddBase p ins) = false
    else
      miscellaneousInside h q ins (getReg ins 15 12) address →
        leftInPc (getReg ins 15 12) (miscellaneousDatum h junk q ins address)
          (oddBase p ins) = false

theorem low_moved {valRn offset : Word} (even : low valRn = false) :
    low (moved ins valRn offset) = low offset := by
  apply low_ite
  · rw [low_add (by decide), even, Bool.false_xor]
  · rw [low_sub (by decide), even, Bool.false_xor]

theorem indexed_low (even : EvenPc p) {rn : Reg} {offset address : Word} {q : ArmCore}
    (form : indexed p ins rn (armReadRegister p rn) offset = some (q, address)) :
    low (q.registersStorage 15) =
      if (!(getBit ins 24 && !getBit ins 21)) = true ∧ rn = Reg.pc then low offset else false := by
  rw [indexed_state p ins address form]
  cases offsetForm : getBit ins 24 && !getBit ins 21 with
  | true =>
    rw [if_neg (by decide), if_neg fun both => absurd both.1 (by decide)]
    exact even
  | false =>
    rw [if_pos (by decide)]
    by_cases isPc : rn = Reg.pc
    · rw [if_pos ⟨by decide, isPc⟩, isPc, storage_pc_write, low_moved (low_readPc even)]
    · rw [if_neg fun both => isPc both.2, storage_pc_other isPc]
      exact even

theorem singleForm_low (single : instructionGetHandler ins ≠ some .armLoadStoreMultiple)
    (even : EvenPc p) {address : Word} {q : ArmCore} (form : singleForm p ins = some (q, address)) :
    low (q.registersStorage 15) = oddBase p ins := by
  rw [singleForm_eq] at form
  rw [oddBase, writesBack, if_neg single]
  exact indexed_low even form

theorem undefined_settles (p : ArmCore) {safe : Prop} (holds : safe) :
    Settles safe (p, .returned .undefinedInstruction) :=
  .raises (.inl rfl) holds

theorem forall_form_iff {α β : Type} (r : α × β) (safe : α → β → Prop) :
    (∀ q address, some r = some (q, address) → safe q address) ↔ safe r.1 r.2 := by
  constructor
  · intro all
    exact all r.1 r.2 rfl
  · rintro holds q address same
    obtain rfl := Option.some.inj same
    exact holds

theorem afterForm_settles (single : instructionGetHandler ins ≠ some .armLoadStoreMultiple)
    (even : EvenPc p) {operation : ArmCore → Word → ArmCore × ArmException}
    {safe : ArmCore → Word → Prop}
    (settles : ∀ q address, low (q.registersStorage 15) = oddBase p ins →
      Settles (safe q address) (returning (operation q address))) :
    Settles (∀ q address, singleForm p ins = some (q, address) → safe q address)
      (returning (afterForm p (singleForm p ins) operation)) := by
  cases form : singleForm p ins with
  | none => exact undefined_settles p (fun q address some => by cases some)
  | some r =>
    have settled := settles r.1 r.2 (singleForm_low single even form)
    exact settled.congr (forall_form_iff r safe).symm

theorem armLoadStore_settles (plain : instructionGetHandler ins = some .armLoadStore)
    (even : EvenPc p) :
    Settles (EvenTransfer h junk p ins) (returning (armLoadStore h junk p ins)) := by
  simp only [EvenTransfer, plain, if_true, armLoadStore_form plain]
  exact afterForm_settles (by simp [plain]) even fun _ _ => loadStoreSwitch_settles

theorem armLoadStoreMiscellaneous_settles
    (misc : instructionGetHandler ins = some .armLoadStoreMiscellaneous) (even : EvenPc p) :
    Settles (EvenTransfer h junk p ins) (returning (armLoadStoreMiscellaneous h junk p ins)) := by
  have notPlain : instructionGetHandler ins ≠ some .armLoadStore := by simp [misc]
  simp only [EvenTransfer, notPlain, if_false, armLoadStoreMiscellaneous_form misc]
  exact afterForm_settles (by simp [misc]) even fun _ _ => miscellaneousSwitch_settles

end Forms

section Block

variable {h : Platform} {junk : Word} {p : ArmCore} {ins : Word}

/-- LDM(3) has the CPSR restored before it reads the word for the pc. -/
def restored (p : ArmCore) : ArmCore :=
  if armCurrentModeHasSpsr p then armWriteCpsr p (armReadSpsr p) else p

/-- An LDM(3) that finds all its words loads an even one into the pc. -/
def EvenBlock (h : Platform) (p : ArmCore) (ins : Word) : Prop :=
  getBit ins 22 = true → getBit ins 20 = true → getBit ins 15 = true →
    (∀ s ∈ blockSlots p ins, outside h p s.2 4 = false) →
      low ((restored p).wordAt h (blockEnd p ins)) = false

theorem writtenBack_even (even : EvenPc p) : EvenPc (writtenBack p ins) := by
  rw [writtenBack]
  split
  · rw [write_even_iff even]
    intro isPc
    have whole (n : Nat) : low (BitVec.ofNat 32 (n * 4)) = false := by
      have half : n * 4 % 2 = 0 := by omega
      rw [low, BitVec.getLsbD_ofNat, Nat.testBit_zero, half]
      rfl
    rw [isPc, blockBase]
    apply low_ite
    · rw [low_add (by decide), low_readPc even, whole]
      rfl
    · rw [low_sub (by decide), low_readPc even, whole]
      rfl
  · exact even

theorem loadLoop_even (even : EvenPc p) {write : ArmCore → Reg → Word → ArmCore}
    (keeps : ∀ i ∈ registersTo14, ∀ q value,
      (write q i value).registersStorage 15 = q.registersStorage 15) (rList : Half)
      (address : Word) :
    EvenPc (loadLoop h write rList registersTo14 p address junk).core := by
  have kept := loadLoop_keeps h rList (fun p q => q.registersStorage 15 = p.registersStorage 15)
    (fun _ => rfl) (fun pq qr => qr.trans pq) keeps p address junk
  rw [evenPc_iff, kept]
  exact even

theorem registersTo14_ne_pc : ∀ r ∈ registersTo14, r ≠ Reg.pc := by decide

theorem endTransfer_settles {t : Transfer} {eAdd : Word} {safe : Prop} (ends : t.Ends)
    (finished : eAdd = t.address - 4#32 → t.result = .noException → (EvenPc t.core ↔ safe))
    (aborted : t.result = .dataAbort → safe) : Settles safe (endTransfer t eAdd) := by
  unfold endTransfer
  split
  · rename_i met
    rcases ends with normal | abort
    · rw [normal]
      exact .returns (finished met normal)
    · rw [abort]
      exact .aborts (aborted abort)
  · exact .fails

theorem stm_settles (even : EvenPc p) {safe : Prop} (holds : safe) (read : ArmCore → Reg → Word)
    (rList : Half) (is : List Reg) (sAdd eAdd : Word) :
    Settles safe (endTransfer (storeLoop h read rList is p sAdd junk) eAdd) := by
  obtain ⟨mem, core⟩ := storeLoop_core h rList read is p sAdd junk
  apply endTransfer_settles (storeLoop_ends h rList read is p sAdd junk)
  · intro _ _
    rw [core]
    exact iff_of_true even holds
  · exact fun _ => holds

theorem ldm1_settles (even : EvenPc p) {safe : Prop} (holds : safe) (rList : Half)
    (sAdd eAdd : Word) : Settles safe (ldm1 h junk p rList sAdd eAdd) := by
  have loop : EvenPc (loadLoop h armWriteRegister rList registersTo14 p sAdd junk).core :=
    loadLoop_even even (fun i inside q value =>
      storage_pc_other (registersTo14_ne_pc i inside) q value)
      rList sAdd
  apply endTransfer_settles (ldm1Pc_ends h rList (loadLoop_ends h rList _ _ _ _ _))
  · intro _ _
    refine iff_of_true ?_ holds
    rw [ldm1Pc]
    split
    · rw [evenPc_iff, storage_pc_write, low_and]
      exact Bool.and_false _
    · exact loop
  · exact fun _ => holds

theorem ldm2_settles (even : EvenPc p) {safe : Prop} (holds : safe) (rList : Half)
    (sAdd eAdd : Word) : Settles safe (ldm2 h junk p rList sAdd eAdd) := by
  have apart : ∀ r ∈ registersTo14, (15 : Fin 31) ≠ usrStorage r := by decide
  apply endTransfer_settles (loadLoop_ends h rList _ _ _ _ _)
  · intro _ _
    exact iff_of_true (loadLoop_even even
      (fun i inside q value => writeStorage_other q value _ _ (apart i inside)) rList sAdd) holds
  · exact fun _ => holds

theorem restored_wordAt {q : ArmCore} (cpsr : q.cpsr = p.cpsr) (spsr : q.spsr = p.spsr)
    (mem : q.mem = p.mem) (address : Word) :
    (restored q).wordAt h address = (restored p).wordAt h address := by
  have mode := armMode_congr cpsr
  have hasSpsr : armCurrentModeHasSpsr q = armCurrentModeHasSpsr p := by
    rw [armCurrentModeHasSpsr, armCurrentModeHasSpsr, mode]
  have saved : armReadSpsr q = armReadSpsr p := by
    rw [armReadSpsr_eq, armReadSpsr_eq, spsr, mode]
  have status : (restored q).cpsr = (restored p).cpsr := by
    rw [restored, restored, hasSpsr, saved]
    cases armCurrentModeHasSpsr p with
    | false => exact cpsr
    | true => rfl
  have memory (r : ArmCore) : (restored r).mem = r.mem := by
    unfold restored
    split <;> rfl
  exact wordAt_congr h _ address (by rw [memory, memory, mem]) (by rw [status])

theorem ldm3Pc_eq {t : Transfer} (normal : t.result = .noException) :
    ldm3Pc h t =
      if outside h t.core t.address 4 then
        ⟨restored t.core, t.address + 4#32, t.value, .dataAbort⟩
      else
        ⟨armWriteRegister (restored t.core) Reg.pc ((restored t.core).wordAt h t.address),
          t.address + 4#32, (restored t.core).wordAt h t.address, .noException⟩ := by
  have bound : outside h (restored t.core) t.address 4 = outside h t.core t.address 4 := by
    unfold restored
    split <;> rfl
  have unfolded : ldm3Pc h t =
      let r := armReadWord h (restored t.core) t.address t.value
      ⟨if r.2 = .noException then armWriteRegister (restored t.core) Reg.pc r.1
        else restored t.core, t.address + 4#32, r.1, r.2⟩ := if_pos normal
  rw [unfolded, armReadWord_eq, bound]
  cases outside h t.core t.address 4 with
  | false => rfl
  | true => rfl

theorem evenBlock_of_outside {slot : Reg × Word} (listed : slot ∈ blockSlots p ins)
    (failed : outside h p slot.2 4 = true) : EvenBlock h p ins := by
  intro _ _ _ inside
  rw [inside slot listed] at failed
  cases failed

theorem ldm3Pc_settles {t : Transfer} (s : getBit ins 22 = true) (l : getBit ins 20 = true)
    (withPc : getBit ins 15 = true) (mem : t.core.mem = p.mem) (cpsr : t.core.cpsr = p.cpsr)
    (spsr : t.core.spsr = p.spsr) (normal : t.result = .noException)
    (address : t.address = blockStart p ins + BitVec.ofNat 32
      (4 * (slots (blockList ins) registersTo14 (blockStart p ins)).length))
    (loaded : ∀ slot ∈ slots (blockList ins) registersTo14 (blockStart p ins),
      outside h p slot.2 4 = false) :
    Settles (EvenBlock h p ins) (endTransfer (ldm3Pc h t) (blockEnd p ins)) := by
  have slotsPc := blockSlots_pc (p := p) withPc
  rw [← address] at slotsPc
  have bound : outside h t.core t.address 4 = outside h p t.address 4 := by
    rw [outside, outside, mem]
  rw [ldm3Pc_eq normal, bound]
  cases out : outside h p t.address 4 with
  | true =>
    apply endTransfer_settles (.inr rfl)
    · intro _ noAbort
      cases noAbort
    · intro _
      have listed : (Reg.pc, t.address) ∈ blockSlots p ins := by
        rw [slotsPc]
        simp
      exact evenBlock_of_outside listed out
  | false =>
    simp only [Bool.false_eq_true, if_false]
    have inside : ∀ slot ∈ blockSlots p ins, outside h p slot.2 4 = false := by
      intro slot listed
      rw [slotsPc] at listed
      rcases List.mem_append.mp listed with below | pc
      · exact loaded slot below
      · rw [List.mem_singleton.mp pc]
        exact out
    apply endTransfer_settles (.inl rfl)
    · intro met _
      have last : blockEnd p ins = t.address := by
        rw [met, BitVec.add_sub_cancel]
      rw [evenPc_iff, storage_pc_write, restored_wordAt cpsr spsr mem, ← last]
      exact ⟨fun holds _ _ _ _ => holds, fun holds => holds s l withPc inside⟩
    · intro abort
      cases abort

theorem ldm3_settles (s : getBit ins 22 = true) (l : getBit ins 20 = true)
    (withPc : getBit ins 15 = true) :
    Settles (EvenBlock h p ins) (ldm3 h junk (writtenBack p ins) (blockList ins) (blockStart p ins)
      (blockEnd p ins)) := by
  have bank := armWriteRegister_bank (writtenBack p ins)
  obtain ⟨done, rest, stopped, core, _⟩ := loadLoop_stopped h (blockList ins) bank registersTo14
    (writtenBack p ins) (blockStart p ins) junk rfl rfl
  rw [ldm3]
  generalize loadLoop h armWriteRegister (blockList ins) registersTo14 (writtenBack p ins)
    (blockStart p ins) junk = t at stopped core
  rw [writtenBack_mem] at stopped
  cases rest with
  | cons first rest =>
    -- the loop stopped at a slot outside the memory
    have aborted : t.result = .dataAbort := stopped.result
    have listed : first ∈ blockSlots p ins := by
      rw [blockSlots_pc withPc, stopped.split]
      simp
    rw [ldm3Pc, if_neg (by rw [aborted]; decide)]
    apply endTransfer_settles (.inr aborted)
    · intro _ normal
      rw [aborted] at normal
      cases normal
    · intro _
      exact evenBlock_of_outside listed (stopped.first first rfl)
  | nil =>
    have whole : slots (blockList ins) registersTo14 (blockStart p ins) = done := by
      rw [stopped.split, List.append_nil]
    apply ldm3Pc_settles s l withPc
    · rw [core]
      exact writtenBack_mem p ins
    · rw [core]
      exact writtenBack_cpsr p ins
    · rw [core]
      exact writtenBack_spsr p ins
    · exact stopped.result
    · rw [stopped.address, if_pos rfl, Nat.add_zero, whole]
    · rw [whole]
      exact stopped.inside

theorem armLoadStoreMultiple_settles (even : EvenPc p) :
    Settles (EvenBlock h p ins) (armLoadStoreMultiple h junk p ins) := by
  have base : EvenPc (writtenBack p ins) := writtenBack_even even
  rw [armLoadStoreMultiple_eq, multipleSwitch_eq]
  cases s : getBit ins 22 with
  | false =>
    have safe : EvenBlock h p ins := fun set => by rw [s] at set; cases set
    simp only [Bool.false_eq_true, if_false]
    split
    · exact ldm1_settles base safe _ _ _
    · exact stm_settles base safe _ _ _ _ _
  | true =>
    simp only [if_true]
    cases l : getBit ins 20 with
    | false =>
      have safe : EvenBlock h p ins := fun _ load => by rw [l] at load; cases load
      simp only [Bool.false_eq_true, if_false]
      split
      · exact base.settles safe
      · exact stm_settles base safe _ _ _ _ _
    | true =>
      simp only [if_true]
      cases withPc : getBit ins 15 with
      | false =>
        have safe : EvenBlock h p ins := fun _ _ pc => by rw [withPc] at pc; cases pc
        simp only [Bool.false_eq_true, if_false]
        exact ldm2_settles base safe _ _ _
      | true =>
        simp only [if_true]
        exact ldm3_settles s l withPc

end Block

end ArmSimulator
