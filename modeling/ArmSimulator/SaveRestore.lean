import ArmSimulator.BlockTransfer
import ArmSimulator.Instruction

namespace ArmSimulator

def BlockInside (p : ArmCore) (ins : Word) : Prop :=
  ∀ k < blockCount ins, (blockStart p ins + BitVec.ofNat 32 (4 * k)).toNat + 4 ≤ p.mem.size

instance (p : ArmCore) (ins : Word) : Decidable (BlockInside p ins) :=
  inferInstanceAs (Decidable (∀ k < blockCount ins, _))

theorem BlockInside.fits {h : Platform} {p : ArmCore} {ins : Word} {mem : Memory}
    (inside : BlockInside p ins) (size : mem.size = p.mem.size) :
    ∀ s ∈ blockSlots p ins, outOfBounds h mem s.2 4 = false := by
  intro s listed
  obtain ⟨k, small, address⟩ := blockSlots_address p ins listed
  rw [address]
  exact inBounds_of_inside h mem _ (by decide) (by decide) (size ▸ inside k small)

/-- Between the two instructions: `q` is `p` except for the listed registers, which
are those with storage `key`, and for parts of the CPSR a transfer does not look at. -/
structure ListedChanged (key : Reg → Fin 31) (ins : Word) (p q : ArmCore) : Prop where
  mem : q.mem = p.mem
  mode : armMode q = armMode p
  endianness : getBit q.cpsr Psr.e = getBit p.cpsr Psr.e
  storage : ∀ k, (∀ i : Reg, getBit ins i.toNat = true → key i ≠ k) →
    q.registersStorage k = p.registersStorage k

/-- From `p` over the store to `saved`, from `q` over the load to `r`: all registers
are those of `p` again, and no byte outside the block has changed. -/
structure Restored (ins : Word) (p saved q r : ArmCore) : Prop where
  registers : r.registersStorage = p.registersStorage
  cpsr : saved.cpsr = p.cpsr ∧ r.cpsr = q.cpsr
  spsr : saved.spsr = p.spsr ∧ r.spsr = q.spsr
  memory : ∀ x, 4 * blockCount ins ≤ (x - blockStart p ins).toNat →
    r.mem.address x = p.mem.address x

section Slots

variable {h : Platform} {all : List (Reg × Word)} {value : Reg → Word} {key : Reg → Fin 31}
  {p q r : ArmCore}

theorem loadSlots_storeSlots {target : Fin 31 → Word}
    (apart : all.Pairwise fun s t => WordApart t.2 s.2)
    (distinct : all.Pairwise fun s t => key t.1 ≠ key s.1)
    (mem : r.mem = (storeSlots h value p all).mem)
    (endianness : getBit r.cpsr Psr.e = getBit p.cpsr Psr.e)
    (listed : ∀ s ∈ all, value s.1 = target (key s.1))
    (others : ∀ k, (∀ s ∈ all, key s.1 ≠ k) → r.registersStorage k = target k) :
    (loadSlots key (r.wordAt h) r all).registersStorage = target := by
  funext k
  by_cases slot : ∃ s ∈ all, key s.1 = k
  · obtain ⟨s, inside, rfl⟩ := slot
    rw [loadSlots_storage key _ distinct inside, wordAt_congr h _ s.2 mem endianness,
      storeSlots_wordAt value apart inside, listed s inside]
  · have fresh : ∀ s ∈ all, key s.1 ≠ k := fun s inside same => slot ⟨s, inside, same⟩
    rw [loadSlots_frame key _ fresh, others k fresh]

theorem blockSlots_frame {ins x : Word}
    (outside : 4 * blockCount ins ≤ (x - blockStart p ins).toNat) :
    ∀ s ∈ blockSlots p ins, 4 ≤ (x - s.2).toNat := by
  intro s inside
  obtain ⟨k, small, address⟩ := blockSlots_address p ins inside
  have few : blockCount ins ≤ 16 := numberOfSetBits_le _
  have offset : x - s.2 = x - blockStart p ins - BitVec.ofNat 32 (4 * k) := by
    rw [address]
    generalize BitVec.ofNat 32 (4 * k) = size
    bv_omega
  rw [offset]
  generalize x - blockStart p ins = distance at outside
  rw [BitVec.toNat_sub, BitVec.toNat_ofNat]
  have size := distance.isLt
  omega

theorem stored_frame {p' : ArmCore} {ins x : Word}
    (stored : r.mem = (storeSlots h value p' (blockSlots p ins)).mem) (start : p'.mem = p.mem)
    (outside : 4 * blockCount ins ≤ (x - blockStart p ins).toNat) :
    r.mem.address x = p.mem.address x := by
  rw [stored, ← start]
  exact storeSlots_frame value (blockSlots_frame outside)

theorem blockSlots_congr {ins ins' : Word} (list : getBits ins' 15 0 = getBits ins 15 0)
    (start : blockStart q ins' = blockStart p ins) : blockSlots q ins' = blockSlots p ins := by
  rw [blockSlots, blockSlots, start, blockList, blockList, list]

theorem pcBit_congr {ins ins' : Word} (list : getBits ins' 15 0 = getBits ins 15 0) :
    getBit ins' 15 = getBit ins 15 := by
  have same := congrArg (getBit · 15) list
  simp only [getBit_eq, getLsbD_getBits] at same ⊢
  exact same

theorem blockSlots_fresh {ins : Word} {k : Fin 31} (fresh : ∀ s ∈ blockSlots p ins, key s.1 ≠ k) :
    ∀ i : Reg, getBit ins i.toNat = true → key i ≠ k := by
  intro i listed same
  obtain ⟨s, inside, rfl⟩ := blockSlots_mem p ins listed
  exact fresh s inside same

end Slots

section Inverse

/-- An STM(1) and an LDM(1) with writeback on one base and one list without the
pc and the base, in inverse addressing modes: the opposite U and the opposite P. -/
structure InverseBlocks (stm ldm : Word) : Prop where
  stmCode : getBit stm 22 = false ∧ getBit stm 21 = true ∧ getBit stm 20 = false
  ldmCode : getBit ldm 22 = false ∧ getBit ldm 21 = true ∧ getBit ldm 20 = true
  up : getBit ldm 23 = !getBit stm 23
  before : getBit ldm 24 = !getBit stm 24
  rn : blockRn ldm = blockRn stm
  list : getBits ldm 15 0 = getBits stm 15 0
  withoutPc : getBit stm 15 = false
  withoutBase : getBit stm (blockRn stm).toNat = false
  baseNotPc : blockRn stm ≠ Reg.pc

variable {h : Platform} {stm ldm : Word} (inverse : InverseBlocks stm ldm)
include inverse

theorem InverseBlocks.bounds (base : Word) (n : Nat) :
    (blockBounds ldm (blockBase stm base n) n).1 = (blockBounds stm base n).1 ∧
      blockBase ldm (blockBase stm base n) n = base := by
  have up := inverse.up
  have before := inverse.before
  simp only [blockBounds, blockBase]
  generalize BitVec.ofNat 32 (n * 4) = size
  rw [up, before]
  cases getBit stm 23 <;> cases getBit stm 24 <;>
    simp only [Bool.not_true, Bool.not_false, Bool.false_eq_true, if_true, if_false] <;>
    constructor <;> bv_omega

theorem InverseBlocks.listed_ne {i : Reg} (listed : getBit stm i.toNat = true) :
    i ≠ Reg.pc ∧ i ≠ blockRn stm := by
  constructor
  · rintro rfl
    have clear := inverse.withoutPc
    exact absurd (clear.symm.trans listed) (by decide)
  · rintro rfl
    exact absurd (inverse.withoutBase.symm.trans listed) (by decide)

theorem stm1_block {p : ArmCore} (inside : BlockInside p stm) (junk : Word) :
    armLoadStoreMultiple h junk p stm =
      (storeSlots h (armReadRegister (writtenBack p stm)) (writtenBack p stm) (blockSlots p stm),
        .returned .noException) := by
  obtain ⟨s, _, l⟩ := inverse.stmCode
  rw [armLoadStoreMultiple_eq, multipleSwitch_eq, s, l]
  simp only [Bool.false_eq_true, if_false]
  exact storeBlock (fun _ _ => rfl) (inside.fits (by rw [writtenBack_mem]))

theorem ldm1_block {q : ArmCore}
    (fits : ∀ s ∈ blockSlots q ldm, outOfBounds h (writtenBack q ldm).mem s.2 4 = false)
    (junk : Word) : armLoadStoreMultiple h junk q ldm =
      (loadSlots (registers (armMode q)) ((writtenBack q ldm).wordAt h) (writtenBack q ldm)
        (blockSlots q ldm), .returned .noException) := by
  obtain ⟨s, _, l⟩ := inverse.ldmCode
  have mode : ∀ r, r.cpsr = (writtenBack q ldm).cpsr → armMode r = armMode q :=
    fun r same => armMode_congr (same.trans (writtenBack_cpsr q ldm))
  have withoutPc : getBit ldm 15 = false := (pcBit_congr inverse.list).trans inverse.withoutPc
  rw [armLoadStoreMultiple_eq, multipleSwitch_eq, s, l]
  simp only [Bool.false_eq_true, if_false, if_true]
  rw [ldm1, ldm1Pc, getBit_blockList ldm (by decide), withoutPc]
  simp only [Bool.false_eq_true, and_false, if_false]
  exact loadBlock (fun r i v same => by rw [armWriteRegister, mode r same]) withoutPc fits

theorem InverseBlocks.resume {p q : ArmCore} (saved : armReadRegister q (blockRn stm) =
      blockBase stm (armReadRegister p (blockRn stm)) (blockCount stm)) :
    blockStart q ldm = blockStart p stm ∧
      writtenBack q ldm = armWriteRegister q (blockRn stm) (armReadRegister p (blockRn stm)) := by
  have count : blockCount ldm = blockCount stm := congrArg numberOfSetBits inverse.list
  obtain ⟨start, base⟩ := inverse.bounds (armReadRegister p (blockRn stm)) (blockCount stm)
  rw [← saved] at start base
  constructor
  · rw [blockStart, inverse.rn, count, start, blockStart]
  · rw [writtenBack_of_w q ldm inverse.ldmCode.2.1, inverse.rn, count, base]

section Changed

variable {p q : ArmCore}
  (changed : ListedChanged (registers (armMode p)) stm
    (storeSlots h (armReadRegister (writtenBack p stm)) (writtenBack p stm) (blockSlots p stm)) q)
include changed

omit inverse in
theorem changed_mode : armMode q = armMode p :=
  changed.mode.trans (armMode_congr (writtenBack_cpsr p stm))

theorem changed_base : armReadRegister q (blockRn stm) =
    blockBase stm (armReadRegister p (blockRn stm)) (blockCount stm) := by
  have unlisted : ∀ i : Reg, getBit stm i.toNat = true →
      registers (armMode p) i ≠ registers (armMode p) (blockRn stm) :=
    fun i listed same => (inverse.listed_ne listed).2 (registers_inj _ _ _ same)
  rw [armReadRegister_of_ne inverse.baseNotPc, changed_mode changed, changed.storage _ unlisted]
  rw [writtenBack_of_w p stm inverse.stmCode.2.1]
  exact armWriteRegister_self p _ _

theorem changed_others {k : Fin 31}
    (fresh : ∀ s ∈ blockSlots p stm, registers (armMode p) s.1 ≠ k) :
    (writtenBack q ldm).registersStorage k = p.registersStorage k := by
  have mode := changed_mode changed
  rw [(inverse.resume (changed_base inverse changed)).2]
  by_cases isBase : k = registers (armMode p) (blockRn stm)
  · rw [isBase, ← mode, armWriteRegister_self, mode, armReadRegister_of_ne inverse.baseNotPc]
  · rw [armWriteRegister_storage_other _ _ _ _ (mode ▸ isBase),
      changed.storage k (blockSlots_fresh fresh), writtenBack_of_w p stm inverse.stmCode.2.1]
    exact armWriteRegister_storage_other _ _ _ _ isBase

end Changed

omit inverse in
/-- Storing a block, changing the listed registers and loading the block with
the inverse addressing mode restores every register. -/
theorem stm_ldm_inverse (h : Platform) (junk junk' : Word) (p q : ArmCore) (stm ldm : Word)
    (inverse : InverseBlocks stm ldm) (inside : BlockInside p stm)
    (changed : ListedChanged (registers (armMode p)) stm
      (armLoadStoreMultiple h junk p stm).1 q) :
    ∃ saved r, armLoadStoreMultiple h junk p stm = (saved, .returned .noException) ∧
      armLoadStoreMultiple h junk' q ldm = (r, .returned .noException) ∧
      Restored stm p saved q r := by
  have stored := stm1_block (h := h) inverse inside junk
  rw [stored] at changed
  have slotsEq := blockSlots_congr inverse.list (inverse.resume (changed_base inverse changed)).1
  have mem := (writtenBack_mem q ldm).trans changed.mem
  have size : (writtenBack q ldm).mem.size = p.mem.size := by
    rw [mem, storeSlots_size, writtenBack_mem]
  have loaded := ldm1_block (h := h) (q := q) inverse (slotsEq ▸ inside.fits size) junk'
  refine ⟨_, _, stored, loaded, ?_, ⟨writtenBack_cpsr p stm, writtenBack_cpsr q ldm⟩,
    ⟨writtenBack_spsr p stm, writtenBack_spsr q ldm⟩,
    fun x outside => stored_frame mem (writtenBack_mem p stm) outside⟩
  rw [slotsEq, changed_mode changed]
  apply loadSlots_storeSlots (blockSlots_apart p stm)
    (blockSlots_distinct p stm (registers_inj (armMode p))) mem
  · rw [writtenBack_cpsr]
    exact changed.endianness
  · intro s listed
    obtain ⟨notPc, notBase⟩ := inverse.listed_ne (blockSlots_listed p stm listed)
    rw [writtenBack_of_w p stm inverse.stmCode.2.1,
      armReadRegister_armWriteRegister_other _ _ _ _ notBase, armReadRegister_of_ne notPc]
  · exact fun k fresh => changed_others inverse changed fresh

omit inverse in
theorem stm_ldm_inverse_test : ∃ saved r,
    armLoadStoreMultiple lp64 0 (sampleCore 0x10 0) 0xE8A10005 = (saved, .returned .noException) ∧
    armLoadStoreMultiple lp64 0 (armWriteRegister saved 0 7) 0xE9310005 =
      (r, .returned .noException) ∧ r.registersStorage = fun _ => 0 := by
  have changed (saved : ArmCore) (user : armMode saved = Mode.usr) :
      ListedChanged (registers Mode.usr) 0xE8A10005 saved (armWriteRegister saved 0 7) := by
    refine ⟨rfl, rfl, rfl, fun k fresh => ?_⟩
    exact armWriteRegister_storage_other _ _ _ _ (user ▸ fresh 0 (by decide)).symm
  have mode : armMode (armLoadStoreMultiple lp64 0 (sampleCore 0x10 0) 0xE8A10005).1 =
      Mode.usr := by
    decide +kernel
  obtain ⟨saved, r, stored, loaded, restored⟩ := stm_ldm_inverse lp64 0 0 (sampleCore 0x10 0) _
    0xE8A10005 0xE9310005 (by constructor <;> decide) (by decide +kernel) (changed _ mode)
  rw [stored] at loaded
  exact ⟨saved, r, stored, loaded, restored.registers⟩

end Inverse

section UserBank

/-- An STM(2) and an LDM(2) without writeback in the same addressing mode, on one
base and one list without the pc. -/
structure UserBlocks (stm ldm : Word) : Prop where
  stmCode : getBit stm 22 = true ∧ getBit stm 21 = false ∧ getBit stm 20 = false
  ldmCode : getBit ldm 22 = true ∧ getBit ldm 21 = false ∧ getBit ldm 20 = true
  up : getBit ldm 23 = getBit stm 23
  before : getBit ldm 24 = getBit stm 24
  rn : blockRn ldm = blockRn stm
  list : getBits ldm 15 0 = getBits stm 15 0
  withoutPc : getBit stm 15 = false
  baseNotPc : blockRn stm ≠ Reg.pc

variable {h : Platform} {stm ldm : Word} (user : UserBlocks stm ldm)
include user

theorem stm2_block {p : ArmCore} (inside : BlockInside p stm) (junk : Word) :
    armLoadStoreMultiple h junk p stm =
      (storeSlots h (armReadUsrRegister p) p (blockSlots p stm), .returned .noException) := by
  obtain ⟨s, w, l⟩ := user.stmCode
  have base : writtenBack p stm = p := if_neg (Bool.eq_false_iff.mp w)
  rw [armLoadStoreMultiple_eq, multipleSwitch_eq, s, l, user.withoutPc, base]
  simp only [Bool.false_eq_true, if_false, if_true]
  exact storeBlock (fun _ _ => rfl) (inside.fits rfl)

theorem ldm2_block {q : ArmCore}
    (fits : ∀ s ∈ blockSlots q ldm, outOfBounds h q.mem s.2 4 = false) (junk : Word) :
    armLoadStoreMultiple h junk q ldm =
      (loadSlots usrStorage (q.wordAt h) q (blockSlots q ldm), .returned .noException) := by
  obtain ⟨s, w, l⟩ := user.ldmCode
  have base : writtenBack q ldm = q := if_neg (Bool.eq_false_iff.mp w)
  have withoutPc : getBit ldm 15 = false := (pcBit_congr user.list).trans user.withoutPc
  rw [armLoadStoreMultiple_eq, multipleSwitch_eq, s, l, withoutPc, base]
  simp only [Bool.false_eq_true, if_false, if_true]
  exact loadBlock (fun _ _ _ _ => rfl) withoutPc fits

omit user in
/-- Storing registers of the user bank, changing them and loading them from the
same block restores them, in every mode whose base register is none of them. -/
theorem user_bank_restored (h : Platform) (junk junk' : Word) (p q : ArmCore) (stm ldm : Word)
    (user : UserBlocks stm ldm) (inside : BlockInside p stm)
    (base : ∀ i : Reg, getBit stm i.toNat = true →
      usrStorage i ≠ registers (armMode p) (blockRn stm))
    (changed : ListedChanged usrStorage stm (armLoadStoreMultiple h junk p stm).1 q) :
    ∃ saved r, armLoadStoreMultiple h junk p stm = (saved, .returned .noException) ∧
      armLoadStoreMultiple h junk' q ldm = (r, .returned .noException) ∧
      saved.registersStorage = p.registersStorage ∧ Restored stm p saved q r := by
  have stored := stm2_block (h := h) user inside junk
  rw [stored] at changed
  obtain ⟨mem, mode, endianness, storage⟩ := changed
  replace mode : armMode q = armMode p := mode
  have sameBase : armReadRegister q (blockRn stm) = armReadRegister p (blockRn stm) := by
    rw [armReadRegister_of_ne user.baseNotPc, armReadRegister_of_ne user.baseNotPc, mode,
      storage _ base]
    rfl
  have start : blockStart q ldm = blockStart p stm := by
    rw [blockStart, blockStart, user.rn, sameBase, blockCount, user.list, blockBounds, blockBounds,
      user.up, user.before]
    rfl
  have slotsEq := blockSlots_congr user.list start
  have size : q.mem.size = p.mem.size := by rw [mem, storeSlots_size]
  have loaded := ldm2_block (h := h) (q := q) user (slotsEq ▸ inside.fits size) junk'
  refine ⟨_, _, stored, loaded, rfl, ?_, ⟨rfl, rfl⟩, ⟨rfl, rfl⟩,
    fun x outside => stored_frame mem rfl outside⟩
  rw [slotsEq]
  apply loadSlots_storeSlots (blockSlots_apart p stm)
    (blockSlots_distinct p stm usrStorage_inj) mem endianness
  · intro s listed
    have notPc : s.1 ≠ Reg.pc := by
      rintro isPc
      have set := blockSlots_listed p stm listed
      rw [isPc] at set
      exact absurd (user.withoutPc.symm.trans set) (by decide)
    exact pcAhead_of_ne _ notPc
  · intro k fresh
    exact storage k (blockSlots_fresh fresh)

omit user in
theorem user_bank_restored_fiq : ∃ saved r,
    armLoadStoreMultiple lp64 0 (sampleCore 0x11 0) 0xE8CD4100 = (saved, .returned .noException) ∧
    armLoadStoreMultiple lp64 0 (armWriteUsrRegister saved 8 7) 0xE8DD4100 =
      (r, .returned .noException) ∧ r.registersStorage = fun _ => 0 := by
  have changed (saved : ArmCore) :
      ListedChanged usrStorage 0xE8CD4100 saved (armWriteUsrRegister saved 8 7) := by
    refine ⟨rfl, rfl, rfl, fun k fresh => ?_⟩
    exact writeStorage_other _ _ _ _ (fresh 8 (by decide)).symm
  obtain ⟨saved, r, stored, loaded, _, restored⟩ :=
    user_bank_restored lp64 0 0 (sampleCore 0x11 0) _
    0xE8CD4100 0xE8DD4100 (by constructor <;> decide) (by decide +kernel) (by decide) (changed _)
  rw [stored] at loaded
  exact ⟨saved, r, stored, loaded, restored.registers⟩

end UserBank

end ArmSimulator
