import ArmSimulator.SaveRestore

/-! What STM stores. With S the dispatch has a case for a list without the pc only,
and a base that is written back is written back before the list is read. -/
namespace ArmSimulator

def listed (ins : Word) : List Reg := registersTo15.filter fun i => getBit ins i.toNat

/-- The value STM stores for a register: of the user bank with S. -/
def storedRegister (p : ArmCore) (ins : Word) (r : Reg) : Word :=
  if getBit ins 22 then armReadUsrRegister p r else armReadRegister p r

section Slots

variable (p : ArmCore) (ins : Word)

theorem listed_blockList :
    listed ins = registersTo15.filter fun i => getBit (blockList ins) i.toNat := by
  apply List.filter_congr
  intro r _
  exact (getBit_blockList ins r.isLt).symm

theorem length_listed : (listed ins).length = blockCount ins := by
  rw [listed_blockList, blockList, count_registersTo15, blockCount]

theorem slots_fst : (blockSlots p ins).map Prod.fst = listed ins := by
  rw [blockSlots, slots_registers, listed_blockList]

theorem slots_snd : (blockSlots p ins).map Prod.snd =
    (List.range (blockCount ins)).map fun k => blockStart p ins + BitVec.ofNat 32 (4 * k) := by
  rw [← length_blockSlots p ins, blockSlots, slots_addresses]

theorem blockSlots_kth {k : Nat} {r : Reg} (kth : (listed ins)[k]? = some r) :
    (r, blockStart p ins + BitVec.ofNat 32 (4 * k)) ∈ blockSlots p ins := by
  rw [← slots_fst p ins, List.getElem?_map, Option.map_eq_some_iff] at kth
  obtain ⟨s, here, first⟩ := kth
  have small : k < blockCount ins := by
    rw [← length_blockSlots p ins]
    exact (List.getElem?_eq_some_iff.mp here).1
  have second := congrArg (fun l : List Word => l[k]?) (slots_snd p ins)
  simp only [List.getElem?_map, here, List.getElem?_range small, Option.map_some,
    Option.some.injEq] at second
  rw [← first, ← second]
  exact List.mem_of_getElem? here

theorem blockSlots_lowest {r : Reg} (lowest : (listed ins).head? = some r) :
    (r, blockStart p ins) ∈ blockSlots p ins := by
  rw [List.head?_eq_getElem?] at lowest
  have first := blockSlots_kth p ins lowest
  rwa [Nat.mul_zero, BitVec.add_zero] at first

end Slots

/-- STM ended normally and the k-th lowest register of its list is stored at
`start + 4 * k`, for every register of the list. -/
structure ListStored (h : Platform) (p : ArmCore) (ins : Word) (r : ArmCore × Outcome) : Prop where
  result : r.2 = .returned .noException
  words : ∀ k reg, (listed ins)[k]? = some reg →
    r.1.wordAt h (blockStart p ins + BitVec.ofNat 32 (4 * k)) = storedRegister p ins reg

section Dispatch

variable {h : Platform} {p : ArmCore} {ins : Word}

theorem stm_block (junk : Word) (store : getBit ins 20 = false)
    (dispatched : ¬(getBit ins 22 = true ∧ getBit ins 15 = true)) (inside : BlockInside p ins) :
    armLoadStoreMultiple h junk p ins =
      (storeSlots h (storedRegister (writtenBack p ins) ins) (writtenBack p ins) (blockSlots p ins),
        .returned .noException) := by
  have sameSize : (writtenBack p ins).mem.size = p.mem.size := by rw [writtenBack_mem]
  have fits : ∀ s ∈ blockSlots p ins, outOfBounds h (writtenBack p ins).mem s.2 4 = false :=
    inside.fits sameSize
  rw [armLoadStoreMultiple_eq, multipleSwitch_eq, store]
  cases user : getBit ins 22 with
  | false =>
    have value : storedRegister (writtenBack p ins) ins = armReadRegister (writtenBack p ins) := by
      funext r
      rw [storedRegister, user, if_neg (by decide)]
    rw [value]
    simp only [Bool.false_eq_true, if_false]
    exact storeBlock (fun _ _ => rfl) fits
  | true =>
    have value : storedRegister (writtenBack p ins) ins =
        armReadUsrRegister (writtenBack p ins) := by
      funext r
      rw [storedRegister, user, if_pos rfl]
    have withoutPc : getBit ins 15 = false := by
      rw [user] at dispatched
      exact Bool.eq_false_iff.mpr fun withPc => dispatched ⟨rfl, withPc⟩
    rw [value, withoutPc]
    simp only [Bool.false_eq_true, if_false, if_true]
    exact storeBlock (fun _ _ => rfl) fits

theorem stm_undispatched (junk : Word) (store : getBit ins 20 = false)
    (user : getBit ins 22 = true) (withPc : getBit ins 15 = true) :
    armLoadStoreMultiple h junk p ins = (writtenBack p ins, .returned .noException) := by
  rw [armLoadStoreMultiple_eq, multipleSwitch_eq, store, user, withPc]
  simp only [Bool.false_eq_true, if_false, if_true]

end Dispatch

/-- STM without writeback stores its whole list, unless it has S and the pc in
the list: then the list is stored only where the memory holds it already. -/
theorem stm_stores_list_iff (h : Platform) (junk : Word) (p : ArmCore) (ins : Word)
    (store : getBit ins 20 = false) (noWriteback : getBit ins 21 = false)
    (inside : BlockInside p ins) :
    ListStored h p ins (armLoadStoreMultiple h junk p ins) ↔
      ¬(getBit ins 22 = true ∧ getBit ins 15 = true) ∨
        ∀ k reg, (listed ins)[k]? = some reg →
          p.wordAt h (blockStart p ins + BitVec.ofNat 32 (4 * k)) = storedRegister p ins reg := by
  have base : writtenBack p ins = p := if_neg (Bool.eq_false_iff.mp noWriteback)
  by_cases undispatched : getBit ins 22 = true ∧ getBit ins 15 = true
  · rw [stm_undispatched junk store undispatched.1 undispatched.2, base]
    constructor
    · intro stored
      exact .inr stored.words
    · rintro (dispatched | already)
      · exact absurd undispatched dispatched
      · exact ⟨rfl, already⟩
  · rw [stm_block junk store undispatched inside, base]
    constructor
    · intro _
      exact .inl undispatched
    · intro _
      refine ⟨rfl, ?_⟩
      intro k reg kth
      have stored := storeSlots_wordAt (h := h) (p := p) (storedRegister p ins)
        (blockSlots_apart p ins) (blockSlots_kth p ins kth)
      exact stored

def blockCore : ArmCore :=
  { sampleCore 0x13#32 0#32 with registersStorage := fun k => 0x100#32 + BitVec.ofNat 32 k.val }

theorem stm_stores_list_samples :
    ListStored lp64 blockCore 0xE980E002#32
      (armLoadStoreMultiple lp64 0#32 blockCore 0xE980E002#32) ∧
    ListStored lp64 blockCore 0xE9C06002#32
      (armLoadStoreMultiple lp64 0#32 blockCore 0xE9C06002#32) :=
  ⟨(stm_stores_list_iff lp64 0#32 blockCore 0xE980E002#32 (by decide) (by decide) (by decide)).mpr
      (.inl (by decide)),
    (stm_stores_list_iff lp64 0#32 blockCore 0xE9C06002#32 (by decide) (by decide) (by decide)).mpr
      (.inl (by decide))⟩

/-- `stmib r0, {r1, pc}^` returns NO_EXCEPTION and stores nothing. -/
theorem stm_user_pc_not_stored :
    ¬∀ (h : Platform) (junk : Word) (p : ArmCore) (ins : Word), getBit ins 20 = false →
      getBit ins 21 = false → BlockInside p ins → blockRn ins ≠ Reg.pc →
      ListStored h p ins (armLoadStoreMultiple h junk p ins) := by
  intro stores
  have stored := (stores lp64 0#32 blockCore 0xE9C08002#32 (by decide) (by decide) (by decide)
    (by decide)).words 0 1#4 (by decide)
  revert stored
  decide +kernel

section Base

/-- STM returned normally, its base is stored as it was before the instruction and
has been written back. -/
structure OriginalBaseStored (h : Platform) (p : ArmCore) (ins : Word) (r : ArmCore × Outcome) :
    Prop where
  result : r.2 = .returned .noException
  stored : r.1.wordAt h (blockStart p ins) = armReadRegister p (blockRn ins)
  writtenBack : r.1.registersStorage (registers (armMode p) (blockRn ins)) =
    blockBase ins (armReadRegister p (blockRn ins)) (blockCount ins)

variable {p : ArmCore} {ins : Word}

theorem blockBase_ne (base : Word) {n : Nat} (some : 0 < n) (few : n ≤ 16) :
    blockBase ins base n ≠ base := by
  intro same
  have size := base.isLt
  replace same := congrArg BitVec.toNat same
  rw [blockBase] at same
  split at same
  · rw [BitVec.toNat_add, BitVec.toNat_ofNat] at same
    omega
  · rw [BitVec.toNat_sub, BitVec.toNat_ofNat] at same
    omega

theorem listed_onlyPc (lowest : (listed ins).head? = some Reg.pc) : blockCount ins = 1 := by
  have split : registersTo15 = registersTo14 ++ [Reg.pc] := by decide
  rw [← length_listed, listed, split, List.filter_append]
  rw [listed, split, List.filter_append] at lowest
  cases below : registersTo14.filter fun i => getBit ins i.toNat with
  | nil =>
    rw [below, List.nil_append] at lowest
    have withPc := (List.mem_filter.mp (List.mem_of_head? lowest)).2
    rw [List.nil_append, List.filter_cons, withPc]
    rfl
  | cons r rs =>
    have notPc : ∀ r ∈ registersTo14, r ≠ Reg.pc := by decide
    have inside : r ∈ registersTo14 := by
      have member : r ∈ registersTo14.filter fun i => getBit ins i.toNat := by
        rw [below]
        exact List.mem_cons_self
      exact (List.mem_filter.mp member).1
    rw [below, List.cons_append, List.head?_cons] at lowest
    exact absurd (Option.some.inj lowest) (notPc r inside)

theorem armReadRegister_writtenBack (writeback : getBit ins 21 = true) :
    armReadRegister (writtenBack p ins) (blockRn ins) =
      pcAhead (blockRn ins) (blockBase ins (armReadRegister p (blockRn ins)) (blockCount ins)) := by
  rw [writtenBack_of_w _ _ writeback, armReadRegister, armMode_armWriteRegister,
    armWriteRegister_self]

theorem pcBase_kept_iff (base : Word) (clear : base.toNat % 4 < 2) :
    pcAhead Reg.pc (blockBase ins base 1) = base ↔ getBit ins 23 = false := by
  have size := base.isLt
  cases up : getBit ins 23 with
  | true =>
    have moved : blockBase ins base 1 = base + 4#32 := if_pos up
    rw [moved, pcAhead_of_clear (clear_add_four clear)]
    simp only [Bool.true_eq_false, iff_false]
    bv_omega
  | false =>
    have moved : blockBase ins base 1 = base - 4#32 := if_neg (by rw [up]; decide)
    have clear' : (base - 4#32).toNat % 4 < 2 := by
      rw [BitVec.toNat_sub, BitVec.toNat_ofNat]
      omega
    rw [moved, pcAhead_of_clear clear']
    simp only [iff_true]
    bv_omega

/-- The value stored for the base is the one before the writeback only for the pc,
where the word by which the read is ahead makes up for a base that moved down. -/
theorem baseRead_iff (writeback : getBit ins 21 = true)
    (lowest : (listed ins).head? = some (blockRn ins)) :
    armReadRegister (writtenBack p ins) (blockRn ins) = armReadRegister p (blockRn ins) ↔
      blockRn ins = Reg.pc ∧ getBit ins 23 = false := by
  rw [armReadRegister_writtenBack writeback]
  by_cases isPc : blockRn ins = Reg.pc
  · rw [isPc] at lowest ⊢
    have clear : (armReadRegister p Reg.pc).toNat % 4 < 2 := by
      rw [armReadRegister_pc]
      exact clear_second _
    rw [listed_onlyPc lowest, pcBase_kept_iff _ clear]
    simp only [true_and]
  · have some : 0 < blockCount ins := by
      rw [← length_listed]
      exact List.length_pos_of_mem (List.mem_of_head? lowest)
    rw [pcAhead_of_ne _ isPc]
    constructor
    · intro same
      exact absurd same (blockBase_ne _ some (numberOfSetBits_le _))
    · rintro ⟨pc, _⟩
      exact absurd pc isPc

end Base

/-- STM with writeback and its base lowest in the list stores the base written
back, except for a list of the pc alone that moves down. -/
theorem stm_original_base_iff (h : Platform) (junk : Word) (p : ArmCore) (ins : Word)
    (store : getBit ins 20 = false) (currentBank : getBit ins 22 = false)
    (writeback : getBit ins 21 = true) (lowest : (listed ins).head? = some (blockRn ins))
    (inside : BlockInside p ins) :
    OriginalBaseStored h p ins (armLoadStoreMultiple h junk p ins) ↔
      blockRn ins = Reg.pc ∧ getBit ins 23 = false := by
  have dispatched : ¬(getBit ins 22 = true ∧ getBit ins 15 = true) := by
    rw [currentBank]
    exact fun user => absurd user.1 (by decide)
  have first := storeSlots_wordAt (h := h) (p := writtenBack p ins)
    (storedRegister (writtenBack p ins) ins) (blockSlots_apart p ins)
    (blockSlots_lowest p ins lowest)
  have base : (storeSlots h (storedRegister (writtenBack p ins) ins) (writtenBack p ins)
      (blockSlots p ins)).registersStorage (registers (armMode p) (blockRn ins)) =
        blockBase ins (armReadRegister p (blockRn ins)) (blockCount ins) := by
    rw [storeSlots, writtenBack_of_w _ _ writeback, armWriteRegister_self]
  rw [storedRegister, currentBank, if_neg (by decide)] at first
  rw [stm_block junk store dispatched inside, ← baseRead_iff writeback lowest, ← first]
  constructor
  · intro original
    exact original.stored
  · intro stored
    exact ⟨rfl, stored, base⟩

theorem stm_original_base_pc : OriginalBaseStored lp64 blockCore 0xE82F8000#32
    (armLoadStoreMultiple lp64 0#32 blockCore 0xE82F8000#32) :=
  (stm_original_base_iff lp64 0#32 blockCore 0xE82F8000#32 (by decide) (by decide) (by decide)
    (by decide) (by decide)).mpr (by decide)

/-- `stmia r0!, {r0, r1}` stores the base plus 8. -/
theorem stm_stores_base_written_back :
    ¬∀ (h : Platform) (junk : Word) (p : ArmCore) (ins : Word), getBit ins 20 = false →
      getBit ins 22 = false → getBit ins 21 = true → (listed ins).head? = some (blockRn ins) →
      BlockInside p ins → OriginalBaseStored h p ins (armLoadStoreMultiple h junk p ins) := by
  intro original
  have stored := (original lp64 0#32 blockCore 0xE8A00003#32 (by decide) (by decide) (by decide)
    (by decide) (by decide)).stored
  revert stored
  decide +kernel

end ArmSimulator
