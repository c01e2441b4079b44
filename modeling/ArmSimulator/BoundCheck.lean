import ArmSimulator.Memory

/-! The bound check of memory.c: which indices of the block an accepted access
uses, and the sum of the check where it wraps around in a size_t of 32 bits. -/
namespace ArmSimulator
open ByteStore

section Block

def Memory.cell (mem : Memory) (addr : Word) : Option Byte :=
  if addr.toNat < mem.size then some (mem.address addr) else none

def Memory.setCell (mem : Memory) (addr : Word) (value : Byte) : Option Memory :=
  if addr.toNat < mem.size then some { mem with address := Function.update mem.address addr value }
  else none

variable (h : Platform) (mem : Memory) (be : Bool) (address : Word) (bytes : List Byte)

def blockReadBytes : Option (List Byte × Int) :=
  if outOfBounds h mem address bytes.length then some (bytes, -1)
  else do
    let bytes ← (List.range bytes.length).mapM fun i =>
      mem.cell (byteIndex be address bytes.length i)
    some (bytes, 0)

def blockWriteBytes : Option (Memory × Int) :=
  if outOfBounds h mem address bytes.length then some (mem, -1)
  else do
    let mem ← (List.range bytes.length).foldlM
      (fun mem i => mem.setCell (byteIndex be address bytes.length i) (bytes.getD i 0#8)) mem
    some (mem, 0)

/-- Every index of the loop is one of the block. -/
def IndicesBelow : Prop :=
  ∀ i < bytes.length, (byteIndex be address bytes.length i).toNat < mem.size

instance : Decidable (IndicesBelow mem be address bytes) :=
  inferInstanceAs (Decidable (∀ i < bytes.length, _))

theorem mapM_cell (mem : Memory) (index : Nat → Word) (steps : List Nat) :
    steps.mapM (fun i => mem.cell (index i)) =
      if ∀ i ∈ steps, (index i).toNat < mem.size
      then some (steps.map fun i => mem.address (index i)) else none := by
  induction steps with
  | nil => exact (if_pos (by simp)).symm
  | cons i steps ih =>
    by_cases below : (index i).toNat < mem.size
    · have first : mem.cell (index i) = some (mem.address (index i)) := if_pos below
      rw [List.mapM_cons, first, ih]
      simp only [List.forall_mem_cons, below, true_and]
      by_cases rest : ∀ j ∈ steps, (index j).toNat < mem.size
      · simp only [if_pos rest]
        rfl
      · simp only [if_neg rest]
        rfl
    · have first : mem.cell (index i) = none := if_neg below
      rw [List.mapM_cons, first, if_neg fun all => below (all i List.mem_cons_self)]
      rfl

theorem foldlM_setCell (index : Nat → Word) (value : Nat → Byte) (steps : List Nat)
    (mem : Memory) : steps.foldlM (fun mem i => mem.setCell (index i) (value i)) mem =
      if ∀ i ∈ steps, (index i).toNat < mem.size then
        some ⟨steps.foldl (fun m i => Function.update m (index i) (value i)) mem.address, mem.size⟩
      else none := by
  induction steps generalizing mem with
  | nil => exact (if_pos (by simp)).symm
  | cons i steps ih =>
    by_cases below : (index i).toNat < mem.size
    · have first : mem.setCell (index i) (value i) =
          some ⟨Function.update mem.address (index i) (value i), mem.size⟩ := if_pos below
      rw [List.foldlM_cons, first]
      simp only [Option.bind_eq_bind, Option.bind_some, ih, List.forall_mem_cons, below, true_and,
        List.foldl_cons]
    · have first : mem.setCell (index i) (value i) = none := if_neg below
      rw [List.foldlM_cons, first, if_neg fun all => below (all i List.mem_cons_self)]
      rfl

theorem blockReadBytes_eq : blockReadBytes h mem be address bytes =
    if outOfBounds h mem address bytes.length = true ∨ IndicesBelow mem be address bytes
    then some (memoryReadBytes h mem be address bytes) else none := by
  cases refused : outOfBounds h mem address bytes.length with
  | true => simp [blockReadBytes, memoryReadBytes, refused]
  | false =>
    simp only [blockReadBytes, memoryReadBytes, refused, Bool.false_eq_true, if_false, false_or,
      mapM_cell, List.mem_range, IndicesBelow]
    split <;> rfl

theorem blockWriteBytes_eq : blockWriteBytes h mem be address bytes =
    if outOfBounds h mem address bytes.length = true ∨ IndicesBelow mem be address bytes
    then some (memoryWriteBytes h mem be address bytes) else none := by
  cases refused : outOfBounds h mem address bytes.length with
  | true => simp [blockWriteBytes, memoryWriteBytes, refused]
  | false =>
    simp only [blockWriteBytes, memoryWriteBytes, refused, Bool.false_eq_true, if_false, false_or,
      foldlM_setCell, List.mem_range, IndicesBelow, updates]
    split <;> rfl

end Block

section Accepted

variable {h : Platform} {mem : Memory} {address : Word}

/-- Both accesses are accepted only on indices below the size. -/
structure AcceptedInside (h : Platform) (mem : Memory) (be : Bool) (address : Word)
    (bytes : List Byte) : Prop where
  read : (memoryReadBytes h mem be address bytes).2 = 0 → IndicesBelow mem be address bytes
  write : (memoryWriteBytes h mem be address bytes).2 = 0 → IndicesBelow mem be address bytes

theorem memoryReadBytes_accepted_iff (be : Bool) (bytes : List Byte) :
    (memoryReadBytes h mem be address bytes).2 = 0 ↔
      outOfBounds h mem address bytes.length = false := by
  unfold memoryReadBytes
  split <;> simp_all

theorem memoryWriteBytes_accepted_iff (be : Bool) (bytes : List Byte) :
    (memoryWriteBytes h mem be address bytes).2 = 0 ↔
      outOfBounds h mem address bytes.length = false := by
  unfold memoryWriteBytes
  split <;> simp_all

theorem acceptedInside_iff_block (be : Bool) (bytes : List Byte) :
    AcceptedInside h mem be address bytes ↔
      blockReadBytes h mem be address bytes ≠ none ∧
        blockWriteBytes h mem be address bytes ≠ none := by
  rw [blockReadBytes_eq, blockWriteBytes_eq]
  cases refused : outOfBounds h mem address bytes.length with
  | true =>
    refine iff_of_true ⟨?_, ?_⟩ (by simp)
    · exact fun accepted => by simp [memoryReadBytes_accepted_iff, refused] at accepted
    · exact fun accepted => by simp [memoryWriteBytes_accepted_iff, refused] at accepted
  | false =>
    have read := (memoryReadBytes_accepted_iff be bytes).mpr refused
    have write := (memoryWriteBytes_accepted_iff be bytes).mpr refused
    constructor
    · exact fun inside => by simp [inside.read read]
    · rintro ⟨inside, -⟩
      have below : IndicesBelow mem be address bytes := by
        by_contra outside
        simp [outside] at inside
      exact ⟨fun _ => below, fun _ => below⟩

variable {len : Nat}

theorem outOfBounds_crossing (narrow : h.sizeTBits = 32) (small : len ≤ 4)
    (crosses : 2 ^ 32 < address.toNat + len) :
    outOfBounds h mem address len = true ↔ mem.size < address.toNat + len - 2 ^ 32 := by
  have bound := address.isLt
  have wrapped : (address.toNat + len - 1) % 2 ^ 32 = address.toNat + len - 1 - 2 ^ 32 := by omega
  rw [outOfBounds, last_toNat h.sizeTBits_ge address (by omega) small, narrow, wrapped,
    decide_eq_true_iff]
  omega

theorem byteIndex_crossing (be : Bool) (crosses : 2 ^ 32 < address.toNat + len) :
    ∃ i < len, (byteIndex be address len i).toNat = 2 ^ 32 - 1 := by
  have bound := address.isLt
  have inside : 2 ^ 32 - 1 - address.toNat < len := by omega
  have step := byteOffset_lt be inside
  refine ⟨_, step, ?_⟩
  rw [byteIndex_eq be address step, byteOffset_byteOffset be inside, BitVec.toNat_add,
    BitVec.toNat_ofNat]
  omega

theorem byteIndex_below (be : Bool) (pos : 0 < len) (small : len ≤ 4)
    (whole : h.sizeTBits = 32 → address.toNat + len ≤ 2 ^ 32)
    (accepted : outOfBounds h mem address len = false) :
    ∀ i < len, (byteIndex be address len i).toNat < mem.size := by
  intro i step
  have bound := address.isLt
  have sum : (address.toNat + len - 1) % 2 ^ h.sizeTBits = address.toNat + len - 1 := by
    apply Nat.mod_eq_of_lt
    rcases Nat.lt_or_eq_of_le h.sizeTBits_ge with wide | narrow
    · have space : 2 ^ 33 ≤ 2 ^ h.sizeTBits := Nat.pow_le_pow_right (by decide) wide
      omega
    · have fits := whole narrow.symm
      rw [← narrow]
      omega
  rw [outOfBounds, last_toNat h.sizeTBits_ge address pos small, sum,
    decide_eq_false_iff_not] at accepted
  have offset := byteOffset_lt be step
  have index : (byteIndex be address len i).toNat ≤ address.toNat + byteOffset be len i := by
    rw [byteIndex_eq be address step, BitVec.toNat_add, BitVec.toNat_ofNat]
    exact (Nat.mod_le _ _).trans (Nat.add_le_add_left (Nat.mod_le _ _) _)
  omega

end Accepted

/-- On a host whose size_t has 32 bits the sum of the check wraps around for an access across the
end of the address space, and a memory that has a byte at what is left of it accepts. -/
theorem accepted_access_iff (h : Platform) (mem : Memory) (be : Bool) (address : Word)
    (bytes : List Byte) (length : bytes.length = 1 ∨ bytes.length = 2 ∨ bytes.length = 4)
    (represented : mem.size < 2 ^ h.sizeTBits) :
    (AcceptedInside h mem be address bytes ↔
      (h.sizeTBits = 32 → 2 ^ 32 < address.toNat + bytes.length →
        mem.size < address.toNat + bytes.length - 2 ^ 32)) ∧
    (h.sizeTBits = 32 → 2 ^ 32 < address.toNat + bytes.length →
      ((memoryReadBytes h mem be address bytes).2 = -1 ∧
          (memoryWriteBytes h mem be address bytes).2 = -1 ↔
        mem.size < address.toNat + bytes.length - 2 ^ 32)) := by
  have pos : 0 < bytes.length := by omega
  have small : bytes.length ≤ 4 := by omega
  constructor
  · constructor
    · intro inside narrow crosses
      by_contra large
      have accepted : outOfBounds h mem address bytes.length = false :=
        Bool.not_eq_true _ ▸ mt (outOfBounds_crossing narrow small crosses).mp large
      obtain ⟨i, step, last⟩ := byteIndex_crossing be crosses
      have below := inside.read ((memoryReadBytes_accepted_iff be bytes).mpr accepted) i step
      rw [narrow] at represented
      omega
    · intro condition
      have below (accepted : outOfBounds h mem address bytes.length = false) :
          IndicesBelow mem be address bytes := by
        apply byteIndex_below be pos small _ accepted
        intro narrow
        by_contra crosses
        have refused := (outOfBounds_crossing narrow small (Nat.lt_of_not_le crosses)).mpr
          (condition narrow (Nat.lt_of_not_le crosses))
        rw [accepted] at refused
        exact Bool.false_ne_true refused
      exact ⟨fun accepted => below ((memoryReadBytes_accepted_iff be bytes).mp accepted),
        fun accepted => below ((memoryWriteBytes_accepted_iff be bytes).mp accepted)⟩
  · intro narrow crosses
    rw [← outOfBounds_crossing narrow small crosses]
    cases refused : outOfBounds h mem address bytes.length with
    | true => simp [memoryReadBytes, memoryWriteBytes, refused]
    | false => simp [memoryReadBytes, memoryWriteBytes, refused]

def ilp32 : Platform := ⟨32, le_rfl, false, true⟩

theorem accepted_access_small : AcceptedInside ilp32 ⟨fun _ => 0#8, 2⟩ true 0xFFFFFFFF#32
    [0#8, 0#8, 0#8, 0#8] := by
  apply (accepted_access_iff ilp32 ⟨fun _ => 0#8, 2⟩ true 0xFFFFFFFF#32 [0#8, 0#8, 0#8, 0#8]
    (by decide) (by decide)).1.mpr
  decide

theorem last_word_accepted :
    ¬AcceptedInside ilp32 ⟨fun _ => 0#8, 0x20000⟩ false 0xFFFFFFFD#32 [0#8, 0#8, 0#8, 0#8] := by
  intro inside
  have below := inside.read (by decide) 0 (by decide)
  exact absurd below (by decide)

end ArmSimulator
