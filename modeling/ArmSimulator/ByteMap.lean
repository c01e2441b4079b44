import ArmSimulator.Memory

/-! The memory as a byte map. The map says what the simulated memory is for:
numbered bytes, each holding what was last written to it. The accesses of
memory.c are shown to be accesses to this map, over any history. -/
namespace ArmSimulator
open ByteStore

inductive Width where
  | byte
  | half
  | word
deriving DecidableEq

def Width.bits : Width → Nat
  | .byte => 8
  | .half => 16
  | .word => 32

def Width.bytes (width : Width) : Nat := width.bits / 8

/-- One call of a memory function. A read brings the content of its destination. -/
inductive Access where
  | read (width : Width) (be : Bool) (add : Word) (val : BitVec width.bits)
  | write (width : Width) (be : Bool) (add : Word) (val : BitVec width.bits)

/-- The result of a call and the content of `*val`, or of `val`, after it. -/
structure Reply where
  result : Int
  value : Nat

def Access.perform (h : Platform) (mem : Memory) : Access → Memory × Reply
  | .read .byte _ add val => let r := memoryReadByte h mem add val; (mem, ⟨r.2, r.1.toNat⟩)
  | .read .half be add val => let r := memoryReadHalf h mem be add val; (mem, ⟨r.2, r.1.toNat⟩)
  | .read .word be add val => let r := memoryReadWord h mem be add val; (mem, ⟨r.2, r.1.toNat⟩)
  | .write .byte _ add val => let r := memoryWriteByte h mem add val; (r.1, ⟨r.2, val.toNat⟩)
  | .write .half be add val => let r := memoryWriteHalf h mem be add val; (r.1, ⟨r.2, val.toNat⟩)
  | .write .word be add val => let r := memoryWriteWord h mem be add val; (r.1, ⟨r.2, val.toNat⟩)

def runAccesses (h : Platform) (mem : Memory) : List Access → Memory
  | [] => mem
  | a :: rest => runAccesses h (a.perform h mem).1 rest

section Abstract

/-- The number that bytes at ascending addresses spell. In big-endian order the
byte at the lowest address has the greatest weight. -/
def combine (be : Bool) (bs : List Byte) : Nat := leValue (ordered be bs)

def spell (be : Bool) (width : Width) (val : BitVec width.bits) : List Byte :=
  ordered be (leBytes width.bytes val)

def Inside (size : Nat) (a : Nat) (width : Width) : Prop := a + width.bytes ≤ size

instance (size a : Nat) (width : Width) : Decidable (Inside size a width) :=
  inferInstanceAs (Decidable (_ ≤ _))

def Access.written (size : Nat) (x : Nat) : Access → Option Byte
  | .read .. => none
  | .write width be add val =>
    if Inside size add.toNat width ∧ add.toNat ≤ x then (spell be width val)[x - add.toNat]?
    else none

/-- The content of byte `x` after a history: its last write, or what was there. -/
def lastWritten (size : Nat) (initial : Nat → Byte) (past : List Access) (x : Nat) : Byte :=
  past.foldl (fun b a => (a.written size x).getD b) (initial x)

theorem lastWritten_append (size : Nat) (initial : Nat → Byte) (past later : List Access)
    (x : Nat) :
    lastWritten size initial (past ++ later) x =
      lastWritten size (lastWritten size initial past) later x := by
  simp only [lastWritten, List.foldl_append]

theorem lastWritten_untouched (size : Nat) (initial : Nat → Byte) (later : List Access) (x : Nat)
    (untouched : ∀ a ∈ later, a.written size x = none) :
    lastWritten size initial later x = initial x := by
  induction later generalizing initial with
  | nil => rfl
  | cons a later ih =>
    have step := ih (fun y => (a.written size y).getD (initial y))
      fun b hb => untouched b (List.mem_cons_of_mem a hb)
    simp only [lastWritten, List.foldl_cons] at step ⊢
    rw [step, untouched a List.mem_cons_self, Option.getD_none]

@[simp] theorem length_spell (be : Bool) (width : Width) (val : BitVec width.bits) :
    (spell be width val).length = width.bytes := by simp [spell]

theorem width_whole (width : Width) : width.bits = 8 * width.bytes := by cases width <;> rfl

theorem bits_div (width : Width) : width.bits / 8 = width.bytes := rfl

theorem width_small (width : Width) : 0 < width.bytes ∧ width.bytes ≤ 4 := by
  cases width <;> decide

theorem combine_spell (be : Bool) (width : Width) (val : BitVec width.bits) :
    combine be (spell be width val) = val.toNat := by
  have fits : val.toNat < 256 ^ width.bytes := by
    have space : 2 ^ width.bits = 256 ^ width.bytes := by rw [width_whole, Nat.pow_mul]
    exact space ▸ val.isLt
  rw [combine, spell, ordered_ordered, Bool.xor_self, ordered_false, leValue_leBytes,
    Nat.mod_eq_of_lt fits]

theorem combine_spell_opposite (be : Bool) (width : Width) (val : BitVec width.bits) :
    combine (!be) (spell be width val) = leValue (leBytes width.bytes val).reverse := by
  rw [combine, spell, ordered_ordered, Bool.not_xor_self]
  rfl

end Abstract

section Connection

def Memory.byte (mem : Memory) (x : Nat) : Byte := mem.address (BitVec.ofNat 32 x)

def Memory.bytes (mem : Memory) (a : Nat) (width : Width) : List Byte :=
  (List.range width.bytes).map (fun i => mem.byte (a + i))

def Width.order (width : Width) (be : Bool) : Bool :=
  match width with
  | .byte => true
  | _ => be

theorem ordered_order (width : Width) (be : Bool) {bs : List Byte} (h : bs.length = width.bytes) :
    ordered (width.order be) bs = ordered be bs := by
  cases width with
  | byte =>
    obtain ⟨b, rfl⟩ := List.length_eq_one_iff.mp h
    cases be <;> rfl
  | half => rfl
  | word => rfl

variable {h : Platform} (little : h.isBigEndian = false) (wide : h.sizeTBits = 64)
variable (mem : Memory) (width : Width) (be : Bool) (add : Word) (val : BitVec width.bits)

theorem perform_read : Access.perform h mem (.read width be add val) =
    (mem, ⟨(memoryReadObject h mem (width.order be) add val).2,
      (memoryReadObject h mem (width.order be) add val).1.toNat⟩) := by
  cases width <;> rfl

theorem perform_write : Access.perform h mem (.write width be add val) =
    ((memoryWriteObject h mem (width.order be) add val).1,
      ⟨(memoryWriteObject h mem (width.order be) add val).2, val.toNat⟩) := by
  cases width <;> rfl

include wide in
theorem outOfBounds_eq : outOfBounds h mem add width.bytes =
    !decide (Inside mem.size add.toNat width) := by
  have exact := outOfBounds_iff h (by omega) mem add (width_small width).1 (width_small width).2
  by_cases inside : Inside mem.size add.toNat width
  · rw [decide_eq_true inside, Bool.not_true, Bool.eq_false_iff, ne_eq, exact]
    exact Nat.not_lt_of_le inside
  · rw [decide_eq_false inside, Bool.not_false, exact]
    exact Nat.lt_of_not_le inside

include little in
theorem valueAt_toNat : (mem.valueAt h (width.order be) width.bits add).toNat =
    combine be (mem.bytes add.toNat width) := by
  have cells : load mem.address add width.bytes = mem.bytes add.toNat width := by
    apply List.map_congr_left
    intro i _
    rw [Memory.byte, BitVec.ofNat_add, BitVec.ofNat_toNat, BitVec.setWidth_eq]
  have number := leValue_lt (ordered be (mem.bytes add.toNat width))
  have space : 256 ^ (ordered be (mem.bytes add.toNat width)).length = 2 ^ width.bits := by
    rw [width_whole width, Nat.pow_mul]
    simp [Memory.bytes]
  rw [Memory.valueAt, swapped, little, Bool.false_xor, bits_div width,
    cells, ordered_order width be (by simp [Memory.bytes]), ofLeBytes, BitVec.toNat_ofNat,
    Nat.mod_eq_of_lt (by omega)]
  rfl

include little wide in
/-- One access refines the map: every byte holds what the access wrote there, or its old content. -/
theorem perform_byte (a : Access) (bound : mem.size ≤ 2 ^ 32) (x : Nat) (hx : x < mem.size) :
    (a.perform h mem).1.byte x = (a.written mem.size x).getD (mem.byte x) := by
  cases a with
  | read width be add val => rw [perform_read, Access.written, Option.getD_none]
  | write width be add val =>
    have bounds := outOfBounds_eq wide mem width add
    rw [perform_write, Access.written]
    by_cases inside : Inside mem.size add.toNat width
    · rw [decide_eq_true inside] at bounds
      have offset : add.toNat ≤ x → (BitVec.ofNat 32 x - add).toNat = x - add.toNat := by
        intro above
        rw [BitVec.toNat_sub, BitVec.toNat_ofNat]
        have := add.isLt
        omega
      have wrapped : x < add.toNat → width.bytes ≤ (BitVec.ofNat 32 x - add).toNat := by
        intro below
        rw [BitVec.toNat_sub, BitVec.toNat_ofNat]
        have := add.isLt
        have := inside
        simp only [Inside] at this
        omega
      rw [memoryWriteObject_inside h mem _ add val (width_small width).2 bounds]
      simp only [Memory.byte, Memory.put, swapped, little, Bool.false_xor, store]
      rw [bits_div width,
        ordered_order width be (length_leBytes _ _), ← spell, List.getD_eq_getElem?_getD]
      by_cases above : add.toNat ≤ x
      · rw [if_pos ⟨inside, above⟩, offset above]
      · rw [if_neg fun both => above both.2, Option.getD_none,
          List.getElem?_eq_none (by rw [length_spell]; exact wrapped (Nat.lt_of_not_le above)),
          Option.getD_none]
    · rw [decide_eq_false inside] at bounds
      rw [memoryWriteObject_outside h mem _ add val bounds, if_neg fun both => inside both.1,
        Option.getD_none]

theorem perform_size (h : Platform) (mem : Memory) (a : Access) :
    (a.perform h mem).1.size = mem.size := by
  cases a with
  | read width be add val => rw [perform_read]
  | write width be add val =>
    rw [perform_write]
    simp only [memoryWriteObject, memoryWriteBytes]
    split <;> rfl

theorem run_size (h : Platform) (mem : Memory) (past : List Access) :
    (runAccesses h mem past).size = mem.size := by
  induction past generalizing mem with
  | nil => rfl
  | cons a past ih => rw [runAccesses, ih, perform_size]

include little wide in
theorem run_byte (past : List Access) (bound : mem.size ≤ 2 ^ 32) (x : Nat) (hx : x < mem.size) :
    (runAccesses h mem past).byte x = lastWritten mem.size mem.byte past x := by
  induction past generalizing mem with
  | nil => rfl
  | cons a past ih =>
    have size := perform_size h mem a
    rw [runAccesses, ih (a.perform h mem).1 (size ▸ bound) (size ▸ hx), size]
    simp only [lastWritten, List.foldl_cons]
    rw [perform_byte little wide mem a bound x hx]

end Connection

section Claims

variable (h : Platform) (mem : Memory) (past : List Access)

/-- A read after `past` returns 0 and what was last written, or returns -1 and changes nothing. -/
def ReadContract : Prop :=
  ∀ (width : Width) (be : Bool) (add : Word) (val : BitVec width.bits),
    let m := runAccesses h mem past
    let r := Access.perform h m (.read width be add val)
    r.1 = m ∧
    (Inside mem.size add.toNat width → r.2 = ⟨0, combine be ((List.range width.bytes).map
      (fun i => lastWritten mem.size mem.byte past (add.toNat + i)))⟩) ∧
    (¬ Inside mem.size add.toNat width → r.2 = ⟨-1, val.toNat⟩)

/-- A write after `past` changes the bytes of its range only, or returns -1 and changes nothing. -/
def WriteContract : Prop :=
  ∀ (width : Width) (be : Bool) (add : Word) (val : BitVec width.bits),
    let m := runAccesses h mem past
    let r := Access.perform h m (.write width be add val)
    (Inside mem.size add.toNat width → r.2.result = 0 ∧ r.1.size = mem.size ∧
      (∀ i < width.bytes, (spell be width val)[i]? = some (r.1.byte (add.toNat + i))) ∧
      (∀ x < mem.size, x < add.toNat ∨ add.toNat + width.bytes ≤ x → r.1.byte x = m.byte x)) ∧
    (¬ Inside mem.size add.toNat width → r.1 = m ∧ r.2.result = -1)

/-- A value is read back at its address as long as nothing overwrites it; in the
opposite order its bytes come back reversed. -/
def ReadBack : Prop :=
  ∀ (width : Width) (be be' : Bool) (add : Word) (val val' : BitVec width.bits)
    (later : List Access), Inside mem.size add.toNat width →
    (∀ a ∈ later, ∀ i < width.bytes, a.written mem.size (add.toNat + i) = none) →
    let m := runAccesses h mem (past ++ .write width be add val :: later)
    (Access.perform h m (.read width be' add val')).2 =
      ⟨0, if be' = be then val.toNat else leValue (leBytes width.bytes val).reverse⟩

variable {h}

theorem run_bounds (wide : h.sizeTBits = 64) (width : Width) (add : Word) :
    outOfBounds h (runAccesses h mem past) add (width.bits / 8) =
      !decide (Inside mem.size add.toNat width) := by
  rw [← run_size h mem past]
  exact outOfBounds_eq wide _ width add

theorem run_read (little : h.isBigEndian = false) (wide : h.sizeTBits = 64)
    (bound : mem.size ≤ 2 ^ 32) : ReadContract h mem past := by
  intro width be add val m r
  have bounds := run_bounds mem past wide width add
  refine ⟨by simp only [r, perform_read], ?_, ?_⟩
  · intro inside
    rw [decide_eq_true inside] at bounds
    simp only [r, perform_read, memoryReadObject_inside h m _ add val bounds,
      valueAt_toNat little m width be add, Memory.bytes]
    congr 2
    apply List.map_congr_left
    intro i hi
    have i_small := List.mem_range.mp hi
    exact run_byte little wide mem past bound _ (by simp only [Inside] at inside; omega)
  · intro outside
    rw [decide_eq_false outside] at bounds
    have whole : 8 ∣ width.bits := ⟨width.bytes, width_whole width⟩
    simp only [r, perform_read, memoryReadObject_outside h m _ add val whole bounds]

theorem run_write (little : h.isBigEndian = false) (wide : h.sizeTBits = 64)
    (bound : mem.size ≤ 2 ^ 32) : WriteContract h mem past := by
  intro width be add val m r
  have size : m.size = mem.size := run_size h mem past
  have bounds := run_bounds mem past wide width add
  have cell : ∀ x < mem.size, r.1.byte x =
      ((Access.write width be add val).written mem.size x).getD (m.byte x) := by
    intro x hx
    exact size ▸ perform_byte little wide m (.write width be add val) (size ▸ bound) x (size ▸ hx)
  refine ⟨?_, ?_⟩
  · intro inside
    rw [decide_eq_true inside] at bounds
    have room : add.toNat + width.bytes ≤ mem.size := inside
    refine ⟨?_, (perform_size h m _).trans size, ?_, ?_⟩
    · simp only [r, perform_write, memoryWriteObject_inside h m _ add val
        (width_small width).2 bounds]
    · intro i inRange
      have here : i < (spell be width val).length := by simpa using inRange
      rw [cell _ (by omega), Access.written, if_pos ⟨inside, Nat.le_add_right _ _⟩,
        Nat.add_sub_cancel_left, List.getElem?_eq_getElem here, Option.getD_some]
    · intro x hx apart
      rw [cell x hx, Access.written]
      split
      · rename_i above
        rw [List.getElem?_eq_none (by rw [length_spell]; omega), Option.getD_none]
      · rfl
  · intro outside
    rw [decide_eq_false outside] at bounds
    simp only [r, perform_write, memoryWriteObject_outside h m _ add val bounds, and_self]

theorem run_readBack (little : h.isBigEndian = false) (wide : h.sizeTBits = 64)
    (bound : mem.size ≤ 2 ^ 32) : ReadBack h mem past := by
  intro width be be' add val val' later inside untouched m
  have read := (run_read mem (past ++ .write width be add val :: later) little wide bound
    width be' add val').2.1 inside
  have room : add.toNat + width.bytes ≤ mem.size := inside
  have cells : (List.range width.bytes).map (fun i => lastWritten mem.size mem.byte
      (past ++ .write width be add val :: later) (add.toNat + i)) = spell be width val := by
    apply List.ext_getElem (by simp)
    intro i hi here
    have inRange : i < width.bytes := by simpa using hi
    simp only [List.getElem_map, List.getElem_range]
    rw [lastWritten_append, ← List.singleton_append, lastWritten_append,
      lastWritten_untouched _ _ later _ fun a ha => untouched a ha i inRange]
    simp only [lastWritten, List.foldl_cons, List.foldl_nil, Access.written]
    rw [if_pos ⟨inside, Nat.le_add_right _ _⟩, Nat.add_sub_cancel_left,
      List.getElem?_eq_getElem here, Option.getD_some]
  rw [read, cells]
  by_cases same : be' = be
  · rw [if_pos same, same, combine_spell]
  · have opposite : be' = !be := by cases be <;> cases be' <;> simp_all
    rw [if_neg same, opposite, combine_spell_opposite]

/-- memory.c refines the byte map, after any history of accesses. -/
theorem memory_refines_byte_map (little : h.isBigEndian = false) (wide : h.sizeTBits = 64)
    (bound : mem.size ≤ 2 ^ 32) :
    ReadContract h mem past ∧ WriteContract h mem past ∧ ReadBack h mem past :=
  ⟨run_read mem past little wide bound, run_write mem past little wide bound,
    run_readBack mem past little wide bound⟩

theorem memory_refines_byte_map_test :
    let mem : Memory := ⟨fun _ => 0#8, 4⟩
    let past : List Access := [.write .word true 0#32 0x11223344#32]
    ReadContract lp64 mem past ∧ WriteContract lp64 mem past ∧ ReadBack lp64 mem past :=
  memory_refines_byte_map _ _ rfl rfl (by decide)

end Claims

end ArmSimulator
