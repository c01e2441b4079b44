import ArmSimulator.Library.ByteStore
import ArmSimulator.Util

/-! memory.c: a block of bytes with checked accesses. The C block has `size`
bytes; here `address` is a function of the 32-bit index the loops compute, and
only the indices below `size` stand for bytes of the block. -/
namespace ArmSimulator
open ByteStore

structure Memory where
  address : Word → Byte
  size : Nat

/-- The index of byte `i` of an access, truncated to `uint32_t addr`. -/
def byteIndex (be : Bool) (address : Word) (len i : Nat) : Word :=
  if be then address + BitVec.ofNat 32 len - BitVec.ofNat 32 i - 1#32
  else address + BitVec.ofNat 32 i

/-- `address+len-1 >= mem->size`, computed in the host's size_t. -/
def outOfBounds (h : Platform) (mem : Memory) (address : Word) (len : Nat) : Bool :=
  decide (mem.size ≤
    (address.setWidth h.sizeTBits + BitVec.ofNat h.sizeTBits len - 1#h.sizeTBits).toNat)

def memoryReadBytes (h : Platform) (mem : Memory) (be : Bool) (address : Word)
    (bytes : List Byte) : List Byte × Int :=
  if outOfBounds h mem address bytes.length then (bytes, -1)
  else ((List.range bytes.length).map
    (fun i => mem.address (byteIndex be address bytes.length i)), 0)

def memoryWriteBytes (h : Platform) (mem : Memory) (be : Bool) (address : Word)
    (bytes : List Byte) : Memory × Int :=
  if outOfBounds h mem address bytes.length then (mem, -1)
  else
    let index := fun i => byteIndex be address bytes.length i
    let cells := updates mem.address index (fun i => bytes.getD i 0#8) bytes.length
    ({ mem with address := cells }, 0)

section Objects

variable {w : Nat}

def hostBytes (h : Platform) (x : BitVec w) : List Byte :=
  ordered h.isBigEndian (leBytes (w / 8) x)

def ofHostBytes (h : Platform) (w : Nat) (bytes : List Byte) : BitVec w :=
  ofLeBytes w (ordered h.isBigEndian bytes)

/-- `memory_read_bytes` through a cast pointer to an object holding `val`. -/
def memoryReadObject (h : Platform) (mem : Memory) (be : Bool) (add : Word) (val : BitVec w) :
    BitVec w × Int :=
  let r := memoryReadBytes h mem be add (hostBytes h val)
  (ofHostBytes h w r.1, r.2)

def memoryWriteObject (h : Platform) (mem : Memory) (be : Bool) (add : Word) (val : BitVec w) :
    Memory × Int :=
  memoryWriteBytes h mem be add (hostBytes h val)

end Objects

def memoryReadByte (h : Platform) (mem : Memory) (add : Word) (val : Byte) : Byte × Int :=
  memoryReadObject h mem true add val

def memoryReadHalf (h : Platform) (mem : Memory) (be : Bool) (add : Word) (val : Half) :
    Half × Int :=
  memoryReadObject h mem be add val

def memoryReadWord (h : Platform) (mem : Memory) (be : Bool) (add : Word) (val : Word) :
    Word × Int :=
  memoryReadObject h mem be add val

def memoryWriteByte (h : Platform) (mem : Memory) (add : Word) (val : Byte) : Memory × Int :=
  memoryWriteObject h mem true add val

def memoryWriteHalf (h : Platform) (mem : Memory) (be : Bool) (add : Word) (val : Half) :
    Memory × Int :=
  memoryWriteObject h mem be add val

def memoryWriteWord (h : Platform) (mem : Memory) (be : Bool) (add : Word) (val : Word) :
    Memory × Int :=
  memoryWriteObject h mem be add val

section Bounds

theorem last_toNat {n : Nat} (wide : 32 ≤ n) (address : Word) {len : Nat} (pos : 0 < len)
    (small : len ≤ 4) : (address.setWidth n + BitVec.ofNat n len - 1#n).toNat =
      (address.toNat + len - 1) % 2 ^ n := by
  have space : 2 ^ 32 ≤ 2 ^ n := Nat.pow_le_pow_right (by decide) wide
  have one : 1 % 2 ^ n = 1 := Nat.mod_eq_of_lt (by omega)
  have len_fits : len % 2 ^ n = len := Nat.mod_eq_of_lt (by omega)
  have address_fits : address.toNat % 2 ^ n = address.toNat :=
    Nat.mod_eq_of_lt (by have := address.isLt; omega)
  simp only [BitVec.toNat_sub, BitVec.toNat_add, BitVec.toNat_setWidth, BitVec.toNat_ofNat, one,
    len_fits, address_fits, Nat.add_mod_mod]
  rw [← Nat.add_mod_right (address.toNat + len - 1)]
  congr 1
  omega

theorem inBounds_of_inside (h : Platform) (mem : Memory) (address : Word) {len : Nat}
    (pos : 0 < len) (small : len ≤ 4) (inside : address.toNat + len ≤ mem.size) :
    outOfBounds h mem address len = false := by
  rw [outOfBounds, last_toNat h.sizeTBits_ge address pos small, decide_eq_false_iff_not]
  have reduced := Nat.mod_le (address.toNat + len - 1) (2 ^ h.sizeTBits)
  omega

theorem outOfBounds_iff (h : Platform) (wide : 33 ≤ h.sizeTBits) (mem : Memory) (address : Word)
    {len : Nat} (pos : 0 < len) (small : len ≤ 4) :
    outOfBounds h mem address len = true ↔ mem.size < address.toNat + len := by
  have space : 2 ^ 33 ≤ 2 ^ h.sizeTBits := Nat.pow_le_pow_right (by decide) wide
  have reduced : (address.toNat + len - 1) % 2 ^ h.sizeTBits = address.toNat + len - 1 :=
    Nat.mod_eq_of_lt (by have := address.isLt; omega)
  rw [outOfBounds, last_toNat h.sizeTBits_ge address pos small, reduced, decide_eq_true_iff]
  omega

end Bounds

section Loops

def byteOffset (be : Bool) (len i : Nat) : Nat := if be then len - 1 - i else i

variable (be : Bool) {len i : Nat}

theorem byteOffset_lt (hi : i < len) : byteOffset be len i < len := by
  unfold byteOffset
  split <;> omega

theorem byteOffset_byteOffset (hi : i < len) : byteOffset be len (byteOffset be len i) = i := by
  unfold byteOffset
  split <;> omega

theorem byteIndex_eq (address : Word) (hi : i < len) :
    byteIndex be address len i = address + BitVec.ofNat 32 (byteOffset be len i) := by
  cases be with
  | false => rfl
  | true =>
    have split : len = (len - 1 - i) + (i + 1) := by omega
    have sum : BitVec.ofNat 32 len =
        BitVec.ofNat 32 (len - 1 - i) + (BitVec.ofNat 32 i + 1#32) := by
      rw [← BitVec.ofNat_add, ← BitVec.ofNat_add, ← split]
    rw [byteIndex, byteOffset, if_pos rfl, if_pos rfl, sum]
    generalize BitVec.ofNat 32 (len - 1 - i) = d
    generalize BitVec.ofNat 32 i = e
    bv_omega

theorem byteIndex_inj (address : Word) {j : Nat} (small : len ≤ 2 ^ 32) (hi : i < len)
    (hj : j < len) (same : byteIndex be address len i = byteIndex be address len j) : i = j := by
  have insideI := byteOffset_lt be hi
  have insideJ := byteOffset_lt be hj
  rw [byteIndex_eq be address hi, byteIndex_eq be address hj] at same
  have offsets := add_ofNat_inj address (by omega) (by omega) same
  rw [← byteOffset_byteOffset be hi, offsets, byteOffset_byteOffset be hj]

theorem getElem_ordered (bytes : List Byte) (hi : i < (ordered be bytes).length) :
    (ordered be bytes)[i] = bytes.getD (byteOffset be bytes.length i) 0#8 := by
  cases be with
  | false =>
    have inside : i < bytes.length := hi
    simp [ordered, byteOffset, inside]
  | true =>
    have inside : i < bytes.length := by simpa using hi
    have mirrored : bytes.length - 1 - i < bytes.length := by omega
    simp [ordered, byteOffset, mirrored]

theorem map_byteIndex (m : Word → Byte) (address : Word) (len : Nat) :
    (List.range len).map (fun i => m (byteIndex be address len i)) =
      ordered be (load m address len) := by
  apply List.ext_getElem (by simp)
  intro i hi hb
  have inside : i < len := by simpa using hi
  simp [getElem_ordered, byteIndex_eq be address inside, load, byteOffset_lt be inside]

theorem updates_byteIndex (m : Word → Byte) (address : Word) (bytes : List Byte)
    (small : bytes.length ≤ 2 ^ 32) :
    updates m (fun i => byteIndex be address bytes.length i) (fun i => bytes.getD i 0#8)
      bytes.length = store m address (ordered be bytes) := by
  funext x
  by_cases inside : (x - address).toNat < bytes.length
  · have place := eq_add_ofNat_sub x address
    generalize (x - address).toNat = k at inside place
    subst place
    have step := byteOffset_lt be inside
    have here : byteIndex be address bytes.length (byteOffset be bytes.length k) =
        address + BitVec.ofNat 32 k := by
      rw [byteIndex_eq be address step, byteOffset_byteOffset be inside]
    rw [← here, updates_inside m _ _ step fun j hj k hk => byteIndex_inj be address small hj hk,
      here, store_inside m address (ordered be bytes) (by omega) (by simpa using inside),
      getElem_ordered]
  · rw [updates_outside m _ _, store_outside m address x (ordered be bytes) (by simpa using inside)]
    intro i hi same
    have step := byteOffset_lt be hi
    apply inside
    rw [same, byteIndex_eq be address hi, add_ofNat_sub_toNat address (by omega)]
    exact step

end Loops

section Contract

variable {w : Nat}

def swapped (h : Platform) (be : Bool) : Bool := h.isBigEndian ^^ be

def Memory.valueAt (h : Platform) (mem : Memory) (be : Bool) (w : Nat) (add : Word) : BitVec w :=
  ofLeBytes w (ordered (swapped h be) (load mem.address add (w / 8)))

def Memory.put (h : Platform) (mem : Memory) (be : Bool) (add : Word) (val : BitVec w) : Memory :=
  { mem with address := store mem.address add (ordered (swapped h be) (leBytes (w / 8) val)) }

@[simp] theorem length_hostBytes (h : Platform) (x : BitVec w) :
    (hostBytes h x).length = w / 8 := by simp [hostBytes]

theorem ofHostBytes_hostBytes (h : Platform) (whole : 8 ∣ w) (x : BitVec w) :
    ofHostBytes h w (hostBytes h x) = x := by
  rw [ofHostBytes, hostBytes, ordered_ordered, Bool.xor_self, ordered_false]
  exact ofLeBytes_leBytes (by omega) x

theorem memoryReadObject_inside (h : Platform) (mem : Memory) (be : Bool) (add : Word)
    (val : BitVec w) (inside : outOfBounds h mem add (w / 8) = false) :
    memoryReadObject h mem be add val = (mem.valueAt h be w add, 0) := by
  simp only [memoryReadObject, memoryReadBytes, length_hostBytes, inside, Bool.false_eq_true,
    if_false, map_byteIndex, ofHostBytes, ordered_ordered, Memory.valueAt, swapped]

theorem memoryReadObject_outside (h : Platform) (mem : Memory) (be : Bool) (add : Word)
    (val : BitVec w) (whole : 8 ∣ w) (outside : outOfBounds h mem add (w / 8) = true) :
    memoryReadObject h mem be add val = (val, -1) := by
  simp only [memoryReadObject, memoryReadBytes, length_hostBytes, outside, if_true,
    ofHostBytes_hostBytes h whole]

theorem memoryWriteObject_inside (h : Platform) (mem : Memory) (be : Bool) (add : Word)
    (val : BitVec w) (small : w / 8 ≤ 4) (inside : outOfBounds h mem add (w / 8) = false) :
    memoryWriteObject h mem be add val = (mem.put h be add val, 0) := by
  have fits : (hostBytes h val).length ≤ 2 ^ 32 := by
    rw [length_hostBytes]
    omega
  have order : ordered be (hostBytes h val) =
      ordered (swapped h be) (leBytes (w / 8) val) := by
    rw [hostBytes, ordered_ordered, swapped, Bool.xor_comm]
  have accepted : outOfBounds h mem add (hostBytes h val).length = false := by
    rw [length_hostBytes, inside]
  simp only [memoryWriteObject, memoryWriteBytes, accepted, Bool.false_eq_true, if_false,
    updates_byteIndex be mem.address add _ fits, order, Memory.put]

theorem memoryWriteObject_outside (h : Platform) (mem : Memory) (be : Bool) (add : Word)
    (val : BitVec w) (outside : outOfBounds h mem add (w / 8) = true) :
    memoryWriteObject h mem be add val = (mem, -1) := by
  simp only [memoryWriteObject, memoryWriteBytes, length_hostBytes, outside, if_true]

theorem Memory.valueAt_put_same (h : Platform) (mem : Memory) (be : Bool) (add : Word)
    (val : BitVec w) (whole : 8 ∣ w) (small : w / 8 ≤ 4) :
    (mem.put h be add val).valueAt h be w add = val := by
  have cells : load (mem.put h be add val).address add (w / 8) =
      ordered (swapped h be) (leBytes (w / 8) val) := by
    have same := load_store_same mem.address add
      (ordered (swapped h be) (leBytes (w / 8) val)) (by rw [length_ordered, length_leBytes]; omega)
    rwa [length_ordered, length_leBytes] at same
  rw [Memory.valueAt, cells, ordered_ordered, Bool.xor_self, ordered_false]
  exact ofLeBytes_leBytes (by omega) val

theorem Memory.valueAt_put_apart (h : Platform) (mem : Memory) (be : Bool) (add other : Word)
    (val : BitVec w) (v : Nat) (be' : Bool)
    (apart : ∀ i < v / 8, w / 8 ≤ (other + BitVec.ofNat 32 i - add).toNat) :
    (mem.put h be add val).valueAt h be' v other = mem.valueAt h be' v other := by
  rw [Memory.valueAt, Memory.valueAt, Memory.put,
    load_store_apart mem.address add other _ _ (by simpa using apart)]

theorem Memory.put_frame (h : Platform) (mem : Memory) (be : Bool) (add x : Word) (val : BitVec w)
    (outside : w / 8 ≤ (x - add).toNat) : (mem.put h be add val).address x = mem.address x :=
  store_outside mem.address add x _ (by simpa using outside)

end Contract

section Bytes

variable (h : Platform) {mem : Memory} {address : Word} (value : Byte)

theorem outOfBounds_byte (mem : Memory) (address : Word) :
    outOfBounds h mem address 1 = decide (mem.size ≤ address.toNat) := by
  have space : 2 ^ 32 ≤ 2 ^ h.sizeTBits := Nat.pow_le_pow_right (by decide) h.sizeTBits_ge
  have fits : (address.toNat + 1 - 1) % 2 ^ h.sizeTBits = address.toNat :=
    Nat.mod_eq_of_lt (by have := address.isLt; omega)
  rw [outOfBounds, last_toNat h.sizeTBits_ge address (by decide) (by decide), fits]

theorem Memory.valueAt_byte (mem : Memory) (be : Bool) (address : Word) :
    mem.valueAt h be 8 address = mem.address address := by
  have single : load mem.address address (8 / 8) = leBytes 1 (mem.address address) := by
    rw [leBytes_byte, load, List.range_one, List.map_singleton, BitVec.add_zero]
  have back : ofLeBytes 8 (leBytes 1 (mem.address address)) = mem.address address :=
    ofLeBytes_leBytes rfl _
  rw [Memory.valueAt, single, leBytes_byte, ordered_singleton, ← leBytes_byte, back]

theorem memoryReadByte_inside (inside : address.toNat < mem.size) :
    memoryReadByte h mem address value = (mem.address address, 0) := by
  have accepted : outOfBounds h mem address (8 / 8) = false := by
    simpa [outOfBounds_byte] using inside
  rw [memoryReadByte, memoryReadObject_inside h mem true address value accepted,
    Memory.valueAt_byte]

theorem memoryReadByte_outside (outside : mem.size ≤ address.toNat) :
    memoryReadByte h mem address value = (value, -1) :=
  memoryReadObject_outside h mem true address value (by decide)
    (by simpa [outOfBounds_byte] using outside)

theorem memoryWriteByte_inside (inside : address.toNat < mem.size) :
    memoryWriteByte h mem address value =
      ({ mem with address := store mem.address address [value] }, 0) := by
  have accepted : outOfBounds h mem address (8 / 8) = false := by
    simpa [outOfBounds_byte] using inside
  rw [memoryWriteByte, memoryWriteObject_inside h mem true address value (by decide) accepted,
    Memory.put, leBytes_byte, ordered_singleton]

theorem memoryWriteByte_outside (outside : mem.size ≤ address.toNat) :
    memoryWriteByte h mem address value = (mem, -1) :=
  memoryWriteObject_outside h mem true address value (by simpa [outOfBounds_byte] using outside)

end Bytes

end ArmSimulator
