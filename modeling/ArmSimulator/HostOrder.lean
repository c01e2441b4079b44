import ArmSimulator.ByteMap

/-! The byte order of the host. memory.c moves the bytes of the host's own
representation of a value and never asks which order that is, so on a big-endian
host every access runs in the opposite of the order it asks for. -/
namespace ArmSimulator
open ByteStore

def onHost (h : Platform) (big : Bool) : Platform := { h with isBigEndian := big }

/-- An access as memory.h describes it: `be` gives the byte at the lowest address
the greatest weight. Only the bound check depends on the platform. -/
def Access.meaning (h : Platform) (mem : Memory) : Access → Memory × Reply
  | .read width be add val =>
    if outOfBounds h mem add width.bytes then (mem, ⟨-1, val.toNat⟩)
    else (mem, ⟨0, combine be (load mem.address add width.bytes)⟩)
  | .write width be add val =>
    if outOfBounds h mem add width.bytes then (mem, ⟨-1, val.toNat⟩)
    else ({ mem with address := store mem.address add (spell be width val) }, ⟨0, val.toNat⟩)

def Access.reversed : Access → Access
  | .read width be add val => .read width (!be) add val
  | .write width be add val => .write width (!be) add val

/-- The access fails, or the bytes it moves read the same from both ends. A byte
access moves one. -/
def Access.Neutral (h : Platform) (mem : Memory) : Access → Prop
  | .read width _ add _ => outOfBounds h mem add width.bytes = true ∨
      (load mem.address add width.bytes).reverse = load mem.address add width.bytes
  | .write width _ add val => outOfBounds h mem add width.bytes = true ∨
      (leBytes width.bytes val).reverse = leBytes width.bytes val

def history (call : Memory → Access → Memory × Reply) (mem : Memory) :
    List Access → Memory × List Reply
  | [] => (mem, [])
  | a :: rest =>
    let r := call mem a
    let s := history call r.1 rest
    (s.1, r.2 :: s.2)

/-- On both hosts the sequence has the replies and leaves the bytes it should. -/
def HostIndependent (h : Platform) (mem : Memory) (as : List Access) : Prop :=
  ∀ big, history (Access.perform (onHost h big)) mem as = history (Access.meaning h) mem as

def NeutralRun (h : Platform) (mem : Memory) : List Access → Prop
  | [] => True
  | a :: rest => a.Neutral h mem ∧ NeutralRun h (a.meaning h mem).1 rest

section OneAccess

variable (h : Platform) (mem : Memory)

theorem valueAt_combine (width : Width) (be : Bool) (add : Word) :
    (mem.valueAt h (width.order be) width.bits add).toNat =
      combine (swapped h be) (load mem.address add width.bytes) := by
  have number := leValue_lt (ordered (swapped h be) (load mem.address add width.bytes))
  have space : 256 ^ (ordered (swapped h be) (load mem.address add width.bytes)).length =
      2 ^ width.bits := by
    rw [length_ordered, length_load, width_whole width, Nat.pow_mul]
  have order : ordered (swapped h (width.order be)) (load mem.address add width.bytes) =
      ordered (swapped h be) (load mem.address add width.bytes) := by
    rw [swapped, ← ordered_ordered, ordered_order width be (length_load _ _ _), ordered_ordered,
      swapped]
  rw [Memory.valueAt, bits_div width, order, ofLeBytes,
    BitVec.toNat_ofNat, Nat.mod_eq_of_lt (by omega), combine]

theorem put_spell (width : Width) (be : Bool) (add : Word) (val : BitVec width.bits) :
    mem.put h (width.order be) add val =
      { mem with address := store mem.address add (spell (swapped h be) width val) } := by
  have order : ordered (swapped h (width.order be)) (leBytes width.bytes val) =
      spell (swapped h be) width val := by
    rw [swapped, ← ordered_ordered, ordered_order width be (length_leBytes _ _), ordered_ordered,
      spell, swapped]
  rw [Memory.put, bits_div width, order]

theorem perform_meaning (a : Access) :
    a.perform h mem = (if h.isBigEndian then a.reversed else a).meaning h mem := by
  have order (be : Bool) : swapped h be = if h.isBigEndian then !be else be := by
    unfold swapped
    cases h.isBigEndian with
    | false => exact Bool.false_xor be
    | true => exact Bool.true_xor be
  cases a with
  | read width be add val =>
    have whole : 8 ∣ width.bits := ⟨width.bytes, width_whole width⟩
    have target : (if h.isBigEndian then (Access.read width be add val).reversed
        else .read width be add val) = .read width (swapped h be) add val := by
      rw [order]
      split <;> rfl
    rw [perform_read, target, Access.meaning]
    cases bounds : outOfBounds h mem add width.bytes with
    | true => rw [memoryReadObject_outside h mem _ add val whole bounds, if_pos rfl]
    | false =>
      rw [memoryReadObject_inside h mem _ add val bounds, if_neg Bool.false_ne_true]
      simp only [valueAt_combine]
  | write width be add val =>
    have target : (if h.isBigEndian then (Access.write width be add val).reversed
        else .write width be add val) = .write width (swapped h be) add val := by
      rw [order]
      split <;> rfl
    rw [perform_write, target, Access.meaning]
    cases bounds : outOfBounds h mem add width.bytes with
    | true => rw [memoryWriteObject_outside h mem _ add val bounds, if_pos rfl]
    | false =>
      rw [memoryWriteObject_inside h mem _ add val (width_small width).2 bounds,
        if_neg Bool.false_ne_true, put_spell]

theorem reversed_meaning_iff (a : Access) :
    a.reversed.meaning h mem = a.meaning h mem ↔ a.Neutral h mem := by
  cases a with
  | read width be add val =>
    simp only [Access.reversed, Access.meaning, Access.Neutral]
    cases bounds : outOfBounds h mem add width.bytes with
    | true => exact iff_of_true rfl (.inl rfl)
    | false =>
      simp only [Bool.false_eq_true, if_false, false_or, Prod.mk.injEq, Reply.mk.injEq, true_and]
      rw [← ordered_reverse be]
      constructor
      · exact leValue_inj (by rw [length_ordered, length_ordered])
      · exact congrArg leValue
  | write width be add val =>
    simp only [Access.reversed, Access.meaning, Access.Neutral]
    cases bounds : outOfBounds h mem add width.bytes with
    | true => exact iff_of_true rfl (.inl rfl)
    | false =>
      simp only [Bool.false_eq_true, if_false, false_or, Prod.mk.injEq, Memory.mk.injEq, and_true]
      rw [← ordered_reverse be]
      have small := (width_small width).2
      constructor
      · intro same
        exact store_inj (by rw [length_ordered, length_ordered])
          (by rw [length_ordered, length_leBytes]; omega) same
      · intro same
        rw [spell, same, spell]

theorem perform_hosts_iff (a : Access) :
    (∀ big, a.perform (onHost h big) mem = a.meaning h mem) ↔ a.Neutral h mem := by
  have little : a.perform (onHost h false) mem = a.meaning h mem :=
    perform_meaning (onHost h false) mem a
  have big : a.perform (onHost h true) mem = a.reversed.meaning h mem :=
    perform_meaning (onHost h true) mem a
  constructor
  · intro same
    exact (reversed_meaning_iff h mem a).mp (big.symm.trans (same true))
  · intro neutral host
    cases host with
    | false => exact little
    | true => exact big.trans ((reversed_meaning_iff h mem a).mpr neutral)

end OneAccess

section Sequences

variable (h : Platform)

theorem neutralRun_independent (as : List Access) (mem : Memory) (neutral : NeutralRun h mem as) :
    HostIndependent h mem as := by
  induction as generalizing mem with
  | nil => exact fun _ => rfl
  | cons a rest ih =>
    intro big
    have first := (perform_hosts_iff h mem a).mpr neutral.1 big
    simp only [history, first]
    rw [ih _ neutral.2 big]

theorem neutralRun_earlier {as past : List Access} {mem : Memory} (neutral : NeutralRun h mem as)
    (before : past <+: as) : NeutralRun h mem past := by
  induction as generalizing past mem with
  | nil =>
    rw [List.prefix_nil.mp before]
    trivial
  | cons a rest ih =>
    cases past with
    | nil => trivial
    | cons b past =>
      obtain ⟨rfl, tail⟩ := List.cons_prefix_cons.mp before
      exact ⟨neutral.1, ih neutral.2 tail⟩

theorem independent_neutralRun (as : List Access) (mem : Memory)
    (independent : ∀ past, past <+: as → HostIndependent h mem past) : NeutralRun h mem as := by
  induction as generalizing mem with
  | nil => trivial
  | cons a rest ih =>
    -- the first access alone is a prefix
    have first (big : Bool) : a.perform (onHost h big) mem = a.meaning h mem := by
      have one := independent [a] (List.cons_prefix_cons.mpr ⟨rfl, List.nil_prefix⟩) big
      simp only [history, Prod.mk.injEq, List.cons.injEq, and_true] at one
      exact Prod.ext one.1 one.2
    refine ⟨(perform_hosts_iff h mem a).mp first, ih _ ?_⟩
    intro past before big
    have longer := independent (a :: past) (List.cons_prefix_cons.mpr ⟨rfl, before⟩) big
    simp only [history, first, Prod.mk.injEq, List.cons.injEq, true_and] at longer
    exact Prod.ext longer.1 longer.2

end Sequences

section Test

variable (h : Platform)

def compare (a b : List Byte) (size : Nat) (reverse : Bool) : Bool :=
  (List.range size).all fun i =>
    a.getD i 0#8 == b.getD (if reverse then size - 1 - i else i) 0#8

/-- The local `value` keeps its content from one read to the next. -/
def compareWithSim (a : List Byte) (m : Memory) (size : Nat) (reverse : Bool) (value : Byte) :
    Bool :=
  ((List.range size).foldl (fun (equal, value) i =>
    let j := if reverse then size - 1 - i else i
    let value := (memoryReadByte h m (BitVec.ofNat 32 j) value).1
    (equal && a.getD i 0#8 == value, value)) (true, value)).1

/-- `block` is what `malloc` returned, the last three arguments are the locals. -/
def memoryTest (block : Word → Byte) (wordRead : Word) (halfRead : Half) (value : Byte) :
    List Bool :=
  let wordValue := 0x11223344#32
  let halfValue := 0x5566#16
  let position := hostBytes h wordValue
  let m := (List.range 4).foldl (fun m i =>
    (memoryWriteByte h m (BitVec.ofNat 32 i) (position.getD i 0#8)).1) ⟨block, 4⟩
  let wordSame := (memoryReadWord h m h.isBigEndian 0#32 wordRead).1
  let halfSame := (memoryReadHalf h m h.isBigEndian 0#32 halfRead).1
  let wordOther := (memoryReadWord h m (!h.isBigEndian) 0#32 wordSame).1
  let halfOther := (memoryReadHalf h m (!h.isBigEndian) 0#32 halfSame).1
  let m₁ := (memoryWriteWord h m h.isBigEndian 0#32 wordValue).1
  let m₂ := (memoryWriteHalf h m₁ h.isBigEndian 0#32 halfValue).1
  let m₃ := (memoryWriteWord h m₂ (!h.isBigEndian) 0#32 wordValue).1
  let m₄ := (memoryWriteHalf h m₃ (!h.isBigEndian) 0#32 halfValue).1
  [compare (hostBytes h wordValue) (hostBytes h wordSame) 4 false,
    compare (hostBytes h wordValue) (hostBytes h halfSame) 2 false,
    compare (hostBytes h wordValue) (hostBytes h wordOther) 4 true,
    compare (hostBytes h wordValue) (hostBytes h halfOther) 2 true,
    compareWithSim h (hostBytes h wordValue) m₁ 4 false value,
    compareWithSim h (hostBytes h halfValue) m₂ 2 false value,
    compareWithSim h (hostBytes h wordValue) m₃ 4 true value,
    compareWithSim h (hostBytes h halfValue) m₄ 2 true value]

variable {h} {m : Memory} (size : m.size = 4)

theorem hostBytes_valueAt {w : Nat} (whole : w = 8 * (w / 8)) (be : Bool) (add : Word) :
    hostBytes h (m.valueAt h be w add) = ordered be (load m.address add (w / 8)) := by
  rw [hostBytes, Memory.valueAt, leBytes_ofLeBytes whole (by rw [length_ordered, length_load]),
    ordered_ordered, swapped, ← Bool.xor_assoc, Bool.xor_self, Bool.false_xor]

theorem load_put {w : Nat} (small : w / 8 ≤ 4) (be : Bool) (add : Word) (val : BitVec w) :
    load (m.put h be add val).address add (w / 8) = ordered be (hostBytes h val) := by
  have same := load_store_same m.address add (ordered (swapped h be) (leBytes (w / 8) val))
    (by rw [length_ordered, length_leBytes]; omega)
  rw [length_ordered, length_leBytes] at same
  rw [Memory.put, same, hostBytes, ordered_ordered, swapped, Bool.xor_comm]

include size in
theorem inside_test (add : Word) {len : Nat} (pos : 0 < len) (inside : add.toNat + len ≤ 4) :
    outOfBounds h m add len = false :=
  inBounds_of_inside h m add pos (by omega) (size ▸ inside)

include size in
theorem compareWithSim_eq (a : List Byte) {n : Nat} (small : n ≤ 4) (reverse : Bool)
    (value : Byte) :
    compareWithSim h a m n reverse value = compare a (load m.address 0#32 n) n reverse := by
  have mirrored (i : Nat) (hi : i < n) : (if reverse then n - 1 - i else i) < n := by
    split <;> omega
  have loop (steps : List Nat) (inside : ∀ i ∈ steps, i < n) (equal : Bool) (value : Byte) :
      (steps.foldl (fun (s : Bool × Byte) i =>
        (s.1 && a.getD i 0#8 ==
          (memoryReadByte h m (BitVec.ofNat 32 (if reverse then n - 1 - i else i)) s.2).1,
          (memoryReadByte h m (BitVec.ofNat 32 (if reverse then n - 1 - i else i)) s.2).1))
        (equal, value)).1 = (equal && steps.all fun i =>
          a.getD i 0#8 == (load m.address 0#32 n).getD (if reverse then n - 1 - i else i) 0#8) := by
    induction steps generalizing equal value with
    | nil => exact (Bool.and_true equal).symm
    | cons i steps ih =>
      have here := mirrored i (inside i List.mem_cons_self)
      have read :
          (memoryReadByte h m (BitVec.ofNat 32 (if reverse then n - 1 - i else i)) value).1 =
            (load m.address 0#32 n).getD (if reverse then n - 1 - i else i) 0#8 := by
        rw [memoryReadByte_inside h value (by rw [size, BitVec.toNat_ofNat]; omega),
          List.getD_eq_getElem?_getD, List.getElem?_eq_getElem (by rw [length_load]; exact here),
          Option.getD_some, getElem_load, BitVec.zero_add]
      rw [List.foldl_cons, ih (fun j later => inside j (List.mem_cons_of_mem i later)), read,
        List.all_cons, Bool.and_assoc]
  exact loop (List.range n) (fun i inside => List.mem_range.mp inside) true value

theorem read_test {w : Nat} (whole : w = 8 * (w / 8)) (pos : 0 < w / 8) (small : w / 8 ≤ 4)
    (size : m.size = 4) (be : Bool) (val : BitVec w) :
    hostBytes h (memoryReadObject h m be 0#32 val).1 =
      ordered be (load m.address 0#32 (w / 8)) := by
  rw [memoryReadObject_inside h m be 0#32 val (inside_test size _ pos (by simpa using small))]
  exact hostBytes_valueAt whole be 0#32

theorem write_test {w : Nat} (pos : 0 < w / 8) (small : w / 8 ≤ 4) (size : m.size = 4)
    (be : Bool) (val : BitVec w) :
    (memoryWriteObject h m be 0#32 val).1.size = 4 ∧
    load (memoryWriteObject h m be 0#32 val).1.address 0#32 (w / 8) =
      ordered be (hostBytes h val) := by
  rw [memoryWriteObject_inside h m be 0#32 val small
    (inside_test size _ pos (by simpa using small))]
  exact ⟨size, load_put small be 0#32 val⟩

theorem fill_test (bytes : List Byte) (block : Word → Byte) :
    let m := (List.range 4).foldl (fun m i =>
      (memoryWriteByte h m (BitVec.ofNat 32 i) (bytes.getD i 0#8)).1) (⟨block, 4⟩ : Memory)
    m.size = 4 ∧ load m.address 0#32 4 = (List.range 4).map fun i => bytes.getD i 0#8 := by
  simp only [List.range, List.range.loop, List.foldl_cons, List.foldl_nil]
  have written (block : Word → Byte) {add : Word} (inside : add.toNat < 4) (value : Byte) :
      (memoryWriteByte h ⟨block, 4⟩ add value).1 = ⟨store block add [value], 4⟩ := by
    rw [memoryWriteByte_inside h value inside]
  rw [written _ (by decide), written _ (by decide), written _ (by decide), written _ (by decide)]
  exact ⟨rfl, rfl⟩

theorem memoryTest_checks (block : Word → Byte) (wordRead : Word) (halfRead : Half) (value : Byte) :
    memoryTest h block wordRead halfRead value = List.replicate 8 (!h.isBigEndian) := by
  have filled := fill_test (h := h) (hostBytes h 0x11223344#32) block
  simp only [memoryTest]
  generalize (List.range 4).foldl (fun m i => (memoryWriteByte h m (BitVec.ofNat 32 i)
    ((hostBytes h 0x11223344#32).getD i 0#8)).1) (⟨block, 4⟩ : Memory) = m at filled ⊢
  obtain ⟨size, cells⟩ := filled
  have half : load m.address 0#32 2 = (List.range 2).map fun i =>
      (hostBytes h 0x11223344#32).getD i 0#8 := by
    have first := congrArg (List.take 2) cells
    simpa [load, ← List.map_take, List.take_range] using first
  have readWord (be : Bool) (val : Word) :=
    read_test (h := h) rfl (by decide) (by decide) size be val
  have readHalf (be : Bool) (val : Half) :=
    read_test (h := h) rfl (by decide) (by decide) size be val
  obtain ⟨size₁, cells₁⟩ := write_test (h := h) (by decide) (by decide) size
    h.isBigEndian 0x11223344#32
  obtain ⟨size₂, cells₂⟩ := write_test (h := h) (by decide) (by decide) size₁
    h.isBigEndian 0x5566#16
  obtain ⟨size₃, cells₃⟩ := write_test (h := h) (by decide) (by decide) size₂
    (!h.isBigEndian) 0x11223344#32
  obtain ⟨size₄, cells₄⟩ := write_test (h := h) (by decide) (by decide) size₃
    (!h.isBigEndian) 0x5566#16
  have word : hostBytes h 0x11223344#32 =
      ordered h.isBigEndian [0x44#8, 0x33#8, 0x22#8, 0x11#8] := rfl
  have short : hostBytes h 0x5566#16 = ordered h.isBigEndian [0x66#8, 0x55#8] := rfl
  simp only [memoryReadWord, memoryReadHalf, memoryWriteWord, memoryWriteHalf, readWord, readHalf]
  rw [compareWithSim_eq size₁ _ (by decide), compareWithSim_eq size₂ _ (by decide),
    compareWithSim_eq size₃ _ (by decide), compareWithSim_eq size₄ _ (by decide)]
  simp only [show 32 / 8 = 4 from rfl, show 16 / 8 = 2 from rfl] at cells₁ cells₂ cells₃ cells₄ ⊢
  rw [cells, half, cells₁, cells₂, cells₃, cells₄, word, short]
  cases h.isBigEndian <;> decide

end Test

/-- A sequence goes right on both hosts, at each of its prefixes, exactly when
every access of it is neutral where it runs. The checks of memory_test hold on
the little-endian host only. -/
theorem host_order_iff (h : Platform) :
    (∀ mem as, (∀ past, past <+: as → HostIndependent h mem past) ↔ NeutralRun h mem as) ∧
    ∀ big block wordRead halfRead value,
      (∀ passed ∈ memoryTest (onHost h big) block wordRead halfRead value, passed = true) ↔
        big = false := by
  constructor
  · intro mem as
    constructor
    · exact independent_neutralRun h as mem
    · intro neutral past before
      exact neutralRun_independent h past mem (neutralRun_earlier h neutral before)
  · intro big block wordRead halfRead value
    rw [memoryTest_checks]
    cases big with
    | false => exact iff_of_true (fun passed inside => List.eq_of_mem_replicate inside) rfl
    | true =>
      refine iff_of_false (fun all => ?_) (by decide)
      exact Bool.false_ne_true (all false List.mem_cons_self)

theorem word_write_depends_on_host :
    ¬ HostIndependent lp64 ⟨fun _ => 0#8, 4⟩
      [.write .word true 0#32 0x11223344#32, .read .byte true 0#32 0#8] := by
  intro independent
  have replies := congrArg Prod.snd ((independent true).trans (independent false).symm)
  have second := congrArg (fun rs => rs.map Reply.value) replies
  exact absurd second (by decide +kernel)

end ArmSimulator
