import ArmSimulator.LoadStore
import ArmSimulator.Library.KeyedStore

/-! Block transfers by their slots: the listed registers, each with the address
of its word. The loops of the C functions walk the slots until one is outside
the memory. -/
namespace ArmSimulator

open KeyedStore

def slots (rList : Half) : List Reg → Word → List (Reg × Word)
  | [], _ => []
  | i :: is, address =>
    if getBit rList i.toNat then (i, address) :: slots rList is (address + 4#32)
    else slots rList is address

section Slots

variable {rList : Half} {i : Reg} {address : Word} (is : List Reg)

theorem slots_listed (listed : getBit rList i.toNat = true) :
    slots rList (i :: is) address = (i, address) :: slots rList is (address + 4#32) :=
  if_pos listed

theorem slots_unlisted (unlisted : getBit rList i.toNat = false) :
    slots rList (i :: is) address = slots rList is address := by
  rw [slots, unlisted]
  rfl

theorem slots_registers (rList : Half) (address : Word) :
    (slots rList is address).map Prod.fst = is.filter fun i => getBit rList i.toNat := by
  induction is generalizing address with
  | nil => rfl
  | cons i is ih =>
    cases listed : getBit rList i.toNat with
    | false =>
      rw [slots_unlisted is listed, ih, List.filter_cons, listed]
      rfl
    | true =>
      rw [slots_listed is listed, List.map_cons, ih, List.filter_cons, listed]
      rfl

theorem offset_succ (address : Word) (j : Nat) :
    address + 4#32 + BitVec.ofNat 32 (4 * j) = address + BitVec.ofNat 32 (4 * (j + 1)) := by
  rw [BitVec.add_assoc, ← BitVec.ofNat_add, Nat.mul_add, Nat.add_comm 4]

theorem slots_addresses (rList : Half) (address : Word) :
    (slots rList is address).map Prod.snd =
      (List.range (slots rList is address).length).map fun j =>
        address + BitVec.ofNat 32 (4 * j) := by
  induction is generalizing address with
  | nil => rfl
  | cons i is ih =>
    cases listed : getBit rList i.toNat with
    | false => rw [slots_unlisted is listed, ih]
    | true =>
      rw [slots_listed is listed, List.map_cons, ih, List.length_cons, List.range_succ_eq_map,
        List.map_cons, List.map_map]
      simp only [Function.comp_def, offset_succ, Nat.mul_zero, BitVec.add_zero, Nat.succ_eq_add_one]

theorem slots_append (rList : Half) (js : List Reg) (address : Word) :
    slots rList (is ++ js) address = slots rList is address ++
      slots rList js (address + BitVec.ofNat 32 (4 * (slots rList is address).length)) := by
  induction is generalizing address with
  | nil => simp [slots]
  | cons i is ih =>
    rw [List.cons_append]
    cases listed : getBit rList i.toNat with
    | false => rw [slots_unlisted _ listed, slots_unlisted is listed, ih]
    | true =>
      rw [slots_listed _ listed, slots_listed is listed, ih, List.cons_append, List.length_cons,
        offset_succ]

end Slots

section Loops

variable {h : Platform} {rList : Half}

structure Stopped (h : Platform) (mem : Memory) (all : List (Reg × Word)) (address : Word)
    (t : Transfer) (done rest : List (Reg × Word)) : Prop where
  split : all = done ++ rest
  inside : ∀ s ∈ done, outOfBounds h mem s.2 4 = false
  first : ∀ s ∈ rest.head?, outOfBounds h mem s.2 4 = true
  result : t.result = if rest = [] then .noException else .dataAbort
  address : t.address = address + BitVec.ofNat 32 (4 * (done.length + if rest = [] then 0 else 1))

namespace Stopped

variable {mem : Memory} {all done rest : List (Reg × Word)} {address value : Word} {i : Reg}
  {p : ArmCore} {t : Transfer}

theorem nil : Stopped h mem [] address ⟨p, address, value, .noException⟩ [] [] :=
  ⟨rfl, nofun, nofun, rfl, (BitVec.add_zero address).symm⟩

theorem cons (inside : outOfBounds h mem address 4 = false)
    (stopped : Stopped h mem all (address + 4#32) t done rest) :
    Stopped h mem ((i, address) :: all) address t ((i, address) :: done) rest where
  split := by rw [stopped.split, List.cons_append]
  inside s listed := by
    rcases List.mem_cons.mp listed with rfl | listed
    · exact inside
    · exact stopped.inside s listed
  first := stopped.first
  result := stopped.result
  address := by rw [stopped.address, offset_succ, List.length_cons, Nat.add_right_comm]

theorem here (failed : outOfBounds h mem address 4 = true) :
    Stopped h mem ((i, address) :: all) address ⟨p, address + 4#32, value, .dataAbort⟩ []
      ((i, address) :: all) := by
  refine ⟨rfl, nofun, ?_, rfl, rfl⟩
  intro s isFirst
  obtain rfl := Option.some.inj isFirst
  exact failed

end Stopped

def loadSlots (key : Reg → Fin 31) (words : Word → Word) (p : ArmCore) (done : List (Reg × Word)) :
    ArmCore :=
  let update := fun (f : Fin 31 → Word) k v => Function.update f k v
  let values := done.map fun s => (key s.1, words s.2)
  { p with registersStorage := writeAll update p.registersStorage values }

def storeSlots (h : Platform) (value : Reg → Word) (p : ArmCore) (done : List (Reg × Word)) :
    ArmCore :=
  let put := fun (m : Memory) address v => m.put h (getBit p.cpsr Psr.e) address v
  let values := done.map fun s => (s.2, value s.1)
  { p with mem := writeAll put p.mem values }

variable {write : ArmCore → Reg → Word → ArmCore} {key : Reg → Fin 31} {p₀ : ArmCore}

theorem loadLoop_stopped (h : Platform) (rList : Half)
    (writes : ∀ q i v, q.cpsr = p₀.cpsr → write q i v = writeStorage q (key i) v) (is : List Reg)
    (p : ArmCore) (address value : Word) (mem : p.mem = p₀.mem) (cpsr : p.cpsr = p₀.cpsr) :
    ∃ done rest, Stopped h p₀.mem (slots rList is address) address
        (loadLoop h write rList is p address value) done rest ∧
      (loadLoop h write rList is p address value).core =
        loadSlots key (p₀.wordAt h) p done ∧
      (loadLoop h write rList is p address value).value =
        done.foldl (fun _ s => p₀.wordAt h s.2) value := by
  induction is generalizing p address value with
  | nil => exact ⟨[], [], .nil, rfl, rfl⟩
  | cons i is ih =>
    -- the loads so far have changed neither memory nor byte order
    have word : p.wordAt h address = p₀.wordAt h address := by
      rw [ArmCore.wordAt, ArmCore.wordAt, mem, cpsr]
    cases listed : getBit rList i.toNat with
    | false =>
      rw [loadLoop_skip is value listed, slots_unlisted is listed]
      exact ih p address value mem cpsr
    | true =>
      rw [slots_listed is listed]
      cases bounds : outside h p address 4 with
      | false =>
        rw [loadLoop_load is value listed bounds, writes p i _ cpsr, word]
        obtain ⟨done, rest, stopped, core, last⟩ :=
          ih (writeStorage p (key i) (p₀.wordAt h address))
          (address + 4#32) (p₀.wordAt h address) mem cpsr
        exact ⟨(i, address) :: done, rest, stopped.cons (mem ▸ bounds), core, last⟩
      | true =>
        rw [loadLoop_abort is value listed bounds]
        exact ⟨[], _, .here (mem ▸ bounds), rfl, rfl⟩

theorem storeLoop_stopped (h : Platform) (rList : Half) {read : ArmCore → Reg → Word}
    {value : Reg → Word}
    (reads : ∀ mem i, read { p₀ with mem := mem } i = value i) (is : List Reg) (mem : Memory)
    (address junk : Word) (size : mem.size = p₀.mem.size) :
    ∃ done rest, Stopped h p₀.mem (slots rList is address) address
        (storeLoop h read rList is { p₀ with mem := mem } address junk) done rest ∧
      (storeLoop h read rList is { p₀ with mem := mem } address junk).core =
        storeSlots h value { p₀ with mem := mem } done := by
  induction is generalizing mem address junk with
  | nil => exact ⟨[], [], .nil, rfl⟩
  | cons i is ih =>
    have bound : outside h { p₀ with mem := mem } address 4 = outOfBounds h p₀.mem address 4 := by
      rw [outside, outOfBounds, outOfBounds, size]
    cases listed : getBit rList i.toNat with
    | false =>
      rw [storeLoop_skip is junk listed, slots_unlisted is listed]
      exact ih mem address junk size
    | true =>
      rw [slots_listed is listed]
      cases bounds : outside h { p₀ with mem := mem } address 4 with
      | false =>
        rw [storeLoop_store is junk listed bounds, reads]
        obtain ⟨done, rest, stopped, core⟩ :=
          ih (mem.put h (getBit p₀.cpsr Psr.e) address (value i)) (address + 4#32) (value i) size
        exact ⟨(i, address) :: done, rest, stopped.cons (bound ▸ bounds), core⟩
      | true =>
        rw [storeLoop_abort is junk listed bounds]
        exact ⟨[], _, .here (bound ▸ bounds), rfl⟩

theorem Stopped.complete {mem : Memory} {all done rest : List (Reg × Word)} {address : Word}
    {t : Transfer} (stopped : Stopped h mem all address t done rest)
    (fits : ∀ s ∈ all, outOfBounds h mem s.2 4 = false) : done = all ∧ rest = [] := by
  cases rest with
  | nil => exact ⟨by rw [stopped.split, List.append_nil], rfl⟩
  | cons s rest =>
    have failed := stopped.first s rfl
    rw [fits s (by rw [stopped.split]; simp)] at failed
    contradiction

end Loops

section Layout

theorem count_registersTo15 (regList : Word) :
    (registersTo15.filter fun i => getBit (regList.setWidth 16 : Half) i.toNat).length =
      numberOfSetBits regList := by
  have counted (l : List Nat) (small : ∀ i ∈ l, i < 16) (n : Nat) :
      l.foldl (fun n i => if getBit regList i then n + 1 else n) n = n +
        ((l.map (BitVec.ofNat 4)).filter
          fun i : Reg => getBit (regList.setWidth 16 : Half) i.toNat).length := by
    induction l generalizing n with
    | nil => rfl
    | cons i l ih =>
      have inside := small i List.mem_cons_self
      have same : getBit (regList.setWidth 16 : Half) (BitVec.ofNat 4 i).toNat =
          getBit regList i := by
        rw [BitVec.toNat_ofNat, Nat.mod_eq_of_lt inside, getBit_eq, getBit_eq,
          BitVec.getLsbD_setWidth, decide_eq_true inside, Bool.true_and]
      rw [List.foldl_cons, ih fun j later => small j (List.mem_cons_of_mem i later), List.map_cons,
        List.filter_cons, same]
      cases getBit regList i with
      | false => rfl
      | true => simp only [if_true, List.length_cons, Nat.add_assoc, Nat.add_comm 1]
  rw [numberOfSetBits, counted _ (fun i inside => List.mem_range.mp inside), Nat.zero_add]
  rfl

theorem slots_length (regList address : Word) :
    (slots (regList.setWidth 16) registersTo15 address).length = numberOfSetBits regList := by
  rw [← count_registersTo15, ← slots_registers, List.length_map]

theorem numberOfSetBits_le (regList : Word) : numberOfSetBits regList ≤ 16 := by
  rw [← count_registersTo15]
  exact List.length_filter_le _ _

theorem slots_to15 (rList : Half) (address : Word) :
    slots rList registersTo15 address = slots rList registersTo14 address ++
      slots rList [Reg.pc]
        (address + BitVec.ofNat 32 (4 * (slots rList registersTo14 address).length)) :=
  slots_append registersTo14 rList [Reg.pc] address

theorem slots_withoutPc {rList : Half} (withoutPc : getBit rList 15 = false) (address : Word) :
    slots rList registersTo15 address = slots rList registersTo14 address := by
  have pcUnlisted : getBit rList Reg.pc.toNat = false := withoutPc
  rw [slots_to15, slots_unlisted [] pcUnlisted, slots, List.append_nil]

theorem slots_withPc {rList : Half} (withPc : getBit rList 15 = true) (address : Word) :
    slots rList registersTo15 address = slots rList registersTo14 address ++
      [(Reg.pc, address + BitVec.ofNat 32 (4 * (slots rList registersTo14 address).length))] := by
  have pcListed : getBit rList Reg.pc.toNat = true := withPc
  rw [slots_to15, slots_listed [] pcListed, slots]

def WordApart (a b : Word) : Prop := ∀ i < 4, 4 ≤ (b + BitVec.ofNat 32 i - a).toNat

theorem wordApart_offsets (address : Word) {j k : Nat} (hj : j < 2 ^ 28) (hk : k < 2 ^ 28)
    (other : j ≠ k) :
    WordApart (address + BitVec.ofNat 32 (4 * j)) (address + BitVec.ofNat 32 (4 * k)) := by
  intro i small
  have size := address.isLt
  simp only [BitVec.toNat_sub, BitVec.toNat_add, BitVec.toNat_ofNat]
  omega

theorem slots_apart {rList : Half} (is : List Reg) (address : Word)
    (short : (slots rList is address).length ≤ 2 ^ 28) :
    (slots rList is address).Pairwise fun s t => WordApart t.2 s.2 := by
  rw [← List.pairwise_map (f := Prod.snd) (R := fun a b => WordApart b a), slots_addresses,
    List.pairwise_map]
  apply List.Pairwise.imp_of_mem _ List.pairwise_lt_range
  intro j k insideJ insideK before
  have hj := List.mem_range.mp insideJ
  have hk := List.mem_range.mp insideK
  exact wordApart_offsets address (by omega) (by omega) (by omega)

theorem lawful_put (h : Platform) (be : Bool) :
    Lawful (fun (m : Memory) a (v : Word) => m.put h be a v)
      (fun m a => m.valueAt h be 32 a) WordApart where
  same m a v := Memory.valueAt_put_same h m be a v (by decide) (by decide)
  other m a b v apart := Memory.valueAt_put_apart h m be a b v 32 be apart

end Layout

section Contents

variable {h : Platform} {all : List (Reg × Word)} {p : ArmCore}

theorem storeSlots_wordAt (value : Reg → Word) (apart : all.Pairwise fun s t => WordApart t.2 s.2)
    {s : Reg × Word} (inside : s ∈ all) : (storeSlots h value p all).wordAt h s.2 = value s.1 := by
  have undisturbed : (all.map fun s => (s.2, value s.1)).Pairwise fun s t => WordApart t.1 s.1 :=
    List.pairwise_map.mpr apart
  have read := (lawful_put h (getBit p.cpsr Psr.e)).read_mem p.mem undisturbed
    (List.mem_map_of_mem (f := fun s : Reg × Word => (s.2, value s.1)) inside)
  exact read

theorem storeSlots_size (value : Reg → Word) : (storeSlots h value p all).mem.size = p.mem.size :=
  writeAll_frame (f := Memory.size) fun _ _ _ => rfl

theorem storeSlots_frame (value : Reg → Word) {x : Word} (apart : ∀ s ∈ all, 4 ≤ (x - s.2).toNat) :
    (storeSlots h value p all).mem.address x = p.mem.address x := by
  apply writeAll_frame (f := fun m : Memory => m.address x)
  intro mem s inside
  obtain ⟨s', inside', rfl⟩ := List.mem_map.mp inside
  exact Memory.put_frame h mem _ s'.2 x _ (apart s' inside')

theorem loadSlots_storage (key : Reg → Fin 31) (words : Word → Word)
    (distinct : all.Pairwise fun s t => key t.1 ≠ key s.1) {s : Reg × Word} (inside : s ∈ all) :
    (loadSlots key words p all).registersStorage (key s.1) = words s.2 := by
  have undisturbed : (all.map fun s => (key s.1, words s.2)).Pairwise fun s t => t.1 ≠ s.1 :=
    List.pairwise_map.mpr distinct
  exact lawful_update.read_mem p.registersStorage undisturbed
    (List.mem_map_of_mem (f := fun s : Reg × Word => (key s.1, words s.2)) inside)

theorem loadSlots_frame (key : Reg → Fin 31) (words : Word → Word) {k : Fin 31}
    (other : ∀ s ∈ all, key s.1 ≠ k) :
    (loadSlots key words p all).registersStorage k = p.registersStorage k := by
  apply lawful_update.read_apart p.registersStorage
  intro s inside
  obtain ⟨s', inside', rfl⟩ := List.mem_map.mp inside
  exact other s' inside'

theorem loadSlots_cases (key : Reg → Fin 31) (words : Word → Word) (k : Fin 31) :
    (loadSlots key words p all).registersStorage k = p.registersStorage k ∨
      ∃ s ∈ all, key s.1 = k ∧ (loadSlots key words p all).registersStorage k = words s.2 := by
  rcases lawful_update.read_cases p.registersStorage (fun k k' => eq_or_ne k k') k with
    kept | ⟨s, inside, here, value⟩
  · exact .inl kept
  · obtain ⟨s', inside', rfl⟩ := List.mem_map.mp inside
    exact .inr ⟨s', inside', here, value⟩

end Contents

section Words

variable (h : Platform) (junk : Word) (p : ArmCore) (ins : Word)

def blockList (ins : Word) : Half := (getBits ins 15 0).setWidth 16
def blockCount (ins : Word) : Nat := numberOfSetBits (getBits ins 15 0)
def blockRn (ins : Word) : Reg := getReg ins 19 16

def blockStart : Word := (blockBounds ins (armReadRegister p (blockRn ins)) (blockCount ins)).1

def blockEnd : Word := blockStart p ins + BitVec.ofNat 32 (4 * blockCount ins) - 4#32

def writtenBack : ArmCore :=
  let base := blockBase ins (armReadRegister p (blockRn ins)) (blockCount ins)
  if getBit ins 21 then armWriteRegister p (blockRn ins) base else p

def blockSlots : List (Reg × Word) := slots (blockList ins) registersTo15 (blockStart p ins)

theorem multipleSwitch_eq (rList : Half) (sAdd eAdd : Word) :
    multipleSwitch h junk p ins rList sAdd eAdd =
      if getBit ins 22 then
        if getBit ins 20 then
          if getBit ins 15 then ldm3 h junk p rList sAdd eAdd else ldm2 h junk p rList sAdd eAdd
        else if getBit ins 15 then (p, .returned .noException)
        else stm2 h junk p rList sAdd eAdd
      else if getBit ins 20 then ldm1 h junk p rList sAdd eAdd
      else stm1 h junk p rList sAdd eAdd := by
  rw [multipleSwitch, codage3Bits_eq, getBit_eq, getBit_eq, getBit_eq]
  cases ins.getLsbD 22 <;> cases ins.getLsbD 20 <;> cases ins.getLsbD 15 <;> rfl

theorem armLoadStoreMultiple_eq : armLoadStoreMultiple h junk p ins =
    multipleSwitch h junk (writtenBack p ins) ins (blockList ins) (blockStart p ins)
      (blockEnd p ins) := by
  rw [blockEnd, blockStart, ← blockBounds_end]
  rfl

theorem writtenBack_of_w (w : getBit ins 21 = true) : writtenBack p ins =
    armWriteRegister p (blockRn ins)
      (blockBase ins (armReadRegister p (blockRn ins)) (blockCount ins)) :=
  if_pos w

theorem writtenBack_cases : writtenBack p ins = p ∨ ∃ base, writtenBack p ins =
    armWriteRegister p (blockRn ins) base := by
  unfold writtenBack
  split
  · exact .inr ⟨_, rfl⟩
  · exact .inl rfl

@[simp] theorem writtenBack_cpsr : (writtenBack p ins).cpsr = p.cpsr := by
  rcases writtenBack_cases p ins with same | ⟨base, same⟩ <;> rw [same]
  rfl

@[simp] theorem writtenBack_spsr : (writtenBack p ins).spsr = p.spsr := by
  rcases writtenBack_cases p ins with same | ⟨base, same⟩ <;> rw [same]
  rfl

@[simp] theorem writtenBack_mem : (writtenBack p ins).mem = p.mem := by
  rcases writtenBack_cases p ins with same | ⟨base, same⟩ <;> rw [same]
  rfl

theorem length_blockSlots : (blockSlots p ins).length = blockCount ins := slots_length _ _

theorem getBit_blockList {i : Nat} (small : i < 16) : getBit (blockList ins) i = getBit ins i := by
  rw [blockList, getBit_eq, getBit_eq, BitVec.getLsbD_setWidth, getLsbD_getBits,
    decide_eq_true small, Nat.zero_add, Bool.true_and, Bool.true_and]

theorem blockSlots_listed {s : Reg × Word} (inside : s ∈ blockSlots p ins) :
    getBit ins s.1.toNat = true := by
  have listed := List.mem_map_of_mem (f := Prod.fst) inside
  rw [blockSlots, slots_registers] at listed
  rw [← getBit_blockList ins s.1.isLt]
  exact (List.mem_filter.mp listed).2

theorem blockSlots_address {s : Reg × Word} (inside : s ∈ blockSlots p ins) :
    ∃ k < blockCount ins, s.2 = blockStart p ins + BitVec.ofNat 32 (4 * k) := by
  have listed := List.mem_map_of_mem (f := Prod.snd) inside
  rw [blockSlots, slots_addresses] at listed
  obtain ⟨k, small, address⟩ := List.mem_map.mp listed
  rw [← blockSlots, length_blockSlots, List.mem_range] at small
  exact ⟨k, small, address.symm⟩

theorem blockSlots_mem {i : Reg} (listed : getBit ins i.toNat = true) :
    ∃ s ∈ blockSlots p ins, s.1 = i := by
  have all : ∀ r : Reg, r ∈ registersTo15 := by decide
  have inside : i ∈ (blockSlots p ins).map Prod.fst := by
    rw [blockSlots, slots_registers, List.mem_filter, getBit_blockList ins i.isLt]
    exact ⟨all i, listed⟩
  exact List.mem_map.mp inside

theorem blockSlots_apart : (blockSlots p ins).Pairwise fun s t => WordApart t.2 s.2 := by
  have short := numberOfSetBits_le (getBits ins 15 0)
  apply slots_apart
  rw [← blockSlots, length_blockSlots, blockCount]
  omega

theorem blockSlots_distinct {key : Reg → Fin 31} (inj : ∀ r r', key r = key r' → r = r') :
    (blockSlots p ins).Pairwise fun s t => key t.1 ≠ key s.1 := by
  have nodup : registersTo15.Nodup := by decide
  have listed : ((blockSlots p ins).map Prod.fst).Nodup := by
    rw [blockSlots, slots_registers]
    exact nodup.filter _
  exact (List.pairwise_map.mp listed).imp fun other same => other (inj _ _ same).symm

variable {h junk p ins}

theorem Stopped.ended {mem : Memory} {t : Transfer} {done rest : List (Reg × Word)}
    (stopped : Stopped h mem (blockSlots p ins) (blockStart p ins) t done rest)
    (fits : ∀ s ∈ blockSlots p ins, outOfBounds h mem s.2 4 = false) :
    done = blockSlots p ins ∧
      endTransfer t (blockEnd p ins) = (t.core, .returned .noException) := by
  obtain ⟨rfl, rfl⟩ := stopped.complete fits
  have ends := stopped.address
  rw [if_pos rfl, Nat.add_zero, length_blockSlots] at ends
  rw [endTransfer_of_end (by rw [ends, blockEnd]), stopped.result, if_pos rfl]
  exact ⟨rfl, rfl⟩

theorem storeBlock {q : ArmCore} {read : ArmCore → Reg → Word} {value : Reg → Word}
    (reads : ∀ mem i, read { q with mem := mem } i = value i)
    (fits : ∀ s ∈ blockSlots p ins, outOfBounds h q.mem s.2 4 = false) :
    endTransfer (storeLoop h read (blockList ins) registersTo15 q (blockStart p ins) junk)
        (blockEnd p ins) =
      (storeSlots h value q (blockSlots p ins), .returned .noException) := by
  obtain ⟨done, rest, stopped, core⟩ := storeLoop_stopped h (blockList ins) reads
    registersTo15 q.mem (blockStart p ins) junk rfl
  obtain ⟨rfl, ended⟩ := stopped.ended fits
  rw [ended, core]

theorem loadBlock {q : ArmCore} {write : ArmCore → Reg → Word → ArmCore} {key : Reg → Fin 31}
    (writes : ∀ r i v, r.cpsr = q.cpsr → write r i v = writeStorage r (key i) v)
    (withoutPc : getBit ins 15 = false)
    (fits : ∀ s ∈ blockSlots p ins, outOfBounds h q.mem s.2 4 = false) :
    endTransfer (loadLoop h write (blockList ins) registersTo14 q (blockStart p ins) junk)
        (blockEnd p ins) =
      (loadSlots key (q.wordAt h) q (blockSlots p ins), .returned .noException) := by
  obtain ⟨done, rest, stopped, core, _⟩ := loadLoop_stopped h (blockList ins) writes
    registersTo14 q (blockStart p ins) junk rfl rfl
  rw [← getBit_blockList ins (by decide)] at withoutPc
  rw [← slots_withoutPc withoutPc] at stopped
  obtain ⟨rfl, ended⟩ := Stopped.ended stopped fits
  rw [ended, core]

end Words

end ArmSimulator
