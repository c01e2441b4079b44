import ArmSimulator.Listing

/-! A program that leaves the free part of its stack alone goes on in the same way
whatever lies there: the words at the stack pointer and below it. -/
namespace ArmSimulator
open ByteStore StepFunction

def Free (lo : Nat) (v : View) (x : Word) : Prop :=
  lo ≤ x.toNat ∧ x.toNat < (v.regs Reg.sp).toNat + 4

def Touched (a : Word) (n : Nat) (x : Word) : Prop := (x - a).toNat < n

def View.over (v : View) (m : Memory) : View := { v with mem := m }

/-- Where `v` keeps anything, `m` holds the same. -/
structure SameUsed (lo : Nat) (v : View) (m : Memory) : Prop where
  size : m.size = v.mem.size
  cells : ∀ x, ¬Free lo v x → m.address x = v.mem.address x

theorem SameUsed.sameOutside {lo : Nat} {v : View} {m : Memory} (covers : SameUsed lo v m) :
    SameOutside lo ((v.regs Reg.sp).toNat + 4) v.mem m where
  size := covers.size
  cells x out := covers.cells x fun free => by
    unfold Free at free
    omega

namespace View

variable (v : View) (ins : Word)

def Transfers : Prop :=
  conditionSwitch v.cpsr (getBits ins 31 28) = .passed ∧ getBits ins 27 25 ≠ 5#32 ∧
    (PlainTransfer ins ∨ PlainBlock ins)

def transferStart : Word := if PlainTransfer ins then v.transferAddress ins else v.blockStart ins

def transferSize : Nat :=
  if PlainTransfer ins then (transferWidth ins).bytes else 4 * blockCount ins

def Stores (x : Word) : Prop :=
  v.Transfers ins ∧ getBit ins 20 = false ∧ Touched (v.transferStart ins) (transferSize ins) x

def Loads (x : Word) : Prop :=
  v.Transfers ins ∧ getBit ins 20 = true ∧ Touched (v.transferStart ins) (transferSize ins) x

end View

/-- From `v` to `w` nothing free is used: it is neither executed nor loaded, and what is taken
for the stack is stored. -/
structure Disciplined (be : Bool) (lo : Nat) (v w : View) : Prop where
  fetch : ∀ x, Touched v.pc 4 x → ¬Free lo v x
  loads : ∀ x, v.Loads (v.mem.read be .word v.pc) x → ¬Free lo v x
  taken : ∀ x, Free lo v x → ¬Free lo w x → v.Stores (v.mem.read be .word v.pc) x

section Cells

variable {be : Bool} {m m' : Memory} {a x : Word}

theorem read_touched {width : Width} (same : ∀ x, Touched a width.bytes x →
    m'.address x = m.address x) : m'.read be width a = m.read be width a := by
  have small := width_small width
  rw [Memory.read, Memory.read, load_congr fun i inside => same _ ?_]
  unfold Touched
  bv_omega

theorem write_touched {width : Width} {value : Word}
    (same : Touched a width.bytes x ∨ m'.address x = m.address x) :
    (m'.write be width a value).address x = (m.write be width a value).address x := by
  apply store_congr
  rwa [length_spell]

theorem push_touched {values : List Word} (same : Touched a (4 * values.length) x ∨
    m'.address x = m.address x) :
    (m'.push be a values).address x = (m.push be a values).address x := by
  induction values generalizing m m' a with
  | nil =>
    rcases same with inside | same
    · exact absurd inside (Nat.not_lt_zero _)
    · exact same
  | cons value values ih =>
    rw [Memory.push, Memory.push]
    apply ih
    rcases same with inside | same
    · by_cases first : Touched a 4 x
      · exact .inr (write_touched (.inl first))
      · left
        unfold Touched at inside first ⊢
        rw [List.length_cons] at inside
        bv_omega
    · exact .inr (write_touched (.inr same))

theorem pop_congr {v : View} {rs : List Reg}
    (same : ∀ x, Touched a (4 * rs.length) x → m'.address x = m.address x) :
    v.pop be m' rs a = v.pop be m rs a := by
  induction rs generalizing v a with
  | nil => rfl
  | cons r rs ih =>
    rw [List.length_cons] at same
    have first : m'.read be .word a = m.read be .word a :=
      read_touched fun x inside => same x (Nat.lt_of_lt_of_le inside (by
        rw [show Width.word.bytes = 4 from rfl]
        omega))
    rw [View.pop, View.pop, first]
    refine ih fun x inside => same x ?_
    unfold Touched at inside ⊢
    bv_omega

theorem pop_over (v : View) (rs : List Reg) (n : Memory) :
    (v.over n).pop be m rs a = (v.pop be m rs a).over n := by
  induction rs generalizing v a with
  | nil => rfl
  | cons r rs ih => exact ih (v.set r _)

end Cells

def blockRegisters (ins : Word) : List Reg := registersIn (blockList ins) registersTo15

theorem length_blockRegisters (ins : Word) : (blockRegisters ins).length = blockCount ins :=
  count_registersTo15 (getBits ins 15 0)

namespace View

variable (be : Bool) (v : View) (ins : Word) (m : Memory)

def based : View := if Indexed ins then v.next.set (rn ins) (v.indexedBase ins) else v.next

def blockBased : View :=
  if getBit ins 21 then v.next.set (rn ins) (v.blockBase ins) else v.next

theorem over_based : (v.over m).based ins = (v.based ins).over m :=
  (apply_ite (View.over · m) (Indexed ins) (v.next.set (rn ins) (v.indexedBase ins)) v.next).symm

theorem over_blockBased : (v.over m).blockBased ins = (v.blockBased ins).over m :=
  (apply_ite (View.over · m) (getBit ins 21 = true) (v.next.set (rn ins) (v.blockBase ins))
    v.next).symm

theorem based_mem : (v.based ins).mem = v.mem := by
  unfold based
  split <;> rfl

theorem over_branch : (v.over m).branch ins = (v.branch ins).over m := by
  unfold branch
  split <;> rfl

theorem branch_mem : (v.branch ins).mem = v.mem := by
  unfold branch
  split <;> rfl

theorem blockBased_mem : (v.blockBased ins).mem = v.mem := by
  unfold blockBased
  split <;> rfl

theorem transfer_based : v.transfer be ins =
    if (v.transferAddress ins).toNat + (transferWidth ins).bytes ≤ v.mem.size then
      if getBit ins 20 then
        some ((v.based ins).set (rd ins)
          (v.mem.read be (transferWidth ins) (v.transferAddress ins)))
      else some { v.based ins with
        mem := v.mem.write be (transferWidth ins) (v.transferAddress ins) (v.operand (rd ins)) }
    else none := rfl

theorem block_frame : v.block be ins =
    if (v.blockStart ins).toNat + 4 * blockCount ins ≤ v.mem.size then
      if getBit ins 20 then
        some ((v.blockBased ins).pop be v.mem (blockRegisters ins) (v.blockStart ins))
      else some { v.blockBased ins with
        mem := v.mem.push be (v.blockStart ins) ((blockRegisters ins).map v.regs) }
    else none := by
  simp only [block, blockSlots, slots_pop, slots_push, blockRegisters, blockBased]

end View

section Steps

variable {be : Bool} {lo : Nat} {v w : View} {ins : Word} {m : Memory}

/-- Over another memory the outcome is `w`, and its memory is the same where the memories were and
where something was stored. -/
def Follows (v w : View) (m : Memory) (stored : Word → Prop) (out : Option View) : Prop :=
  ∃ m' : Memory, out = some (w.over m') ∧ m'.size = w.mem.size ∧
    ∀ x, stored x ∨ m.address x = v.mem.address x → m'.address x = w.mem.address x

theorem follows_same (size : m.size = v.mem.size) (mem : w.mem = v.mem) {stored : Word → Prop}
    (none : ∀ x, ¬stored x) : Follows v w m stored (some (w.over m)) := by
  refine ⟨m, rfl, size.trans (congrArg Memory.size mem).symm, fun x same => ?_⟩
  rw [mem]
  exact same.resolve_left (none x)

theorem transfer_follows (size : m.size = v.mem.size)
    (loads : getBit ins 20 = true → ∀ x, Touched (v.transferAddress ins)
      (View.transferWidth ins).bytes x → m.address x = v.mem.address x)
    (transferred : v.transfer be ins = some w) :
    Follows v w m (fun x => getBit ins 20 = false ∧
      Touched (v.transferAddress ins) (View.transferWidth ins).bytes x)
      ((v.over m).transfer be ins) := by
  rw [View.transfer_based] at transferred ⊢
  rw [View.over_based]
  split at transferred
  · rename_i inside
    have inside' : (v.transferAddress ins).toNat + (View.transferWidth ins).bytes ≤ m.size :=
      size ▸ inside
    split at transferred
    · rename_i load
      cases transferred
      have word : m.read be (View.transferWidth ins) (v.transferAddress ins) =
          v.mem.read be (View.transferWidth ins) (v.transferAddress ins) :=
        read_touched (loads load)
      refine ⟨m, (if_pos inside').trans ((if_pos load).trans ?_), ?_, ?_⟩
      · rw [← word]
        rfl
      · rw [View.set_mem, View.based_mem, size]
      · rintro x (⟨store, _⟩ | same)
        · exact absurd (load.symm.trans store) (by decide)
        · rw [View.set_mem, View.based_mem, same]
    · rename_i store
      cases transferred
      refine ⟨_, (if_pos inside').trans (if_neg store), size, ?_⟩
      rintro x (⟨_, stored⟩ | same)
      · exact write_touched (.inl stored)
      · exact write_touched (.inr same)
  · contradiction

theorem block_follows (size : m.size = v.mem.size)
    (loads : getBit ins 20 = true → ∀ x, Touched (v.blockStart ins) (4 * blockCount ins) x →
      m.address x = v.mem.address x)
    (transferred : v.block be ins = some w) :
    Follows v w m (fun x => getBit ins 20 = false ∧
      Touched (v.blockStart ins) (4 * blockCount ins) x) ((v.over m).block be ins) := by
  rw [View.block_frame] at transferred ⊢
  rw [View.over_blockBased, pop_over]
  split at transferred
  · rename_i inside
    have inside' : (v.blockStart ins).toNat + 4 * blockCount ins ≤ m.size := size ▸ inside
    split at transferred
    · rename_i load
      cases transferred
      have words : (v.blockBased ins).pop be m (blockRegisters ins) (v.blockStart ins) =
          (v.blockBased ins).pop be v.mem (blockRegisters ins) (v.blockStart ins) :=
        pop_congr (length_blockRegisters ins ▸ loads load)
      refine ⟨m, (if_pos inside').trans ((if_pos load).trans ?_), ?_, ?_⟩
      · rw [← words]
        rfl
      · rw [pop_mem, View.blockBased_mem, size]
      · rintro x (⟨store, _⟩ | same)
        · exact absurd (load.symm.trans store) (by decide)
        · rw [pop_mem, View.blockBased_mem, same]
    · rename_i store
      cases transferred
      refine ⟨_, (if_pos inside').trans (if_neg store), ?_, ?_⟩
      · exact push_size.trans (size.trans push_size.symm)
      · rintro x (⟨_, stored⟩ | same)
        · refine push_touched (.inl ?_)
          rwa [List.length_map, length_blockRegisters]
        · exact push_touched (.inr same)
  · contradiction

theorem compute_over (computed : v.compute ins = some w) :
    (v.over m).compute ins = some (w.over m) ∧ w.mem = v.mem := by
  unfold View.compute at computed
  split_ifs at computed with plain flags compares
  · cases computed
    exact ⟨(if_pos plain).trans ((if_pos flags).trans (if_pos compares)), rfl⟩
  · obtain ⟨f, computes, rfl⟩ := Option.map_eq_some_iff.mp computed
    refine ⟨(if_pos plain).trans ((if_neg flags).trans ?_), rfl⟩
    rw [computes]
    rfl

theorem Follows.mono {stored stored' : Word → Prop} {out : Option View}
    (follows : Follows v w m stored out) (less : ∀ x, stored' x → stored x) :
    Follows v w m stored' out := by
  obtain ⟨m', outcome, size, cells⟩ := follows
  exact ⟨m', outcome, size, fun x same => cells x (same.imp_left (less x))⟩

theorem execute_follows (size : m.size = v.mem.size)
    (loads : ∀ x, v.Loads ins x → m.address x = v.mem.address x)
    (executed : v.execute be ins = some w) :
    Follows v w m (v.Stores ins) ((v.over m).execute be ins) := by
  unfold View.execute at executed ⊢
  rw [show (v.over m).cpsr = v.cpsr from rfl]
  split at executed
  · rename_i failed
    cases executed
    refine follows_same (w := v.next) size rfl ?_
    rintro x ⟨⟨passed, _⟩, _⟩
    exact absurd (failed.symm.trans passed) (by decide)
  · contradiction
  · rename_i passed
    split_ifs at executed ⊢ with branches plain block
    · cases executed
      rw [View.over_branch]
      refine follows_same size (v.branch_mem ins) ?_
      rintro x ⟨⟨_, other, _⟩, _⟩
      exact other branches
    · have start : v.transferStart ins = v.transferAddress ins := if_pos plain
      have bytes : View.transferSize ins = (View.transferWidth ins).bytes := if_pos plain
      refine (transfer_follows size ?_ executed).mono ?_
      · intro load x touched
        rw [← start, ← bytes] at touched
        exact loads x ⟨⟨passed, branches, .inl plain⟩, load, touched⟩
      · rintro x ⟨_, stores, touched⟩
        exact ⟨stores, by rwa [start, bytes] at touched⟩
    · have start : v.transferStart ins = v.blockStart ins := if_neg plain
      have bytes : View.transferSize ins = 4 * blockCount ins := if_neg plain
      refine (block_follows size ?_ executed).mono ?_
      · intro load x touched
        rw [← start, ← bytes] at touched
        exact loads x ⟨⟨passed, branches, .inr block⟩, load, touched⟩
      · rintro x ⟨_, stores, touched⟩
        exact ⟨stores, by rwa [start, bytes] at touched⟩
    · obtain ⟨computed, mem⟩ := compute_over (m := m) executed
      rw [computed]
      refine follows_same size mem ?_
      rintro x ⟨⟨_, _, transfers⟩, _⟩
      exact transfers.elim plain block

theorem step_over (covers : SameUsed lo v m) (taken : v.step be = some w)
    (disciplined : Disciplined be lo v w) :
    ∃ m', (v.over m).step be = some (w.over m') ∧ SameUsed lo w m' := by
  unfold View.step at taken
  split at taken
  · rename_i fetchable
    have word : m.read be .word v.pc = v.mem.read be .word v.pc :=
      read_touched fun x inside => covers.cells x (disciplined.fetch x inside)
    obtain ⟨m', outcome, size, cells⟩ := execute_follows covers.size
      (fun x loaded => covers.cells x (disciplined.loads x loaded)) taken
    refine ⟨m', ?_, size, ?_⟩
    · have fetchable' : v.pc.toNat % 4 = 0 ∧ v.pc.toNat + 4 ≤ m.size := by
        rwa [covers.size]
      refine (if_pos fetchable').trans ?_
      rw [← outcome]
      exact congrArg ((v.over m).execute be) word
    · intro x used
      apply cells
      by_cases free : Free lo v x
      · exact .inl (disciplined.taken x free used)
      · exact .inr (covers.cells x free)
  · contradiction

theorem Loaded.disciplined {listing : List Word} {base : Word} {i : Nat}
    (loaded : Loaded be listing base v.mem) (inside : i < listing.length)
    (below : base.toNat + 4 * listing.length ≤ lo)
    (plain : ¬(View.PlainTransfer listing[i] ∨ View.PlainBlock listing[i]))
    (sp : w.regs Reg.sp = v.regs Reg.sp) : Disciplined be lo (v.at_ base i) w := by
  have word := loaded.word inside
  have here := loaded.place inside
  have same : w.regs Reg.sp = (v.at_ base i).regs Reg.sp := sp.trans (v.at_regs (by decide)).symm
  constructor
  · intro x touched free
    rw [View.at_pc] at touched
    unfold Touched at touched
    unfold Free at free
    have size := x.isLt
    bv_omega
  · rintro x ⟨⟨_, _, transfers⟩, _⟩
    exact absurd (word ▸ transfers) plain
  · intro x free used
    refine absurd ?_ used
    unfold Free
    rwa [same]

end Steps

end ArmSimulator
