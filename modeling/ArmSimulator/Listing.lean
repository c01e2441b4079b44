import ArmSimulator.Assembly

/-! Programs in memory: where an instruction of a listing is executed, what a
store leaves of the listing, and what a condition decides after a comparison. -/
namespace ArmSimulator
open ByteStore StepFunction

section Places

namespace View

variable (v : View) (base : Word) {r r' : Reg} (value : Word)

theorem set_regs : (v.set r value).regs r' = if r' = r then value else v.regs r' := by
  by_cases here : r' = r
  · rw [if_pos here, here, set_self]
  · rw [if_neg here, v.set_other value here]

theorem set_set (value' : Word) : (v.set r value).set r value' = v.set r value' :=
  congrArg (fun regs => View.mk regs v.cpsr v.mem) (Function.update_idem ..)

theorem set_comm (other : r ≠ r') (value' : Word) :
    (v.set r value).set r' value' = (v.set r' value').set r value :=
  congrArg (fun regs => View.mk regs v.cpsr v.mem) (Function.update_comm other ..)

theorem set_same : v.set r (v.regs r) = v :=
  congrArg (fun regs => View.mk regs v.cpsr v.mem) (Function.update_eq_self ..)

def at_ (i : Nat) : View := v.set Reg.pc (base + BitVec.ofNat 32 (4 * i))

variable {base} {i : Nat}

@[simp] theorem at_pc : (v.at_ base i).pc = base + BitVec.ofNat 32 (4 * i) := v.set_self _

theorem at_regs (notPc : r ≠ Reg.pc) : (v.at_ base i).regs r = v.regs r := v.set_other _ notPc

theorem at_self (place : v.pc = base + BitVec.ofNat 32 (4 * i)) : v.at_ base i = v := by
  rw [at_, ← place]
  exact v.set_same

theorem at_next : (v.at_ base i).next = v.at_ base (i + 1) := by
  have along : base + BitVec.ofNat 32 (4 * i) + 4#32 = base + BitVec.ofNat 32 (4 * (i + 1)) := by
    rw [BitVec.add_assoc, ← BitVec.ofNat_add]
    rfl
  rw [next, at_pc, along, at_, set_set, at_]

theorem at_set (notPc : r ≠ Reg.pc) : (v.at_ base i).set r value = (v.set r value).at_ base i :=
  v.set_comm _ notPc.symm value

theorem at_branch (ins : Word) {j : Nat}
    (target : BitVec.ofNat 32 (4 * i) + (8#32 + (signExtend24To30 (getBits ins 23 0) <<< 2)) =
      BitVec.ofNat 32 (4 * j)) :
    (v.at_ base i).branch ins =
      (if getBit ins 24 then v.set Reg.lr (base + BitVec.ofNat 32 (4 * (i + 1))) else v).at_ base
        j := by
  have goal : branchTarget (v.at_ base i).pc ins = base + BitVec.ofNat 32 (4 * j) := by
    rw [branchTarget_eq, at_pc, ← target, BitVec.add_assoc, BitVec.add_assoc]
  have after : (v.at_ base i).pc + 4#32 = base + BitVec.ofNat 32 (4 * (i + 1)) := by
    rw [at_pc, BitVec.add_assoc, ← BitVec.ofNat_add]
    rfl
  rw [branch, goal, after, at_next]
  split
  · rw [at_set _ _ (by decide), at_, set_set]
    rfl
  · rw [at_, set_set]
    rfl

end View

end Places

section Loaded

structure SameOutside (lo hi : Nat) (m m' : Memory) : Prop where
  size : m'.size = m.size
  cells : ∀ x : Word, x.toNat < lo ∨ hi ≤ x.toNat → m'.address x = m.address x

namespace SameOutside

variable {lo hi lo' hi' : Nat} {m m' m'' : Memory}

theorem refl (m : Memory) : SameOutside lo hi m m := ⟨rfl, fun _ _ => rfl⟩

theorem trans (first : SameOutside lo hi m m') (second : SameOutside lo hi m' m'') :
    SameOutside lo hi m m'' :=
  ⟨second.size.trans first.size, fun x out => (second.cells x out).trans (first.cells x out)⟩

theorem widen (same : SameOutside lo hi m m') (low : lo' ≤ lo) (high : hi ≤ hi') :
    SameOutside lo' hi' m m' :=
  ⟨same.size, fun x out => same.cells x (by omega)⟩

end SameOutside

variable {be : Bool} {m m' : Memory} {lo hi : Nat}

theorem write_sameOutside (width : Width) (a value : Word)
    (fits : a.toNat + width.bytes ≤ 2 ^ 32) :
    SameOutside a.toNat (a.toNat + width.bytes) m (m.write be width a value) := by
  have positive := width_small width
  refine ⟨rfl, fun x out => store_outside m.address a x _ ?_⟩
  have size := x.isLt
  rw [length_spell, BitVec.toNat_sub]
  omega

theorem read_write_width (width : Width) (a value : Word) :
    (m.write be width a value).read be width a = (value.setWidth width.bits).setWidth 32 := by
  have small := (width_small width).2
  have cells := load_store_same m.address a (spell be width (value.setWidth width.bits))
    (by rw [length_spell]; omega)
  rw [length_spell] at cells
  apply BitVec.eq_of_toNat_eq
  rw [Memory.read, Memory.write, cells, combine_spell, BitVec.toNat_ofNat]
  exact (BitVec.toNat_setWidth 32 (value.setWidth width.bits)).symm

theorem read_write (a value : Word) : (m.write be .word a value).read be .word a = value :=
  (read_write_width .word a value).trans
    ((BitVec.setWidth_eq _).trans (BitVec.setWidth_eq value))

theorem read_sameOutside (same : SameOutside lo hi m m') {a : Word} {width : Width}
    (fits : a.toNat + width.bytes ≤ 2 ^ 32)
    (apart : a.toNat + width.bytes ≤ lo ∨ hi ≤ a.toNat) :
    m'.read be width a = m.read be width a := by
  rw [Memory.read, Memory.read, load_congr fun i small => same.cells _ ?_]
  have place : (a + BitVec.ofNat 32 i).toNat = a.toNat + i := by
    rw [BitVec.toNat_add, BitVec.toNat_ofNat, Nat.mod_eq_of_lt (show i < 2 ^ 32 by omega),
      Nat.mod_eq_of_lt (by omega)]
  rw [place]
  omega

structure Loaded (be : Bool) (listing : List Word) (base : Word) (m : Memory) : Prop where
  aligned : base.toNat % 4 = 0
  room : base.toNat + 4 * listing.length ≤ m.size
  space : base.toNat + 4 * listing.length ≤ 2 ^ 32
  words : ∀ i (inside : i < listing.length),
    m.read be .word (base + BitVec.ofNat 32 (4 * i)) = listing[i]

variable {listing : List Word} {base : Word}

namespace Loaded

theorem place (loaded : Loaded be listing base m) {i : Nat} (inside : i < listing.length) :
    (base + BitVec.ofNat 32 (4 * i)).toNat = base.toNat + 4 * i := by
  have space := loaded.space
  rw [BitVec.toNat_add, BitVec.toNat_ofNat, Nat.mod_eq_of_lt (show 4 * i < 2 ^ 32 by omega),
    Nat.mod_eq_of_lt (by omega)]

theorem sameOutside (loaded : Loaded be listing base m) (same : SameOutside lo hi m m')
    (apart : base.toNat + 4 * listing.length ≤ lo ∨ hi ≤ base.toNat) :
    Loaded be listing base m' where
  aligned := loaded.aligned
  room := same.size ▸ loaded.room
  space := loaded.space
  words i inside := by
    have space := loaded.space
    have here := loaded.place inside
    have bytes : Width.word.bytes = 4 := rfl
    rw [read_sameOutside same (by omega) (by omega), loaded.words i inside]

theorem fetchable {v : View} (loaded : Loaded be listing base v.mem) {i : Nat}
    (inside : i < listing.length) :
    (v.at_ base i).pc.toNat % 4 = 0 ∧ (v.at_ base i).pc.toNat + 4 ≤ (v.at_ base i).mem.size := by
  have here := loaded.place inside
  have room := loaded.room
  have aligned := loaded.aligned
  rw [View.at_pc, here]
  constructor
  · omega
  · exact Nat.le_trans (by omega) room

theorem word {v : View} (loaded : Loaded be listing base v.mem) {i : Nat}
    (inside : i < listing.length) :
    (v.at_ base i).mem.read be .word (v.at_ base i).pc = listing[i] := by
  rw [View.at_pc]
  exact loaded.words i inside

theorem step {v : View} (loaded : Loaded be listing base v.mem) {i : Nat}
    (inside : i < listing.length) :
    (v.at_ base i).step be = (v.at_ base i).execute be listing[i] := by
  rw [View.step, if_pos (loaded.fetchable inside), loaded.word inside]

theorem fetches {h : Platform} {p : ArmCore} {v : View}
    (loaded : Loaded (p.order h) listing base v.mem) {i : Nat} (inside : i < listing.length)
    (place : p.view = v.at_ base i) : Fetches h p listing[i] := by
  obtain ⟨aligned, room⟩ := place ▸ loaded.fetchable inside
  have word := place ▸ loaded.word inside
  rw [← word]
  exact fetches_word aligned room

end Loaded

end Loaded

section Frames

def Memory.push (be : Bool) : Memory → Word → List Word → Memory
  | m, _, [] => m
  | m, a, value :: values => (m.write be .word a value).push be (a + 4#32) values

def View.pop (be : Bool) (m : Memory) : View → List Reg → Word → View
  | v, [], _ => v
  | v, r :: rs, a => (v.set r (m.read be .word a)).pop be m rs (a + 4#32)

variable {be : Bool} {m : Memory} {values : List Word} {a : Word}

theorem push_outside (x : Word) (out : 4 * values.length ≤ (x - a).toNat) :
    (m.push be a values).address x = m.address x := by
  induction values generalizing m a with
  | nil => rfl
  | cons value values ih =>
    rw [List.length_cons] at out
    have later : 4 * values.length ≤ (x - (a + 4#32)).toNat := by bv_omega
    rw [Memory.push, ih later]
    refine store_outside m.address a x _ ?_
    rw [length_spell]
    exact Nat.le_trans (by rw [show Width.word.bytes = 4 from rfl]; omega) out

theorem push_size : (m.push be a values).size = m.size := by
  induction values generalizing m a with
  | nil => rfl
  | cons value values ih => rw [Memory.push, ih, Memory.write]

theorem push_sameOutside (fits : a.toNat + 4 * values.length ≤ 2 ^ 32) :
    SameOutside a.toNat (a.toNat + 4 * values.length) m (m.push be a values) :=
  ⟨push_size, fun x out => push_outside x (by bv_omega)⟩

theorem push_read (fits : 4 * values.length ≤ 2 ^ 32) {k : Nat} (inside : k < values.length) :
    (m.push be a values).read be .word (a + BitVec.ofNat 32 (4 * k)) = values[k] := by
  induction values generalizing m a k with
  | nil => contradiction
  | cons value values ih =>
    rw [List.length_cons] at fits inside
    cases k with
    | zero =>
      have kept : load ((m.write be .word a value).push be (a + 4#32) values).address a 4 =
          load (m.write be .word a value).address a 4 := load_congr fun i small =>
        push_outside _ (by bv_omega)
      have first : (m.write be .word a value).read be .word a = value := read_write a value
      rw [Memory.read, show Width.word.bytes = 4 from rfl] at first ⊢
      rw [show a + BitVec.ofNat 32 (4 * 0) = a from BitVec.add_zero a, Memory.push, kept]
      exact first
    | succ k =>
      have place : a + BitVec.ofNat 32 (4 * (k + 1)) = a + 4#32 + BitVec.ofNat 32 (4 * k) := by
        rw [Nat.mul_succ, Nat.add_comm, BitVec.ofNat_add, BitVec.add_assoc]
      rw [place, Memory.push]
      exact ih (by omega) (by omega)

theorem pop_cpsr (v : View) (rs : List Reg) : (v.pop be m rs a).cpsr = v.cpsr := by
  induction rs generalizing v a with
  | nil => rfl
  | cons r rs ih => exact ih (v.set r _)

theorem pop_mem (v : View) (rs : List Reg) : (v.pop be m rs a).mem = v.mem := by
  induction rs generalizing v a with
  | nil => rfl
  | cons r rs ih => exact ih (v.set r _)

theorem pop_regs (v : View) {rs : List Reg} {saved : Reg → Word}
    (words : ∀ k (inside : k < rs.length),
      m.read be .word (a + BitVec.ofNat 32 (4 * k)) = saved rs[k]) (r : Reg) :
    (v.pop be m rs a).regs r = if r ∈ rs then saved r else v.regs r := by
  induction rs generalizing v a with
  | nil => simp [View.pop]
  | cons r' rs ih =>
    have first : m.read be .word a = saved r' := by
      have word := words 0 (Nat.succ_pos _)
      rwa [show a + BitVec.ofNat 32 (4 * 0) = a from BitVec.add_zero a] at word
    have later : ∀ k (inside : k < rs.length),
        m.read be .word (a + 4#32 + BitVec.ofNat 32 (4 * k)) = saved rs[k] := by
      intro k inside
      have word := words (k + 1) (Nat.succ_lt_succ inside)
      rwa [Nat.mul_succ, Nat.add_comm, BitVec.ofNat_add, ← BitVec.add_assoc] at word
    rw [View.pop, ih _ later, View.set_regs, first]
    by_cases listed : r ∈ rs
    · rw [if_pos listed, if_pos (List.mem_cons_of_mem _ listed)]
    · rw [if_neg listed]
      by_cases here : r = r'
      · rw [if_pos here, here, if_pos List.mem_cons_self]
      · rw [if_neg here, if_neg (by simp [here, listed])]

theorem at_pop (v : View) {base : Word} {i : Nat} {rs : List Reg} (apart : ∀ r ∈ rs, r ≠ Reg.pc) :
    (v.at_ base i).pop be m rs a = (v.pop be m rs a).at_ base i := by
  induction rs generalizing v a with
  | nil => rfl
  | cons r rs ih =>
    rw [View.pop, View.at_set _ _ (apart r List.mem_cons_self),
      ih _ fun r' inside => apart r' (List.mem_cons_of_mem _ inside), View.pop]

def registersIn (rList : Half) (is : List Reg) : List Reg := is.filter fun r => getBit rList r.toNat

theorem slots_push (rList : Half) (is : List Reg) (regs : Reg → Word) (m : Memory) (a : Word) :
    (slots rList is a).foldl (fun m s => m.write be .word s.2 (regs s.1)) m =
      m.push be a ((registersIn rList is).map regs) := by
  induction is generalizing m a with
  | nil => rfl
  | cons r is ih =>
    by_cases member : getBit rList r.toNat = true
    · rw [slots_listed is member, List.foldl_cons, ih, registersIn, registersIn, List.filter_cons,
        if_pos member]
      rfl
    · rw [slots, if_neg member, ih, registersIn, registersIn, List.filter_cons, if_neg member]

theorem slots_pop (rList : Half) (is : List Reg) (m : Memory) (v : View) (a : Word) :
    (slots rList is a).foldl (fun w s => w.set s.1 (m.read be .word s.2)) v =
      v.pop be m (registersIn rList is) a := by
  induction is generalizing v a with
  | nil => rfl
  | cons r is ih =>
    by_cases member : getBit rList r.toNat = true
    · rw [slots_listed is member, List.foldl_cons, ih, registersIn, registersIn, List.filter_cons,
        if_pos member]
      rfl
    · rw [slots, if_neg member, ih, registersIn, registersIn, List.filter_cons, if_neg member]

end Frames

section Conditional

variable {be : Bool} {v : View} {ins : Word}

theorem execute_failed (failed : conditionSwitch v.cpsr (getBits ins 31 28) = .failed) :
    v.execute be ins = some v.next := by
  unfold View.execute
  rw [failed]

theorem execute_branch (passed : conditionSwitch v.cpsr (getBits ins 31 28) = .passed)
    (branch : getBits ins 27 25 = 5#32) : v.execute be ins = some (v.branch ins) := by
  unfold View.execute
  rw [passed]
  exact if_pos branch

theorem execute_compute (passed : conditionSwitch v.cpsr (getBits ins 31 28) = .passed)
    (plain : PlainOperand ins) : v.execute be ins = v.compute ins := by
  have class_ : getBits ins 27 25 = 0#32 ∨ getBits ins 27 25 = 1#32 :=
    plain.elim (fun immediate => .inr (handler_class.1 immediate))
      fun shift => .inl (handler_class.2 shift.1)
  have apart {c : Word} (zero : c ≠ 0#32) (one : c ≠ 1#32) : getBits ins 27 25 ≠ c :=
    fun same => class_.elim (fun is => zero (same.symm.trans is)) fun is => one (same.symm.trans is)
  have notTransfer : ¬View.PlainTransfer ins := fun transfer =>
    transfer.1.elim (apart (by decide) (by decide)) fun register =>
      apart (by decide) (by decide) register.1
  have notBlock : ¬View.PlainBlock ins := fun block => apart (by decide) (by decide) block.1
  unfold View.execute
  rw [passed]
  exact (if_neg (apart (by decide) (by decide))).trans
    ((if_neg notTransfer).trans (if_neg notBlock))

theorem conditionSwitch_compared (cpsr a b : Word) (code : ConditionCode) :
    conditionSwitch (comparedCpsr cpsr a b) code.field =
      .ofBool (code.holds (DataProcessing.cmp ⟨fun _ => 0, fun _ => 0, cpsr, 0, ⟨fun _ => 0, 0⟩⟩
        a b)) := by
  have flags := congrArg View.cpsr
    (compared_view ⟨fun _ => 0, fun _ => 0, cpsr, 0, ⟨fun _ => 0, 0⟩⟩ a b)
  simp only [ArmCore.view] at flags
  rw [← flags]
  cases code <;> rfl

theorem compared_passed {cpsr a b : Word} (code : ConditionCode) (compares : code.compares a b) :
    conditionSwitch (comparedCpsr cpsr a b) code.field = .passed := by
  rw [conditionSwitch_compared, (holds_iff_compares .cmp code).mpr compares]
  rfl

theorem compared_failed {cpsr a b : Word} (code : ConditionCode) (other : ¬code.compares a b) :
    conditionSwitch (comparedCpsr cpsr a b) code.field = .failed := by
  rw [conditionSwitch_compared, Bool.eq_false_iff.mpr (mt (holds_iff_compares .cmp code).mp other)]
  rfl

end Conditional

section Steps

variable {be : Bool} {listing : List Word} {base : Word} {v : View} {i j : Nat}

namespace Loaded

variable (loaded : Loaded be listing base v.mem) (inside : i < listing.length)
include loaded

theorem step_set {r : Reg} {value : Word} (notPc : r ≠ Reg.pc)
    (executed : (v.at_ base i).execute be listing[i] = some ((v.at_ base i).next.set r value)) :
    (v.at_ base i).step be = some ((v.set r value).at_ base (i + 1)) := by
  rw [loaded.step inside, executed, View.at_next, View.at_set _ _ notPc]

theorem step_cmp {cpsr : Word}
    (executed : (v.at_ base i).execute be listing[i] =
      some { (v.at_ base i).next with cpsr := cpsr }) :
    (v.at_ base i).step be = some ({ v with cpsr := cpsr }.at_ base (i + 1)) := by
  rw [loaded.step inside, executed, View.at_next]
  rfl

theorem step_mov_pc {value : Word}
    (executed : (v.at_ base i).execute be listing[i] =
      some ((v.at_ base i).next.set Reg.pc value)) :
    (v.at_ base i).step be = some (v.set Reg.pc value) := by
  rw [loaded.step inside, executed, View.next, View.set_set, View.at_, View.set_set]

theorem step_jump (passed : conditionSwitch v.cpsr (getBits listing[i] 31 28) = .passed)
    (branch : getBits listing[i] 27 25 = 5#32) (plain : getBit listing[i] 24 = false)
    (target : BitVec.ofNat 32 (4 * i) +
        (8#32 + (signExtend24To30 (getBits listing[i] 23 0) <<< 2)) = BitVec.ofNat 32 (4 * j)) :
    (v.at_ base i).step be = some (v.at_ base j) := by
  have taken : conditionSwitch (v.at_ base i).cpsr (getBits listing[i] 31 28) = .passed := passed
  rw [loaded.step inside, execute_branch taken branch, View.at_branch v _ target, plain]
  rfl

theorem step_stays (failed : conditionSwitch v.cpsr (getBits listing[i] 31 28) = .failed) :
    (v.at_ base i).step be = some (v.at_ base (i + 1)) := by
  have skipped : conditionSwitch (v.at_ base i).cpsr (getBits listing[i] 31 28) = .failed := failed
  rw [loaded.step inside, execute_failed skipped, View.at_next]

theorem step_ldr {r : Reg} {a value : Word} (notPc : r ≠ Reg.pc)
    (fits : a.toNat + 4 ≤ v.mem.size) (word : v.mem.read be .word a = value)
    (executed : (v.at_ base i).execute be listing[i] =
      if a.toNat + 4 ≤ v.mem.size then
        some ((v.at_ base i).next.set r (v.mem.read be .word a)) else none) :
    (v.at_ base i).step be = some ((v.set r value).at_ base (i + 1)) := by
  rw [if_pos fits, word] at executed
  exact loaded.step_set inside notPc executed

theorem step_str {a value : Word} (fits : a.toNat + 4 ≤ v.mem.size)
    (executed : (v.at_ base i).execute be listing[i] =
      if a.toNat + 4 ≤ v.mem.size then
        some { (v.at_ base i).next with mem := v.mem.write be .word a value } else none) :
    (v.at_ base i).step be =
      some ({ v with mem := v.mem.write be .word a value }.at_ base (i + 1)) := by
  rw [loaded.step inside, executed, if_pos fits, View.at_next]
  rfl

end Loaded

end Steps

end ArmSimulator
