import ArmSimulator.Library.Insertion
import ArmSimulator.Listing

/-! Examples/tri_insertion.s: the table is sorted in its place. The procedure is
the insertion sort of the library, step by step. -/
namespace ArmSimulator.TriInsertion
open StepFunction Insertion

/-- From the label `tri_insertion` to the return. -/
def triListing : List Word :=
  [0xE82D003F#32,  -- stmda sp!, {r0-r5}
   0xE59F00E0#32,  -- ldr r0, ptr_n
   0xE5906000#32,  -- ldr r6, [r0]
   0xE59F00D4#32,  -- ldr r0, ptr_tab
   0xE3A01001#32,  -- mov r1, #1
   0xE1510006#32,  -- loop_t: cmp r1, r6
   0x0A00000D#32,  -- beq end_loop_t
   0xE7903101#32,  -- ldr r3, [r0, r1, LSL #2]
   0xE1A02001#32,  -- mov r2, r1
   0xE2424001#32,  -- loop_t2: sub r4, r2, #1
   0xE3520000#32,  -- cmp r2, #0
   0xDA000005#32,  -- ble end_loop_t2
   0xE7905104#32,  -- ldr r5, [r0, r4, LSL #2]
   0xE1550003#32,  -- cmp r5, r3
   0xDA000002#32,  -- ble end_loop_t2
   0xE7805102#32,  -- str r5, [r0, r2, LSL #2]
   0xE1A02004#32,  -- mov r2, r4
   0xEAFFFFF6#32,  -- bal loop_t2
   0xE7803102#32,  -- end_loop_t2: str r3, [r0, r2, LSL #2]
   0xE2811001#32,  -- add r1, r1, #1
   0xEAFFFFEF#32,  -- bal loop_t
   0xE9BD003F#32,  -- end_loop_t: ldmib sp!, {r0-r5}
   0xE1A0F00E#32]  -- mov pc, lr

def textWords : Nat := 60
def ptrTab : Nat := 58
def ptrN : Nat := 59

def saved : List Reg := [0#4, 1#4, 2#4, 3#4, 4#4, 5#4]

def frame (v : View) : Word := v.regs Reg.sp - 24#32 + 4#32

def entry (tab : Word) (k : Nat) : Word := tab + BitVec.ofNat 32 (4 * k)

def Apart (a n b m : Nat) : Prop := a + n ≤ b ∨ b + m ≤ a

section Instructions

variable {be : Bool} {base : Word} {v : View} (loaded : Loaded be triListing base v.mem)
include loaded

theorem tri_stmda (fits : (frame v).toNat + 24 ≤ v.mem.size) :
    (v.at_ base 0).step be = some (({ v with
      mem := v.mem.push be (frame v) (saved.map v.regs) }.set Reg.sp
        (v.regs Reg.sp - 24#32)).at_ base 1) := by
  have executed : (v.at_ base 0).execute be 0xE82D003F#32 =
      if (frame v).toNat + 24 ≤ v.mem.size then
        some { (v.at_ base 0).next.set Reg.sp (v.regs Reg.sp - 24#32) with
          mem := ((v.at_ base 0).blockSlots 0xE82D003F#32).foldl
            (fun m s => m.write be .word s.2 ((v.at_ base 0).regs s.1)) v.mem }
      else none := rfl
  rw [loaded.step (by decide)]
  refine executed.trans ?_
  rw [if_pos fits, View.blockSlots, slots_push, View.at_next, View.at_set _ _ (by decide)]
  rfl

theorem tri_ldmib (fits : (v.regs Reg.sp + 4#32).toNat + 24 ≤ v.mem.size) :
    (v.at_ base 21).step be = some (((v.set Reg.sp (v.regs Reg.sp + 24#32)).at_ base 22).pop be
      v.mem saved (v.regs Reg.sp + 4#32)) := by
  have executed : (v.at_ base 21).execute be 0xE9BD003F#32 =
      if (v.regs Reg.sp + 4#32).toNat + 24 ≤ v.mem.size then
        some (((v.at_ base 21).blockSlots 0xE9BD003F#32).foldl
          (fun w s => w.set s.1 (v.mem.read be .word s.2))
          ((v.at_ base 21).next.set Reg.sp (v.regs Reg.sp + 24#32)))
      else none := rfl
  rw [loaded.step (by decide)]
  refine executed.trans ?_
  rw [if_pos fits, View.blockSlots, slots_pop, View.at_next, View.at_set _ _ (by decide)]
  rfl

end Instructions

/-- The procedure is called: `n` entries `t` from `tab` on, their number at `count`, and room for
the frame, which is apart from all of it. -/
structure Called (be : Bool) (base tab count : Word) (n : Nat) (t : Nat → Word) (v : View) :
    Prop where
  place : v.pc = base
  loaded : Loaded be triListing base v.mem
  room : base.toNat + 4 * textWords ≤ v.mem.size
  space : base.toNat + 4 * textWords ≤ 2 ^ 32
  tabWord : v.mem.read be .word (entry base ptrTab) = tab
  countWord : v.mem.read be .word (entry base ptrN) = count
  number : v.mem.read be .word count = BitVec.ofNat 32 n
  entries : ∀ k < n, v.mem.read be .word (entry tab k) = t k
  positive : 0 < n
  countRoom : count.toNat + 4 ≤ v.mem.size
  countSpace : count.toNat + 4 ≤ 2 ^ 32
  tableRoom : tab.toNat + 4 * n ≤ v.mem.size
  tableSpace : tab.toNat + 4 * n ≤ 2 ^ 32
  frameRoom : (frame v).toNat + 24 ≤ v.mem.size
  frameSpace : (frame v).toNat + 24 ≤ 2 ^ 32
  frameText : Apart (frame v).toNat 24 base.toNat (4 * textWords)
  frameCount : Apart (frame v).toNat 24 count.toNat 4
  frameTable : Apart (frame v).toNat 24 tab.toNat (4 * n)
  tableText : Apart tab.toNat (4 * n) base.toNat (4 * textWords)

def pushed (be : Bool) (v : View) : Memory := v.mem.push be (frame v) (saved.map v.regs)

structure Working (be : Bool) (tab : Word) (n : Nat) (t : Nat → Word) (v w : View) : Prop where
  table : w.regs 0#4 = tab
  number : w.regs 6#4 = BitVec.ofNat 32 n
  entries : ∀ k < n, w.mem.read be .word (entry tab k) = t k
  mem : SameOutside tab.toNat (tab.toNat + 4 * n) (pushed be v) w.mem
  sp : w.regs Reg.sp = v.regs Reg.sp - 24#32
  regs : ∀ r, 6#4 < r → r ≠ Reg.sp → r ≠ Reg.pc → w.regs r = v.regs r
  kept : v.Kept w

/-- In the inner loop: `x` has come down to place `j`. -/
structure Sinking (be : Bool) (tab : Word) (n i j : Nat) (x : Word) (t : Nat → Word) (v w : View) :
    Prop extends Working be tab n t v w where
  outer : w.regs 1#4 = BitVec.ofNat 32 i
  hole : w.regs 2#4 = BitVec.ofNat 32 j
  value : w.regs 3#4 = x
  order : j ≤ i ∧ i < n

/-- Back from the procedure: the entries are `t`, and of the registers only r6 has changed. -/
structure Returned (be : Bool) (tab : Word) (n : Nat) (t : Nat → Word) (v w : View) : Prop where
  place : w.pc = v.regs Reg.lr
  entries : ∀ k < n, w.mem.read be .word (entry tab k) = t k
  regs : ∀ r, r ≠ 6#4 → r ≠ Reg.pc → w.regs r = v.regs r
  cells : ∀ x : Word, (x.toNat < (frame v).toNat ∨ (frame v).toNat + 24 ≤ x.toNat) →
    (x.toNat < tab.toNat ∨ tab.toNat + 4 * n ≤ x.toNat) → w.mem.address x = v.mem.address x
  kept : v.Kept w

section Invariant

variable {be : Bool} {base tab count : Word} {n i j k : Nat} {t : Nat → Word} {x : Word}
  {v w : View}

theorem entry_place (space : tab.toNat + 4 * n ≤ 2 ^ 32) (inside : k < n) :
    (entry tab k).toNat = tab.toNat + 4 * k := by
  rw [entry]
  bv_omega

theorem entry_index (tab : Word) (k : Nat) : tab + BitVec.ofNat 32 k <<< 2 = entry tab k := by
  rw [entry, Nat.mul_comm]
  bv_omega

theorem Working.set (working : Working be tab n t v w) {r : Reg} (low : 0#4 < r ∧ r < 6#4)
    (value : Word) : Working be tab n t v (w.set r value) := by
  have other {r' : Reg} (apart : r' = 0#4 ∨ 6#4 ≤ r') : (w.set r value).regs r' = w.regs r' := by
    apply w.set_other
    rintro rfl
    bv_omega
  refine ⟨(other (.inl rfl)).trans working.table, (other (.inr (by decide))).trans working.number,
    working.entries, working.mem, (other (.inr (by decide))).trans working.sp, ?_, ?_⟩
  · intro r' high notSp notPc
    exact (other (.inr (by bv_omega))).trans (working.regs r' high notSp notPc)
  · exact working.kept.trans (View.kept_set _ _ _)

theorem Working.compared (working : Working be tab n t v w) (a b : Word) :
    Working be tab n t v { w with cpsr := comparedCpsr w.cpsr a b } :=
  ⟨working.table, working.number, working.entries, working.mem, working.sp, working.regs,
    working.kept.trans ⟨fun _ low => comparedCpsr_low w.cpsr a b low, rfl⟩⟩

theorem Working.stored (working : Working be tab n t v w) (space : tab.toNat + 4 * n ≤ 2 ^ 32)
    (inside : k < n) (value : Word) : Working be tab n (Function.update t k value) v
      { w with mem := w.mem.write be .word (entry tab k) value } := by
  have here := entry_place space inside
  have bytes : Width.word.bytes = 4 := rfl
  have written : SameOutside (entry tab k).toNat ((entry tab k).toNat + Width.word.bytes) w.mem
      (w.mem.write be .word (entry tab k) value) := write_sameOutside _ _ _ (by omega)
  refine ⟨working.table, working.number, ?_,
    working.mem.trans (written.widen (by omega) (by omega)),
    working.sp, working.regs, working.kept.trans (.of_eq rfl rfl)⟩
  intro m below
  by_cases same : m = k
  · rw [same, Function.update_self]
    exact read_write _ _
  · have there := entry_place space below
    rw [Function.update_of_ne same, ← working.entries m below]
    exact read_sameOutside written (by omega) (by omega)

end Invariant

section Loops

variable {be : Bool} {base tab count : Word} {n i j : Nat} {t₀ t : Nat → Word} {x : Word}
  {v w : View}

theorem Called.pushed (called : Called be base tab count n t v) :
    SameOutside (frame v).toNat ((frame v).toNat + 24) v.mem (pushed be v) := by
  have cells : SameOutside (frame v).toNat ((frame v).toNat + 4 * (saved.map v.regs).length) v.mem
    (TriInsertion.pushed be v) := push_sameOutside called.frameSpace
  exact cells

theorem Called.read (called : Called be base tab count n t v) {a : Word}
    (fits : a.toNat + 4 ≤ 2 ^ 32) (apart : Apart (frame v).toNat 24 a.toNat 4) :
    (TriInsertion.pushed be v).read be .word a = v.mem.read be .word a :=
  read_sameOutside called.pushed fits apart.symm

theorem Called.begins (called : Called be base tab count n t v) :
    Loaded be triListing base (TriInsertion.pushed be v) := by
  have text : Apart (frame v).toNat 24 base.toNat (4 * 60) := called.frameText
  have length : triListing.length = 23 := rfl
  refine called.loaded.sameOutside called.pushed ?_
  unfold Apart at text
  omega

theorem Working.loaded (called : Called be base tab count n t₀ v)
    (working : Working be tab n t v w) : Loaded be triListing base w.mem := by
  have apart : Apart tab.toNat (4 * n) base.toNat (4 * 60) := called.tableText
  have length : triListing.length = 23 := rfl
  refine called.begins.sameOutside working.mem ?_
  unfold Apart at apart
  omega

theorem Working.room (called : Called be base tab count n t₀ v) (working : Working be tab n t v w)
    {k : Nat} (inside : k < n) : (entry tab k).toNat + 4 ≤ w.mem.size := by
  have size : w.mem.size = v.mem.size := working.mem.size.trans called.pushed.size
  have room := called.tableRoom
  rw [size, entry_place called.tableSpace inside]
  omega

theorem Called.literal (called : Called be base tab count n t v) {k : Nat}
    (inside : k < textWords) : (entry base k).toNat + 4 ≤ (TriInsertion.pushed be v).size ∧
      (TriInsertion.pushed be v).read be .word (entry base k) =
        v.mem.read be .word (entry base k) := by
  have room := called.room
  have space := called.space
  have text := called.frameText
  have here := entry_place called.space inside
  unfold Apart at text
  refine ⟨?_, called.read (by omega) (by unfold Apart; omega)⟩
  rw [called.pushed.size]
  omega

def started (be : Bool) (tab count : Word) (n : Nat) (v : View) : View :=
  ((({ v with mem := pushed be v }.set Reg.sp (v.regs Reg.sp - 24#32)).set 0#4 count).set 6#4
    (BitVec.ofNat 32 n)).set 0#4 tab |>.set 1#4 1#32

theorem started_working (called : Called be base tab count n t v) :
    Working be tab n t v (started be tab count n v) := by
  have space := called.tableSpace
  have apart := called.frameTable
  unfold Apart at apart
  refine ⟨rfl, rfl, ?_, .refl _, rfl, ?_, ?_⟩
  · intro k inside
    have here := entry_place space inside
    rw [← called.entries k inside]
    exact called.read (by omega) (by unfold Apart; omega)
  · intro r high notSp notPc
    have other {k : Reg} (low : k ≤ 6#4) : r ≠ k := by bv_omega
    simp only [started, View.set_regs, other (show 0#4 ≤ 6#4 by decide),
      other (show 1#4 ≤ 6#4 by decide), other (show 6#4 ≤ 6#4 by decide), notSp, if_false]
  · exact .of_eq rfl called.pushed.size

section Loads

variable (called : Called be base tab count n t v) {s : View} (mem : s.mem = pushed be v)
include called mem

theorem tri_ldr_n : (s.at_ base 1).step be = some ((s.set 0#4 count).at_ base 2) := by
  obtain ⟨room, word⟩ := called.literal (k := ptrN) (by decide)
  have place : entry base ptrN = base + BitVec.ofNat 32 (4 * 1) + 8#32 + 0xE0#32 := by
    simp only [entry, ptrN]
    bv_omega
  rw [called.countWord] at word
  rw [← mem, place] at room word
  exact (mem ▸ called.begins : Loaded be triListing base s.mem).step_ldr (by decide) (by decide)
    room word rfl

theorem tri_ldr_count (base' : s.regs 0#4 = count) :
    (s.at_ base 2).step be = some ((s.set 6#4 (BitVec.ofNat 32 n)).at_ base 3) := by
  have room : (s.regs 0#4 + 0#32).toNat + 4 ≤ s.mem.size := by
    rw [base', BitVec.add_zero, mem, called.pushed.size]
    exact called.countRoom
  have word : s.mem.read be .word (s.regs 0#4 + 0#32) = BitVec.ofNat 32 n := by
    rw [base', BitVec.add_zero, mem, called.read called.countSpace called.frameCount, called.number]
  exact (mem ▸ called.begins : Loaded be triListing base s.mem).step_ldr (by decide) (by decide)
    room word rfl

theorem tri_ldr_tab : (s.at_ base 3).step be = some ((s.set 0#4 tab).at_ base 4) := by
  obtain ⟨room, word⟩ := called.literal (k := ptrTab) (by decide)
  have place : entry base ptrTab = base + BitVec.ofNat 32 (4 * 3) + 8#32 + 0xD4#32 := by
    simp only [entry, ptrTab]
    bv_omega
  rw [called.tabWord] at word
  rw [← mem, place] at room word
  exact (mem ▸ called.begins : Loaded be triListing base s.mem).step_ldr (by decide) (by decide)
    room word rfl

theorem tri_mov_1 : (s.at_ base 4).step be = some ((s.set 1#4 1#32).at_ base 5) :=
  (mem ▸ called.begins : Loaded be triListing base s.mem).step_set (by decide) (by decide) rfl

end Loads

theorem tri_starts (called : Called be base tab count n t v) {Q : View → Prop}
    (onward : Leads (View.step be) Q ((started be tab count n v).at_ base 5)) :
    Leads (View.step be) Q v := by
  have start : v.at_ base 0 = v :=
    v.at_self (by rw [called.place]; exact (BitVec.add_zero base).symm)
  have stmda := tri_stmda called.loaded called.frameRoom
  rw [start] at stmda
  exact .next stmda (.next (tri_ldr_n called rfl) (.next (tri_ldr_count called rfl rfl)
    (.next (tri_ldr_tab called rfl) (.next (tri_mov_1 called rfl) onward))))

section Inner

theorem Sinking.set (sinking : Sinking be tab n i j x t v w) {r : Reg} (free : r = 4#4 ∨ r = 5#4)
    (value : Word) : Sinking be tab n i j x t v (w.set r value) := by
  have other {r' : Reg} (low : r' < 4#4) : (w.set r value).regs r' = w.regs r' := by
    apply w.set_other
    rintro rfl
    bv_omega
  exact ⟨sinking.toWorking.set (by bv_omega) value, (other (by decide)).trans sinking.outer,
    (other (by decide)).trans sinking.hole, (other (by decide)).trans sinking.value, sinking.order⟩

theorem Sinking.compared (sinking : Sinking be tab n i j x t v w) (a b : Word) :
    Sinking be tab n i j x t v { w with cpsr := comparedCpsr w.cpsr a b } :=
  ⟨sinking.toWorking.compared a b, sinking.outer, sinking.hole, sinking.value, sinking.order⟩

variable {Q : View → Prop} (called : Called be base tab count n t₀ v)
include called

theorem tri_test (sinking : Sinking be tab n i j x t v w)
    (stops : j = 0 → ∀ w', Sinking be tab n i j x t v w' → Leads (View.step be) Q (w'.at_ base 18))
    (goes : 0 < j → ∀ w', Sinking be tab n i j x t v w' → w'.regs 4#4 = BitVec.ofNat 32 (j - 1) →
      Leads (View.step be) Q (w'.at_ base 12)) : Leads (View.step be) Q (w.at_ base 9) := by
  have next : Sinking be tab n i j x t v (w.set 4#4 (w.regs 2#4 - 1#32)) :=
    sinking.set (.inl rfl) _
  have tested := next.compared (w.regs 2#4) 0#32
  have space := called.tableSpace
  have order := sinking.order
  have hole : (w.regs 2#4).toInt = j := by
    rw [sinking.hole, BitVec.toInt_eq_toNat_of_lt (by rw [BitVec.toNat_ofNat]; omega),
      BitVec.toNat_ofNat, Nat.mod_eq_of_lt (by omega)]
  refine .next ((sinking.loaded called).step_set (by decide) (by decide) rfl)
    (.next ((next.loaded called).step_cmp (by decide) rfl) ?_)
  rcases Nat.eq_zero_or_pos j with zero | positive
  · have passes : (w.regs 2#4).toInt ≤ (0#32 : Word).toInt := by
      rw [hole, zero]
      decide
    exact .next ((tested.loaded called).step_jump (by decide) (compared_passed .le passes)
      rfl rfl rfl) (stops zero _ tested)
  · have fails : ¬(w.regs 2#4).toInt ≤ (0#32 : Word).toInt := by
      rw [hole, show (0#32 : Word).toInt = 0 from rfl]
      omega
    refine .next ((tested.loaded called).step_stays (by decide) (compared_failed .le fails))
      (goes positive _ tested ?_)
    have below : w.regs 2#4 - 1#32 = BitVec.ofNat 32 (j - 1) := by
      rw [sinking.hole]
      bv_omega
    exact below

theorem tri_compare (sinking : Sinking be tab n i (j + 1) x t v w)
    (below : w.regs 4#4 = BitVec.ofNat 32 j)
    (stops : (t j).toInt ≤ x.toInt → ∀ w', Sinking be tab n i (j + 1) x t v w' →
      Leads (View.step be) Q (w'.at_ base 18))
    (goes : x.toInt < (t j).toInt → ∀ w', Sinking be tab n i (j + 1) x t v w' →
      w'.regs 4#4 = BitVec.ofNat 32 j → w'.regs 5#4 = t j →
        Leads (View.step be) Q (w'.at_ base 15)) :
    Leads (View.step be) Q (w.at_ base 12) := by
  have order := sinking.order
  have place : w.regs 0#4 + w.regs 4#4 <<< 2 = entry tab j := by
    rw [sinking.table, below, entry_index]
  have room : (w.regs 0#4 + w.regs 4#4 <<< 2).toNat + 4 ≤ w.mem.size := by
    rw [place]
    exact sinking.room called (by omega)
  have word : w.mem.read be .word (w.regs 0#4 + w.regs 4#4 <<< 2) = t j := by
    rw [place]
    exact sinking.entries j (by omega)
  have next : Sinking be tab n i (j + 1) x t v (w.set 5#4 (t j)) := sinking.set (.inr rfl) _
  have tested := next.compared (t j) (w.regs 3#4)
  refine .next ((sinking.loaded called).step_ldr (by decide) (by decide) room word rfl)
    (.next ((next.loaded called).step_cmp (by decide) rfl) ?_)
  rcases lt_or_ge x.toInt (t j).toInt with greater | small
  · have fails : ¬(t j).toInt ≤ (w.regs 3#4).toInt := by
      rw [sinking.value]
      omega
    exact .next ((tested.loaded called).step_stays (by decide) (compared_failed .le fails))
      (goes greater _ tested below rfl)
  · have passes : (t j).toInt ≤ (w.regs 3#4).toInt := by
      rw [sinking.value]
      exact small
    exact .next ((tested.loaded called).step_jump (by decide) (compared_passed .le passes)
      rfl rfl rfl) (stops small _ tested)

theorem tri_shift (sinking : Sinking be tab n i (j + 1) x t v w)
    (below : w.regs 4#4 = BitVec.ofNat 32 j) (greater : w.regs 5#4 = t j)
    (onward : ∀ w', Sinking be tab n i j x (Function.update t (j + 1) (t j)) v w' →
      Leads (View.step be) Q (w'.at_ base 9)) : Leads (View.step be) Q (w.at_ base 15) := by
  have order := sinking.order
  have place : w.regs 0#4 + w.regs 2#4 <<< 2 = entry tab (j + 1) := by
    rw [sinking.table, sinking.hole, entry_index]
  have room : (w.regs 0#4 + w.regs 2#4 <<< 2).toNat + 4 ≤ w.mem.size := by
    rw [place]
    exact sinking.room called (by omega)
  have stored := sinking.toWorking.stored called.tableSpace (show j + 1 < n by omega) (t j)
  rw [← place, ← greater] at stored
  have moved := stored.set (r := 2#4) (by decide) (w.regs 4#4)
  refine .next ((sinking.loaded called).step_str (by decide) room rfl)
    (.next ((stored.loaded called).step_set (by decide) (by decide) rfl)
      (.next ((moved.loaded called).step_jump (by decide) rfl rfl rfl rfl) (onward _ ?_)))
  rw [← greater]
  exact ⟨moved, sinking.outer, below, sinking.value, by omega, order.2⟩

/-- The inner loop inserts: where it is left, `x` is still to be put into its place. -/
theorem tri_inner (sinking : Sinking be tab n i j x t v w)
    (onward : ∀ t' j' w', Sinking be tab n i j' x t' v w' →
      Function.update t' j' x = insert BitVec.toInt x j t →
        Leads (View.step be) Q (w'.at_ base 18)) :
    Leads (View.step be) Q (w.at_ base 9) := by
  -- on the place `x` has come down to, the table changing on the way
  induction j generalizing t w with
  | zero =>
    refine tri_test called sinking (fun _ w' stops => ?_) fun positive => absurd positive (by omega)
    exact onward t 0 w' stops rfl
  | succ j ih =>
    refine tri_test called sinking (fun zero => absurd zero (by omega)) fun _ w' goes below => ?_
    refine tri_compare called goes below (fun small w' stops => ?_)
      fun greater w' goes below value => ?_
    · exact onward t (j + 1) w' stops (insert_stays (.inr small)).symm
    · refine tri_shift called goes below value fun w' sinks =>
        ih sinks fun t' j' w' stops same => ?_
      exact onward t' j' w' stops (same.trans (insert_greater greater).symm)

end Inner

section Outer

variable {Q : View → Prop} (called : Called be base tab count n t₀ v)
include called

theorem tri_place (sinking : Sinking be tab n i j x t v w)
    (onward : ∀ w', Working be tab n (Function.update t j x) v w' →
      w'.regs 1#4 = BitVec.ofNat 32 (i + 1) → Leads (View.step be) Q (w'.at_ base 5)) :
    Leads (View.step be) Q (w.at_ base 18) := by
  have order := sinking.order
  have place : w.regs 0#4 + w.regs 2#4 <<< 2 = entry tab j := by
    rw [sinking.table, sinking.hole, entry_index]
  have room : (w.regs 0#4 + w.regs 2#4 <<< 2).toNat + 4 ≤ w.mem.size := by
    rw [place]
    exact sinking.room called (by omega)
  have stored := sinking.toWorking.stored called.tableSpace (show j < n by omega) x
  rw [← place, ← sinking.value] at stored
  have counted := stored.set (r := 1#4) (by decide) (w.regs 1#4 + 1#32)
  refine .next ((sinking.loaded called).step_str (by decide) room rfl)
    (.next ((stored.loaded called).step_set (by decide) (by decide) rfl)
      (.next ((counted.loaded called).step_jump (by decide) rfl rfl rfl rfl) (onward _ ?_ ?_)))
  · rw [← sinking.value]
    exact counted
  · have sum : w.regs 1#4 + 1#32 = BitVec.ofNat 32 (i + 1) := by
      rw [sinking.outer, BitVec.ofNat_add]
    exact sum

theorem tri_return (working : Working be tab n t v w) {s : View} (mem : s.mem = w.mem) :
    (s.at_ base 22).step be = some (s.set Reg.pc (s.regs Reg.lr)) :=
  (mem ▸ working.loaded called : Loaded be triListing base s.mem).step_mov_pc (by decide) rfl

theorem Working.frame (working : Working be tab n t v w) {k : Nat} (inside : k < saved.length) :
    w.mem.read be .word (frame v + BitVec.ofNat 32 (4 * k)) = v.regs saved[k] := by
  have small : k < 6 := inside
  have space := called.frameSpace
  have apart := called.frameTable
  have bytes : Width.word.bytes = 4 := rfl
  unfold Apart at apart
  have place : (TriInsertion.frame v + BitVec.ofNat 32 (4 * k)).toNat =
      (TriInsertion.frame v).toNat + 4 * k := by
    bv_omega
  have short : 4 * (saved.map v.regs).length ≤ 2 ^ 32 := by
    rw [List.length_map]
    decide
  have within : k < (saved.map v.regs).length := by rwa [List.length_map]
  have word : (TriInsertion.pushed be v).read be .word
      (TriInsertion.frame v + BitVec.ofNat 32 (4 * k)) = (saved.map v.regs)[k] :=
    push_read short within
  rw [List.getElem_map] at word
  rw [← word]
  exact read_sameOutside working.mem (by omega) (by omega)

theorem tri_ends (working : Working be tab n t v w)
    (onward : ∀ w', Returned be tab n t v w' → Q w') : Leads (View.step be) Q (w.at_ base 21) := by
  have top : w.regs Reg.sp + 4#32 = frame v := by rw [working.sp, frame]
  have room : (w.regs Reg.sp + 4#32).toNat + 24 ≤ w.mem.size := by
    rw [top, working.mem.size, called.pushed.size]
    exact called.frameRoom
  have ldmib := tri_ldmib (working.loaded called) room
  rw [at_pop _ (by decide), top] at ldmib
  have popped := pop_regs (w.set Reg.sp (w.regs Reg.sp + 24#32)) fun k => working.frame called
  refine .next ldmib (.next (tri_return called working (pop_mem _ _)) (.here (onward _ ?_)))
  constructor
  case place =>
    rw [View.pc, View.set_self, popped, if_neg (by decide), View.set_other _ _ (by decide),
      working.regs _ (by decide) (by decide) (by decide)]
  case entries =>
    intro k inside
    rw [View.set_mem, pop_mem]
    exact working.entries k inside
  case regs =>
    intro r not6 notPc
    rw [View.set_other _ _ notPc, popped]
    by_cases low : r ∈ saved
    · exact if_pos low
    · rw [if_neg low, View.set_regs]
      split_ifs with isSp
      · rw [working.sp, isSp]
        bv_omega
      · refine working.regs r ?_ isSp notPc
        simp only [saved, List.mem_cons, List.not_mem_nil, or_false, not_or] at low
        bv_omega
  case cells =>
    intro x outFrame outTable
    rw [View.set_mem, pop_mem]
    exact (working.mem.cells x outTable).trans (called.pushed.cells x outFrame)
  case kept =>
    have set := View.kept_set w Reg.sp (w.regs Reg.sp + 24#32)
    refine ((working.kept.trans set).trans (.of_eq (pop_cpsr _ _) ?_)).trans (View.kept_set _ _ _)
    rw [pop_mem]

theorem tri_left (working : Working be tab n t v w) (index : w.regs 1#4 = BitVec.ofNat 32 i)
    (inside : i ≤ n)
    (stops : i = n → ∀ w', Working be tab n t v w' → Leads (View.step be) Q (w'.at_ base 21))
    (goes : i < n → ∀ w', Working be tab n t v w' → w'.regs 1#4 = BitVec.ofNat 32 i →
      Leads (View.step be) Q (w'.at_ base 7)) : Leads (View.step be) Q (w.at_ base 5) := by
  have space := called.tableSpace
  have compared := working.compared (w.regs 1#4) (w.regs 6#4)
  refine .next ((working.loaded called).step_cmp (by decide) rfl) ?_
  rcases Nat.eq_or_lt_of_le inside with same | less
  · have equal : w.regs 1#4 = w.regs 6#4 := by rw [index, working.number, same]
    exact .next ((compared.loaded called).step_jump (by decide) (compared_passed .eq equal)
      rfl rfl rfl) (stops same _ compared)
  · have other : w.regs 1#4 ≠ w.regs 6#4 := by
      rw [index, working.number]
      bv_omega
    exact .next ((compared.loaded called).step_stays (by decide) (compared_failed .eq other))
      (goes less _ compared index)

theorem tri_take (working : Working be tab n t v w) (index : w.regs 1#4 = BitVec.ofNat 32 i)
    (inside : i < n)
    (onward : ∀ w', Sinking be tab n i i (t i) t v w' → Leads (View.step be) Q (w'.at_ base 9)) :
    Leads (View.step be) Q (w.at_ base 7) := by
  have place : w.regs 0#4 + w.regs 1#4 <<< 2 = entry tab i := by
    rw [working.table, index, entry_index]
  have room : (w.regs 0#4 + w.regs 1#4 <<< 2).toNat + 4 ≤ w.mem.size := by
    rw [place]
    exact working.room called inside
  have word : w.mem.read be .word (w.regs 0#4 + w.regs 1#4 <<< 2) = t i := by
    rw [place]
    exact working.entries i inside
  have next := working.set (r := 3#4) (by decide) (t i)
  have taken := next.set (r := 2#4) (by decide) (w.regs 1#4)
  exact .next ((working.loaded called).step_ldr (by decide) (by decide) room word rfl)
    (.next ((next.loaded called).step_set (by decide) (by decide) rfl)
      (onward _ ⟨taken, index, index, rfl, Nat.le_refl i, inside⟩))

theorem tri_outer (working : Working be tab n t v w) (index : w.regs 1#4 = BitVec.ofNat 32 i)
    (inside : i ≤ n)
    (onward : ∀ w', Returned be tab n (sortFrom BitVec.toInt (n - i) i t) v w' → Q w') :
    Leads (View.step be) Q (w.at_ base 5) := by
  -- on the number of entries left, of which the one at `i` is the next
  induction left : n - i generalizing i t w with
  | zero =>
    rw [left] at onward
    refine tri_left called working index inside (fun _ w' stops => ?_) fun less =>
      absurd less (by omega)
    exact tri_ends called stops onward
  | succ d ih =>
    rw [left] at onward
    refine tri_left called working index inside (fun same => absurd same (by omega))
      fun less w' goes index => tri_take called goes index less fun w' sinks =>
        tri_inner called sinks fun t' j' w' stops same => ?_
    refine tri_place called stops fun w' placed index => ?_
    rw [same] at placed
    have rest : n - (i + 1) = d := by omega
    exact ih placed index less (rest ▸ onward) rest

end Outer

theorem tri_leads (called : Called be base tab count n t v) :
    Leads (View.step be) (Returned be tab n (sortFrom BitVec.toInt (n - 1) 1 t) v) v :=
  tri_starts called (tri_outer called (started_working called) rfl called.positive
    fun _ ends => ends)

end Loops

/-- The simulator runs `tri_insertion` to its return, for every table of at least one entry, in any
mode and byte order and wherever text, table and frame lie apart: the entries are then the same in
rising order as signed numbers, and but for the table, the frame and r6 everything is as before. -/
theorem tri_insertion_sorts (h : Platform) (p : ArmCore) (base tab count : Word) (n : Nat)
    (t : Nat → Word) (called : Called (p.order h) base tab count n t p.view) :
    ∃ steps q t', (∀ junks : List Word, junks.length = steps → normalRun h junks p = some q) ∧
      Returned (p.order h) tab n t' p.view q.view ∧ Aside steps p q ∧
      (∀ a b, a ≤ b → b < n → (t' a).toInt ≤ (t' b).toInt) ∧
      ∃ σ : Equiv.Perm Nat, t' = t ∘ σ ∧ ∀ k, n ≤ k → σ k = k := by
  obtain ⟨steps, q, follows, returned, aside⟩ := leads_follow (tri_leads called)
  have positive := called.positive
  have first : MonotoneOn (BitVec.toInt ∘ t) (Set.Iio 1) := by
    intro a inA b inB _
    rw [Set.mem_Iio] at inA inB
    rw [show a = b by omega]
  have sorted := sortFrom_sorted (n := n - 1) first
  obtain ⟨σ, same, fixed⟩ := sortFrom_places BitVec.toInt (n - 1) 1 t
  rw [show 1 + (n - 1) = n by omega] at sorted fixed
  refine ⟨steps, q, _, follows, returned, aside, ?_, σ, same, fixed⟩
  intro a b le inside
  exact sorted (Set.mem_Iio.mpr (by omega)) (Set.mem_Iio.mpr inside) le

def sampleWord (a : Nat) : Word :=
  if a = 4 * ptrTab then 0x1000#32
  else if a = 4 * ptrN then 0x2000#32
  else if a = 0x1000 then 5#32
  else if a = 0x1004 then -10#32
  else if a = 0x1008 then 7#32
  else if a = 0x2000 then 3#32
  else triListing.getD (a / 4) 0#32

def sampleTable (k : Nat) : Word := [5#32, -10#32, 7#32].getD k 0#32

def sampleCall : ArmCore where
  registersStorage k := if k.val = 13 then 0x8000#32 else if k.val = 14 then 0x40#32 else 0#32
  spsr _ := 0#32
  cpsr := 0x10#32
  cycleCount := 0#32
  mem := ⟨fun x => (sampleWord (x.toNat / 4 * 4) >>> (8 * (x.toNat % 4))).setWidth 8, 0x10000⟩

theorem tri_insertion_sorts_three : ∃ steps q,
    (∀ junks : List Word, junks.length = steps → normalRun lp64 junks sampleCall = some q) ∧
      ∃ t', (∀ k < 3, q.view.mem.read false .word (entry 0x1000#32 k) = t' k) ∧
        (∀ a b, a ≤ b → b < 3 → (t' a).toInt ≤ (t' b).toInt) ∧
        ∃ σ : Equiv.Perm Nat, t' = sampleTable ∘ σ := by
  have called : Called (sampleCall.order lp64) 0#32 0x1000#32 0x2000#32 3 sampleTable
      sampleCall.view :=
    ⟨rfl, ⟨by decide, by decide, by decide, by decide +kernel⟩, by decide, by decide, by decide,
      by decide, by decide, by decide, by decide, by decide, by decide, by decide, by decide,
      by decide, by decide, .inr (by decide), .inr (by decide), .inr (by decide),
      .inr (by decide)⟩
  obtain ⟨steps, q, t', follows, returned, _, sorted, σ, same, _⟩ :=
    tri_insertion_sorts lp64 sampleCall 0#32 0x1000#32 0x2000#32 3 sampleTable called
  exact ⟨steps, q, follows, t', returned.entries, sorted, σ, same⟩

end ArmSimulator.TriInsertion
