import ArmSimulator.Listing

/-! Examples/pgcd.s: the recursive greatest common divisor, as the assembler
lays it out. -/
namespace ArmSimulator
open StepFunction

/-- From the label `pgcd` to the return. -/
def pgcdListing : List Word :=
  [0xE40DE004#32,  -- str lr, [sp], #-4
   0xE1500001#32,  -- cmp r0, r1
   0x1A000001#32,  -- bne else
   0xE1A02000#32,  -- mov r2, r0
   0xEA000002#32,  -- b endif
   0x80400001#32,  -- else: subhi r0, r0, r1
   0x90411000#32,  -- subls r1, r1, r0
   0xEBFFFFF7#32,  -- bl pgcd
   0xE5BDE004#32,  -- endif: ldr lr, [sp, #4]!
   0xE1A0F00E#32]  -- mov pc, lr

def calls (a b : Nat) : Nat :=
  if a = b ∨ a = 0 ∨ b = 0 then 1
  else if b < a then calls (a - b) b + 1
  else calls a (b - a) + 1
termination_by a + b

section Calls

variable {a b : Nat}

theorem calls_self (a : Nat) : calls a a = 1 := by
  rw [calls, if_pos (.inl rfl)]

theorem calls_gt (positive : 0 < b) (greater : b < a) : calls a b = calls (a - b) b + 1 := by
  rw [calls, if_neg (by omega), if_pos greater]

theorem calls_lt (positive : 0 < a) (less : a < b) : calls a b = calls a (b - a) + 1 := by
  rw [calls, if_neg (by omega), if_neg (by omega)]

theorem calls_pos (a b : Nat) : 0 < calls a b := by
  rw [calls]
  split_ifs <;> omega

end Calls

section Instructions

variable {be : Bool} {base : Word} {v : View} (loaded : Loaded be pgcdListing base v.mem)
include loaded

theorem pgcd_str (fits : (v.regs Reg.sp).toNat + 4 ≤ v.mem.size) :
    (v.at_ base 0).step be = some (({ v with
      mem := v.mem.write be .word (v.regs Reg.sp) (v.regs Reg.lr) }.set Reg.sp
        (v.regs Reg.sp - 4#32)).at_ base 1) := by
  have executed : (v.at_ base 0).execute be 0xE40DE004#32 =
      if (v.regs Reg.sp).toNat + 4 ≤ v.mem.size then
        some { (v.at_ base 0).next.set Reg.sp (v.regs Reg.sp - 4#32) with
          mem := v.mem.write be .word (v.regs Reg.sp) (v.regs Reg.lr) }
      else none := rfl
  rw [loaded.step (by decide)]
  refine executed.trans ?_
  rw [if_pos fits, View.at_next, View.at_set _ _ (by decide)]
  rfl

theorem pgcd_cmp : (v.at_ base 1).step be =
    some ({ v with cpsr := comparedCpsr v.cpsr (v.regs 0#4) (v.regs 1#4) }.at_ base 2) :=
  loaded.step_cmp (by decide) rfl

theorem pgcd_bne (other : conditionSwitch v.cpsr ConditionCode.ne.field = .passed) :
    (v.at_ base 2).step be = some (v.at_ base 5) := by
  refine loaded.step_jump (by decide) ?_ rfl rfl rfl
  exact other

theorem pgcd_bne_equal (equal : conditionSwitch v.cpsr ConditionCode.ne.field = .failed) :
    (v.at_ base 2).step be = some (v.at_ base 3) := by
  apply loaded.step_stays (by decide)
  exact equal

theorem pgcd_mov : (v.at_ base 3).step be = some ((v.set 2#4 (v.regs 0#4)).at_ base 4) :=
  loaded.step_set (by decide) (by decide) rfl

theorem pgcd_b : (v.at_ base 4).step be = some (v.at_ base 8) :=
  loaded.step_jump (by decide) rfl rfl rfl rfl

theorem pgcd_subhi (higher : conditionSwitch v.cpsr ConditionCode.hi.field = .passed) :
    (v.at_ base 5).step be = some ((v.set 0#4 (v.regs 0#4 - v.regs 1#4)).at_ base 6) := by
  have computed : (v.at_ base 5).compute 0x80400001#32 =
    some ((v.at_ base 5).next.set 0#4 (v.regs 0#4 - v.regs 1#4)) := rfl
  exact loaded.step_set (by decide) (by decide)
    ((execute_compute higher (by decide)).trans computed)

theorem pgcd_subhi_not (same : conditionSwitch v.cpsr ConditionCode.hi.field = .failed) :
    (v.at_ base 5).step be = some (v.at_ base 6) := by
  apply loaded.step_stays (by decide)
  exact same

theorem pgcd_subls (lower : conditionSwitch v.cpsr ConditionCode.ls.field = .passed) :
    (v.at_ base 6).step be = some ((v.set 1#4 (v.regs 1#4 - v.regs 0#4)).at_ base 7) := by
  have computed : (v.at_ base 6).compute 0x90411000#32 =
    some ((v.at_ base 6).next.set 1#4 (v.regs 1#4 - v.regs 0#4)) := rfl
  exact loaded.step_set (by decide) (by decide) ((execute_compute lower (by decide)).trans computed)

theorem pgcd_subls_not (same : conditionSwitch v.cpsr ConditionCode.ls.field = .failed) :
    (v.at_ base 6).step be = some (v.at_ base 7) := by
  apply loaded.step_stays (by decide)
  exact same

theorem pgcd_bl : (v.at_ base 7).step be =
    some ((v.set Reg.lr (base + BitVec.ofNat 32 (4 * 8))).at_ base 0) := by
  rw [loaded.step (by decide)]
  refine (execute_branch rfl rfl).trans ?_
  rw [View.at_branch (j := 0) v _ rfl]
  rfl

theorem pgcd_ldr (fits : (v.regs Reg.sp + 4#32).toNat + 4 ≤ v.mem.size) :
    (v.at_ base 8).step be = some (((v.set Reg.sp (v.regs Reg.sp + 4#32)).set Reg.lr
      (v.mem.read be .word (v.regs Reg.sp + 4#32))).at_ base 9) := by
  have executed : (v.at_ base 8).execute be 0xE5BDE004#32 =
      if (v.regs Reg.sp + 4#32).toNat + 4 ≤ v.mem.size then
        some (((v.at_ base 8).next.set Reg.sp (v.regs Reg.sp + 4#32)).set Reg.lr
          (v.mem.read be .word (v.regs Reg.sp + 4#32)))
      else none := rfl
  rw [loaded.step (by decide)]
  refine executed.trans ?_
  rw [if_pos fits, View.at_next, View.at_set _ _ (by decide), View.at_set _ _ (by decide)]

theorem pgcd_return : (v.at_ base 9).step be = some (v.set Reg.pc (v.regs Reg.lr)) :=
  loaded.step_mov_pc (by decide) rfl

end Instructions

/-- The function is called: the numbers in r0 and r1, and on the stack a word for
each call, apart from the listing. -/
structure Called (be : Bool) (base : Word) (a b : Nat) (v : View) : Prop where
  place : v.pc = base
  loaded : Loaded be pgcdListing base v.mem
  first : (v.regs 0#4).toNat = a
  second : (v.regs 1#4).toNat = b
  positive : 0 < a ∧ 0 < b
  fits : (v.regs Reg.sp).toNat + 4 ≤ v.mem.size
  space : (v.regs Reg.sp).toNat + 4 ≤ 2 ^ 32
  room : 4 * calls a b ≤ (v.regs Reg.sp).toNat + 4
  apart : base.toNat + 4 * pgcdListing.length ≤ (v.regs Reg.sp).toNat + 4 - 4 * calls a b ∨
    (v.regs Reg.sp).toNat + 4 ≤ base.toNat

/-- From `v` to `w` the divisor was computed: r0, r1 and r2 hold it, the stack
pointer and the other registers are as before, and so is the memory but for the
words of the calls. -/
structure Computed (a b : Nat) (v w : View) : Prop where
  first : (w.regs 0#4).toNat = a.gcd b
  second : (w.regs 1#4).toNat = a.gcd b
  result : (w.regs 2#4).toNat = a.gcd b
  kept : v.Kept w
  mem : SameOutside ((v.regs Reg.sp).toNat + 4 - 4 * calls a b) ((v.regs Reg.sp).toNat + 4)
    v.mem w.mem

structure Returned (a b : Nat) (v w : View) : Prop extends Computed a b v w where
  place : w.pc = v.regs Reg.lr
  regs : ∀ r, r ≠ 0#4 → r ≠ 1#4 → r ≠ 2#4 → r ≠ Reg.pc → w.regs r = v.regs r

structure Ending (be : Bool) (a b : Nat) (v w : View) : Prop extends Computed a b v w where
  sp : w.regs Reg.sp = v.regs Reg.sp - 4#32
  saved : w.mem.read be .word (v.regs Reg.sp) = v.regs Reg.lr
  regs : ∀ r, r ≠ 0#4 → r ≠ 1#4 → r ≠ 2#4 → r ≠ Reg.pc → r ≠ Reg.sp → r ≠ Reg.lr →
    w.regs r = v.regs r

structure Reduced (be : Bool) (a b : Nat) (v w : View) : Prop where
  first : (w.regs 0#4).toNat = a
  second : (w.regs 1#4).toNat = b
  sp : w.regs Reg.sp = v.regs Reg.sp - 4#32
  mem : w.mem = v.mem.write be .word (v.regs Reg.sp) (v.regs Reg.lr)
  kept : v.Kept w
  regs : ∀ r, r ≠ 0#4 → r ≠ 1#4 → r ≠ 2#4 → r ≠ Reg.pc → r ≠ Reg.sp → r ≠ Reg.lr →
    w.regs r = v.regs r

section Correctness

variable {be : Bool} {base : Word} {a b : Nat} {v w : View}

theorem pgcd_ends (called : Called be base a b v) (ending : Ending be a b v w) :
    Leads (View.step be) (Returned a b v) (w.at_ base 8) := by
  have loaded : Loaded be pgcdListing base w.mem :=
    called.loaded.sameOutside ending.mem called.apart
  have back : w.regs Reg.sp + 4#32 = v.regs Reg.sp := by
    rw [ending.sp, BitVec.sub_add_cancel]
  have fits : (w.regs Reg.sp + 4#32).toNat + 4 ≤ w.mem.size := by
    rw [back, ending.mem.size]
    exact called.fits
  refine .next (pgcd_ldr loaded fits) (.next (pgcd_return loaded) (.here ?_))
  rw [back, ending.saved]
  constructor
  case place => exact View.set_self _ _
  case regs =>
    intro r not0 not1 not2 notPc
    simp only [View.set_regs, notPc, if_false]
    split_ifs with isLr isSp
    · rw [isLr]
    · rw [isSp]
    · exact ending.regs r not0 not1 not2 notPc isSp isLr
  case toComputed =>
    obtain ⟨first, second, result, kept, mem⟩ := ending.toComputed
    exact ⟨first, second, result, ⟨kept.cpsr, kept.size⟩, mem⟩

theorem Called.saved (called : Called be base a b v) :
    SameOutside ((v.regs Reg.sp).toNat + 4 - 4 * calls a b) ((v.regs Reg.sp).toNat + 4) v.mem
      (v.mem.write be .word (v.regs Reg.sp) (v.regs Reg.lr)) := by
  have positive := calls_pos a b
  exact (write_sameOutside .word _ _ called.space).widen (by omega) (Nat.le_refl _)

theorem Called.inner {a' b' : Nat} (called : Called be base a b v) (reduced : Reduced be a' b' v w)
    (counts : calls a b = calls a' b' + 1) (positive : 0 < a' ∧ 0 < b') (link : Word) :
    Called be base a' b' ((w.set Reg.lr link).at_ base 0) := by
  obtain ⟨_, loaded, _, _, _, fits, space, room, apart⟩ := called
  have more := calls_pos a' b'
  have sp : (((w.set Reg.lr link).at_ base 0).regs Reg.sp).toNat = (v.regs Reg.sp).toNat - 4 := by
    rw [View.at_regs _ (by decide), View.set_regs, if_neg (by decide), reduced.sp]
    bv_omega
  have mem : ((w.set Reg.lr link).at_ base 0).mem =
      v.mem.write be .word (v.regs Reg.sp) (v.regs Reg.lr) := reduced.mem
  have length : pgcdListing.length = 10 := rfl
  constructor
  case place =>
    rw [View.at_pc]
    exact BitVec.add_zero base
  case loaded =>
    rw [mem]
    exact loaded.sameOutside (write_sameOutside .word _ _ space) (by
      have bytes : Width.word.bytes = 4 := rfl
      omega)
  case first => exact reduced.first
  case second => exact reduced.second
  case positive => exact positive
  case fits =>
    rw [sp, mem]
    exact Nat.le_trans (by omega) fits
  all_goals
    rw [sp]
    omega

theorem pgcd_recurses {a' b' : Nat} (called : Called be base a b v)
    (ih : ∀ u, Called be base a' b' u → Leads (View.step be) (Returned a' b' u) u)
    (counts : calls a b = calls a' b' + 1) (divisor : a'.gcd b' = a.gcd b)
    (positive : 0 < a' ∧ 0 < b') (reduced : Reduced be a' b' v w) :
    Leads (View.step be) (Returned a b v) (w.at_ base 7) := by
  have loaded : Loaded be pgcdListing base w.mem :=
    reduced.mem ▸ called.loaded.sameOutside called.saved called.apart
  have inner := called.inner reduced counts positive (base + BitVec.ofNat 32 (4 * 8))
  have room := called.room
  have more := calls_pos a' b'
  have sp : (((w.set Reg.lr (base + BitVec.ofNat 32 (4 * 8))).at_ base 0).regs Reg.sp).toNat =
      (v.regs Reg.sp).toNat - 4 := by
    rw [View.at_regs _ (by decide), View.set_regs, if_neg (by decide), reduced.sp]
    bv_omega
  refine .next (pgcd_bl loaded) ((ih _ inner).trans fun x returned => ?_)
  have place : x.pc = base + BitVec.ofNat 32 (4 * 8) := by
    rw [returned.place, View.at_regs _ (by decide), View.set_self]
  have stack : SameOutside ((v.regs Reg.sp).toNat + 4 - 4 * calls a b) (v.regs Reg.sp).toNat
      w.mem x.mem := by
    have inside := returned.mem
    rw [sp] at inside
    exact inside.widen (by omega) (by omega)
  rw [← x.at_self place]
  refine pgcd_ends called ⟨⟨?_, ?_, ?_, ?_, ?_⟩, ?_, ?_, ?_⟩
  · rw [returned.first, divisor]
  · rw [returned.second, divisor]
  · rw [returned.result, divisor]
  · exact reduced.kept.trans ⟨returned.kept.cpsr, returned.kept.size⟩
  · exact (reduced.mem ▸ called.saved).trans (stack.widen (Nat.le_refl _) (by omega))
  · rw [returned.regs _ (by decide) (by decide) (by decide) (by decide), View.at_regs _ (by decide),
      View.set_regs, if_neg (by decide), reduced.sp]
  · rw [read_sameOutside stack called.space (.inr (Nat.le_refl _)), reduced.mem, read_write]
  · intro r not0 not1 not2 notPc notSp notLr
    rw [returned.regs r not0 not1 not2 notPc, View.at_regs _ notPc, View.set_regs, if_neg notLr,
      reduced.regs r not0 not1 not2 notPc notSp notLr]

def afterCompare (be : Bool) (v : View) : View :=
  { v.set Reg.sp (v.regs Reg.sp - 4#32) with
    cpsr := comparedCpsr v.cpsr (v.regs 0#4) (v.regs 1#4)
    mem := v.mem.write be .word (v.regs Reg.sp) (v.regs Reg.lr) }

theorem afterCompare_kept (be : Bool) (v : View) : v.Kept (afterCompare be v) :=
  ⟨fun _ low => comparedCpsr_low v.cpsr (v.regs 0#4) (v.regs 1#4) low, rfl⟩

theorem afterCompare_sp (be : Bool) (v : View) :
    (afterCompare be v).regs Reg.sp = v.regs Reg.sp - 4#32 :=
  View.set_self (r := Reg.sp) v _

theorem afterCompare_regs {r : Reg} (notSp : r ≠ Reg.sp) :
    (afterCompare be v).regs r = v.regs r :=
  v.set_other _ notSp

section Called

variable (called : Called be base a b v)
include called

theorem pgcd_starts :
    (v.step be).bind (View.step be) = some ((afterCompare be v).at_ base 2) := by
  have start : v.at_ base 0 = v :=
    v.at_self (by rw [called.place]; exact (BitVec.add_zero base).symm)
  have loaded := called.loaded.sameOutside called.saved called.apart
  have first := pgcd_str called.loaded called.fits
  rw [start] at first
  rw [first, Option.bind_some]
  exact pgcd_cmp loaded

theorem Called.listing : Loaded be pgcdListing base (afterCompare be v).mem :=
  called.loaded.sameOutside called.saved called.apart

theorem pgcd_equal (equal : a = b) :
    Leads (View.step be) (Returned a b v) ((afterCompare be v).at_ base 3) := by
  have loaded := called.listing
  have same : (v.regs 0#4).toNat = a.gcd b := by rw [called.first, ← equal, Nat.gcd_self]
  refine .next (pgcd_mov loaded) (.next (pgcd_b loaded) (pgcd_ends called ⟨?_, ?_, ?_, ?_⟩))
  · have second : (v.regs 1#4).toNat = a.gcd b := by rw [called.second, ← equal, Nat.gcd_self]
    refine ⟨same, second, ?_, ⟨(afterCompare_kept be v).cpsr, rfl⟩, called.saved⟩
    rw [View.set_self, afterCompare_regs (by decide), same]
  · exact afterCompare_sp be v
  · exact read_write _ _
  · intro r _ _ not2 _ notSp _
    rw [View.set_regs, if_neg not2, afterCompare_regs notSp]

theorem pgcd_less (less : a < b)
    (ih : ∀ u, Called be base a (b - a) u → Leads (View.step be) (Returned a (b - a) u) u) :
    Leads (View.step be) (Returned a b v) ((afterCompare be v).at_ base 5) := by
  have loaded := called.listing
  have order : (v.regs 0#4).toNat ≤ (v.regs 1#4).toNat := by
    rw [called.first, called.second]
    omega
  refine .next (pgcd_subhi_not loaded (compared_failed .hi (Nat.not_lt.mpr order)))
    (.next (pgcd_subls loaded (compared_passed .ls order)) ?_)
  have positive := called.positive
  refine pgcd_recurses called ih (calls_lt positive.1 less) (Nat.gcd_sub_self_right (by omega))
    ⟨positive.1, by omega⟩ ⟨called.first, ?_, afterCompare_sp be v, rfl, ?_, ?_⟩
  · rw [View.set_self, afterCompare_regs (by decide), afterCompare_regs (by decide),
      BitVec.toNat_sub_of_le (BitVec.le_def.mpr order), called.first, called.second]
  · exact (afterCompare_kept be v).trans (View.kept_set _ _ _)
  · intro r _ not1 _ _ notSp _
    rw [View.set_regs, if_neg not1, afterCompare_regs notSp]

theorem pgcd_greater (greater : b < a)
    (ih : ∀ u, Called be base (a - b) b u → Leads (View.step be) (Returned (a - b) b u) u) :
    Leads (View.step be) (Returned a b v) ((afterCompare be v).at_ base 5) := by
  have loaded := called.listing
  have order : (v.regs 1#4).toNat < (v.regs 0#4).toNat := by
    rw [called.first, called.second]
    exact greater
  refine .next (pgcd_subhi loaded (compared_passed .hi order))
    (.next (pgcd_subls_not loaded (compared_failed .ls (Nat.not_le.mpr order))) ?_)
  have positive := called.positive
  refine pgcd_recurses called ih (calls_gt positive.2 greater) (Nat.gcd_sub_self_left (by omega))
    ⟨by omega, positive.2⟩ ⟨?_, called.second, afterCompare_sp be v, rfl, ?_, ?_⟩
  · rw [View.set_self, afterCompare_regs (by decide), afterCompare_regs (by decide),
      BitVec.toNat_sub_of_le (BitVec.le_def.mpr (Nat.le_of_lt order)), called.first, called.second]
  · exact (afterCompare_kept be v).trans (View.kept_set _ _ _)
  · intro r not0 _ _ _ notSp _
    rw [View.set_regs, if_neg not0, afterCompare_regs notSp]

end Called

theorem pgcd_leads (called : Called be base a b v) : Leads (View.step be) (Returned a b v) v := by
  -- on the sum of the numbers, which either subtraction makes smaller
  induction size : a + b using Nat.strongRecOn generalizing a b v with
  | ind n ih =>
    obtain ⟨_, first, second⟩ := Option.bind_eq_some_iff.mp (pgcd_starts called)
    refine .next first (.next second ?_)
    have positive := called.positive
    have values : v.regs 0#4 = v.regs 1#4 ↔ a = b := by
      rw [← BitVec.toNat_inj, called.first, called.second]
    by_cases equal : a = b
    · have skipped : conditionSwitch (afterCompare be v).cpsr ConditionCode.ne.field = .failed :=
        compared_failed .ne (not_not.mpr (values.mpr equal))
      exact .next (pgcd_bne_equal called.listing skipped) (pgcd_equal called equal)
    · refine .next (pgcd_bne called.listing (compared_passed .ne (mt values.mp equal))) ?_
      rcases Nat.lt_or_gt_of_ne equal with less | greater
      · exact pgcd_less called less fun u inner => ih (a + (b - a)) (by omega) inner rfl
      · exact pgcd_greater called greater fun u inner => ih (a - b + b) (by omega) inner rfl

end Correctness

/-- The simulator runs `pgcd` to its return, for all positive numbers, in any mode
and byte order and at any aligned address, if the stack has a word for each call.
What its uninitialised locals hold changes nothing. -/
theorem pgcd_computes (h : Platform) (p : ArmCore) (base : Word) (a b : Nat)
    (called : Called (p.order h) base a b p.view) :
    ∃ n q, (∀ junks : List Word, junks.length = n → normalRun h junks p = some q) ∧
      Returned a b p.view q.view ∧ Aside n p q :=
  leads_follow (pgcd_leads called)

def pgcdCore : ArmCore where
  registersStorage k := [12#32, 18#32].getD k.val (if k.val = 13 then 0x8000#32
    else if k.val = 14 then 0x40#32 else 0#32)
  spsr _ := 0#32
  cpsr := 0x10#32
  cycleCount := 0#32
  mem :=
    ⟨fun x => (pgcdListing.getD (x.toNat / 4) 0#32 >>> (8 * (x.toNat % 4))).setWidth 8, 0x10000⟩

theorem pgcd_computes_12_18 : ∃ n q,
    (∀ junks : List Word, junks.length = n → normalRun lp64 junks pgcdCore = some q) ∧
      q.view.regs 2#4 = 6#32 := by
  have three : calls 12 18 = 3 := by
    rw [calls_lt (by decide) (by decide), calls_gt (by decide) (by decide), calls_self]
  have loaded : Loaded (pgcdCore.order lp64) pgcdListing 0#32 pgcdCore.view.mem :=
    ⟨by decide, by decide, by decide, by decide +kernel⟩
  obtain ⟨n, q, follows, returned, _⟩ := pgcd_computes lp64 pgcdCore 0#32 12 18
    ⟨by decide, loaded, by decide, by decide, by decide, by decide, by decide,
      three ▸ by decide, three ▸ by decide⟩
  exact ⟨n, q, follows, BitVec.eq_of_toNat_eq returned.result⟩

end ArmSimulator
