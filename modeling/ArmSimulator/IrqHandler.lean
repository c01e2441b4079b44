import ArmSimulator.EntryFrame
import ArmSimulator.Listing
import ArmSimulator.Nesting
import ArmSimulator.ResetState

/-! `irq_handler` of Examples/demoIntteruption.s: an interrupt is served, and the program it came
to goes on as if nothing had happened. -/
namespace ArmSimulator.IrqHandler
open StepFunction

def irqListing : List Word :=
  [0xE82D0007#32,  -- stmda sp!, {r0-r2}
   0xE3A000FF#32,  -- mov r0, #0xFF
   0xE10F1000#32,  -- mrs r1, CPSR
   0xE14F2000#32,  -- mrs r2, SPSR
   0xE3A000EE#32,  -- mov r0, #0xEE
   0xE3A000BB#32,  -- mov r0, #0xBB
   0xE9BD0007#32,  -- ldmib sp!, {r0-r2}
   0xE25EF004#32]  -- subs pc, lr, #4

def irqVector : Word := 0x1018#32

def saved : List Reg := [0#4, 1#4, 2#4]

def frame (sp : Word) : Word := sp - 12#32 + 4#32

/-- Exceptions are entered with the byte order of the coprocessor's EE bit. -/
def handlerOrder (h : Platform) : Bool := swapped h (cp15Reg1EEbit h)

structure Installed (h : Platform) (base : Word) (m : Memory) : Prop where
  listing : Loaded (handlerOrder h) irqListing base m
  room : irqVector.toNat + 4 ≤ m.size
  always : getBits (m.read (handlerOrder h) .word irqVector) 31 28 = 14#32
  branches : getBits (m.read (handlerOrder h) .word irqVector) 27 25 = 5#32
  plain : getBit (m.read (handlerOrder h) .word irqVector) 24 = false
  target : branchTarget irqVector (m.read (handlerOrder h) .word irqVector) = base

/-- The program can be interrupted: its stack, which ends at `lo`, has room for the frame, and
handler and vector lie outside. -/
structure Ready (h : Platform) (base : Word) (lo : Nat) (v : View) : Prop where
  installed : Installed h base v.mem
  low : lo + 8 ≤ (v.regs Reg.sp).toNat
  room : (v.regs Reg.sp).toNat + 4 ≤ v.mem.size
  space : (v.regs Reg.sp).toNat + 4 ≤ 2 ^ 32
  code : base.toNat + 4 * irqListing.length ≤ lo ∨ (v.regs Reg.sp).toNat + 4 ≤ base.toNat
  vector : irqVector.toNat + 4 ≤ lo ∨ (v.regs Reg.sp).toNat + 4 ≤ irqVector.toNat

/-- `q` is `p` after an interrupt, but for the frame, the bank of the handler and the count of
cycles. -/
structure Serviced (p q : ArmCore) : Prop where
  cpsr : q.cpsr = p.cpsr
  pc : q.registersStorage 15 = fetchAddress p
  storage : ∀ k, k ≠ 15 → k ≠ registers Mode.irq Reg.lr → k ≠ registers Mode.irq Reg.sp →
    q.registersStorage k = p.registersStorage k
  spsr : ∀ mode, mode ≠ Mode.irq → q.spsr mode = p.spsr mode
  size : q.mem.size = p.mem.size
  cells : ∀ x, 12 ≤ (x - frame (p.view.regs Reg.sp)).toNat → q.mem.address x = p.mem.address x
  cycleCount : q.cycleCount = p.cycleCount + 9#32

/-- From `p` the simulator makes `n` steps with interrupts masked, whatever its locals hold, and
comes to where `Q` holds. -/
def Masked (h : Platform) (Q : ArmCore → Prop) : Nat → ArmCore → Prop
  | 0, p => Q p
  | n + 1, p => getBit p.cpsr Psr.i = true ∧
      ∃ q, (∀ junk, armStep h junk p = (q, .returned .noException)) ∧ Masked h Q n q

section Runs

variable {h : Platform} {Q R : ArmCore → Prop} {n : Nat} {p : ArmCore}

theorem Masked.mono (masked : Masked h Q n p) (implied : ∀ q, Q q → R q) : Masked h R n p := by
  induction n generalizing p with
  | zero => exact implied p masked
  | succ n ih =>
    obtain ⟨set, q, step, rest⟩ := masked
    exact ⟨set, q, step, ih rest⟩

theorem Masked.normalRun (masked : Masked h Q n p) :
    ∃ q, Q q ∧ ∀ junks : List Word, junks.length = n → normalRun h junks p = some q := by
  induction n generalizing p with
  | zero =>
    refine ⟨p, masked, fun junks none => ?_⟩
    rw [List.eq_nil_of_length_eq_zero none]
    rfl
  | succ n ih =>
    obtain ⟨_, q, step, rest⟩ := masked
    obtain ⟨r, holds, follows⟩ := ih rest
    refine ⟨r, holds, fun junks length => ?_⟩
    cases junks with
    | nil => cases length
    | cons junk junks =>
      rw [normalRun_cons junks (step junk)]
      exact follows junks (Nat.succ.inj length)

end Runs

section Handling

structure Began (h : Platform) (e : ArmCore) : Prop where
  mode : armMode e = Mode.irq
  masked : getBit e.cpsr Psr.i = true
  order : e.order h = handlerOrder h
  place : e.view.pc = irqVector

structure Handling (e : ArmCore) (n : Nat) (v : View) (q : ArmCore) : Prop where
  view : q.view = v
  cpsr : v.cpsr = e.cpsr
  aside : Aside n e q

variable {h : Platform} {Q : ArmCore → Prop} {e q : ArmCore} {m n : Nat} {v w : View}

namespace Handling

variable (handling : Handling e n v q) (began : Began h e)
include handling

theorem same : q.cpsr = e.cpsr := (congrArg View.cpsr handling.view).trans handling.cpsr

include began

theorem order : q.order h = handlerOrder h := by
  rw [← began.order, ArmCore.order, handling.same, ArmCore.order]

theorem steps (steps : StepsTo h q w) (cpsr : w.cpsr = v.cpsr)
    (next : ∀ r, Handling e (n + 1) w r → Masked h Q m r) : Masked h Q (m + 1) q := by
  obtain ⟨r, step, view, aside⟩ := steps
  refine ⟨handling.same ▸ began.masked, r, step, next r ?_⟩
  exact ⟨view, cpsr.trans handling.cpsr, handling.aside.trans aside⟩

theorem follows (taken : v.step (handlerOrder h) = some w) : StepsTo h q w := by
  apply step_steps
  rw [handling.view, handling.order began]
  exact taken

end Handling

end Handling

section Instructions

variable {h : Platform} {p : ArmCore} {be : Bool} {base : Word} {v : View}

theorem irq_branch (installed : Installed h base v.mem) (place : v.pc = irqVector) :
    v.step (handlerOrder h) = some (v.at_ base 0) := by
  have passed : conditionSwitch v.cpsr
      (getBits (v.mem.read (handlerOrder h) .word irqVector) 31 28) = .passed := by
    rw [installed.always]
    rfl
  have fetchable : irqVector.toNat % 4 = 0 ∧ irqVector.toNat + 4 ≤ v.mem.size :=
    ⟨by decide, installed.room⟩
  rw [View.step, place, if_pos fetchable, execute_branch passed installed.branches, View.branch,
    installed.plain, place, installed.target]
  refine congrArg some ?_
  rw [View.at_, BitVec.add_zero]
  exact v.set_set _ _

theorem irq_stmda (loaded : Loaded be irqListing base v.mem)
    (fits : (frame (v.regs Reg.sp)).toNat + 12 ≤ v.mem.size) :
    (v.at_ base 0).step be = some (({ v with
      mem := v.mem.push be (frame (v.regs Reg.sp)) (saved.map v.regs) }.set Reg.sp
        (v.regs Reg.sp - 12#32)).at_ base 1) := by
  have executed : (v.at_ base 0).execute be 0xE82D0007#32 =
      if (frame (v.regs Reg.sp)).toNat + 12 ≤ v.mem.size then
        some { (v.at_ base 0).next.set Reg.sp (v.regs Reg.sp - 12#32) with
          mem := ((v.at_ base 0).blockSlots 0xE82D0007#32).foldl
            (fun m s => m.write be .word s.2 ((v.at_ base 0).regs s.1)) v.mem }
      else none := rfl
  rw [loaded.step (by decide)]
  refine executed.trans ?_
  rw [if_pos fits, View.blockSlots, slots_push, View.at_next, View.at_set _ _ (by decide)]
  rfl

theorem irq_ldmib (loaded : Loaded be irqListing base v.mem)
    (fits : (v.regs Reg.sp + 4#32).toNat + 12 ≤ v.mem.size) :
    (v.at_ base 6).step be = some (((v.set Reg.sp (v.regs Reg.sp + 12#32)).pop be v.mem saved
      (v.regs Reg.sp + 4#32)).at_ base 7) := by
  have executed : (v.at_ base 6).execute be 0xE9BD0007#32 =
      if (v.regs Reg.sp + 4#32).toNat + 12 ≤ v.mem.size then
        some (((v.at_ base 6).blockSlots 0xE9BD0007#32).foldl
          (fun w s => w.set s.1 (v.mem.read be .word s.2))
          ((v.at_ base 6).next.set Reg.sp (v.regs Reg.sp + 12#32)))
      else none := rfl
  rw [loaded.step (by decide)]
  refine executed.trans ?_
  rw [if_pos fits, View.blockSlots, slots_pop, View.at_next, View.at_set _ _ (by decide),
    ← at_pop _ (by decide)]
  rfl

theorem mrs_steps (ins : Word) {i : Nat} (order : p.order h = be)
    (loaded : Loaded be irqListing base v.mem) (place : p.view = v.at_ base i)
    (inside : i < irqListing.length) (word : irqListing[i] = ins)
    (mrs : instructionGetHandler ins = some .armMrs)
    (passed : instructionCheckCondition p ins = .passed) (notPc : getReg ins 15 12 ≠ Reg.pc) :
    StepsTo h p ((v.set (getReg ins 15 12)
      (if getBit ins 22 then p.spsr (armMode p) else p.cpsr)).at_ base (i + 1)) := by
  subst order
  have aligned := place ▸ (loaded.fetchable inside).1
  have fetches : Fetches h p ins := word ▸ loaded.fetches inside place
  refine ⟨armWriteRegister (fetched p) (getReg ins 15 12)
    (if getBit ins 22 then p.spsr (armMode p) else p.cpsr), fun junk => ?_, ?_,
    (Aside.fetched p).writeRegister _ _⟩
  · exact armStep_handled fetches passed mrs rfl
  · rw [view_armWriteRegister, view_fetched aligned, place, View.at_next, View.at_set _ _ notPc]

variable (loaded : Loaded be irqListing base v.mem)
include loaded

theorem irq_mov_FF : (v.at_ base 1).step be = some ((v.set 0#4 0xFF#32).at_ base 2) :=
  loaded.step_set (by decide) (by decide) rfl

theorem irq_mov_EE : (v.at_ base 4).step be = some ((v.set 0#4 0xEE#32).at_ base 5) :=
  loaded.step_set (by decide) (by decide) rfl

theorem irq_mov_BB : (v.at_ base 5).step be = some ((v.set 0#4 0xBB#32).at_ base 6) :=
  loaded.step_set (by decide) (by decide) rfl

variable (order : p.order h = be)
include order

theorem irq_mrs_cpsr (place : p.view = v.at_ base 2) :
    StepsTo h p ((v.set 1#4 p.cpsr).at_ base 3) :=
  mrs_steps 0xE10F1000#32 order loaded place (by decide) rfl (by decide) rfl (by decide)

theorem irq_mrs_spsr (place : p.view = v.at_ base 3) :
    StepsTo h p ((v.set 2#4 (p.spsr (armMode p))).at_ base 4) :=
  mrs_steps 0xE14F2000#32 order loaded place (by decide) rfl (by decide) rfl (by decide)

end Instructions

section Working

structure Working (be : Bool) (v w : View) : Prop where
  regs : ∀ r, r ∉ saved → r ≠ Reg.sp → w.regs r = v.regs r
  sp : w.regs Reg.sp = v.regs Reg.sp - 12#32
  mem : w.mem = v.mem.push be (frame (v.regs Reg.sp)) (saved.map v.regs)
  cpsr : w.cpsr = v.cpsr

variable {be : Bool} {v w : View}

namespace Working

theorem pushed (be : Bool) (v : View) : Working be v ({ v with
    mem := v.mem.push be (frame (v.regs Reg.sp)) (saved.map v.regs) }.set Reg.sp
      (v.regs Reg.sp - 12#32)) where
  regs _ _ notSp := View.set_other _ _ notSp
  sp := View.set_self _ _
  mem := rfl
  cpsr := rfl

variable (working : Working be v w)
include working

theorem set {r : Reg} (free : r ∈ saved) (value : Word) : Working be v (w.set r value) where
  regs r' kept notSp :=
    (w.set_other value fun same : r' = r => kept (same ▸ free)).trans (working.regs r' kept notSp)
  sp := by
    have notSp : Reg.sp ≠ r := by
      rintro rfl
      exact absurd free (by decide)
    rw [w.set_other value notSp, working.sp]
  mem := working.mem
  cpsr := working.cpsr

theorem restored (r : Reg) :
    ((w.set Reg.sp (w.regs Reg.sp + 12#32)).pop be w.mem saved (w.regs Reg.sp + 4#32)).regs r =
      v.regs r := by
  have words : ∀ k (inside : k < saved.length),
      w.mem.read be .word (w.regs Reg.sp + 4#32 + BitVec.ofNat 32 (4 * k)) = v.regs saved[k] := by
    intro k inside
    rw [working.mem, working.sp]
    have fits : 4 * (saved.map v.regs).length ≤ 2 ^ 32 := by
      rw [List.length_map]
      decide
    refine (push_read fits (a := frame (v.regs Reg.sp)) (k := k) ?_).trans ?_
    · rwa [List.length_map]
    · exact List.getElem_map v.regs
  rw [pop_regs _ words]
  split
  · trivial
  · rename_i kept
    rw [View.set_regs]
    split
    · rename_i sp
      rw [sp, working.sp, BitVec.sub_add_cancel]
    · rename_i notSp
      exact working.regs r kept notSp

end Working

end Working

section Served

variable {h : Platform} {base : Word} {lo : Nat} {e q : ArmCore} {v w : View}

theorem Ready.frame_toNat (ready : Ready h base lo v) :
    (frame (v.regs Reg.sp)).toNat = (v.regs Reg.sp).toNat - 8 := by
  have low := ready.low
  have size := (v.regs Reg.sp).isLt
  unfold IrqHandler.frame
  bv_omega

theorem Ready.pushed (ready : Ready h base lo v) (working : Working (handlerOrder h) v w) :
    SameOutside ((v.regs Reg.sp).toNat - 8) ((v.regs Reg.sp).toNat + 4) v.mem w.mem := by
  have low := ready.low
  have space := ready.space
  have place := ready.frame_toNat
  have length : 4 * (saved.map v.regs).length = 12 := by
    rw [List.length_map]
    rfl
  have fits : (frame (v.regs Reg.sp)).toNat + 4 * (saved.map v.regs).length ≤ 2 ^ 32 := by omega
  rw [working.mem]
  exact (push_sameOutside fits).widen (by omega) (by omega)

theorem Ready.loaded (ready : Ready h base lo v) (working : Working (handlerOrder h) v w) :
    Loaded (handlerOrder h) irqListing base w.mem := by
  have low := ready.low
  have code := ready.code
  exact ready.installed.listing.sameOutside (ready.pushed working) (by omega)

structure Back (e q : ArmCore) : Prop where
  cpsr : q.cpsr = e.spsr Mode.irq
  pc : q.registersStorage 15 = e.registersStorage (registers Mode.irq Reg.lr) - 4#32
  storage : ∀ k, k ≠ 15 → q.registersStorage k = e.registersStorage k
  spsr : q.spsr = e.spsr
  size : q.mem.size = e.mem.size
  cells : ∀ x, 12 ≤ (x - frame (e.view.regs Reg.sp)).toNat → q.mem.address x = e.mem.address x
  cycleCount : q.cycleCount = e.cycleCount + 9#32

theorem Handling.storage {i n : Nat} (handling : Handling e n (w.at_ base i) q)
    (regs : ∀ r, r ≠ Reg.pc → w.regs r = e.view.regs r) {k : Fin 31} (notPc : k ≠ 15) :
    q.registersStorage k = e.registersStorage k := by
  by_cases seen : ∃ r, registers (armMode e) r = k
  · obtain ⟨r, rfl⟩ := seen
    have other : r ≠ Reg.pc := by
      rintro rfl
      exact notPc (registers_pc _)
    have value := congrFun (congrArg View.regs handling.view) r
    rw [View.at_regs _ other, regs r other] at value
    simp only [ArmCore.view, handling.aside.mode] at value
    exact value
  · exact handling.aside.hidden k (not_exists.mp seen)

theorem irq_returns (began : Began h e) (handling : Handling e 8 (w.at_ base 7) q)
    (loaded : Loaded (handlerOrder h) irqListing base w.mem)
    (regs : ∀ r, r ≠ Reg.pc → w.regs r = e.view.regs r) (size : w.mem.size = e.mem.size)
    (cells : ∀ x, 12 ≤ (x - frame (e.view.regs Reg.sp)).toNat →
      w.mem.address x = e.mem.address x) : Masked h (Back e) 1 q := by
  have mode : armMode q = Mode.irq := handling.aside.mode.trans began.mode
  have trap : armMode q = Trap.mode .interrupt := mode
  have fetches : Fetches h q (Trap.returnWord .interrupt) := by
    rw [← handling.order began] at loaded
    exact loaded.fetches (i := 7) (by decide) handling.view
  have mem : q.mem = w.mem := congrArg View.mem handling.view
  refine ⟨handling.same ▸ began.masked, _, fun junk => return_step h junk trap fetches, ?_⟩
  constructor
  · rw [← handling.aside.spsr, ← mode]
    rfl
  · rw [returned_pc, armReadRegister_of_ne (by decide), mode,
      handling.storage regs (registers_ne_pc _ _ (by decide))]
    rfl
  · intro k notPc
    rw [returned_storage _ notPc, fetched_storage notPc, handling.storage regs notPc]
  · exact handling.aside.spsr
  · exact (congrArg Memory.size mem).trans size
  · intro x out
    exact (congrFun (congrArg Memory.address mem) x).trans (cells x out)
  · refine (congrArg (· + 1#32) handling.aside.cycleCount).trans ?_
    rw [BitVec.add_assoc]
    rfl

theorem irq_handled (began : Began h e) (ready : Ready h base lo e.view) :
    Masked h (Back e) 9 e := by
  have start : Handling e 0 e.view e := ⟨rfl, rfl, .refl e⟩
  have fits : (frame (e.view.regs Reg.sp)).toNat + 12 ≤ e.view.mem.size := by
    have low := ready.low
    have room := ready.room
    have place := ready.frame_toNat
    omega
  refine start.steps began (start.follows began (irq_branch ready.installed began.place)) rfl
    fun q₁ branched => ?_
  refine branched.steps began (branched.follows began (irq_stmda ready.installed.listing fits)) rfl
    fun q₂ pushed => ?_
  have first := Working.pushed (handlerOrder h) e.view
  refine pushed.steps began (pushed.follows began (irq_mov_FF (ready.loaded first))) rfl
    fun q₃ moved => ?_
  have second := first.set (r := 0#4) (by decide) 0xFF#32
  refine moved.steps began (irq_mrs_cpsr (ready.loaded second) (moved.order began) moved.view) rfl
    fun q₄ read => ?_
  have third := second.set (r := 1#4) (by decide) q₃.cpsr
  refine read.steps began (irq_mrs_spsr (ready.loaded third) (read.order began) read.view) rfl
    fun q₅ saves => ?_
  have fourth := third.set (r := 2#4) (by decide) (q₄.spsr (armMode q₄))
  refine saves.steps began (saves.follows began (irq_mov_EE (ready.loaded fourth))) rfl
    fun q₆ moved' => ?_
  have fifth := fourth.set (r := 0#4) (by decide) 0xEE#32
  refine moved'.steps began (moved'.follows began (irq_mov_BB (ready.loaded fifth))) rfl
    fun q₇ moved'' => ?_
  have sixth := fifth.set (r := 0#4) (by decide) 0xBB#32
  refine moved''.steps began (moved''.follows began (irq_ldmib (ready.loaded sixth) ?_)) ?_
    fun q₈ popped => irq_returns began popped ?_ (fun r _ => sixth.restored r) ?_ ?_
  · rw [sixth.sp, sixth.mem, push_size]
    exact fits
  · exact pop_cpsr _ _
  · rw [pop_mem, View.set_mem]
    exact ready.loaded sixth
  · rw [pop_mem, View.set_mem, sixth.mem, push_size]
    rfl
  · intro x out
    rw [pop_mem, View.set_mem, sixth.mem, push_outside x (by rwa [List.length_map])]
    rfl

end Served

section Interrupt

variable {h : Platform} {base : Word} {lo : Nat} {p : ArmCore}
  (unmasked : getBit p.cpsr Psr.i = false)
include unmasked

theorem irq_entered : Entered h p Mode.irq false (fetchAddress p + 4#32) 0x18#8
    (armException h p .interrupt) := by
  have entry : armException h p .interrupt =
      enterException h p Mode.irq false (fetchAddress p + 4#32) 0x18#8 := by
    rw [armException, handleIrq, armReadCpsr_eq, unmasked]
    rfl
  rw [entry]
  exact enterException_entered h p Mode.irq false (fetchAddress p + 4#32) 0x18#8

theorem irq_began : Began h (armException h p .interrupt) := by
  have entered := irq_entered (h := h) unmasked
  constructor
  · rw [armMode_eq, entered.cpsr, entryCpsr_mode]
  · rw [entered.cpsr, (entryCpsr_masks h p.cpsr Mode.irq false).1]
  · rw [ArmCore.order, entered.cpsr, entryCpsr, getBit_eq, getLsbD_chgBit, if_pos rfl]
    exact congrArg (swapped h) (Bool.and_true _)
  · rw [view_pc, entered.pc]
    decide

theorem irq_sp : (armException h p .interrupt).view.regs Reg.sp = p.view.regs Reg.sp := by
  have stack := (irq_entered (h := h) unmasked).sp
  rw [← (irq_began (h := h) unmasked).mode, armReadRegister_of_ne (by decide)] at stack
  exact stack

theorem irq_ready (ready : Ready h base lo p.view) :
    Ready h base lo (armException h p .interrupt).view := by
  have mem : (armException h p .interrupt).view.mem = p.view.mem :=
    (irq_entered (h := h) unmasked).mem
  have sp := irq_sp (h := h) unmasked
  constructor
  · exact mem ▸ ready.installed
  · exact sp ▸ ready.low
  · exact mem ▸ sp ▸ ready.room
  · exact sp ▸ ready.space
  · exact sp ▸ ready.code
  · exact sp ▸ ready.vector

/-- An interrupt is served in nine steps. -/
theorem irq_serviced (ready : Ready h base lo p.view) :
    Masked h (Serviced p) 9 (armException h p .interrupt) := by
  have entered := irq_entered (h := h) unmasked
  refine (irq_handled (irq_began unmasked) (irq_ready unmasked ready)).mono fun q back => ?_
  constructor
  · rw [back.cpsr, entered.spsr, Function.update_self]
  · rw [back.pc, entered.lr, BitVec.add_sub_cancel]
  · intro k notPc notLr notSp
    rw [back.storage k notPc, entered.storage k notPc notLr notSp]
  · intro mode other
    rw [back.spsr, entered.spsr, Function.update_of_ne other]
  · rw [back.size, entered.mem]
  · intro x out
    rw [back.cells x (by rwa [irq_sp unmasked]), entered.mem]
  · rw [back.cycleCount, entered.cycleCount]

end Interrupt

/-- Wherever a program with room on its stack is interrupted, in any mode, the handler runs through
without an exception, and but for the frame and its own bank everything is then as before. -/
theorem irq_handler_returns (h : Platform) (base : Word) (lo : Nat) (p : ArmCore)
    (unmasked : getBit p.cpsr Psr.i = false) (ready : Ready h base lo p.view) :
    ∃ q, Serviced p q ∧ ∀ junks : List Word, junks.length = 9 →
      normalRun h junks (armException h p .interrupt) = some q :=
  (irq_serviced unmasked ready).normalRun

/-- The handler and the branch to it where the linker puts them, the loop before, and r0 counting
in the loop. -/
def demoWord (a : Nat) : Word :=
  if a = 0x44 then 0xE2800001#32  -- loop: add r0, #1
  else if a = 0x48 then 0xEAFFFFFD#32  -- b loop
  else if a = 0x1018 then 0xEAFFFC18#32  -- b irq_handler
  else if 0x80 ≤ a then irqListing.getD ((a - 0x80) / 4) 0#32
  else 0#32

def demoMemory : Memory :=
  ⟨fun x => (demoWord (x.toNat / 4 * 4) >>> (8 * (x.toNat % 4))).setWidth 8, 0x20000⟩

def demoCore : ArmCore where
  registersStorage k := if k.val = 13 then 0x10000#32 else if k.val = 15 then 0x44#32 else 0#32
  spsr _ := 0#32
  cpsr := 0x10#32
  cycleCount := 0#32
  mem := demoMemory

theorem demo_installed : Installed littleEndianSimulator 0x80#32 demoMemory :=
  ⟨⟨by decide, by decide, by decide, by decide +kernel⟩, by decide, by decide +kernel,
    by decide +kernel, by decide +kernel, by decide +kernel⟩

theorem irq_handler_returns_demo : ∃ q, Serviced demoCore q ∧ ∀ junks : List Word,
    junks.length = 9 →
      normalRun littleEndianSimulator junks
        (armException littleEndianSimulator demoCore .interrupt) =
        some q :=
  irq_handler_returns littleEndianSimulator 0x80#32 0x8000 demoCore (by decide)
    ⟨demo_installed, by decide, by decide, by decide, .inl (by decide), .inl (by decide)⟩

end ArmSimulator.IrqHandler
