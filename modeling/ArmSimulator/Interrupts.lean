import ArmSimulator.FreeStack
import ArmSimulator.IrqHandler

/-! Interrupts at any time: a program that leaves the free part of its stack alone
gets through the same states whenever and however often the handler runs. -/
namespace ArmSimulator.IrqHandler
open StepFunction

/-- What the listeners do to the processor: a step for the debugger, or an interrupt. -/
inductive Happening where
  | step (junk : Word)
  | irq

namespace Happening

def perform (h : Platform) : Happening → ArmCore → Option ArmCore
  | step junk, p =>
    let r := armStep h junk p
    if r.2 = .returned .noException then some r.1 else none
  | irq, p => some (armException h p .interrupt)

def isStep : Happening → Bool
  | step _ => true
  | irq => false

end Happening

def history (h : Platform) (hs : List Happening) (p : ArmCore) : Option ArmCore :=
  hs.foldlM (fun p x => x.perform h p) p

def steps (hs : List Happening) : Nat := hs.countP Happening.isStep

def irqs (hs : List Happening) : Nat := hs.countP fun x => !x.isStep

/-- The program has `n` more steps, uses nothing free in them, and can be interrupted before and
after each. -/
def Calm (h : Platform) (be : Bool) (base : Word) (lo : Nat) : Nat → View → Prop
  | 0, v => Ready h base lo v ∧ v.pc.toNat % 4 = 0
  | n + 1, v => Ready h base lo v ∧
      ∃ w, v.step be = some w ∧ Disciplined be lo v w ∧ Calm h be base lo n w

/-- The program that began as `p` is at `v` in the core `q`, but for the free part of its stack.
Beside it only the bank of the handler has changed. -/
structure Unnoticed (lo : Nat) (v : View) (p q : ArmCore) : Prop where
  view : q.view = v.over q.mem
  covers : SameUsed lo v q.mem
  spsr : ∀ mode, mode ≠ Mode.irq → q.spsr mode = p.spsr mode
  hidden : ∀ k, (∀ r, registers (armMode p) r ≠ k) → k ≠ registers Mode.irq Reg.lr →
    k ≠ registers Mode.irq Reg.sp → q.registersStorage k = p.registersStorage k

section Program

variable {h : Platform} {be : Bool} {base : Word} {lo n : Nat} {v : View} {m : Memory}

theorem Calm.ready (calm : Calm h be base lo n v) : Ready h base lo v := by
  cases n with
  | zero => exact calm.1
  | succ n => exact calm.1

theorem Calm.aligned (calm : Calm h be base lo n v) : v.pc.toNat % 4 = 0 := by
  cases n with
  | zero => exact calm.2
  | succ n =>
    obtain ⟨_, w, taken, _⟩ := calm
    unfold View.step at taken
    split at taken
    · rename_i fetchable
      exact fetchable.1
    · contradiction

theorem Ready.over (ready : Ready h base lo v) (covers : SameUsed lo v m) :
    Ready h base lo (v.over m) := by
  have same := covers.sameOutside
  have installed := ready.installed
  have word : m.read (handlerOrder h) .word irqVector =
      v.mem.read (handlerOrder h) .word irqVector :=
    read_sameOutside same (by decide) ready.vector
  constructor
  · constructor
    · exact installed.listing.sameOutside same ready.code
    · exact same.size ▸ installed.room
    · exact word ▸ installed.always
    · exact word ▸ installed.branches
    · exact word ▸ installed.plain
    · exact word ▸ installed.target
  · exact ready.low
  · exact same.size ▸ ready.room
  · exact ready.space
  · exact ready.code
  · exact ready.vector

end Program

section Kept

variable {h : Platform} {base : Word} {lo k n : Nat} {p q r : ArmCore} {v w : View}

namespace Unnoticed

theorem refl (lo : Nat) (p : ArmCore) : Unnoticed lo p.view p p :=
  ⟨rfl, ⟨rfl, fun _ _ => rfl⟩, fun _ _ => rfl, fun _ _ _ _ => rfl⟩

variable (unnoticed : Unnoticed lo v p q)
include unnoticed

theorem cpsr : q.cpsr = v.cpsr := congrArg View.cpsr unnoticed.view

variable (low : p.view.Kept v)
include low

theorem kept : p.view.Kept q.view := by
  rw [unnoticed.view]
  exact ⟨low.cpsr, unnoticed.covers.size.trans low.size⟩

theorem step (taken : v.step (p.order h) = some w) (disciplined : Disciplined (p.order h) lo v w) :
    ∃ r, (∀ junk, armStep h junk q = (r, .returned .noException)) ∧ Unnoticed lo w p r := by
  obtain ⟨m, goes, covers⟩ := step_over unnoticed.covers taken disciplined
  rw [← unnoticed.view, ← (unnoticed.kept low).order h] at goes
  obtain ⟨r, step, view, aside⟩ := step_steps goes
  have mem : r.mem = m := congrArg View.mem view
  refine ⟨r, step, mem ▸ view, mem ▸ covers, ?_, ?_⟩
  · intro mode other
    rw [aside.spsr, unnoticed.spsr mode other]
  · intro k apart notLr notSp
    rw [aside.hidden k ((unnoticed.kept low).mode ▸ apart), unnoticed.hidden k apart notLr notSp]

theorem serviced_regs (other : armMode p ≠ Mode.irq) (aligned : v.pc.toNat % 4 = 0)
    (serviced : Serviced q r) (reg : Reg) : r.view.regs reg = v.regs reg := by
  have mode := (unnoticed.kept low).mode
  have here : armMode r = armMode q := armMode_congr serviced.cpsr
  have before : q.view.regs reg = v.regs reg := congrFun (congrArg View.regs unnoticed.view) reg
  by_cases isPc : reg = Reg.pc
  · subst isPc
    have resumed : q.view.pc = v.pc := before
    refine (view_pc r).trans (serviced.pc.trans ?_)
    rw [fetchAddress_view (by rwa [resumed]), resumed]
    rfl
  · obtain ⟨notSp, notLr⟩ := registers_other_mode Mode.irq (by decide) (armMode p) reg other isPc
    rw [← before, ArmCore.view, ArmCore.view, here, mode]
    exact serviced.storage _ (registers_ne_pc _ _ isPc) notLr notSp

theorem serviced (other : armMode p ≠ Mode.irq) (ready : Ready h base lo v)
    (aligned : v.pc.toNat % 4 = 0) (serviced : Serviced q r) : Unnoticed lo v p r := by
  have regs := funext (unnoticed.serviced_regs low other aligned serviced)
  have cpsr : r.view.cpsr = v.cpsr := serviced.cpsr.trans unnoticed.cpsr
  have sp : q.view.regs Reg.sp = v.regs Reg.sp :=
    congrFun (congrArg View.regs unnoticed.view) Reg.sp
  have room := ready.low
  have space := ready.space
  have place := ready.frame_toNat
  constructor
  · rw [View.over, ← regs, ← cpsr]
    rfl
  · refine ⟨serviced.size.trans unnoticed.covers.size, fun x used => ?_⟩
    rw [← unnoticed.covers.cells x used]
    apply serviced.cells
    unfold Free at used
    rw [sp]
    bv_omega
  · intro mode apart
    rw [serviced.spsr mode apart, unnoticed.spsr mode apart]
  · intro k apart notLr notSp
    have notPc : k ≠ 15 := fun same => apart Reg.pc ((registers_pc _).trans same.symm)
    rw [serviced.storage k notPc notLr notSp, unnoticed.hidden k apart notLr notSp]

end Unnoticed

end Kept

section Histories

/-- After `taken` steps and `asked` interrupts: `left` more steps with interrupts masked, and the
program has made `k` of its own. -/
structure Along (h : Platform) (base : Word) (lo n : Nat) (p : ArmCore) (taken asked : Nat)
    (q : ArmCore) (k served left : Nat) (v : View) : Prop where
  count : taken + left = k + 9 * served
  asked : served ≤ asked
  short : left ≤ 9
  own : k ≤ taken
  run : runs (View.step (p.order h)) k p.view = some v
  calm : Calm h (p.order h) base lo (n - k) v
  masked : Masked h (Unnoticed lo v p) left q

variable {h : Platform} {base : Word} {lo n taken asked k served left : Nat} {p q : ArmCore}
  {v : View}

theorem history_snoc (hs : List Happening) (x : Happening) :
    history h (hs ++ [x]) p = (history h hs p).bind (x.perform h) := by
  simp only [history, List.foldlM_append, List.foldlM_cons, List.foldlM_nil, bind_pure]
  rfl

theorem performed {junk : Word} {r : ArmCore}
    (step : armStep h junk q = (r, .returned .noException)) :
    (Happening.step junk).perform h q = some r := by
  rw [Happening.perform, step]
  rfl

namespace Along

variable (along : Along h base lo n p taken asked q k served left v)
include along

theorem step (more : taken < n) (junk : Word) :
    ∃ r k left w, (Happening.step junk).perform h q = some r ∧
      Along h base lo n p (taken + 1) asked r k served left w := by
  obtain ⟨count, asked, short, own, run, calm, masked⟩ := along
  cases left with
  | zero =>
    have unnoticed : Unnoticed lo v p q := masked
    obtain ⟨d, rest⟩ : ∃ d, n - k = d + 1 := ⟨n - k - 1, by omega⟩
    rw [rest] at calm
    obtain ⟨_, w, goes, disciplined, calm⟩ := calm
    obtain ⟨r, step, after⟩ := unnoticed.step (runs_kept run) goes disciplined
    have run' : runs (View.step (p.order h)) (k + 1) p.view = some w :=
      (runs_add run).trans (runs_succ 0 goes)
    refine ⟨r, k + 1, 0, w, performed (step junk), by omega, asked, by omega, by omega, run', ?_,
      after⟩
    rwa [show n - (k + 1) = d by omega]
  | succ left =>
    obtain ⟨_, r, step, masked⟩ := masked
    exact ⟨r, k, left, v, performed (step junk), by omega, asked, by omega, by omega, run, calm,
      masked⟩

theorem irq (unmasked : getBit p.cpsr Psr.i = false) (other : armMode p ≠ Mode.irq) :
    ∃ r served left, Happening.irq.perform h q = some r ∧
      Along h base lo n p taken (asked + 1) r k served left v := by
  obtain ⟨count, asked, short, own, run, calm, masked⟩ := along
  cases left with
  | zero =>
    -- between two steps of the program the interrupt is taken
    have unnoticed : Unnoticed lo v p q := masked
    have kept := runs_kept run
    have ready : Ready h base lo q.view := by
      rw [unnoticed.view]
      exact calm.ready.over unnoticed.covers
    have enabled : getBit q.cpsr Psr.i = false :=
      ((unnoticed.kept kept).bit (by decide)).trans unmasked
    refine ⟨_, served + 1, 9, rfl, by omega, by omega, by omega, own, run, calm, ?_⟩
    exact (irq_serviced enabled ready).mono fun r serviced =>
      unnoticed.serviced kept other calm.ready calm.aligned serviced
  | succ left =>
    -- in the handler interrupts are masked
    have set := masked.1
    have ignored : armException h q .interrupt = q := if_pos set
    refine ⟨q, served, left + 1, congrArg some ignored, count, by omega, short, own, run,
      calm, masked⟩

end Along

theorem history_along (unmasked : getBit p.cpsr Psr.i = false) (other : armMode p ≠ Mode.irq)
    (calm : Calm h (p.order h) base lo n p.view) (hs : List Happening) (short : steps hs ≤ n) :
    ∃ q k served left v, history h hs p = some q ∧
      Along h base lo n p (steps hs) (irqs hs) q k served left v := by
  -- from the end, since the invariant is about what has happened so far
  induction hs using List.reverseRecOn with
  | nil =>
    exact ⟨p, 0, 0, 0, p.view, rfl, rfl, Nat.le_refl 0, Nat.zero_le 9, Nat.le_refl 0, rfl, calm,
      Unnoticed.refl lo p⟩
  | append_singleton hs x ih =>
    rw [steps, List.countP_append] at short
    obtain ⟨q, k, served, left, v, reached, along⟩ := ih (Nat.le_trans (Nat.le_add_right _ _) short)
    rw [history_snoc, reached, steps, irqs, List.countP_append, List.countP_append]
    cases x with
    | step junk =>
      obtain ⟨r, k, left, w, step, along⟩ := along.step short junk
      exact ⟨r, k, served, left, w, step, along⟩
    | irq =>
      obtain ⟨r, served, left, irq, along⟩ := along.irq unmasked other
      exact ⟨r, k, served, left, v, irq, along⟩

end Histories

/-- A program in any mode but that of the handler, interrupts enabled: whatever its steps and the
interrupts are mixed to, no step raises an exception, and at each time the program is at the state
it would have come to alone, or will be after the rest of the handler, `left` steps in which no
interrupt is taken. Of the steps made all but nine for each interrupt served are the program's. -/
theorem interrupts_unnoticed (h : Platform) (base : Word) (lo n : Nat) (p : ArmCore)
    (unmasked : getBit p.cpsr Psr.i = false) (other : armMode p ≠ Mode.irq)
    (calm : Calm h (p.order h) base lo n p.view) (hs : List Happening) (short : steps hs ≤ n) :
    ∃ q k served left v, history h hs p = some q ∧ steps hs + left = k + 9 * served ∧
      k ≤ steps hs ∧ served ≤ irqs hs ∧ left ≤ 9 ∧ runs (View.step (p.order h)) k p.view = some v ∧
      Masked h (Unnoticed lo v p) left q := by
  obtain ⟨q, k, served, left, v, reached, along⟩ := history_along unmasked other calm hs short
  exact ⟨q, k, served, left, v, reached, along.count, along.own, along.asked, along.short,
    along.run, along.masked⟩

/-- `loop: add r0, #1` and `b loop`. -/
def demoLoop : List Word := [0xE2800001#32, 0xEAFFFFFD#32]

theorem demo_loaded : Loaded false demoLoop 0x44#32 demoMemory :=
  ⟨by decide, by decide, by decide, by decide +kernel⟩

theorem demo_ready {v : View} {i : Nat} (mem : v.mem = demoMemory)
    (sp : v.regs Reg.sp = 0x10000#32) :
    Ready littleEndianSimulator 0x80#32 0x8000 (v.at_ 0x44#32 i) := by
  have here : (v.at_ 0x44#32 i).regs Reg.sp = 0x10000#32 := (v.at_regs (by decide)).trans sp
  constructor
  · exact mem ▸ demo_installed
  · rw [here]
    decide
  · rw [here]
    exact mem ▸ (by decide : (0x10000#32 : Word).toNat + 4 ≤ demoMemory.size)
  · rw [here]
    decide
  · exact .inl (by decide)
  · exact .inl (by decide)

theorem demo_calm (n : Nat) {v : View} (mem : v.mem = demoMemory)
    (sp : v.regs Reg.sp = 0x10000#32) :
    Calm littleEndianSimulator false 0x80#32 0x8000 n (v.at_ 0x44#32 0) ∧
      Calm littleEndianSimulator false 0x80#32 0x8000 n (v.at_ 0x44#32 1) := by
  induction n generalizing v with
  | zero =>
    have loaded : Loaded false demoLoop 0x44#32 v.mem := mem ▸ demo_loaded
    exact ⟨⟨demo_ready mem sp, (loaded.fetchable (i := 0) (by decide)).1⟩,
      demo_ready mem sp, (loaded.fetchable (i := 1) (by decide)).1⟩
  | succ n ih =>
    have loaded : Loaded false demoLoop 0x44#32 v.mem := mem ▸ demo_loaded
    have counted : (v.set 0#4 (v.regs 0#4 + 1#32)).regs Reg.sp = v.regs Reg.sp :=
      v.set_other _ (by decide)
    have added : (v.at_ 0x44#32 0).step false =
        some ((v.set 0#4 (v.regs 0#4 + 1#32)).at_ 0x44#32 1) :=
      loaded.step_set (by decide) (by decide) rfl
    have back : (v.at_ 0x44#32 1).step false = some (v.at_ 0x44#32 0) :=
      loaded.step_jump (by decide) rfl rfl rfl rfl
    refine ⟨⟨demo_ready mem sp, _, added, ?_, ?_⟩, demo_ready mem sp, _, back, ?_, ?_⟩
    · exact loaded.disciplined (by decide) (by decide) (by decide)
        ((View.at_regs _ (by decide)).trans counted)
    · exact (ih (v := v.set 0#4 _) mem (counted.trans sp)).2
    · exact loaded.disciplined (by decide) (by decide) (by decide) (View.at_regs _ (by decide))
    · exact (ih mem sp).1

def demoHappenings : List Happening :=
  [.step 1, .step 2, .step 3, .irq, .step 4, .step 5, .irq, .step 6, .step 7, .step 8, .step 9,
    .step 10, .step 11, .step 12, .step 13]

theorem interrupts_unnoticed_demo : ∃ q k served left v,
    history littleEndianSimulator demoHappenings demoCore = some q ∧
      13 + left = k + 9 * served ∧ k ≤ 13 ∧ served ≤ 2 ∧ left ≤ 9 ∧
      runs (View.step false) k demoCore.view = some v ∧
      Masked littleEndianSimulator (Unnoticed 0x8000 v demoCore) left q := by
  have begins : demoCore.view.at_ 0x44#32 0 = demoCore.view := demoCore.view.at_self (by decide)
  have calm := (demo_calm 13 (v := demoCore.view) rfl (by decide)).1
  rw [begins] at calm
  exact interrupts_unnoticed littleEndianSimulator 0x80#32 0x8000 13 demoCore (by decide)
    (by decide) calm demoHappenings (by decide)

end ArmSimulator.IrqHandler
