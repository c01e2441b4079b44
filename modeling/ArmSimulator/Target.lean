import ArmSimulator.Continue
import ArmSimulator.ReplyBounds

/-! What a debugger is served: a processor and the exception recorded last. A request
is a step of it with a text for an answer, and the link carries the answers. The
handlers of gdb_protocol.c, with the packet they share, are such steps. -/
namespace ArmSimulator
open CString Outcomes

structure Target where
  arm : ArmCore
  recorded : ArmException

def Gdb.target (g : Gdb) : Target := ⟨g.arm, g.targetException⟩

/-- A request: what becomes of the target, and the answer if there is one. -/
abbrev Answered := Except Fault (Target × Option (List Byte))

namespace Target

variable (h : Platform) (e : Locals) (t : Target) (data : List Byte)

def stepOf (k : Nat) : Except Fault Target :=
  match armStep h (e.step k) t.arm with
  | (arm, .returned result) => .ok ⟨arm, result⟩
  | (_, .exited) => .error .exited
  | (_, .assertFailed) => .error .assertFailed

def run : Nat → Nat → Word → Target → Except Fault Target
  | 0, _, _, _ => .error .unfinished
  | fuel + 1, k, instruction, t => do
    let instruction := (armReadWord h t.arm (fetchAddress t.arm) instruction).1
    if IsBreakpoint instruction then .ok t
    else
      let t ← t.stepOf h e k
      run fuel (k + 1) instruction t

def tells (d : List Byte) : Answered := .ok (t, some d)

def stored (p : ArmCore) : Answered := tells { t with arm := p } (text "OK")

def queryText (s : List Byte) : List Byte :=
  if s = text "Offsets" then text "Text=0;Data=0;Bss=0"
  else if s.take 9 = text "Supported" then text "PacketSize=400"
  else if s = text "TStatus" then text "T0;tnotrun:0"
  else []

def readMemory : Answered := do
  let s ← stringAt data
  let fields := scanHexPair h.sizeTBits s
  let bytes := dump t.arm.mem (fields.2.getD e.size).toNat (fields.1.getD e.address)
  if bytes.length ≤ 509 then t.tells (bytes.flatMap hex2) else .error .overflow

def readRegister : Answered := do
  let s ← stringAt data
  let reg := atoi h.sizeTBits s
  if reg < 16#32 then
    let offset := if reg = 15#32 then 4#32 else 0#32
    t.tells (hexWord h (armReadRegister t.arm (reg.setWidth 4) - offset))
  else .error .assertFailed

def setThread : Answered :=
  match data with
  | [] => .error .overread
  | type :: rest => do
    let s ← stringAt rest
    let value := (atoi h.sizeTBits s).toInt
    if (type = ch 'c' ∨ type = ch 'g') ∧ value < 1 ∧ value > -2 then t.tells (text "OK")
    else t.tells (text "E01")

def writeGeneralRegisters : Answered := do
  let p ← Gdb.writeRegisters h e data (List.range 16) t.arm
  Gdb.skipWords h e (data.drop 128) 24
  Gdb.skipWords h e (data.drop 320) 1
  let value ← readUint32 h e (data.drop 328)
  t.stored (armWriteCpsr p value)

def writeMemoryBinary : Answered := do
  let s ← stringAt data
  let fields := scanHexPair h.sizeTBits s
  let address := fields.1.getD e.address
  let content := (index (ch ':') data).map List.tail
  let r ← if address.toNat < t.arm.mem.size then
      Gdb.downloadLoop h (fields.2.getD e.size).toNat content address t.arm.mem
    else .ok (t.arm.mem, false)
  let t := { t with arm := { t.arm with mem := r.1 } }
  if r.2 then t.tells (text "OK") else t.tells (text "E02")

def writeRegister : Answered := do
  let s ← stringAt data
  let reg := ((scanHex h.sizeTBits s).map Prod.fst).getD e.reg
  match index (ch '=') data with
  | none => .error .nullPointer
  | some data =>
    let value ← readUint32 h e data.tail
    if reg < 16#32 then t.stored (armWriteRegister t.arm (reg.setWidth 4) value)
    else .error .assertFailed

def request (fuel : Nat) : Option GdbHandler → Answered
  | some .cont => do
    let t ← run h e fuel 0 e.instruction t
    t.tells (stopText t.recorded)
  | some .killRequest => .ok (t, none)
  | some .query => do
    let s ← stringAt data
    t.tells (queryText s)
  | some .readGeneralRegisters => t.tells (registerBlock h t.arm)
  | some .readMemory => t.readMemory h e data
  | some .readRegister => t.readRegister h data
  | some .reason => t.tells (stopText t.recorded)
  | some .setThread => t.setThread h data
  | some .step => do
    let t ← t.stepOf h e 0
    t.tells (stopText t.recorded)
  | some .writeGeneralRegisters => t.writeGeneralRegisters h e data
  | some .writeMemoryBinary => t.writeMemoryBinary h e data
  | some .writeRegister => t.writeRegister h e data
  | none => t.tells []

end Target

/-- A link to a target: what was sent over it, and the message that is sent again on demand. -/
structure Link where
  target : Target
  calls : List GdbCall
  last : List Byte

def Gdb.link (g : Gdb) : Link := ⟨g.target, g.calls, g.packet.bytes.take g.len⟩

def Link.answered (l : Link) : Target × Option (List Byte) → Link
  | (t, some d) => ⟨t, l.calls ++ [.write (frame d)], frame d⟩
  | (t, none) => { l with target := t, calls := l.calls ++ [.shutdown] }

section Refinement

/-- `x` on the connection `g` is `y` on the link. -/
def Refines (g : Gdb) (x : Answer) (y : Answered) : Prop :=
  x.map Gdb.link = y.map g.link.answered

variable {h : Platform} {e : Locals} {g : Gdb} {data d : List Byte}

theorem Replied.refines {g' : Gdb} (replied : Replied g d g') :
    Refines g (.ok g') (g.target.tells d) := by
  apply congrArg Except.ok
  have target : g'.target = g.target := by
    rw [Gdb.target, replied.arm, replied.targetException]
    rfl
  simp only [Gdb.link, Link.answered, target, replied.calls, replied.text_eq]

theorem gdbSendData_refines (g : Gdb) (clean : 0#8 ∉ d) (short : d.length + 5 ≤ maxPacketSize) :
    Refines g (gdbSendData g d) (g.target.tells d) := by
  obtain ⟨g', sent, replied⟩ := gdbSendData_replies clean short
  exact sent ▸ replied.refines

theorem Refines.of_target {g₀ : Gdb} {x : Answer} {y : Answered} (refines : Refines g x y)
    (calls : g.calls = g₀.calls) (last : g.link.last = g₀.link.last) : Refines g₀ x y := by
  have same : g.link.answered = g₀.link.answered := by
    funext r
    rcases r with ⟨t, _ | d⟩
    · simp only [Link.answered, last, Link.mk.injEq, true_and, and_true]
      exact congrArg (· ++ _) calls
    · simp only [Link.answered, Link.mk.injEq, true_and, and_true]
      exact congrArg (· ++ _) calls
  rw [Refines, ← same]
  exact refines

theorem Refines.bind {α : Type} (x : Except Fault α) {f : α → Answer} {k : α → Answered}
    (next : ∀ a, Refines g (f a) (k a)) : Refines g (x >>= f) (x >>= k) := by
  cases x with
  | error fault => rfl
  | ok a => exact next a

theorem Refines.error (fault : Fault) : Refines g (.error fault) (.error fault) := rfl

theorem Refines.ite {p : Prop} [Decidable p] {x x' : Answer} {y y' : Answered}
    (yes : p → Refines g x y) (no : ¬p → Refines g x' y') :
    Refines g (if p then x else x') (if p then y else y') := by
  split
  · exact yes ‹_›
  · exact no ‹_›

section Handlers

variable (h e g)

theorem gdbSendStopReason_refines :
    Refines g (gdbSendStopReason g) (g.target.tells (stopText g.target.recorded)) := by
  obtain ⟨g', sent, replied⟩ := gdbSendStopReason_replies g
  exact sent ▸ replied.refines

def Gdb.moved (t : Target) : Gdb := { g with arm := t.arm, targetException := t.recorded }

theorem armStepOf_eq (k : Nat) :
    g.armStepOf h e k = (g.target.stepOf h e k).map g.moved := by
  rw [Gdb.armStepOf, Target.stepOf, Gdb.target]
  rcases armStep h (e.step k) g.arm with ⟨arm, _ | _ | _⟩ <;> rfl

theorem stopReason_moved (t : Target) :
    Refines g (gdbSendStopReason (g.moved t)) (t.tells (stopText t.recorded)) :=
  (gdbSendStopReason_refines (g.moved t)).of_target rfl rfl

theorem contLoop_refines (fuel k : Nat) (instruction : Word) (t : Target) :
    Refines g (Gdb.contLoop h e fuel k instruction (g.moved t)) (do
      let t ← Target.run h e fuel k instruction t
      t.tells (stopText t.recorded)) := by
  induction fuel generalizing k instruction t with
  | zero => rfl
  | succ fuel ih =>
    simp only [Gdb.contLoop, Target.run]
    by_cases stops : IsBreakpoint (armReadWord h t.arm (fetchAddress t.arm) instruction).1
    · rw [if_pos stops]
      exact (if_pos stops).symm ▸ stopReason_moved g t
    · rw [if_neg stops]
      have goes := armStepOf_eq h e (g.moved t) k
      refine (if_neg stops).symm ▸ ?_
      rw [goes]
      cases stepped : t.stepOf h e k with
      | error fault =>
        have same : (g.moved t).target.stepOf h e k = .error fault := stepped
        rw [same]
        rfl
      | ok t' =>
        have same : (g.moved t).target.stepOf h e k = .ok t' := stepped
        rw [same]
        exact ih (k + 1) _ t'

theorem step_refines : Refines g (g.step h e) (do
    let t ← g.target.stepOf h e 0
    t.tells (stopText t.recorded)) := by
  rw [Gdb.step, armStepOf_eq]
  cases g.target.stepOf h e 0 with
  | error fault => rfl
  | ok t => exact stopReason_moved g t

variable (data)

theorem query_refines : Refines g (g.query data) (do
    let s ← stringAt data
    g.target.tells (Target.queryText s)) := by
  refine Refines.bind _ fun s => ?_
  simp only [Target.queryText]
  split_ifs <;> exact gdbSendData_refines g (by decide) (by decide)

theorem readMemory_refines : Refines g (g.readMemory h e data) (g.target.readMemory h e data) := by
  cases string : stringAt data with
  | error fault =>
    simp only [Gdb.readMemory, Target.readMemory, string]
    rfl
  | ok s =>
    have bytes : g.target.readMemory h e data =
        if (dumpRequest h e g s).length ≤ 509 then
          g.target.tells ((dumpRequest h e g s).flatMap hex2) else .error .overflow := by
      rw [Target.readMemory, string]
      rfl
    rw [bytes]
    split
    · rename_i short
      obtain ⟨g', sent, replied⟩ := readMemory_replies h e g string short
      exact sent ▸ replied.refines
    · rename_i long
      rw [readMemory_overflows h e g string (Nat.lt_of_not_le long)]
      exact .error _

theorem readRegister_refines :
    Refines g (g.readRegister h data) (g.target.readRegister h data) := by
  refine Refines.bind _ fun s => .ite (fun _ => ?_) fun _ => .error _
  obtain ⟨g', sent, replied⟩ := writeUint32_replies h g (armReadRegister g.arm
    ((atoi h.sizeTBits s).setWidth 4) - if atoi h.sizeTBits s = 15#32 then 4#32 else 0#32)
  exact sent ▸ replied.refines

theorem setThread_refines : Refines g (g.setThread h data) (g.target.setThread h data) := by
  cases data with
  | nil => exact .error _
  | cons type rest =>
    refine Refines.bind _ fun s => .ite (fun _ => ?_) fun _ => ?_
    · exact gdbSendData_refines g (by decide) (by decide)
    · exact gdbSendData_refines g (by decide) (by decide)

theorem stored_refines (p : ArmCore) (clean : 0#8 ∉ d) (short : d.length + 5 ≤ maxPacketSize) :
    Refines g (gdbSendData { g with arm := p } d) ({ g.target with arm := p }.tells d) :=
  (gdbSendData_refines { g with arm := p } clean short).of_target rfl rfl

theorem writeGeneralRegisters_refines :
    Refines g (g.writeGeneralRegisters h e data) (g.target.writeGeneralRegisters h e data) := by
  refine Refines.bind _ fun p => Refines.bind _ fun _ => Refines.bind _ fun _ =>
    Refines.bind _ fun value => ?_
  exact stored_refines g _ (by decide) (by decide)

theorem writeMemoryBinary_refines :
    Refines g (g.writeMemoryBinary h e data) (g.target.writeMemoryBinary h e data) := by
  have written (r : Memory × Bool) : Refines g
      (if r.2 then gdbSendData { g with arm := { g.arm with mem := r.1 } } (text "OK")
        else gdbSendData { g with arm := { g.arm with mem := r.1 } } (text "E02"))
      (if r.2 then { g.target with arm := { g.arm with mem := r.1 } }.tells (text "OK")
        else { g.target with arm := { g.arm with mem := r.1 } }.tells (text "E02")) :=
    .ite (fun _ => stored_refines g _ (by decide) (by decide)) fun _ =>
      stored_refines g _ (by decide) (by decide)
  refine Refines.bind _ fun s => .ite (fun _ => ?_) fun _ => ?_
  · exact Refines.bind _ written
  · exact Refines.bind _ written

theorem writeRegister_refines :
    Refines g (g.writeRegister h e data) (g.target.writeRegister h e data) := by
  refine Refines.bind _ fun s => ?_
  cases index (ch '=') data with
  | none => exact .error _
  | some value =>
    refine Refines.bind _ fun value => .ite (fun _ => ?_) fun _ => .error _
    exact stored_refines g _ (by decide) (by decide)

end Handlers

/-- Whatever the letter of a request, what the code does with its packet is the request. -/
theorem gdbDispatch_refines (h : Platform) (e : Locals) (fuel : Nat) (g : Gdb) (index : Byte)
    (data : List Byte) : Refines g (gdbDispatch h e fuel g index data)
      (g.target.request h e data fuel (gdbHandlers.lookup index)) := by
  unfold gdbDispatch
  cases gdbHandlers.lookup index with
  | none => exact gdbSendData_refines g (by decide) (by decide)
  | some handler =>
    cases handler with
    | cont => exact contLoop_refines h e g fuel 0 e.instruction g.target
    | killRequest => rfl
    | query => exact query_refines g data
    | readGeneralRegisters =>
      obtain ⟨g', sent, replied⟩ := readGeneralRegisters_replies h g
      exact (congrArg (Except.map Gdb.link) sent).trans replied.refines
    | readMemory => exact readMemory_refines h e g data
    | readRegister => exact readRegister_refines h g data
    | reason => exact gdbSendStopReason_refines g
    | setThread => exact setThread_refines h g data
    | step => exact step_refines h e g
    | writeGeneralRegisters => exact writeGeneralRegisters_refines h e g data
    | writeMemoryBinary => exact writeMemoryBinary_refines h e g data
    | writeRegister => exact writeRegister_refines h e g data

theorem link_target (x : Answer) : (x.map Gdb.link).map Link.target = x.map Gdb.target := by
  cases x <;> rfl

theorem answered_target (l : Link) (y : Answered) :
    (y.map l.answered).map Link.target = y.map Prod.fst := by
  rcases y with fault | ⟨t, _ | d⟩ <;> rfl

theorem gdbDispatch_target (h : Platform) (e : Locals) (fuel : Nat) (g : Gdb) (index : Byte)
    (data : List Byte) : (gdbDispatch h e fuel g index data).map Gdb.target =
      (g.target.request h e data fuel (gdbHandlers.lookup index)).map Prod.fst := by
  rw [← link_target, gdbDispatch_refines, answered_target]

@[simp] theorem answered_fst (l : Link) (r : Target × Option (List Byte)) :
    (l.answered r).target = r.1 := by
  rcases r with ⟨t, _ | d⟩ <;> rfl

theorem request_of_dispatch {h : Platform} {e : Locals} {fuel : Nat} {g g' : Gdb} {index : Byte}
    {data : List Byte} (done : gdbDispatch h e fuel g index data = .ok g') :
    ∃ r, g.target.request h e data fuel (gdbHandlers.lookup index) = .ok r ∧
      g'.link = g.link.answered r := by
  have refines := gdbDispatch_refines h e fuel g index data
  rw [done] at refines
  unfold Refines at refines
  cases answered : g.target.request h e data fuel (gdbHandlers.lookup index) with
  | error fault =>
    rw [answered] at refines
    cases refines
  | ok r =>
    rw [answered] at refines
    exact ⟨r, rfl, Except.ok.inj refines⟩

end Refinement

section Answers

variable {h : Platform} {e : Locals} {t : Target} {data d : List Byte}

def Framable (d : List Byte) : Prop := ∀ b ∈ d, b ≠ ch '$' ∧ b ≠ ch '#'

instance (d : List Byte) : Decidable (Framable d) := inferInstanceAs (Decidable (∀ b ∈ d, _))

def Framed (y : Answered) : Prop :=
  Ends y (fun _ => True) fun r => ∃ d, r.2 = some d ∧ Framable d

theorem framable_digits (digits : ∀ b ∈ d, isDigit 16 b = true) : Framable d := fun b inside =>
  ⟨digit_ne (digits b inside) (by decide), digit_ne (digits b inside) (by decide)⟩

theorem Framable.append {d' : List Byte} (first : Framable d) (second : Framable d') :
    Framable (d ++ d') := by
  intro b inside
  rcases List.mem_append.mp inside with before | after
  · exact first b before
  · exact second b after

theorem framable_registerBlock (h : Platform) (p : ArmCore) : Framable (registerBlock h p) := by
  have general : Framable ((Gdb.generalRegisters p).flatMap (hexWord h)) := by
    apply framable_digits
    intro b inside
    obtain ⟨value, _, here⟩ := List.mem_flatMap.mp inside
    exact isDigit_hexWord h value b here
  have unknown : Framable (List.replicate 200 (ch 'x')) := by
    intro b inside
    rw [List.eq_of_mem_replicate inside]
    decide
  exact (general.append unknown).append (framable_digits (isDigit_hexWord h _))

theorem framed_tells (framable : Framable d) : Framed (t.tells d) := ⟨d, rfl, framable⟩

theorem Framed.bind {α : Type} (x : Except Fault α) {k : α → Answered}
    (next : ∀ a, Framed (k a)) : Framed (x >>= k) := by
  have returned : Ends x (fun _ => True) fun _ => True := by cases x <;> trivial
  exact returned.bind fun a _ => next a

theorem Framed.error (fault : Fault) : Framed (.error fault) := trivial

theorem Framed.ite {p : Prop} [Decidable p] {y y' : Answered} (yes : Framed y) (no : Framed y') :
    Framed (if p then y else y') := by
  split
  · exact yes
  · exact no

theorem framable_stopText (recorded : ArmException) : Framable (stopText recorded) := by
  have texts : Framable (text "S04") ∧ Framable (text "S10") ∧ Framable (text "S05") := by
    decide +kernel
  obtain ⟨undefined, abort, trap⟩ := texts
  cases recorded with
  | undefinedInstruction => exact undefined
  | prefetchAbort => exact abort
  | dataAbort => exact abort
  | _ => exact trap

theorem framable_queryText (s : List Byte) : Framable (Target.queryText s) := by
  have texts : Framable (text "Text=0;Data=0;Bss=0") ∧ Framable (text "PacketSize=400") ∧
      Framable (text "T0;tnotrun:0") := by
    decide +kernel
  obtain ⟨offsets, supported, status⟩ := texts
  unfold Target.queryText
  split_ifs
  · exact offsets
  · exact supported
  · exact status
  · exact fun b inside => absurd inside List.not_mem_nil

theorem framed_ok : Framed (t.tells (text "OK")) := framed_tells (by decide +kernel)

theorem framed_refused : Framed (t.tells (text "E01")) ∧ Framed (t.tells (text "E02")) :=
  ⟨framed_tells (by decide +kernel), framed_tells (by decide +kernel)⟩

theorem framed_request (fuel : Nat) {handler : Option GdbHandler}
    (other : handler ≠ some .killRequest) : Framed (t.request h e data fuel handler) := by
  cases handler with
  | none => exact framed_tells fun b inside => absurd inside List.not_mem_nil
  | some handler =>
    cases handler with
    | cont => exact .bind _ fun t => framed_tells (framable_stopText t.recorded)
    | killRequest => contradiction
    | query => exact .bind _ fun s => framed_tells (framable_queryText s)
    | readGeneralRegisters => exact framed_tells (framable_registerBlock h t.arm)
    | readMemory =>
      refine .bind _ fun s => .ite (framed_tells ?_) (.error _)
      exact framable_digits (isDigit_flatMap_hex2 _ _)
    | readRegister =>
      exact .bind _ fun s => .ite (framed_tells (framable_digits (isDigit_hexWord h _))) (.error _)
    | reason => exact framed_tells (framable_stopText t.recorded)
    | setThread =>
      cases data with
      | nil => exact .error _
      | cons type rest => exact .bind _ fun s => .ite framed_ok framed_refused.1
    | step => exact .bind _ fun t => framed_tells (framable_stopText t.recorded)
    | writeGeneralRegisters =>
      exact .bind _ fun p => .bind _ fun _ => .bind _ fun _ => .bind _ fun value => framed_ok
    | writeMemoryBinary =>
      refine .bind _ fun s => .ite ?_ ?_
      · exact .bind _ fun r => .ite framed_ok framed_refused.2
      · exact .bind _ fun r => .ite framed_ok framed_refused.2
    | writeRegister =>
      refine .bind _ fun s => ?_
      cases index (ch '=') data with
      | none => exact .error _
      | some value => exact .bind _ fun value => .ite framed_ok (.error _)

end Answers

end ArmSimulator
