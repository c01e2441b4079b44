import ArmSimulator.Connection
import ArmSimulator.Library.Mutex
import ArmSimulator.Library.Runs

/-! The two threads of arm_simulator.c. `gdb_listener` runs the scanner and `irq_listener` takes
interrupts; the processor is shared, and the lock is held by a handler from its start to its end
and by each interrupt. -/
namespace ArmSimulator
open CString Mutex

inductive Listener where
  | gdb
  | irq
deriving DecidableEq

/-- What `gdb_listener` does not share: the connection without the processor. -/
structure Session where
  targetException : ArmException
  calls : List GdbCall
  packet : Packet
  len : Nat

def Session.on (s : Session) (p : ArmCore) : Gdb :=
  ⟨p, s.targetException, s.calls, s.packet, s.len⟩

def Gdb.session (g : Gdb) : Session := ⟨g.targetException, g.calls, g.packet, g.len⟩

def Own : Listener → Type
  | .gdb => Session
  | .irq => Unit

abbrev LockedStep := ArmCore × Session → Option (ArmCore × Session)

def Gdb.parts (g : Gdb) : ArmCore × Session := (g.arm, g.session)

/-- The steps of the handlers, whatever they are: in order they come to what the handler does. -/
structure Cutting (h : Platform) where
  steps : GdbHandler → List Byte → Locals → Nat → List LockedStep
  whole : ∀ handler data e fuel p s, runSteps (steps handler data e fuel) (p, s) =
    (handler.run h e fuel (Session.on s p) data).toOption.map Gdb.parts

def alone (f : Gdb → Answer) (s : Session) : Option Session :=
  (f (s.on ⟨fun _ => 0#32, fun _ => 0#32, 0#32, 0#32, ⟨fun _ => 0#8, 0⟩⟩)).toOption.map Gdb.session

/-- A call of the scanner goes on unless it would have to write behind a shutdown. -/
def Received.staying (r : Received) (f : Gdb → Answer) (g : Gdb) : Answer :=
  if (Event.received r).exits (hungUp g.calls) (decide (0 < g.len)) then .error .exited else f g

section Threads

variable {h : Platform} (cut : Cutting h)

def handlerBlock (index : Byte) (data : List Byte) (e : Locals) (fuel : Nat) :
    Block ArmCore Session :=
  match gdbHandlers.lookup index with
  | some handler => .locked (cut.steps handler data e fuel)
  | none => .own (alone fun g => gdbSendData g [])

def messageBlocks (r : Received) : Message → List (Block ArmCore Session)
  | .damaged => [.own (alone (r.staying fun g => .ok (gdbRequireRetransmission g)))]
  | .resend => [.own (alone (r.staying fun g => .ok (gdbTransmitPacket g)))]
  | .request index data e fuel =>
    [.own (alone (r.staying fun g => .ok (gdbSendAck g))), handlerBlock cut index data e fuel]
  | _ => [.own (alone (r.staying .ok))]

def Received.blocks (r : Received) : List (Block ArmCore Session) :=
  match r.message h with
  | .ok m => messageBlocks cut r m
  | .error _ => [.own fun _ => none]

def irqBlock (h : Platform) (byte : Byte) : Block ArmCore Unit :=
  .locked [fun x => some (armException h x.1 (exceptionOf byte), x.2)]

def server (rs : List Received) (irqs : List Byte) (g : Gdb) : Threads Listener ArmCore Own where
  shared := g.arm
  own
    | .gdb => g.session
    | .irq => ()
  todo
    | .gdb => rs.flatMap (Received.blocks cut)
    | .irq => irqs.map (irqBlock h)
  holder := none

end Threads

section Alone

def Gdb.withArm (g : Gdb) (p : ArmCore) : Gdb := { g with arm := p }

variable {g : Gdb} (p : ArmCore)

theorem put_withArm (pos : Nat) (bs : List Byte) :
    (g.withArm p).put pos bs = (g.put pos bs).map fun g => g.withArm p := by
  unfold Gdb.put
  split
  · rfl
  · rfl

theorem bind_withArm {x x' : Answer} {f : Gdb → Answer}
    (same : x' = x.map fun g => g.withArm p)
    (next : ∀ g, f (g.withArm p) = (f g).map fun g => g.withArm p) :
    x' >>= f = (x >>= f).map fun g => g.withArm p := by
  rw [same]
  cases x with
  | error fault => rfl
  | ok g => exact next g

theorem gdbSendBuffer_withArm :
    gdbSendBuffer (g.withArm p) = (gdbSendBuffer g).map fun g => g.withArm p := by
  refine bind_withArm p (put_withArm p _ _) fun g => ?_
  have same : (g.withArm p).packet.bytes = g.packet.bytes := rfl
  rw [same]
  rcases checkLoop (g.packet.bytes.drop 1) 0#8 1 with _ | ⟨check, i⟩
  · rfl
  · refine bind_withArm p (put_withArm p _ _) fun g => ?_
    refine bind_withArm p (put_withArm p _ _) fun g => ?_
    exact bind_withArm p (put_withArm p _ _) fun g => rfl

theorem gdbSendData_withArm (d : List Byte) :
    gdbSendData (g.withArm p) d = (gdbSendData g d).map fun g => g.withArm p :=
  bind_withArm p (put_withArm p _ _) fun _ => gdbSendBuffer_withArm p

theorem staying_withArm (r : Received) {f : Gdb → Answer}
    (apart : f (g.withArm p) = (f g).map fun g => g.withArm p) :
    r.staying f (g.withArm p) = (r.staying f g).map fun g => g.withArm p := by
  unfold Received.staying
  have calls : (g.withArm p).calls = g.calls := rfl
  have len : (g.withArm p).len = g.len := rfl
  rw [calls, len]
  split
  · rfl
  · exact apart

theorem alone_eq {f : Gdb → Answer}
    (apart : ∀ g p, f (g.withArm p) = (f g).map fun g => g.withArm p) {g : Gdb} {o : Session}
    (taken : alone f g.session = some o) : f g = .ok (o.on g.arm) := by
  unfold alone at taken
  generalize here : g.session.on ⟨fun _ => 0#32, fun _ => 0#32, 0#32, 0#32, ⟨fun _ => 0#8, 0⟩⟩ = g₀
    at taken
  have same : g = g₀.withArm g.arm := by
    rw [← here]
    rfl
  rw [same, apart]
  cases result : f g₀ with
  | error fault =>
    rw [result] at taken
    cases taken
  | ok g' =>
    rw [result] at taken
    cases taken
    rfl

end Alone

section Serial

variable {h : Platform} {cut : Cutting h}

def Gdb.meets (h : Platform) (g : Gdb) : Message → Answer
  | .damaged => .ok (gdbRequireRetransmission g)
  | .resend => .ok (gdbTransmitPacket g)
  | .request index data e fuel => gdbDispatch h e fuel (gdbSendAck g) index data
  | _ => .ok g

theorem received_meets (r : Received) (g : Gdb) :
    r.perform h g = (r.message h).bind (g.meets h) := by
  rcases r with ⟨call, e, fuel, following⟩
  cases call with
  | packetAnalysis yytext yyleng =>
    simp only [Received.perform, Received.message, gdbPacketAnalysis_examine]
    rcases examine h e (yytext ++ 0#8 :: following) yyleng with fault | _ | ⟨index, data⟩
    all_goals rfl
  | _ => rfl

theorem perform_staying {r : Received} {m : Message} (message : r.message h = .ok m) (g : Gdb) :
    (Event.received r).perform h g = r.staying (fun g => g.meets h m) g := by
  have performs : r.perform h g = g.meets h m := by
    rw [received_meets, message]
    rfl
  rw [Event.perform, Event.goesOn, performs]
  rfl

theorem staying_ok {r : Received} {f : Gdb → Answer} {g g' : Gdb}
    (stayed : r.staying f g = .ok g') :
    (Event.received r).exits (hungUp g.calls) (decide (0 < g.len)) = false ∧ f g = .ok g' := by
  unfold Received.staying at stayed
  split at stayed
  · cases stayed
  · rename_i stays
    exact ⟨Bool.eq_false_iff.mpr stays, stayed⟩

theorem serve_snoc {events : List Event} {g g' : Gdb} (ran : serve h events g = .ok g')
    (event : Event) : serve h (events ++ [event]) g = event.perform h g' := by
  rw [serve, List.foldlM_append]
  refine (congrArg (Except.bind · _) ran).trans ?_
  exact bind_pure (event.perform h g')

/-- Where `gdb_listener` is when `rest` is still to be called: before the next call, or between
the acknowledgement of a request and the lock. -/
inductive GdbAt (cut : Cutting h) (rest : List Received) (g : Gdb) (own : Session)
    (todo : List (Block ArmCore Session)) : Prop
  | ready (here : own = g.session) (next : todo = rest.flatMap (Received.blocks cut))
  | acknowledged {r later index data e fuel} (first : rest = r :: later)
      (message : r.message h = .ok (.request index data e fuel))
      (stays : (Event.received r).exits (hungUp g.calls) (decide (0 < g.len)) = false)
      (here : own = (gdbSendAck g).session)
      (next : todo = handlerBlock cut index data e fuel :: later.flatMap (Received.blocks cut))

theorem GdbAt.interrupted {cut : Cutting h} {rest : List Received} {g : Gdb} {own : Session}
    {todo : List (Block ArmCore Session)} (place : GdbAt cut rest g own todo) (p : ArmCore) :
    GdbAt cut rest { g with arm := p } own todo := by
  cases place with
  | ready here next => exact .ready here next
  | acknowledged first message stays here next => exact .acknowledged first message stays here next

/-- The threads are where serving some of the calls and interrupts, one at a time, takes them. -/
structure Served (cut : Cutting h) (rs : List Received) (irqs : List Byte) (g₀ : Gdb)
    (c : Threads Listener ArmCore Own) (events : List Event) (g : Gdb) (rest : List Received)
    (left : List Byte) : Prop where
  calls : events.filterMap Event.call ++ rest = rs
  interrupts : events.filterMap Event.irqByte ++ left = irqs
  served : serve h events g₀ = .ok g
  shared : c.shared = g.arm
  waiting : c.todo .irq = left.map (irqBlock h)
  place : GdbAt cut rest g (c.own .gdb) (c.todo .gdb)

def Reached (cut : Cutting h) (rs : List Received) (irqs : List Byte) (g₀ : Gdb)
    (c : Threads Listener ArmCore Own) : Prop :=
  ∃ events g rest left, Served cut rs irqs g₀ c events g rest left

variable {rest : List Received} {left : List Byte} {g : Gdb} {own o : Session} {p : ArmCore}
  {todo : List (Block ArmCore Session)} {events : List Event} {rs : List Received}
  {irqs : List Byte}
  {g₀ : Gdb} {c c' : Threads Listener ArmCore Own}

theorem ready_message {r : Received} {later : List Received}
    {b : Block ArmCore Session} (next : b :: todo = (r :: later).flatMap (Received.blocks cut)) :
    (∃ m, r.message h = .ok m ∧
      b :: todo = messageBlocks cut r m ++ later.flatMap (Received.blocks cut)) ∨
      b = .own fun _ => none := by
  rw [List.flatMap_cons, Received.blocks] at next
  cases message : r.message h with
  | error fault =>
    rw [message] at next
    exact .inr (List.cons.inj next).1
  | ok m =>
    rw [message] at next
    exact .inl ⟨m, rfl, next⟩

theorem GdbAt.outside {step : Session → Option Session}
    (place : GdbAt cut rest g own (.own step :: todo)) (taken : step own = some o) :
    GdbAt cut rest g o todo ∨ ∃ r rest' g', rest = r :: rest' ∧
      (Event.received r).perform h g = .ok g' ∧ g'.arm = g.arm ∧ GdbAt cut rest' g' o todo := by
  cases place with
  | ready here next =>
    subst here
    cases rest with
    | nil => cases next
    | cons r later =>
      rcases ready_message next with ⟨m, message, blocks⟩ | stuck
      · have performs := perform_staying message g
        cases m with
        | request index data e fuel =>
          cases blocks
          have acknowledged := alone_eq (fun _ p => staying_withArm p r rfl) taken
          obtain ⟨stays, sent⟩ := staying_ok acknowledged
          have here : o = (gdbSendAck g).session :=
            (congrArg Gdb.session (Except.ok.inj sent)).symm
          -- only the acknowledgement has been sent, the request is still to be met
          exact .inl (.acknowledged rfl message stays here rfl)
        | _ =>
          cases blocks
          have done := alone_eq (fun _ p => staying_withArm p r rfl) taken
          exact .inr ⟨r, later, _, rfl, performs.trans done, rfl, .ready rfl rfl⟩
      · cases stuck
        cases taken
  | @acknowledged r later index data e fuel first message stays here next =>
    subst first here
    obtain ⟨block, rfl⟩ := List.cons.inj next
    unfold handlerBlock at block
    cases letter : gdbHandlers.lookup index with
    | some handler =>
      rw [letter] at block
      cases block
    | none =>
      rw [letter] at block
      cases block
      -- no handler: the empty reply is sent without the lock
      have done := alone_eq (fun _ p => gdbSendData_withArm p []) taken
      have performs : (Event.received r).perform h g = gdbSendData (gdbSendAck g) [] := by
        rw [perform_staying message, Received.staying, stays]
        simp only [Bool.false_eq_true, if_false, Gdb.meets, gdbDispatch, letter]
      exact .inr ⟨r, later, _, rfl, performs.trans done, rfl, .ready rfl rfl⟩

theorem GdbAt.underLock {steps : List LockedStep}
    (place : GdbAt cut rest g own (.locked steps :: todo))
    (taken : runSteps steps (g.arm, own) = some (p, o)) :
    ∃ r rest' g', rest = r :: rest' ∧ (Event.received r).perform h g = .ok g' ∧ g'.arm = p ∧
      GdbAt cut rest' g' o todo := by
  cases place with
  | ready here next =>
    cases rest with
    | nil => cases next
    | cons r later =>
      rcases ready_message next with ⟨m, message, blocks⟩ | stuck
      · cases m <;> cases blocks
      · cases stuck
  | @acknowledged r later index data e fuel first message stays here next =>
    subst first here
    obtain ⟨block, rfl⟩ := List.cons.inj next
    unfold handlerBlock at block
    cases letter : gdbHandlers.lookup index with
    | none =>
      rw [letter] at block
      cases block
    | some handler =>
      rw [letter] at block
      cases block
      rw [cut.whole] at taken
      have performs : (Event.received r).perform h g =
          handler.run h e fuel ((gdbSendAck g).session.on g.arm) data := by
        rw [perform_staying message, Received.staying, stays]
        simp only [Bool.false_eq_true, if_false, Gdb.meets, gdbDispatch, letter]
        rfl
      cases ended : handler.run h e fuel ((gdbSendAck g).session.on g.arm) data with
      | error fault =>
        rw [ended] at taken
        cases taken
      | ok g' =>
        rw [ended] at taken
        cases taken
        exact ⟨r, later, g', rfl, performs.trans ended, rfl, .ready rfl rfl⟩

theorem Served.serial (served : Served cut rs irqs g₀ c events g rest left) (step : Serial c c') :
    Reached cut rs irqs g₀ c' := by
  obtain ⟨calls, interrupts, ran, shared, waiting, place⟩ := served
  cases step with
  | @own i f todo o next taken =>
    cases i with
    | irq =>
      -- `irq_listener` has nothing but locked blocks
      rw [waiting] at next
      cases left with
      | nil => cases next
      | cons byte left => cases (List.cons.inj next).1
    | gdb =>
      rw [next] at place
      have others : ((c.goOn Listener.gdb todo).update .gdb c.shared o).todo .irq = c.todo .irq :=
        c.goOn_other .gdb todo (show Listener.irq ≠ .gdb by decide)
      rcases place.outside taken with still | ⟨r, rest', g', rfl, performed, arm, place'⟩
      · refine ⟨events, g, rest, left, calls, interrupts, ran, shared, others.trans waiting, ?_⟩
        rwa [Threads.update_own, Threads.update_todo, Threads.goOn_todo]
      · refine ⟨events ++ [.received r], g', rest', left, ?_, ?_, ?_, ?_, others.trans waiting, ?_⟩
        · rw [← calls]
          simp [Event.call]
        · rw [← interrupts]
          simp [Event.irqByte]
        · exact (serve_snoc ran _).trans performed
        · exact shared.trans arm.symm
        · rwa [Threads.update_own, Threads.update_todo, Threads.goOn_todo]
  | @locked i steps todo s o next taken =>
    cases i with
    | irq =>
      rw [waiting] at next
      cases left with
      | nil => cases next
      | cons byte left =>
        obtain ⟨block, rfl⟩ := List.cons.inj next
        cases block
        cases taken
        have apart : Listener.gdb ≠ .irq := by decide
        refine ⟨events ++ [.irq byte], { g with arm := armException h g.arm (exceptionOf byte) },
          rest, left, ?_, ?_, ?_, ?_, ?_, ?_⟩
        · rw [← calls]
          simp [Event.call]
        · rw [← interrupts]
          simp [Event.irqByte]
        · exact serve_snoc ran _
        · exact congrArg (fun p => armException h p (exceptionOf byte)) shared
        · exact c.goOn_todo .irq _
        · have own := (c.goOn .irq (left.map (irqBlock h))).update_other .irq
            (armException h c.shared (exceptionOf byte)) (c.own .irq) apart
          have todo := c.goOn_other .irq (left.map (irqBlock h)) apart
          exact own.symm ▸ todo.symm ▸ place.interrupted _
    | gdb =>
      rw [next] at place
      have others : ((c.goOn Listener.gdb todo).update .gdb s o).todo .irq = c.todo .irq :=
        c.goOn_other .gdb todo (show Listener.irq ≠ .gdb by decide)
      rw [shared] at taken
      obtain ⟨r, rest', g', rfl, performed, rfl, place'⟩ := place.underLock taken
      refine ⟨events ++ [.received r], g', rest', left, ?_, ?_, ?_, rfl, others.trans waiting, ?_⟩
      · rw [← calls]
        simp [Event.call]
      · rw [← interrupts]
        simp [Event.irqByte]
      · exact (serve_snoc ran _).trans performed
      · rwa [Threads.update_own, Threads.update_todo, Threads.goOn_todo]

theorem Reached.run (reached : Reached cut rs irqs g₀ c)
    (run : Relation.ReflTransGen Serial c c') : Reached cut rs irqs g₀ c' := by
  have preserves : ∀ s t, Serial s t → Reached cut rs irqs g₀ s → Reached cut rs irqs g₀ t := by
    rintro s t step ⟨_, _, _, _, served⟩
    exact served.serial step
  exact Runs.invariant preserves reached run

theorem reached_server (cut : Cutting h) (rs : List Received) (irqs : List Byte) (g : Gdb) :
    Reached cut rs irqs g (server cut rs irqs g) :=
  ⟨[], g, rs, irqs, rfl, rfl, rfl, rfl, rfl, .ready rfl rfl⟩

theorem GdbAt.done (place : GdbAt cut rest g own todo) (empty : todo = []) :
    rest = [] ∧ own = g.session := by
  subst empty
  cases place with
  | acknowledged first message stays here next => cases next
  | ready here next =>
    refine ⟨?_, here⟩
    cases rest with
    | nil => rfl
    | cons r later =>
      have blocks : r.blocks cut = [] := (List.append_eq_nil_iff.mp next.symm).1
      unfold Received.blocks at blocks
      split at blocks
      · rename_i m _
        cases m <;> cases blocks
      · cases blocks

end Serial

/-- Whatever the interleaving of the two threads, and whatever the steps of the handlers: whenever
the lock is free, the processor is what some of the calls and interrupts make of it, done whole and
one after the other, each kind in its order, and so is the connection, but for the acknowledgement
of a request whose turn is still to come. When the threads are done, all were served. -/
theorem listeners_serialised (h : Platform) (cut : Cutting h) (rs : List Received)
    (irqs : List Byte) (g₀ : Gdb) (c : Threads Listener ArmCore Own)
    (run : Relation.ReflTransGen Step (server cut rs irqs g₀) c) (free : c.holder = none) :
    ∃ events g, serve h events g₀ = .ok g ∧ c.shared = g.arm ∧
      events.filterMap Event.call <+: rs ∧ events.filterMap Event.irqByte <+: irqs ∧
      (c.own .gdb = g.session ∨ c.own .gdb = (gdbSendAck g).session) ∧
      (c.todo .gdb = [] → c.todo .irq = [] → events.filterMap Event.call = rs ∧
        events.filterMap Event.irqByte = irqs ∧ c.own .gdb = g.session) := by
  obtain ⟨events, g, rest, left, calls, interrupts, ran, shared, waiting, place⟩ :=
    (reached_server cut rs irqs g₀).run (serialised run rfl free)
  refine ⟨events, g, ran, shared, ⟨rest, calls⟩, ⟨left, interrupts⟩, ?_, ?_⟩
  · cases place with
    | ready here next => exact .inl here
    | acknowledged first message stays here next => exact .inr here
  · intro gdb irq
    obtain ⟨rfl, here⟩ := place.done gdb
    rw [irq] at waiting
    obtain rfl := List.map_eq_nil_iff.mp waiting.symm
    exact ⟨(List.append_nil _).symm.trans calls, (List.append_nil _).symm.trans interrupts, here⟩

def wholeHandlers (h : Platform) : Cutting h where
  steps handler data e fuel :=
    [fun x => (handler.run h e fuel (Session.on x.2 x.1) data).toOption.map Gdb.parts]
  whole handler data e fuel p s := by
    simp only [runSteps_cons]
    cases (handler.run h e fuel (Session.on s p) data).toOption <;> rfl

def overlapping : Threads Listener ArmCore Own :=
  { (server (wholeHandlers lp64) [⟨.transmitPacket, sampleLocals, 0, []⟩] [6#8] sampleGdb).goOn
    Listener.irq [] with
    holder := some ⟨Listener.irq, [fun x => some (armException lp64 x.1 (exceptionOf 6#8), x.2)]⟩ }

theorem listeners_serialised_overlapping : ∃ events g, serve lp64 events sampleGdb = .ok g ∧
    armException lp64 sampleGdb.arm .interrupt = g.arm := by
  have locked : Step (server (wholeHandlers lp64) [⟨.transmitPacket, sampleLocals, 0, []⟩] [6#8]
      sampleGdb) overlapping := .lock (i := Listener.irq) rfl rfl
  have next : overlapping.todo .gdb = [.own (alone (Received.staying
      ⟨.transmitPacket, sampleLocals, 0, []⟩ fun g => .ok (gdbTransmitPacket g)))] := rfl
  have sent := (Relation.ReflTransGen.single locked).tail
    (.own next (by rintro j steps held; cases held; exact Listener.noConfusion) rfl)
  have run := (sent.tail (.inside rfl rfl)).tail (.unlock rfl)
  obtain ⟨events, g, ran, shared, -⟩ := listeners_serialised lp64 (wholeHandlers lp64)
    [⟨.transmitPacket, sampleLocals, 0, []⟩] [6#8] sampleGdb _ run rfl
  exact ⟨events, g, ran, shared⟩

end ArmSimulator
