import ArmSimulator.Scanner
import ArmSimulator.Target

/-! The connection as a whole: the calls the scanner makes, one after the other, with the
interrupts of `irq_listener` in between. It is a link that answers each request once
and sends the last answer again on demand. -/
namespace ArmSimulator
open CString

/-- The case `arm_exception` takes for a char. -/
def exceptionOf (byte : Byte) : ArmException :=
  match byte.toNat with
  | 1 => .reset
  | 2 => .undefinedInstruction
  | 3 => .softwareInterrupt
  | 4 => .prefetchAbort
  | 5 => .dataAbort
  | 6 => .interrupt
  | 7 => .fastInterrupt
  | _ => .noException

/-- A call of the scanner, with what its locals hold, the rounds of `cont` that are looked at and
what follows the packet in the input buffer. -/
structure Received where
  call : ScannerCall
  locals : Locals
  fuel : Nat
  following : List Byte

inductive Event where
  | received (r : Received)
  | irq (byte : Byte)

def Event.call : Event → Option Received
  | .received r => some r
  | .irq _ => none

def Event.irqByte : Event → Option Byte
  | .received _ => none
  | .irq byte => some byte

def hungUp (calls : List GdbCall) : Bool := decide (.shutdown ∈ calls)

/-- Does a call write a byte to gdb before anything else? `again` is whether there is a message to
send again. -/
def ScannerCall.writes (again : Bool) : ScannerCall → Bool
  | .requireRetransmission => true
  | .transmitPacket => again
  | .packetAnalysis _ _ => true
  | .echo _ => false

/-- Behind a shutdown the write fails, and `Rio_writen` leaves the program. -/
def Event.exits (shut again : Bool) : Event → Bool
  | .received r => shut && r.call.writes again
  | .irq _ => false

section Events

variable (h : Platform)

def Received.perform (r : Received) (g : Gdb) : Answer :=
  match r.call with
  | .requireRetransmission => .ok (gdbRequireRetransmission g)
  | .transmitPacket => .ok (gdbTransmitPacket g)
  | .packetAnalysis yytext yyleng =>
    gdbPacketAnalysis h r.locals r.fuel g (yytext ++ 0#8 :: r.following) yyleng
  | .echo _ => .ok g

def Event.goesOn (g : Gdb) : Event → Answer
  | .received r => r.perform h g
  | .irq byte => .ok { g with arm := armException h g.arm (exceptionOf byte) }

def Event.perform (g : Gdb) (event : Event) : Answer :=
  if event.exits (hungUp g.calls) (decide (0 < g.len)) then .error .exited else event.goesOn h g

def serve (events : List Event) (g : Gdb) : Answer := events.foldlM (Event.perform h) g

end Events

inductive Message where
  | damaged
  | resend
  | request (index : Byte) (data : List Byte) (e : Locals) (fuel : Nat)
  | interrupt (exception : ArmException)
  | nothing

section Messages

variable (h : Platform)

def Received.analysed (r : Received) : Option (Byte × List Byte) → Message
  | some (index, data) => .request index data r.locals r.fuel
  | none => .damaged

def Received.message (r : Received) : Except Fault Message :=
  match r.call with
  | .requireRetransmission => .ok .damaged
  | .transmitPacket => .ok .resend
  | .packetAnalysis yytext yyleng =>
    (examine h r.locals (yytext ++ 0#8 :: r.following) yyleng).map r.analysed
  | .echo _ => .ok .nothing

def Event.message : Event → Except Fault Message
  | .received r => r.message h
  | .irq byte => .ok (.interrupt (exceptionOf byte))

def Target.perform (t : Target) : Message → Except Fault Target
  | .request index data e fuel =>
    (t.request h e data fuel (gdbHandlers.lookup index)).map Prod.fst
  | .interrupt exception => .ok { t with arm := armException h t.arm exception }
  | _ => .ok t

def Link.send (l : Link) (bytes : List Byte) : Link := { l with calls := l.calls ++ [.write bytes] }

/-- A request is acknowledged and answered, a damaged packet is asked for again. -/
def Link.receive (l : Link) : Message → Except Fault Link
  | .damaged => .ok (l.send (text "-"))
  | .resend => .ok (l.send l.last)
  | .request index data e fuel =>
    (l.target.request h e data fuel (gdbHandlers.lookup index)).map (l.send (text "+")).answered
  | .interrupt exception =>
    .ok { l with target := { l.target with arm := armException h l.target.arm exception } }
  | .nothing => .ok l

def Link.goesOn (l : Link) (event : Event) : Except Fault Link :=
  (event.message h).bind (l.receive h)

/-- An event that has to be answered ends a link that was hung up. -/
def Link.meet (l : Link) (event : Event) : Except Fault Link :=
  if event.exits (hungUp l.calls) (!l.last.isEmpty) then .error .exited else l.goesOn h event

def Link.serve (events : List Event) (l : Link) : Except Fault Link :=
  events.foldlM (Link.meet h) l

end Messages

section Refinement

variable (h : Platform)

theorem request_refines (index : Byte) (data : List Byte) (e : Locals) (fuel : Nat) (g : Gdb) :
    (gdbDispatch h e fuel (gdbSendAck g) index data).map Gdb.link =
      g.link.receive h (.request index data e fuel) :=
  gdbDispatch_refines h e fuel (gdbSendAck g) index data

theorem received_refines (r : Received) (g : Gdb) :
    (r.perform h g).map Gdb.link = (r.message h).bind (g.link.receive h) := by
  rcases r with ⟨call, e, fuel, following⟩
  cases call with
  | requireRetransmission => rfl
  | transmitPacket => rfl
  | echo yytext => rfl
  | packetAnalysis yytext yyleng =>
    simp only [Received.perform, Received.message, gdbPacketAnalysis_examine]
    rcases examine h e (yytext ++ 0#8 :: following) yyleng with fault | _ | ⟨index, data⟩
    · rfl
    · rfl
    · exact request_refines h index data e fuel g

theorem goesOn_refines (event : Event) (g : Gdb) :
    (event.goesOn h g).map Gdb.link = g.link.goesOn h event := by
  cases event with
  | received r => exact received_refines h r g
  | irq byte => rfl

theorem link_again (g : Gdb) : (!g.link.last.isEmpty) = decide (0 < g.len) := by
  have length : g.link.last.length = min g.len maxPacketSize := by
    rw [Gdb.link, List.length_take, g.packet.length_eq]
  rw [Bool.eq_iff_iff, Bool.not_eq_true', decide_eq_true_iff, List.isEmpty_eq_false_iff,
    ← List.length_pos_iff, length, maxPacketSize]
  omega

theorem perform_refines (event : Event) (g : Gdb) :
    (event.perform h g).map Gdb.link = g.link.meet h event := by
  rw [Event.perform, Link.meet, link_again]
  split
  · rename_i exits
    exact (if_pos exits).symm
  · rename_i stays
    exact (goesOn_refines h event g).trans (if_neg stays).symm

theorem serve_link (events : List Event) (g : Gdb) :
    (serve h events g).map Gdb.link = Link.serve h events g.link := by
  induction events generalizing g with
  | nil => rfl
  | cons event events ih =>
    have first := perform_refines h event g
    have whole : serve h (event :: events) g = (event.perform h g).bind (serve h events) := rfl
    have onward : Link.serve h (event :: events) g.link =
        (g.link.meet h event).bind (Link.serve h events) := rfl
    rw [whole, onward, ← first]
    cases event.perform h g with
    | error fault => rfl
    | ok g' => exact ih g'

end Refinement

/-- Over every sequence of calls and interrupts the connection is the link: it fails where the link
does and in the same way, and otherwise has made the same calls and left the same target. -/
theorem link_refined (h : Platform) (events : List Event) (g : Gdb) :
    (serve h events g).map Gdb.link = Link.serve h events g.link := serve_link h events g

section Retransmission

def replyOf : GdbCall → Option (List Byte)
  | .write bytes => if bytes.head? = some (ch '$') then some bytes else none
  | .shutdown => none

def lastReply (calls : List GdbCall) : List Byte := (calls.filterMap replyOf).getLast?.getD []

variable {calls : List GdbCall}

theorem lastReply_other {c : GdbCall} (other : replyOf c = none) :
    lastReply (calls ++ [c]) = lastReply calls := by
  simp [lastReply, other]

theorem lastReply_reply {c : GdbCall} {bytes : List Byte} (reply : replyOf c = some bytes) :
    lastReply (calls ++ [c]) = bytes := by
  rw [lastReply, List.filterMap_append, List.filterMap_cons_some reply]
  simp

theorem lastReply_again : lastReply (calls ++ [.write (lastReply calls)]) = lastReply calls := by
  by_cases framed : (lastReply calls).head? = some (ch '$')
  · exact lastReply_reply (if_pos framed)
  · exact lastReply_other (if_neg framed)

def Link.Faithful (l : Link) : Prop := l.last = lastReply l.calls

variable {h : Platform} {l : Link}

theorem Link.Faithful.send (faithful : l.Faithful) {bytes : List Byte}
    (other : replyOf (.write bytes) = none) : (l.send bytes).Faithful :=
  Eq.trans faithful (lastReply_other other).symm

theorem Link.Faithful.answered (faithful : l.Faithful) (r : Target × Option (List Byte)) :
    (l.answered r).Faithful := by
  rcases r with ⟨t, _ | d⟩
  · exact Eq.trans faithful (lastReply_other rfl).symm
  · have framed : (frame d).head? = some (ch '$') := rfl
    have reply : replyOf (.write (frame d)) = some (frame d) := by rw [replyOf, if_pos framed]
    exact (lastReply_reply reply).symm

theorem Link.Faithful.receive (faithful : l.Faithful) (m : Message) :
    Outcomes.Ends (l.receive h m) (fun _ => True) Link.Faithful := by
  cases m with
  | damaged => exact faithful.send rfl
  | resend =>
    have again : (l.send (lastReply l.calls)).Faithful := Eq.trans faithful lastReply_again.symm
    rw [Link.receive, show l.last = lastReply l.calls from faithful]
    exact again
  | request index data e fuel =>
    have acknowledged : (l.send (text "+")).Faithful := faithful.send rfl
    simp only [Link.receive]
    cases l.target.request h e data fuel (gdbHandlers.lookup index) with
    | error fault => trivial
    | ok r => exact acknowledged.answered r
  | interrupt exception => exact faithful
  | nothing => exact faithful

theorem Link.Faithful.meet (faithful : l.Faithful) (event : Event) :
    Outcomes.Ends (l.meet h event) (fun _ => True) Link.Faithful := by
  unfold Link.meet Link.goesOn
  split
  · trivial
  · cases event.message h with
    | error fault => trivial
    | ok m => exact faithful.receive m

theorem Link.Faithful.serve (faithful : l.Faithful) (events : List Event) :
    Outcomes.Ends (Link.serve h events l) (fun _ => True) Link.Faithful := by
  induction events generalizing l with
  | nil => exact faithful
  | cons event events ih =>
    apply (faithful.meet (h := h) event).bind
    exact fun l' still => ih still

end Retransmission

/-- Whatever the connection went through, a retransmission sends the last reply again as it was,
nothing before the first, and does nothing else; only if there is one and gdb has killed the target
before, the program ends there. -/
theorem retransmission_repeats (h : Platform) (arm : ArmCore) (packet : Packet)
    (events : List Event) (g : Gdb) (ran : serve h events (gdbInitData arm packet) = .ok g)
    (r : Received) (asked : r.call = .transmitPacket) :
    (Event.received r).perform h g =
      if .shutdown ∈ g.calls ∧ lastReply g.calls ≠ [] then .error .exited
      else .ok { g with calls := g.calls ++ [.write (lastReply g.calls)] } := by
  have start : (gdbInitData arm packet).link.Faithful := by
    simp [Link.Faithful, Gdb.link, gdbInitData, lastReply]
  have faithful := start.serve (h := h) events
  rw [← serve_link, ran] at faithful
  have last : g.packet.bytes.take g.len = lastReply g.calls := faithful
  have sent : (Event.received r).goesOn h g =
      .ok { g with calls := g.calls ++ [.write (lastReply g.calls)] } := by
    rw [Event.goesOn, Received.perform, asked, ← last]
    rfl
  have exits : (Event.received r).exits (hungUp g.calls) (decide (0 < g.len)) = true ↔
      .shutdown ∈ g.calls ∧ lastReply g.calls ≠ [] := by
    rw [Event.exits, asked, ScannerCall.writes, ← link_again, hungUp, Bool.and_eq_true,
      decide_eq_true_iff, Bool.not_eq_true', List.isEmpty_eq_false_iff]
    exact and_congr_right fun _ => not_congr (Eq.congr_left last)
  rw [Event.perform, sent]
  exact if_congr exits rfl rfl

def reasonAsked : Event :=
  .received ⟨.packetAnalysis (packetText (text "?") (ch '3') (ch 'f')) 5, sampleLocals, 0, []⟩

theorem reasonAsked_served : ∃ g, serve lp64 [reasonAsked] sampleGdb = .ok g ∧
    g.calls = [.write (text "+"), .write (frame (text "S05"))] := by
  have right : RightChecksum (text "?") (ch '3') (ch 'f') := ⟨by decide, by decide, by decide⟩
  have analysed := right.analysed lp64 sampleLocals 0 sampleGdb (by decide) []
  obtain ⟨g, sent, replied⟩ := gdbSendStopReason_replies (gdbSendAck sampleGdb)
  have performed : reasonAsked.perform lp64 sampleGdb = .ok g := analysed.trans sent
  exact ⟨g, (bind_pure (reasonAsked.perform lp64 sampleGdb)).trans performed, replied.calls⟩

theorem retransmission_repeats_reason : ∃ g g', serve lp64 [reasonAsked] sampleGdb = .ok g ∧
    (Event.received ⟨.transmitPacket, sampleLocals, 0, []⟩).perform lp64 g = .ok g' ∧
    g'.calls = g.calls ++ [.write (text "$S05#b8")] := by
  obtain ⟨g, ran, calls⟩ := reasonAsked_served
  have again := retransmission_repeats lp64 _ _ [reasonAsked] g ran
    ⟨.transmitPacket, sampleLocals, 0, []⟩ rfl
  have last : lastReply g.calls = text "$S05#b8" := by
    rw [calls]
    decide
  have stays : ¬(GdbCall.shutdown ∈ g.calls ∧ lastReply g.calls ≠ []) := by
    rw [calls]
    simp
  rw [if_neg stays, last] at again
  exact ⟨g, _, ran, again, rfl⟩

end ArmSimulator
