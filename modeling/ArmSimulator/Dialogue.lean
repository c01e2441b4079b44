import ArmSimulator.Framing
import ArmSimulator.Library.Outcomes
import ArmSimulator.Wire

/-! What gdb hears: acknowledgements and replies, without their bytes. A stub that
only knows these says the same as the connection. -/
namespace ArmSimulator
open CString Lexer Outcomes

inductive Note where
  | ack
  | nak
  | reply (d : List Byte)
deriving DecidableEq

def Note.bytes : Note → List Byte
  | .ack => [ch '+']
  | .nak => [ch '-']
  | .reply d => frame d

def Note.Clean : Note → Prop
  | .reply d => Framable d
  | _ => True

/-- What a token is to gdb: a packet counts if its checksum is right. -/
def heard : Token Byte ScannerRule → Option Note
  | ⟨some .plus, _⟩ => some .ack
  | ⟨some .minus, _⟩ => some .nak
  | ⟨some .packet, yytext⟩ =>
    if rightSum yytext then some (.reply ((yytext.drop 1).take (yytext.length - 4))) else none
  | _ => none

def reading (input : List Byte) : List (Option Note) := (tokens scannerRules input).map heard

section Reading

theorem cut_single (u : List Byte) {c : Byte} (other : isDigit 16 c = false) :
    Cut scannerRules u [c] := by
  intro v x _ vNonempty start xNonempty r member found
  obtain ⟨first, before, rfl⟩ := List.exists_cons_of_ne_nil vNonempty
  obtain rfl : x = [c] := by
    rcases List.prefix_cons_iff.mp start with rfl | ⟨t, rfl, inside⟩
    · contradiction
    · rw [List.prefix_nil.mp inside]
  have single (d : Byte) (same : first :: before ++ [c] = [d]) : False := by
    have lengths := congrArg List.length same
    simp only [List.length_append, List.length_cons, List.length_nil] at lengths
    omega
  simp only [scannerRules, List.mem_cons, List.not_mem_nil, or_false] at member
  rcases member with rfl | rfl | rfl | rfl
  · exact single _ (mem_char.mp found)
  · exact single _ (mem_char.mp found)
  · obtain ⟨other', high, low, packet, same⟩ := mem_packetPattern.mp found
    have ends : first :: before ++ [c] = (ch '$' :: (other' ++ [ch '#', high])) ++ [low] := by
      simpa [packetText] using same
    have digit : [c] = [low] := (List.append_inj' ends rfl).2
    exact digit_ne packet.low_digit other (List.cons.inj digit).1.symm
  · obtain ⟨d, _, same⟩ := mem_oneOf.mp found
    exact single d same

theorem tokens_plus : tokens scannerRules [ch '+'] = [⟨some .plus, [ch '+']⟩] := by
  have first : ∀ s ∈ ([] : List (Rule Byte ScannerRule)), [ch '+'] ∉ s.pattern.matches' := by simp
  exact tokens_whole (List.cons_ne_nil _ _) (mem_char.mpr rfl) first

theorem tokens_minus : tokens scannerRules [ch '-'] = [⟨some .minus, [ch '-']⟩] := by
  have first : ∀ s ∈ [(⟨RegularExpression.char (ch '+'), .plus⟩ : Rule Byte ScannerRule)],
      [ch '-'] ∉ s.pattern.matches' := by
    intro s member found
    obtain rfl := List.mem_singleton.mp member
    exact absurd (mem_char.mp found) (by decide)
  exact tokens_whole (List.cons_ne_nil _ _) (mem_char.mpr rfl) first

theorem heard_frame (d : List Byte) : heard ⟨some .packet, frame d⟩ = some (.reply d) := by
  have right : rightSum (frame d) = true := by
    rw [frame_eq, rightSum_packet]
    exact decide_eq_true (number_frame d)
  have inside : ((frame d).drop 1).take ((frame d).length - 4) = d := by
    rw [length_frame]
    simp [frame]
  rw [heard, if_pos right, inside]

theorem reading_note (u : List Byte) {n : Note} (clean : n.Clean) :
    reading (u ++ n.bytes) = reading u ++ [some n] := by
  cases n with
  | ack =>
    rw [reading, Note.bytes, tokens_append (cut_single u (by decide)), tokens_plus, List.map_append]
    rfl
  | nak =>
    rw [reading, Note.bytes, tokens_append (cut_single u (by decide)), tokens_minus,
      List.map_append]
    rfl
  | reply d =>
    have packet := isPacket_frame clean
    have between := packet.tokens_between u []
    rw [← frame_eq, List.append_nil, tokens] at between
    rw [reading, Note.bytes, between, List.map_append, List.map_singleton, heard_frame]
    rfl

end Reading

section Delivery

/-- The bytes of the calls up to a shutdown; behind it nothing comes through any more. -/
def delivered : List GdbCall → List Byte
  | [] => []
  | .write bytes :: calls => bytes ++ delivered calls
  | .shutdown :: _ => []

theorem delivered_snoc (calls : List GdbCall) (c : GdbCall) : delivered (calls ++ [c]) =
    if hungUp calls then delivered calls else delivered calls ++ c.bytes := by
  induction calls with
  | nil => cases c <;> simp [delivered, GdbCall.bytes, hungUp]
  | cons first calls ih =>
    cases first with
    | shutdown => simp [delivered, hungUp]
    | write bytes =>
      have same : hungUp (.write bytes :: calls) = hungUp calls := by simp [hungUp]
      rw [List.cons_append, delivered, ih, same, delivered]
      split
      · rfl
      · rw [List.append_assoc]

theorem delivered_open {calls : List GdbCall} (opened : hungUp calls = false) (c : GdbCall) :
    delivered (calls ++ [c]) = delivered calls ++ c.bytes := by
  rw [delivered_snoc, opened]
  rfl

theorem delivered_nothing (calls : List GdbCall) :
    delivered (calls ++ [.write []]) = delivered calls := by
  rw [delivered_snoc]
  split
  · rfl
  · exact List.append_nil _

theorem stream_snoc (calls : List GdbCall) (c : GdbCall) :
    stream (calls ++ [c]) = stream calls ++ c.bytes := by
  simp [stream]

end Delivery

section Stubs

/-- A target, the data of the last reply, and whether gdb has killed the target. -/
structure Stub where
  target : Target
  last : Option (List Byte)
  shut : Bool

namespace Stub

variable (h : Platform)

def replied (s : Stub) : Target × Option (List Byte) → Stub × List Note
  | (t, some d) => (⟨t, some d, s.shut⟩, [.ack, .reply d])
  | (t, none) => (⟨t, s.last, true⟩, [.ack])

def hear (s : Stub) : Message → Except Fault (Stub × List Note)
  | .damaged => .ok (s, [.nak])
  | .resend => .ok (s, s.last.toList.map .reply)
  | .request index data e fuel =>
    (s.target.request h e data fuel (gdbHandlers.lookup index)).map s.replied
  | .interrupt exception =>
    .ok ({ s with target.arm := armException h s.target.arm exception }, [])
  | .nothing => .ok (s, [])

/-- Everything that is said on the way through the events, of which the first that has to be
answered behind a kill ends the program. -/
def dialogue : List Event → Stub → Except Fault (Stub × List Note)
  | [], s => .ok (s, [])
  | event :: events, s =>
    if event.exits s.shut s.last.isSome then .error .exited
    else do
      let m ← event.message h
      let r ← s.hear h m
      (dialogue events r.1).map fun rest => (rest.1, r.2 ++ rest.2)

end Stub

/-- The link is at the stub and gdb has read these notes, all that was written. -/
structure Speaks (notes : List Note) (l : Link) (s : Stub) : Prop where
  target : l.target = s.target
  last : l.last = (s.last.map frame).getD []
  framable : ∀ d, s.last = some d → Framable d
  shut : hungUp l.calls = s.shut
  whole : stream l.calls = delivered l.calls
  read : reading (delivered l.calls) = notes.map some

def Message.writes (again : Bool) : Message → Bool
  | .damaged => true
  | .resend => again
  | .request _ _ _ _ => true
  | .interrupt _ => false
  | .nothing => false

variable {h : Platform} {notes : List Note} {l : Link} {s : Stub} {m : Message}

theorem exits_message {event : Event} (message : event.message h = .ok m) (shut again : Bool) :
    event.exits shut again = (shut && m.writes again) := by
  rcases event with ⟨call, e, fuel, following⟩ | byte
  · cases call with
    | packetAnalysis yytext yyleng =>
      simp only [Event.message, Received.message] at message
      generalize examine h e (yytext ++ 0#8 :: following) yyleng = examined at message
      rcases examined with fault | _ | ⟨index, data⟩
      all_goals cases message
      all_goals rfl
    | _ =>
      cases message
      rfl
  · cases message
    exact (Bool.and_false shut).symm

theorem Speaks.note (speaks : Speaks notes l s) (opened : hungUp l.calls = false) {n : Note}
    (clean : n.Clean) : Speaks (notes ++ [n]) (l.send n.bytes) s := by
  have grown := delivered_open opened (.write n.bytes)
  refine ⟨speaks.target, speaks.last, speaks.framable, (hungUp_write _ _).trans speaks.shut, ?_, ?_⟩
  · rw [Link.send, stream_snoc, grown, speaks.whole]
  · rw [Link.send, grown, GdbCall.bytes, reading_note _ clean, speaks.read, List.map_append]
    rfl

theorem Speaks.resent (speaks : Speaks notes l s)
    (opened : s.last.isSome = true → hungUp l.calls = false) :
    Speaks (notes ++ s.last.toList.map .reply) (l.send l.last) s := by
  cases last : s.last with
  | none =>
    have nothing : l.last = [] := by rw [speaks.last, last]; rfl
    rw [nothing]
    refine ⟨speaks.target, speaks.last, speaks.framable,
      (hungUp_write _ _).trans speaks.shut, ?_, ?_⟩
    · rw [Link.send, stream_snoc, delivered_nothing, speaks.whole]
      exact List.append_nil _
    · rw [Link.send, delivered_nothing, speaks.read]
      simp
  | some d =>
    have framed : l.last = frame d := by rw [speaks.last, last]; rfl
    rw [framed]
    exact speaks.note (opened (by rw [last]; rfl)) (n := .reply d) (speaks.framable d last)

theorem Speaks.answered (speaks : Speaks notes l s) (opened : hungUp l.calls = false)
    (r : Target × Option (List Byte)) (framable : ∀ d, r.2 = some d → Framable d) :
    Speaks (notes ++ (s.replied r).2) ((l.send (text "+")).answered r) (s.replied r).1 := by
  have acknowledged : Speaks (notes ++ [.ack]) (l.send (text "+")) s := speaks.note opened trivial
  have still : hungUp (l.send (text "+")).calls = false := (hungUp_write _ _).trans opened
  rcases r with ⟨t, _ | d⟩
  · have ended := (delivered_open still .shutdown).trans (List.append_nil _)
    refine ⟨rfl, acknowledged.last, acknowledged.framable, ?_, ?_, ?_⟩
    · simp [Link.answered, Stub.replied, hungUp]
    · rw [Link.answered, stream_snoc, ended, acknowledged.whole]
      exact List.append_nil _
    · exact (congrArg reading ended).trans acknowledged.read
  · have clean : (Note.reply d).Clean := framable d rfl
    have told := acknowledged.note still clean
    rw [List.append_assoc] at told
    refine ⟨rfl, rfl, ?_, told.shut, told.whole, told.read⟩
    intro d' same
    exact Option.some.inj same ▸ clean

theorem Speaks.hear (speaks : Speaks notes l s) (m : Message)
    (stays : (s.shut && m.writes s.last.isSome) = false) :
    Matches (fun l' r => Speaks (notes ++ r.2) l' r.1) (l.receive h m) (s.hear h m) := by
  have opened (writes : m.writes s.last.isSome = true) : hungUp l.calls = false := by
    rw [writes, Bool.and_true] at stays
    exact speaks.shut.trans stays
  cases m with
  | damaged => exact .ok (speaks.note (opened rfl) trivial)
  | resend => exact .ok (speaks.resent opened)
  | request index data e fuel =>
    simp only [Link.receive, Stub.hear, speaks.target]
    have framable : Ends (s.target.request h e data fuel (gdbHandlers.lookup index))
        (fun _ => True) fun r => ∀ d, r.2 = some d → Framable d := by
      by_cases kills : gdbHandlers.lookup index = some .killRequest
      · rw [kills]
        intro d none
        cases none
      · refine (framed_request fuel kills).mono (fun _ _ => trivial) ?_
        rintro r ⟨d, answer, clean⟩ d' same
        exact Option.some.inj (answer.symm.trans same) ▸ clean
    generalize s.target.request h e data fuel (gdbHandlers.lookup index) = y at framable ⊢
    cases y with
    | error fault => exact .error fault
    | ok r => exact .ok (speaks.answered (opened rfl) r framable)
  | interrupt exception =>
    refine .ok ⟨?_, speaks.last, speaks.framable, speaks.shut, speaks.whole, ?_⟩
    · simp only [speaks.target]
    · simpa using speaks.read
  | nothing => exact .ok (by simpa using speaks)

theorem Speaks.again (speaks : Speaks notes l s) : (!l.last.isEmpty) = s.last.isSome := by
  rw [speaks.last]
  cases s.last <;> rfl

theorem Speaks.dialogue (speaks : Speaks notes l s) (events : List Event) :
    Matches (fun l' r => Speaks (notes ++ r.2) l' r.1) (Link.serve h events l)
      (s.dialogue h events) := by
  induction events generalizing notes l s with
  | nil => exact .ok (by simpa using speaks)
  | cons event events ih =>
    -- link and stub agree on whether the event ends the program
    rw [Link.serve, List.foldlM_cons, Link.meet, Stub.dialogue, speaks.shut, speaks.again]
    split
    · exact .error _
    · rename_i stays
      unfold Link.goesOn
      cases message : event.message h with
      | error fault => exact .error fault
      | ok m =>
        rw [exits_message message, Bool.not_eq_true] at stays
        refine (speaks.hear m stays).bind fun l' r heard => ?_
        refine (ih heard).map_right fun l'' rest still => ?_
        rw [← List.append_assoc]
        exact still

end Stubs

/-- Whatever gdb and the interrupts do, gdb reads from the wire every acknowledgement, every reply
and every retransmission of the stub without bytes, undamaged and in its order, and nothing else;
the connection fails where that stub does, and so ends the program where something would have to be
said behind a kill. No byte is written that does not come through. -/
theorem replies_read_back (h : Platform) (arm : ArmCore) (packet : Packet) (events : List Event) :
    (serve h events (gdbInitData arm packet)).map
        (fun g => (g.target, reading (delivered g.calls))) =
      (Stub.dialogue h events ⟨⟨arm, .noException⟩, none, false⟩).map
        (fun r => (r.1.target, r.2.map some)) ∧
    ∀ g, serve h events (gdbInitData arm packet) = .ok g → stream g.calls = delivered g.calls := by
  have start : Speaks [] (gdbInitData arm packet).link ⟨⟨arm, .noException⟩, none, false⟩ := by
    refine ⟨rfl, ?_, ?_, rfl, rfl, ?_⟩
    · simp [Gdb.link, gdbInitData]
    · intro d last
      cases last
    · simp [Gdb.link, gdbInitData, delivered, reading, tokens]
  have spoken := start.dialogue (h := h) events
  have same := spoken.map_eq
    (f := fun l => (l.target, reading (delivered l.calls)))
    (k := fun r => (r.1.target, r.2.map some))
    fun l r speaks => by rw [speaks.target, speaks.read, List.nil_append]
  rw [← serve_link] at same spoken
  constructor
  · cases ran : serve h events (gdbInitData arm packet) <;> rw [ran] at same <;> exact same
  · intro g ran
    rw [ran] at spoken
    generalize Stub.dialogue h events ⟨⟨arm, .noException⟩, none, false⟩ = said at spoken
    cases spoken with
    | ok speaks => exact speaks.whole

end ArmSimulator
