import ArmSimulator.Requests

/-! The requests that only look: the target and all later answers are as if they had
never been sent, and so is it with noise and retransmissions. -/
namespace ArmSimulator
open CString Outcomes

/-- Does a handler change the target, or what gdb can still be told? -/
def GdbHandler.changes : GdbHandler → Bool
  | .cont => true
  | .killRequest => true
  | .step => true
  | .writeGeneralRegisters => true
  | .writeMemoryBinary => true
  | .writeRegister => true
  | _ => false

def Message.changes : Message → Bool
  | .request index _ _ _ => (gdbHandlers.lookup index).any GdbHandler.changes
  | .interrupt _ => true
  | _ => false

def Event.changes (h : Platform) (event : Event) : Bool :=
  (event.message h).toOption.any Message.changes

def Event.IsResend (h : Platform) (event : Event) : Prop := event.message h = .ok .resend

section Looking

variable {h : Platform} {e : Locals} {t t' : Target} {data : List Byte} {m : Message}

def Keeps (t : Target) (y : Answered) : Prop :=
  Outcomes.Ends y (fun _ => True) fun r => r.1 = t

theorem keeps_bind {α : Type} (x : Except Fault α) {k : α → Answered}
    (next : ∀ a, Keeps t (k a)) : Keeps t (x >>= k) := by
  cases x with
  | error fault => trivial
  | ok a => exact next a

theorem readMemory_keeps : Keeps t (t.readMemory h e data) := by
  refine keeps_bind _ fun s => ?_
  dsimp only
  split
  · rfl
  · trivial

theorem readRegister_keeps : Keeps t (t.readRegister h data) := by
  refine keeps_bind _ fun s => ?_
  dsimp only
  split
  · rfl
  · trivial

theorem setThread_keeps : Keeps t (t.setThread h data) := by
  cases data with
  | nil => trivial
  | cons type rest =>
    refine keeps_bind _ fun s => ?_
    dsimp only
    split <;> rfl

theorem request_keeps {handler : Option GdbHandler} (fuel : Nat)
    (looks : handler.any GdbHandler.changes = false) :
    Keeps t (t.request h e data fuel handler) := by
  cases handler with
  | none => rfl
  | some handler =>
    cases handler with
    | query => exact keeps_bind _ fun s => rfl
    | readGeneralRegisters => rfl
    | readMemory => exact readMemory_keeps
    | readRegister => exact readRegister_keeps
    | reason => rfl
    | setThread => exact setThread_keeps
    | _ => cases looks

theorem perform_looks (looks : m.changes = false) (done : t.perform h m = .ok t') : t' = t := by
  cases m with
  | request index data e fuel =>
    have kept : Keeps t (t.request h e data fuel (gdbHandlers.lookup index)) :=
      request_keeps fuel looks
    simp only [Target.perform] at done
    generalize t.request h e data fuel (gdbHandlers.lookup index) = y at kept done
    cases y with
    | error fault => cases done
    | ok r =>
      cases done
      exact kept
  | interrupt exception => cases looks
  | _ =>
    cases done
    rfl

theorem looks_spares (looks : m.changes = false) : m.kills = false := by
  cases m with
  | request index data e fuel =>
    rw [Message.changes] at looks
    rw [Message.kills]
    cases handler : gdbHandlers.lookup index with
    | none => rfl
    | some handler' =>
      rw [handler] at looks
      cases handler' <;> first | rfl | cases looks
  | _ => rfl

end Looking

section Links

variable {h : Platform} {l k l' k' : Link} {m : Message} {event : Event}

structure Link.Equivalent (l k : Link) : Prop where
  target : l.target = k.target
  hungUp : hungUp l.calls = hungUp k.calls

structure Grown (l k l' k' : Link) : Prop where
  target : l'.target = k'.target
  calls : ∃ added, l'.calls = l.calls ++ added ∧ k'.calls = k.calls ++ added

theorem hungUp_append (calls added : List GdbCall) :
    hungUp (calls ++ added) = (hungUp calls || hungUp added) := by
  simp [hungUp]

theorem Grown.equivalent (grown : Grown l k l' k') (equivalent : Link.Equivalent l k) :
    Link.Equivalent l' k' := by
  obtain ⟨added, first, second⟩ := grown.calls
  refine ⟨grown.target, ?_⟩
  rw [first, second, hungUp_append, hungUp_append, equivalent.hungUp]

theorem receive_equivalent (equivalent : Link.Equivalent l k) (notResend : m ≠ .resend) :
    Matches (Grown l k) (l.receive h m) (k.receive h m) := by
  have silent : Grown l k l k :=
    ⟨equivalent.target, [], (List.append_nil _).symm, (List.append_nil _).symm⟩
  cases m with
  | resend => exact absurd rfl notResend
  | damaged => exact .ok ⟨equivalent.target, _, rfl, rfl⟩
  | nothing => exact .ok silent
  | interrupt exception =>
    refine .ok ⟨?_, silent.calls⟩
    simp only [equivalent.target]
  | request index data e fuel =>
    simp only [Link.receive, equivalent.target]
    rcases k.target.request h e data fuel (gdbHandlers.lookup index) with fault | ⟨t, _ | d⟩
    · exact .error fault
    · exact .ok ⟨rfl, _, List.append_assoc _ _ _, List.append_assoc _ _ _⟩
    · exact .ok ⟨rfl, _, List.append_assoc _ _ _, List.append_assoc _ _ _⟩

theorem exits_again (once : ¬event.IsResend h) (shut again again' : Bool) :
    event.exits shut again = event.exits shut again' := by
  rcases event with ⟨call, e, fuel, following⟩ | byte
  · cases call with
    | transmitPacket => exact absurd rfl once
    | _ => rfl
  · rfl

theorem meet_equivalent (equivalent : Link.Equivalent l k) (once : ¬event.IsResend h) :
    Matches (Grown l k) (l.meet h event) (k.meet h event) := by
  rw [Link.meet, Link.meet, equivalent.hungUp,
    exits_again once _ (!l.last.isEmpty) (!k.last.isEmpty)]
  split
  · exact .error _
  · unfold Link.goesOn
    cases message : event.message h with
    | error fault => exact .error fault
    | ok m =>
      refine receive_equivalent equivalent fun same => once ?_
      exact message.trans (congrArg Except.ok same)

theorem serve_equivalent {later : List Event} (once : ∀ event ∈ later, ¬event.IsResend h)
    (equivalent : Link.Equivalent l k) :
    Matches (Grown l k) (Link.serve h later l) (Link.serve h later k) := by
  induction later generalizing l k with
  | nil => exact .ok ⟨equivalent.target, [], (List.append_nil _).symm, (List.append_nil _).symm⟩
  | cons event later ih =>
    refine (meet_equivalent equivalent (once event List.mem_cons_self)).bind fun l' k' grown => ?_
    have rest := ih (fun other inside => once other (List.mem_cons_of_mem _ inside))
      (grown.equivalent equivalent)
    obtain ⟨added, first, second⟩ := grown.calls
    refine rest.mono fun l'' k'' onward => ⟨onward.target, ?_⟩
    obtain ⟨more, first', second'⟩ := onward.calls
    exact ⟨added ++ more, by rw [first', first, List.append_assoc],
      by rw [second', second, List.append_assoc]⟩

theorem meet_looks (looks : event.changes h = false) (met : l.meet h event = .ok l')
    (equivalent : Link.Equivalent l k) : Link.Equivalent l' k := by
  unfold Link.meet Link.goesOn at met
  split at met
  · cases met
  · unfold Event.changes at looks
    cases message : event.message h with
    | error fault =>
      rw [message] at met
      cases met
    | ok m =>
      rw [message] at met looks
      have received : l.receive h m = .ok l' := met
      have target := receive_target h l m
      have kept := receive_hungUp (h := h) l (looks_spares looks)
      rw [received] at target kept
      exact ⟨(perform_looks looks target.symm).trans equivalent.target,
        kept.trans equivalent.hungUp⟩

theorem serve_changes {events : List Event} (ran : Link.serve h events l = .ok l')
    (equivalent : Link.Equivalent l k) :
    ∃ k', Link.serve h (events.filter (Event.changes h)) k = .ok k' ∧ Link.Equivalent l' k' := by
  induction events generalizing l k with
  | nil => exact ⟨k, rfl, Except.ok.inj ran ▸ equivalent⟩
  | cons event events ih =>
    have whole (l : Link) (events : List Event) : Link.serve h (event :: events) l =
      (l.meet h event).bind (Link.serve h events) := rfl
    rw [whole] at ran
    cases met : l.meet h event with
    | error fault =>
      rw [met] at ran
      cases ran
    | ok next =>
      rw [met] at ran
      cases changes : event.changes h with
      | false =>
        -- left out on one side only: the links stay equivalent
        rw [List.filter_cons_of_neg (Bool.eq_false_iff.mp changes)]
        exact ih ran (meet_looks changes met equivalent)
      | true =>
        have once : ¬event.IsResend h := by
          intro resend
          rw [Event.changes, resend] at changes
          cases changes
        have both := meet_equivalent equivalent once
        rw [List.filter_cons_of_pos changes, whole]
        rw [met] at both
        cases other : k.meet h event with
        | error fault =>
          rw [other] at both
          cases both
        | ok next' =>
          rw [other] at both
          cases both with
          | ok grown => exact ih ran (grown.equivalent equivalent)

def answers (h : Platform) (later : List Event) (g : Gdb) : Except Fault (Target × List GdbCall) :=
  (serve h later g).map fun g' => (g'.target, g'.calls.drop g.calls.length)

theorem answers_eq {later : List Event} (once : ∀ event ∈ later, ¬event.IsResend h) {g g' : Gdb}
    (equivalent : Link.Equivalent g.link g'.link) : answers h later g = answers h later g' := by
  have said (g : Gdb) : answers h later g = (Link.serve h later g.link).map fun l =>
      (l.target, l.calls.drop g.calls.length) := by
    rw [← serve_link, answers]
    cases serve h later g <;> rfl
  rw [said, said]
  refine (serve_equivalent once equivalent).map_eq fun l' k' grown => ?_
  obtain ⟨added, first, second⟩ := grown.calls
  have start (g : Gdb) : g.link.calls = g.calls := rfl
  rw [grown.target, first, second, start, start, List.drop_left, List.drop_left]

end Links

/-- Leaving out everything that only looks, and the noise, the target ends the same, and whatever
comes later is answered the same. -/
theorem observing_changes_nothing (h : Platform) (events : List Event) (g g' : Gdb)
    (ran : serve h events g = .ok g') :
    ∃ g'', serve h (events.filter (Event.changes h)) g = .ok g'' ∧ g''.target = g'.target ∧
      ∀ later : List Event, (∀ event ∈ later, ¬event.IsResend h) →
        answers h later g'' = answers h later g' := by
  have linked := serve_link h events g
  rw [ran] at linked
  obtain ⟨k, left, equivalent⟩ := serve_changes linked.symm ⟨rfl, rfl⟩
  rw [← serve_link] at left
  cases less : serve h (events.filter (Event.changes h)) g with
  | error fault =>
    rw [less] at left
    cases left
  | ok g'' =>
    rw [less] at left
    obtain rfl : g''.link = k := Except.ok.inj left
    exact ⟨g'', rfl, equivalent.target.symm, fun later once =>
      (answers_eq once equivalent).symm⟩

theorem observing_changes_nothing_reason : ∃ g' g'', serve lp64 [reasonAsked] sampleGdb = .ok g' ∧
    serve lp64 ([reasonAsked].filter (Event.changes lp64)) sampleGdb = .ok g'' ∧
      g''.target = g'.target ∧ answers lp64 [reasonAsked] g'' = answers lp64 [reasonAsked] g' := by
  obtain ⟨g', ran, -⟩ := reasonAsked_served
  obtain ⟨g'', left, same, later⟩ := observing_changes_nothing lp64 [reasonAsked] sampleGdb g' ran
  refine ⟨g', g'', ran, left, same, later [reasonAsked] ?_⟩
  intro event inside resend
  obtain rfl := List.mem_singleton.mp inside
  rw [Event.IsResend, show reasonAsked.message lp64 =
    .ok (.request (ch '?') ([0#8] ++ text "3f" ++ [0#8]) sampleLocals 0) from rfl] at resend
  cases resend

end ArmSimulator
