import ArmSimulator.Connection

/-! What becomes of the requests of a debugger: over a line with noise each is executed once,
in order, and the requests that only look change nothing. -/
namespace ArmSimulator
open CString Lexer

section Tokens

variable {body : List Byte} {high low : Byte}

theorem IsPacket.whole {other : List Byte} {high' low' : Byte} (packet' : IsPacket other high' low')
    {x : List Byte}
    (same : packetText body high low ++ x = packetText other high' low') : x = [] := by
  have bodies : other ++ ch '#' :: [high', low'] = body ++ ch '#' :: high :: low :: x := by
    simpa [packetText] using same.symm
  have noSharp : ch '#' ∉ [high', low'] := by
    intro inside
    exact digit_ne (packet'.digits _ inside) (by decide) rfl
  have rest := ((List.append_cons_inj_of_notMem (fun inside => (packet'.clean _ inside).2 rfl)
    noSharp).mp bodies).2.2
  exact (List.cons.inj (List.cons.inj rest).2).2.symm

theorem IsPacket.cut_after (packet : IsPacket body high low) (more : List Byte) :
    Cut scannerRules (packetText body high low) more := by
  intro v x ending vNonempty _ xNonempty r member found
  obtain ⟨first, before, rfl⟩ := List.exists_cons_of_ne_nil vNonempty
  have single (d : Byte) (same : first :: before ++ x = [d]) : False := by
    have lengths := congrArg List.length same
    have positive := List.length_pos_iff.mpr xNonempty
    simp only [List.length_append, List.length_cons, List.length_nil] at lengths
    omega
  simp only [scannerRules, List.mem_cons, List.not_mem_nil, or_false] at member
  rcases member with rfl | rfl | rfl | rfl
  · exact single _ (mem_char.mp found)
  · exact single _ (mem_char.mp found)
  · obtain ⟨other, high', low', packet', same⟩ := mem_packetPattern.mp found
    have dollar : first = ch '$' := (List.cons.inj same).1
    rcases List.suffix_cons_iff.mp ending with whole | inner
    · rw [whole] at same
      exact xNonempty (packet'.whole same)
    · exact packet.no_dollar (inner.subset (dollar ▸ List.mem_cons_self))
  · obtain ⟨d, _, same⟩ := mem_oneOf.mp found
    exact single d same

theorem IsPacket.tokens_between (packet : IsPacket body high low) (u more : List Byte) :
    tokens scannerRules (u ++ (packetText body high low ++ more)) =
      tokens scannerRules u ++
        ⟨some .packet, packetText body high low⟩ :: tokens scannerRules more := by
  have before : Cut scannerRules u (packetText body high low ++ more) := cut_dollar u _
  rw [tokens_append before, tokens_append (packet.cut_after more), packet.scanned]
  rfl

theorem packet_scanned {input yytext : List Byte}
    (member : ⟨some .packet, yytext⟩ ∈ tokens scannerRules input) :
    ∃ body high low, IsPacket body high low ∧ yytext = packetText body high low := by
  obtain ⟨r, rule, action, found⟩ := tokens_matched member
  simp only [scannerRules, List.mem_cons, List.not_mem_nil, or_false] at rule
  rcases rule with rfl | rfl | rfl | rfl
  · cases action
  · cases action
  · exact mem_packetPattern.mp found
  · cases action

end Tokens

section Tasks

variable {h : Platform}

def Received.Scanned (r : Received) : Prop :=
  ∀ yytext yyleng, r.call = .packetAnalysis yytext yyleng →
    ∃ body high low, IsPacket body high low ∧ yytext = packetText body high low ∧
      yyleng = yytext.length

def Event.Scanned : Event → Prop
  | .received r => r.Scanned
  | .irq _ => True

def Message.acts : Message → Bool
  | .request _ _ _ _ => true
  | .interrupt _ => true
  | _ => false

def Event.task (h : Platform) (event : Event) : Option Message :=
  (event.message h).toOption.filter Message.acts

variable (h)

theorem Event.Scanned.message {event : Event} (scanned : event.Scanned) :
    ∃ m, event.message h = .ok m := by
  rcases event with ⟨call, e, fuel, following⟩ | byte
  · cases call with
    | requireRetransmission => exact ⟨_, rfl⟩
    | transmitPacket => exact ⟨_, rfl⟩
    | echo yytext => exact ⟨_, rfl⟩
    | packetAnalysis yytext yyleng =>
      obtain ⟨body, high, low, packet, rfl, rfl⟩ := scanned yytext yyleng rfl
      simp only [Event.message, Received.message, examine_packet h e packet]
      exact ⟨_, rfl⟩
  · exact ⟨_, rfl⟩

theorem receive_target (l : Link) (m : Message) :
    (l.receive h m).map Link.target = l.target.perform h m := by
  cases m with
  | damaged => rfl
  | resend => rfl
  | interrupt exception => rfl
  | nothing => rfl
  | request index data e fuel =>
    simp only [Link.receive, Target.perform]
    rcases l.target.request h e data fuel (gdbHandlers.lookup index) with fault | ⟨t, _ | d⟩
    all_goals rfl

theorem perform_idle {m : Message} (idle : m.acts = false) (t : Target) :
    t.perform h m = .ok t := by
  cases m with
  | request index data e fuel => cases idle
  | interrupt exception => cases idle
  | _ => rfl

theorem goesOn_target {event : Event} (scanned : event.Scanned) (g : Gdb) :
    (event.goesOn h g).map Gdb.target =
      (event.task h).toList.foldlM (Target.perform h) g.target := by
  obtain ⟨m, message⟩ := scanned.message h
  rw [← link_target, goesOn_refines, Link.goesOn, message, Event.task, message]
  refine (receive_target h g.link m).trans ?_
  cases acts : m.acts with
  | false =>
    simp only [Except.toOption, Option.filter, acts, Bool.false_eq_true, if_false,
      Option.toList_none, List.foldlM_nil]
    exact perform_idle h acts g.target
  | true =>
    simp only [Except.toOption, Option.filter, acts, if_true, Option.toList_some, List.foldlM_cons,
      List.foldlM_nil, bind_pure]
    rfl

theorem tasks_cons (event : Event) (events : List Event) :
    (event :: events).filterMap (Event.task h) =
      (event.task h).toList ++ events.filterMap (Event.task h) := by
  cases task : event.task h <;> simp [task]

theorem serve_target {events : List Event} (scanned : ∀ event ∈ events, event.Scanned) {g g' : Gdb}
    (ran : serve h events g = .ok g') :
    (events.filterMap (Event.task h)).foldlM (Target.perform h) g.target = .ok g'.target := by
  induction events generalizing g with
  | nil => exact congrArg (Except.map Gdb.target) ran
  | cons event events ih =>
    have whole : serve h (event :: events) g = (event.perform h g).bind (serve h events) := rfl
    have first := goesOn_target h (scanned event List.mem_cons_self) g
    rw [tasks_cons, List.foldlM_append, ← first]
    rw [whole, Event.perform] at ran
    split at ran
    · cases ran
    · cases went : event.goesOn h g with
      | error fault =>
        rw [went] at ran
        cases ran
      | ok next =>
        rw [went] at ran
        exact ih (fun other inside => scanned other (List.mem_cons_of_mem _ inside)) ran

end Tasks

section Alive

variable {h : Platform} {l : Link} {g : Gdb} {event : Event} {m : Message}

def Message.kills : Message → Bool
  | .request index _ _ _ => gdbHandlers.lookup index == some .killRequest
  | _ => false

theorem hungUp_write (calls : List GdbCall) (bytes : List Byte) :
    hungUp (calls ++ [.write bytes]) = hungUp calls := by
  simp [hungUp]

theorem exits_open (event : Event) (again : Bool) : event.exits false again = false := by
  cases event <;> rfl

theorem perform_open (opened : hungUp g.calls = false) (event : Event) :
    event.perform h g = event.goesOn h g := by
  rw [Event.perform, opened, exits_open]
  rfl

theorem receive_hungUp (l : Link) (spares : m.kills = false) :
    Outcomes.Ends (l.receive h m) (fun _ => True) fun l' => hungUp l'.calls = hungUp l.calls := by
  cases m with
  | damaged => exact hungUp_write _ _
  | resend => exact hungUp_write _ _
  | interrupt exception => rfl
  | nothing => rfl
  | request index data e fuel =>
    have framed : Framed (l.target.request h e data fuel (gdbHandlers.lookup index)) :=
      framed_request fuel (ne_of_beq_false spares)
    simp only [Link.receive]
    generalize l.target.request h e data fuel (gdbHandlers.lookup index) = y at framed ⊢
    cases y with
    | error fault => trivial
    | ok r =>
      obtain ⟨t, answer⟩ := r
      obtain ⟨d, answered, -⟩ := framed
      obtain rfl : answer = some d := answered
      exact (hungUp_write _ _).trans (hungUp_write _ _)

theorem goesOn_open (opened : hungUp g.calls = false)
    (spares : ∀ m, event.message h = .ok m → m.kills = false) :
    Outcomes.Ends (event.goesOn h g) (fun _ => True) fun g' => hungUp g'.calls = false := by
  have refines := goesOn_refines h event g
  cases went : event.goesOn h g with
  | error fault => trivial
  | ok g' =>
    rw [went, Link.goesOn] at refines
    cases message : event.message h with
    | error fault =>
      rw [message] at refines
      cases refines
    | ok m =>
      have kept := receive_hungUp (h := h) g.link (spares m message)
      rw [message] at refines
      have received : g.link.receive h m = .ok g'.link := refines.symm
      rw [received] at kept
      exact kept.trans opened

theorem serve_open {events : List Event} (scanned : ∀ event ∈ events, event.Scanned)
    (spares : ∀ event ∈ events, ∀ m, event.message h = .ok m → m.kills = false)
    (opened : hungUp g.calls = false) :
    (serve h events g).map Gdb.target =
        (events.filterMap (Event.task h)).foldlM (Target.perform h) g.target ∧
      Outcomes.Ends (serve h events g) (fun _ => True) fun g' => hungUp g'.calls = false := by
  induction events generalizing g with
  | nil => exact ⟨rfl, opened⟩
  | cons event events ih =>
    have whole : serve h (event :: events) g = (event.goesOn h g).bind (serve h events) := by
      rw [← perform_open opened]
      rfl
    have first := goesOn_target h (scanned event List.mem_cons_self) g
    have still := goesOn_open opened (spares event List.mem_cons_self)
    have later (next : Gdb) := ih (g := next)
      (fun other inside => scanned other (List.mem_cons_of_mem _ inside))
      fun other inside => spares other (List.mem_cons_of_mem _ inside)
    rw [tasks_cons, List.foldlM_append, ← first, whole]
    cases went : event.goesOn h g with
    | error fault => exact ⟨rfl, trivial⟩
    | ok next =>
      rw [went] at still
      exact later next still

end Alive

section Conversation

def rightSum (yytext : List Byte) : Bool :=
  number 16 (yytext.drop (yytext.length - 2)) == checksum ((yytext.drop 1).take (yytext.length - 4))

def Quiet (noise : List Byte) : Prop :=
  ∀ t ∈ tokens scannerRules noise, t.action = some .packet → rightSum t.text = false

/-- A packet as it arrives: noise, then the packet, at last undamaged. -/
structure Piece where
  noise : List Byte
  body : List Byte
  high : Byte
  low : Byte

namespace Piece

structure Sound (p : Piece) : Prop where
  right : RightChecksum p.body p.high p.low
  clean : ∀ b ∈ p.body, b ≠ ch '$' ∧ b ≠ ch '#'
  quiet : Quiet p.noise

def packet (p : Piece) : List Byte := packetText p.body p.high p.low

end Piece

def conversation (pieces : List Piece) (rest : List Byte) : List Byte :=
  pieces.foldr (fun p more => p.noise ++ (p.packet ++ more)) rest

def accepted (calls : List ScannerCall) : List (List Byte × Nat) :=
  (packets calls).filter fun x => rightSum x.1

def Message.Carries (m : Message) (p : Piece) : Prop :=
  ∃ following e fuel, m = .request ((received p.body p.high p.low following).getD 0 0#8)
    ((received p.body p.high p.low following).drop 1) e fuel

def Message.CarriesPacket (m : Message) (x : List Byte × Nat) : Prop :=
  ∃ p : Piece, x = (p.packet, p.packet.length) ∧ m.Carries p

def Message.isRequest : Message → Bool
  | .request _ _ _ _ => true
  | _ => false

def Event.interrupt : Event → Option Message
  | .received _ => none
  | .irq byte => some (.interrupt (exceptionOf byte))

variable {body : List Byte} {high low : Byte}

theorem rightSum_packet (body : List Byte) (high low : Byte) :
    rightSum (packetText body high low) = decide (number 16 [high, low] = checksum body) := by
  have digits : (packetText body high low).drop ((packetText body high low).length - 2) =
      [high, low] := by
    have length : (packetText body high low).length - 2 = body.length + 2 := by simp [packetText]
    rw [length]
    simp [packetText]
  have inside : ((packetText body high low).drop 1).take ((packetText body high low).length - 4) =
      body := by
    simp [packetText]
  rw [rightSum, digits, inside]
  rfl

theorem quiet_nil : Quiet [] := by
  intro t member
  rw [tokens] at member
  cases member

theorem quiet_packets {noise : List Byte} (quiet : Quiet noise) :
    ((tokens scannerRules noise).flatMap tokenPackets).filter (fun x => rightSum x.1) = [] := by
  rw [List.filter_eq_nil_iff]
  intro x handed
  obtain ⟨t, member, found⟩ := List.mem_flatMap.mp handed
  unfold tokenPackets at found
  split at found
  · rename_i action
    rw [List.mem_singleton.mp found, quiet t member action]
    exact Bool.false_ne_true
  · cases found

theorem accepted_conversation {pieces : List Piece} {rest : List Byte}
    (sound : ∀ p ∈ pieces, p.Sound) (quiet : Quiet rest) {buffer : Nat → Byte}
    {calls : List ScannerCall} (ran : gdbScanner buffer (conversation pieces rest) = some calls) :
    accepted calls = pieces.map fun p => (p.packet, p.packet.length) := by
  obtain ⟨calls', ran', handed⟩ := gdbScanner_packets buffer (conversation pieces rest)
  obtain rfl := Option.some.inj (ran.symm.trans ran')
  rw [accepted, handed]
  clear ran ran' handed
  induction pieces with
  | nil => exact quiet_packets quiet
  | cons p pieces ih =>
    obtain ⟨right, clean, before⟩ := sound p List.mem_cons_self
    have first : conversation (p :: pieces) rest = p.noise ++ (packetText p.body p.high p.low ++
        conversation pieces rest) := rfl
    have same : rightSum (packetText p.body p.high p.low) = true := by
      rw [rightSum_packet]
      exact decide_eq_true right.sum
    -- no token reaches from the noise into the packet or from the packet behind it
    rw [first, (right.packet clean).tokens_between, List.flatMap_append, List.filter_append,
      quiet_packets before, List.nil_append, List.flatMap_cons, List.filter_append,
      ih fun q inside => sound q (List.mem_cons_of_mem _ inside)]
    simp [tokenPackets, same, Piece.packet]

theorem task_packet (h : Platform) (r : Received) (packet : IsPacket body high low)
    (call : r.call = .packetAnalysis (packetText body high low) (packetText body high low).length) :
    (Event.received r).task h = if number 16 [high, low] = checksum body then
      some (.request ((received body high low r.following).getD 0 0#8)
        ((received body high low r.following).drop 1) r.locals r.fuel) else none := by
  simp only [Event.task, Event.message, Received.message, call, examine_packet h r.locals packet]
  split_ifs <;> rfl

theorem task_other (h : Platform) (r : Received) (other : packetCall r.call = none) :
    (Event.received r).task h = none := by
  rcases r with ⟨call, e, fuel, following⟩
  cases call with
  | packetAnalysis yytext yyleng => cases other
  | _ => rfl

theorem packets_cons (c : ScannerCall) (calls : List ScannerCall) :
    packets (c :: calls) = (packetCall c).toList ++ packets calls := by
  cases call : packetCall c <;> simp [packets, call]

theorem tasks_carried (h : Platform) {rs : List Received} (scanned : ∀ r ∈ rs, r.Scanned) :
    List.Forall₂ Message.CarriesPacket (rs.filterMap fun r => (Event.received r).task h)
      (accepted (rs.map Received.call)) := by
  induction rs with
  | nil => exact .nil
  | cons r rs ih =>
    have later := ih fun q inside => scanned q (List.mem_cons_of_mem _ inside)
    cases call : packetCall r.call with
    | none =>
      have none := task_other h r call
      simpa [accepted, packets_cons, call, none] using later
    | some x =>
      obtain ⟨yytext, yyleng⟩ := x
      have analysed : r.call = .packetAnalysis yytext yyleng := by
        cases other : r.call with
        | packetAnalysis yytext' yyleng' =>
          rw [other] at call
          cases call
          rfl
        | _ => rw [other] at call; cases call
      obtain ⟨body, high, low, packet, rfl, rfl⟩ := scanned r List.mem_cons_self _ _ analysed
      have task := task_packet h r packet analysed
      have sum := rightSum_packet body high low
      by_cases right : number 16 [high, low] = checksum body
      · rw [if_pos right] at task
        rw [decide_eq_true right] at sum
        have first : Message.CarriesPacket (.request
            ((received body high low r.following).getD 0 0#8)
            ((received body high low r.following).drop 1) r.locals r.fuel)
            (packetText body high low, (packetText body high low).length) :=
          ⟨⟨[], body, high, low⟩, rfl, r.following, r.locals, r.fuel, rfl⟩
        have both := List.Forall₂.cons first later
        simpa [accepted, packets_cons, call, task, sum] using both
      · rw [if_neg right] at task
        rw [decide_eq_false right] at sum
        simpa [accepted, packets_cons, call, task, sum] using later

theorem packet_unique {p q : Piece} (same : p.packet = q.packet) {m : Message}
    (carries : m.Carries p) :
    m.Carries q := by
  obtain ⟨following, e, fuel, rfl⟩ := carries
  have bodies : p.body ++ [ch '#', p.high, p.low] = q.body ++ [ch '#', q.high, q.low] :=
    (List.cons.inj same).2
  obtain ⟨body, ends⟩ := List.append_inj' bodies rfl
  obtain ⟨high, rest⟩ := List.cons.inj (List.cons.inj ends).2
  obtain ⟨low, -⟩ := List.cons.inj rest
  exact ⟨following, e, fuel, by rw [body, high, low]⟩

theorem task_request (h : Platform) (r : Received) {m : Message}
    (task : (Event.received r).task h = some m) : m.isRequest = true := by
  obtain ⟨found, acts⟩ := Option.filter_eq_some_iff.mp task
  cases m with
  | request index data e fuel => rfl
  | interrupt exception =>
    rcases r with ⟨call, e, fuel, following⟩
    cases call with
    | packetAnalysis yytext yyleng =>
      simp only [Event.message, Received.message] at found
      generalize examine h e (yytext ++ 0#8 :: following) yyleng = examined at found
      rcases examined with fault | _ | ⟨index, data⟩
      all_goals cases found
    | _ => cases found
  | _ => cases acts

theorem requests_received (h : Platform) (events : List Event) :
    (events.filterMap (Event.task h)).filter Message.isRequest =
      (events.filterMap Event.call).filterMap fun r => (Event.received r).task h := by
  induction events with
  | nil => rfl
  | cons event events ih =>
    cases event with
    | irq byte => exact ih
    | received r =>
      cases task : (Event.received r).task h with
      | none => simpa [task, Event.call] using ih
      | some m => simpa [task, Event.call, task_request h r task] using ih

theorem interrupts_taken (h : Platform) (events : List Event) :
    (events.filterMap (Event.task h)).filter (fun m => !m.isRequest) =
      events.filterMap Event.interrupt := by
  induction events with
  | nil => rfl
  | cons event events ih =>
    cases event with
    | irq byte => exact congrArg (_ :: ·) ih
    | received r =>
      cases task : (Event.received r).task h with
      | none => simpa [task, List.filterMap_cons, Event.interrupt] using ih
      | some m => simpa [task, List.filterMap_cons, Event.interrupt, task_request h r task] using ih

theorem scanned_calls {buffer : Nat → Byte} {input : List Byte} {calls : List ScannerCall}
    (ran : gdbScanner buffer input = some calls) {events : List Event}
    (order : (events.filterMap Event.call).map Received.call = calls) :
    ∀ event ∈ events, event.Scanned := by
  intro event inside
  cases event with
  | irq byte => trivial
  | received r =>
    intro yytext yyleng call
    obtain ⟨calls', ran', handed⟩ := gdbScanner_packets buffer input
    obtain rfl := Option.some.inj (ran.symm.trans ran')
    have among : r.call ∈ calls := by
      rw [← order]
      exact List.mem_map_of_mem (List.mem_filterMap.mpr ⟨_, inside, rfl⟩)
    have member : (yytext, yyleng) ∈ packets calls :=
      List.mem_filterMap.mpr ⟨r.call, among, by rw [call]; rfl⟩
    rw [handed] at member
    obtain ⟨⟨action, text⟩, token, found⟩ := List.mem_flatMap.mp member
    unfold tokenPackets at found
    split at found
    · rename_i packet
      cases packet
      cases List.mem_singleton.mp found
      obtain ⟨body, high, low, packet, rfl⟩ := packet_scanned token
      exact ⟨body, high, low, packet, rfl, rfl⟩
    · cases found

theorem requests_carried (h : Platform) {pieces : List Piece} {rest : List Byte}
    (sound : ∀ p ∈ pieces, p.Sound) (quiet : Quiet rest) {buffer : Nat → Byte}
    {calls : List ScannerCall} (ran : gdbScanner buffer (conversation pieces rest) = some calls)
    {events : List Event} (order : (events.filterMap Event.call).map Received.call = calls) :
    List.Forall₂ Message.Carries
      ((events.filterMap (Event.task h)).filter Message.isRequest) pieces := by
  have scanned := scanned_calls ran order
  have each : ∀ r ∈ events.filterMap Event.call, r.Scanned := by
    intro r inside
    obtain ⟨event, among, found⟩ := List.mem_filterMap.mp inside
    cases event with
    | irq byte => cases found
    | received r' =>
      cases found
      exact scanned _ among
  have carried := tasks_carried h each
  rw [order, accepted_conversation sound quiet ran, List.forall₂_map_right_iff] at carried
  rw [requests_received]
  refine carried.imp ?_
  rintro m p ⟨q, same, carries⟩
  exact packet_unique (congrArg Prod.fst same).symm carries

theorem forall₂_mem {α β : Type*} {R : α → β → Prop} {l : List α} {u : List β}
    (related : List.Forall₂ R l u) {a : α} (inside : a ∈ l) : ∃ b ∈ u, R a b := by
  induction related with
  | nil => cases inside
  | cons first _ ih =>
    rcases List.mem_cons.mp inside with rfl | later
    · exact ⟨_, List.mem_cons_self, first⟩
    · obtain ⟨b, among, holds⟩ := ih later
      exact ⟨b, List.mem_cons_of_mem _ among, holds⟩

theorem requests_spare (h : Platform) {events : List Event} {pieces : List Piece}
    (carried : List.Forall₂ Message.Carries
      ((events.filterMap (Event.task h)).filter Message.isRequest) pieces)
    (alive : ∀ p ∈ pieces, p.body.head? ≠ some (ch 'k')) :
    ∀ event ∈ events, ∀ m, event.message h = .ok m → m.kills = false := by
  intro event inside m message
  by_contra kills
  cases m with
  | request index data e fuel =>
    have letter : index = ch 'k' := by
      -- over the table of handlers
      have table : ∀ b : Byte, (gdbHandlers.lookup b == some .killRequest) = true → b = ch 'k' := by
        decide +kernel
      exact table index (Bool.of_not_eq_false kills)
    have task : event.task h = some (.request index data e fuel) := by
      rw [Event.task, message]
      rfl
    have among : Message.request index data e fuel ∈
        (events.filterMap (Event.task h)).filter Message.isRequest :=
      List.mem_filter.mpr ⟨List.mem_filterMap.mpr ⟨event, inside, task⟩, rfl⟩
    obtain ⟨p, sent, following, _, _, same⟩ := forall₂_mem carried among
    cases same
    exact alive p sent (received_first (by decide) letter)
  | _ => exact kills rfl

end Conversation

/-- Over a line with noise, and with interrupts anywhere in between: if the program is still there,
the target is where the requests that were sent and the interrupts take it, each done once and each
kind in its order, and nothing else on the line has done anything to it. It is still there if gdb
does not kill the target and none of them fails by itself. -/
theorem requests_executed_once (h : Platform) (pieces : List Piece) (rest : List Byte)
    (sound : ∀ p ∈ pieces, p.Sound) (quiet : Quiet rest) (buffer : Nat → Byte)
    (calls : List ScannerCall) (ran : gdbScanner buffer (conversation pieces rest) = some calls)
    (events : List Event) (order : (events.filterMap Event.call).map Received.call = calls)
    (g : Gdb) :
    (∀ g', serve h events g = .ok g' →
      (events.filterMap (Event.task h)).foldlM (Target.perform h) g.target = .ok g'.target) ∧
    (.shutdown ∉ g.calls → (∀ p ∈ pieces, p.body.head? ≠ some (ch 'k')) →
      (serve h events g).map Gdb.target =
        (events.filterMap (Event.task h)).foldlM (Target.perform h) g.target) ∧
    List.Forall₂ Message.Carries
      ((events.filterMap (Event.task h)).filter Message.isRequest) pieces ∧
    (events.filterMap (Event.task h)).filter (fun m => !m.isRequest) =
      events.filterMap Event.interrupt := by
  have scanned := scanned_calls ran order
  have carried := requests_carried h sound quiet ran order
  refine ⟨fun g' => serve_target h scanned, ?_, carried, interrupts_taken h events⟩
  intro opened alive
  exact (serve_open scanned (requests_spare h carried alive) (decide_eq_false opened)).1

def askedTwice : Piece := ⟨packetText (text "?") (ch '0') (ch '0'), text "?", ch '3', ch 'f'⟩

theorem askedTwice_sound : askedTwice.Sound := by
  refine ⟨⟨by decide, by decide, by decide⟩, by decide, ?_⟩
  have damaged : IsPacket (text "?") (ch '0') (ch '0') := ⟨by decide, by decide, by decide⟩
  intro t member _
  rw [show askedTwice.noise = packetText (text "?") (ch '0') (ch '0') from rfl,
    damaged.scanned] at member
  rw [List.mem_singleton.mp member, rightSum_packet]
  decide

theorem foldlM_returns {α β : Type} {f : β → α → Except Fault β} {l : List α}
    (returns : ∀ a ∈ l, ∀ b, ∃ b', f b a = .ok b') (b : β) : ∃ b', l.foldlM f b = .ok b' := by
  induction l generalizing b with
  | nil => exact ⟨b, rfl⟩
  | cons a l ih =>
    obtain ⟨next, first⟩ := returns a List.mem_cons_self b
    obtain ⟨b', later⟩ := ih (fun c inside => returns c (List.mem_cons_of_mem _ inside)) next
    exact ⟨b', by rw [List.foldlM_cons, first]; exact later⟩

theorem requests_executed_once_asked : ∃ (events : List Event) (g' : Gdb),
    events.filterMap Event.irqByte = [6#8] ∧ serve lp64 events sampleGdb = .ok g' ∧
      List.Forall₂ Message.Carries
        ((events.filterMap (Event.task lp64)).filter Message.isRequest) [askedTwice] := by
  obtain ⟨calls, ran, -⟩ := gdbScanner_packets (fun _ => 0#8) (conversation [askedTwice] [])
  have order : ((calls.map (fun c => Event.received ⟨c, sampleLocals, 0, []⟩) ++
      [Event.irq 6#8]).filterMap Event.call).map Received.call = calls := by
    simp [List.filterMap_append, List.filterMap_map, Function.comp_def, Event.call]
  have sound : ∀ p ∈ [askedTwice], p.Sound := by
    intro p inside
    exact List.mem_singleton.mp inside ▸ askedTwice_sound
  obtain ⟨-, target, carried, -⟩ := requests_executed_once lp64 [askedTwice] [] sound quiet_nil
    (fun _ => 0#8) calls ran _ order sampleGdb
  have returns : ∀ m ∈ (calls.map (fun c => Event.received ⟨c, sampleLocals, 0, []⟩) ++
      [Event.irq 6#8]).filterMap (Event.task lp64),
        ∀ t, ∃ t', Target.perform lp64 t m = .ok t' := by
    intro m inside t
    cases m with
    | request index data e fuel =>
      obtain ⟨p, asked, following, _, _, same⟩ :=
        forall₂_mem carried (List.mem_filter.mpr ⟨inside, rfl⟩)
      obtain rfl := List.mem_singleton.mp asked
      cases same
      exact ⟨t, rfl⟩
    | interrupt exception => exact ⟨_, rfl⟩
    | _ => exact ⟨t, rfl⟩
  obtain ⟨t, performed⟩ := foldlM_returns returns sampleGdb.target
  have reached := (target (by decide) (by decide)).trans performed
  cases served : serve lp64 _ sampleGdb with
  | error fault =>
    rw [served] at reached
    cases reached
  | ok g' =>
    refine ⟨_, g', ?_, served, carried⟩
    simp [List.filterMap_append, List.filterMap_map, Function.comp_def, Event.irqByte]

end ArmSimulator
