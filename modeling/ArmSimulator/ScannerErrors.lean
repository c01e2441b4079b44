import ArmSimulator.Scanner

/-! The accounting of the scanner for what no rule recognises: how much of it is
in the error buffer, and how many retransmissions are asked for it. -/
namespace ArmSimulator
open CString Lexer

/-- A token with a rule of its own; the characters collected as errors and the echoed ones have
none. -/
def Recognised (t : Token Byte ScannerRule) : Prop := t.action ≠ none ∧ t.action ≠ some .any

def ScannerCall.isEcho : ScannerCall → Bool
  | .echo _ => true
  | _ => false

/-- The calls that send something to gdb or act on a packet. -/
def withoutEcho (calls : List ScannerCall) : List ScannerCall := calls.filter (!·.isEcho)

def tokenCalls (t : Token Byte ScannerRule) : List ScannerCall :=
  match t.action with
  | some .minus => [.transmitPacket]
  | some .packet => [.packetAnalysis t.text t.text.length]
  | _ => []

def errorCount (run : List (Token Byte ScannerRule)) : Nat :=
  run.countP fun t => t.action = some .any

/-- k / (MAX_ERROR_SIZE-1), rounded up. -/
def flushes (k : Nat) : Nat := (k + (maxErrorSize - 2)) / (maxErrorSize - 1)

def Reported (calls sent : List ScannerCall) (data : ParserData) : Prop :=
  ∃ new, data.calls = calls ++ new ∧ withoutEcho new = sent

/-- Since `calls` were made, `k` characters came: full buffers of them were reported, and the rest,
which is at least the last character, is in the buffer. -/
structure Pending (calls : List ScannerCall) (k : Nat) (data : ParserData) : Prop where
  bounded : data.len ≤ maxErrorSize - 1
  last : 0 < k → 0 < data.len
  reported : ∃ full, full * (maxErrorSize - 1) + data.len = k ∧
    Reported calls (List.replicate full .requireRetransmission) data

section Steps

variable {calls sent : List ScannerCall} {k : Nat} {data : ParserData}

theorem Reported.call (reported : Reported calls sent data) (c : ScannerCall) :
    Reported calls (sent ++ withoutEcho [c]) (data.call c) := by
  obtain ⟨new, made, rfl⟩ := reported
  exact ⟨new ++ [c], by simp [ParserData.call, made], by simp [withoutEcho]⟩

theorem Reported.flushed {full : Nat}
    (reported : Reported calls (List.replicate full .requireRetransmission) data) :
    Reported calls (List.replicate (full + 1) .requireRetransmission) data.flushed := by
  rw [List.replicate_succ']
  exact reported.call .requireRetransmission

theorem pending_nil (empty : data.len = 0) : Pending data.calls 0 data := by
  refine ⟨by omega, by omega, 0, by omega, [], by simp, rfl⟩

theorem Pending.handleError (pending : Pending calls k data) :
    ∃ data', ArmSimulator.handleError data = some data' ∧ data'.len = 0 ∧
      Reported calls (List.replicate (flushes k) .requireRetransmission) data' := by
  obtain ⟨full, count, reported⟩ := pending.reported
  have bounded := pending.bounded
  have last := pending.last
  simp only [maxErrorSize] at count bounded
  by_cases empty : data.len = 0
  · have complete : flushes k = full := by
      simp only [flushes, maxErrorSize]
      omega
    exact ⟨data, handleError_empty empty, empty, complete ▸ reported⟩
  · have rest : flushes k = full + 1 := by
      simp only [flushes, maxErrorSize]
      omega
    have inside : data.len < maxErrorSize := by simp only [maxErrorSize]; omega
    exact ⟨data.flushed, handleError_flushes empty inside, rfl, rest ▸ reported.flushed⟩

theorem Pending.character (pending : Pending calls k data) (c : Byte) :
    ∃ data', addCharacterToError data c = some data' ∧ Pending calls (k + 1) data' := by
  obtain ⟨full, count, reported⟩ := pending.reported
  have bounded := pending.bounded
  rcases Nat.lt_or_ge (maxErrorSize - 2) data.len with filled | room
  · have inside : data.len < maxErrorSize := by simp only [maxErrorSize] at *; omega
    refine ⟨_, addCharacterToError_flushes filled inside c, ?_, fun _ => Nat.succ_pos _, full + 1,
      ?_, reported.flushed⟩
    · simp [ParserData.extended, ParserData.flushed, maxErrorSize]
    · have whole : data.len = maxErrorSize - 1 := by omega
      rw [whole] at count
      rw [Nat.succ_mul, count]
      rfl
  · refine ⟨_, addCharacterToError_extends room c, ?_, fun _ => Nat.succ_pos _, full, ?_, reported⟩
    · simp only [ParserData.extended, maxErrorSize] at *
      omega
    · simp only [ParserData.extended]
      omega

theorem Pending.run (pending : Pending calls k data) {run : List (Token Byte ScannerRule)}
    (garbage : ∀ t ∈ run, ¬Recognised t) :
    ∃ data', run.foldlM scannerAction data = some data' ∧
      Pending calls (k + errorCount run) data' := by
  induction run generalizing k data with
  | nil => exact ⟨data, rfl, pending⟩
  | cons t run ih =>
    have later : ∀ t ∈ run, ¬Recognised t :=
      fun t inside => garbage t (List.mem_cons_of_mem _ inside)
    have first := garbage t List.mem_cons_self
    rw [Recognised, not_and_or, not_not, not_not] at first
    -- an echoed character leaves the buffer alone, any other is counted
    rcases first with echoed | collected
    · have same : Pending calls k (data.call (.echo t.text)) := by
        obtain ⟨full, count, reported⟩ := pending.reported
        have echo := reported.call (.echo t.text)
        exact ⟨pending.bounded, pending.last, full, count, by simpa [withoutEcho,
          ScannerCall.isEcho] using echo⟩
      obtain ⟨data', ran, pending⟩ := ih same later
      refine ⟨data', by simp [scannerAction, echoed, ran], ?_⟩
      simpa [errorCount, echoed] using pending
    · obtain ⟨next, added, pending⟩ := pending.character (t.text.headD 0#8)
      obtain ⟨data', ran, pending⟩ := ih pending later
      refine ⟨data', ?_, ?_⟩
      · rw [List.foldlM_cons, scannerAction, collected]
        simp only [added, Option.bind_eq_bind, Option.bind_some, ran]
      · have count : k + errorCount (t :: run) = k + 1 + errorCount run := by
          simp [errorCount, collected]
          omega
        rwa [count]

theorem Pending.token (pending : Pending calls k data) {t : Token Byte ScannerRule}
    (recognised : Recognised t) :
    ∃ data', scannerAction data t = some data' ∧ data'.len = 0 ∧ Reported calls
      (List.replicate (flushes k) .requireRetransmission ++ tokenCalls t) data' := by
  obtain ⟨flushed, done, empty, reported⟩ := pending.handleError
  cases kind : t.action with
  | none => exact absurd kind recognised.1
  | some rule =>
    cases rule with
    | any => exact absurd kind recognised.2
    | plus =>
      refine ⟨flushed, by simp [scannerAction, kind, done], empty, ?_⟩
      simpa [tokenCalls, kind] using reported
    | minus =>
      refine ⟨flushed.call .transmitPacket, by simp [scannerAction, kind, done], empty, ?_⟩
      rw [tokenCalls, kind]
      exact reported.call .transmitPacket
    | packet =>
      refine ⟨flushed.call (.packetAnalysis t.text t.text.length),
        by simp [scannerAction, kind, done], empty, ?_⟩
      rw [tokenCalls, kind]
      exact reported.call (.packetAnalysis t.text t.text.length)

end Steps

theorem scannerRun_empty (buffer : Nat → Byte) (before : List (Token Byte ScannerRule))
    (complete : ∀ t ∈ before.getLast?, Recognised t) :
    ∃ start, before.foldlM scannerAction ⟨buffer, 0, []⟩ = some start ∧ start.len = 0 := by
  rcases List.eq_nil_or_concat before with rfl | ⟨earlier, t, rfl⟩
  · exact ⟨_, rfl, rfl⟩
  · have recognised : Recognised t := complete t (by simp)
    have room : (⟨buffer, 0, []⟩ : ParserData).len < maxErrorSize := by simp [maxErrorSize]
    obtain ⟨data, ran, inside, -⟩ := scannerRun_steps earlier room
    have pending : Pending data.calls data.len data :=
      ⟨Nat.le_sub_one_of_lt inside, id, 0, by simp, [], by simp, rfl⟩
    obtain ⟨start, acted, empty, -⟩ := pending.token recognised
    exact ⟨start, by simp [ran, acted], empty⟩

/-- For every sequence of tokens, and every run of unrecognised ones after a recognised one or at
the start: an action that would write past the error buffer would have no result. -/
theorem error_accounting (buffer : Nat → Byte) (before run : List (Token Byte ScannerRule))
    (complete : ∀ t ∈ before.getLast?, Recognised t) (garbage : ∀ t ∈ run, ¬Recognised t) :
    (∀ ts : List (Token Byte ScannerRule), ∃ data last,
      ts.foldlM scannerAction ⟨buffer, 0, []⟩ = some data ∧ data.len ≤ maxErrorSize - 1 ∧
        handleError data = some last ∧ last.len ≤ maxErrorSize - 1) ∧
    ∃ start, before.foldlM scannerAction ⟨buffer, 0, []⟩ = some start ∧
      (∀ t, Recognised t → ∃ data new,
        (before ++ run ++ [t]).foldlM scannerAction ⟨buffer, 0, []⟩ = some data ∧
          data.calls = start.calls ++ new ∧
          withoutEcho new =
            List.replicate (flushes (errorCount run)) .requireRetransmission ++ tokenCalls t) ∧
      ∃ data new,
        ((before ++ run).foldlM scannerAction ⟨buffer, 0, []⟩).bind handleError = some data ∧
          data.calls = start.calls ++ new ∧
          withoutEcho new = List.replicate (flushes (errorCount run)) .requireRetransmission := by
  have room : (⟨buffer, 0, []⟩ : ParserData).len < maxErrorSize := by simp [maxErrorSize]
  constructor
  · intro ts
    obtain ⟨data, ran, inside, -⟩ := scannerRun_steps ts room
    obtain ⟨last, done, empty, -⟩ := handleError_steps inside
    exact ⟨data, last, ran, Nat.le_sub_one_of_lt inside, done, by omega⟩
  · obtain ⟨start, ran, empty⟩ := scannerRun_empty buffer before complete
    obtain ⟨collected, went, pending⟩ := (pending_nil empty).run garbage
    rw [Nat.zero_add] at pending
    have both : (before ++ run).foldlM scannerAction ⟨buffer, 0, []⟩ = some collected := by
      simp [ran, went]
    refine ⟨start, ran, ?_, ?_⟩
    · intro t recognised
      obtain ⟨data, acted, -, new, made, reported⟩ := pending.token recognised
      refine ⟨data, new, ?_, made, reported⟩
      rw [List.foldlM_append, both]
      simp [acted]
    · obtain ⟨data, done, -, new, made, reported⟩ := pending.handleError
      refine ⟨data, new, ?_, made, reported⟩
      rw [both, Option.bind_some, done]

theorem error_accounting_two_strays :
    ∃ data new, [(⟨some .any, text "x"⟩ : Token Byte ScannerRule), ⟨none, text "\n"⟩,
        ⟨some .any, text "y"⟩, ⟨some .plus, text "+"⟩].foldlM scannerAction
        ⟨fun _ => 0#8, 0, []⟩ = some data ∧ data.calls = new ∧
      withoutEcho new = [.requireRetransmission] := by
  obtain ⟨-, start, began, between, -⟩ := error_accounting (fun _ => 0#8) []
    [⟨some .any, text "x"⟩, ⟨none, text "\n"⟩, ⟨some .any, text "y"⟩] (by simp)
    (by simp [Recognised])
  obtain ⟨data, new, ran, made, reported⟩ := between ⟨some .plus, text "+"⟩ (by simp [Recognised])
  obtain rfl : _ = start := Option.some.inj began
  exact ⟨data, new, ran, made, reported⟩

end ArmSimulator
