import ArmSimulator.Library.CString
import ArmSimulator.Library.Lexer
import ArmSimulator.Util

/-! scanner.l: the rules for what comes from gdb, and their actions. The calls
of gdb_protocol.c and the echo are recorded in their order; what the scanner
does next does not depend on what they do. -/
namespace ArmSimulator
open CString Lexer RegularExpression

def maxErrorSize : Nat := 1024

inductive ScannerCall where
  | requireRetransmission
  | transmitPacket
  | packetAnalysis (yytext : List Byte) (yyleng : Nat)
  | echo (yytext : List Byte)
deriving DecidableEq

structure ParserData where
  buffer : Nat → Byte
  len : Nat
  calls : List ScannerCall

/-- An assignment to `data->buffer[i]`, which has `maxErrorSize` places. -/
def ParserData.store (data : ParserData) (i : Nat) (c : Byte) : Option ParserData :=
  if i < maxErrorSize then some { data with buffer := Function.update data.buffer i c } else none

def ParserData.call (data : ParserData) (c : ScannerCall) : ParserData :=
  { data with calls := data.calls ++ [c] }

def handleError (data : ParserData) : Option ParserData :=
  if data.len ≠ 0 then do
    let data ← data.store data.len 0#8
    some { data.call .requireRetransmission with len := 0 }
  else some data

def addCharacterToError (data : ParserData) (c : Byte) : Option ParserData := do
  let data ← if data.len > maxErrorSize - 2 then handleError data else some data
  let data ← data.store data.len c
  some { data with len := data.len + 1 }

inductive ScannerRule where
  | plus
  | minus
  | packet
  | any
deriving DecidableEq

def bytesExcept (excluded : List Byte) : List Byte :=
  ((List.range 256).map (BitVec.ofNat 8)).filter (· ∉ excluded)

def hex : RegularExpression Byte := oneOf hexDigits

def packetPattern : RegularExpression Byte :=
  char (ch '$') * (star (oneOf (bytesExcept [ch '$', ch '#'])) * (char (ch '#') * (hex * hex)))

def scannerRules : List (Rule Byte ScannerRule) :=
  [⟨char (ch '+'), .plus⟩, ⟨char (ch '-'), .minus⟩, ⟨packetPattern, .packet⟩,
    ⟨oneOf (bytesExcept [ch '\n']), .any⟩]

/-- The action of a rule, and ECHO where no rule matches. -/
def scannerAction (data : ParserData) (t : Token Byte ScannerRule) : Option ParserData :=
  match t.action with
  | some .plus => handleError data
  | some .minus => (handleError data).map fun data => data.call .transmitPacket
  | some .packet =>
    (handleError data).map fun data => data.call (.packetAnalysis t.text t.text.length)
  | some .any => addCharacterToError data (t.text.headD 0#8)
  | none => some (data.call (.echo t.text))

def yylex (data : ParserData) (input : List Byte) : Option ParserData :=
  ((tokens scannerRules input).foldlM scannerAction data).bind handleError

/-- The calls of `gdb_scanner`, with what the error buffer holds at first. -/
def gdbScanner (buffer : Nat → Byte) (input : List Byte) : Option (List ScannerCall) :=
  (yylex ⟨buffer, 0, []⟩ input).map ParserData.calls

def packetCall : ScannerCall → Option (List Byte × Nat)
  | .packetAnalysis yytext yyleng => some (yytext, yyleng)
  | _ => none

def packets (calls : List ScannerCall) : List (List Byte × Nat) := calls.filterMap packetCall

section Packets

theorem mem_bytesExcept {excluded : List Byte} {b : Byte} :
    b ∈ bytesExcept excluded ↔ b ∉ excluded := by
  simp only [bytesExcept, List.mem_filter, List.mem_map, List.mem_range, decide_eq_true_eq,
    and_iff_right_iff_imp]
  exact fun _ => ⟨b.toNat, b.isLt, by simp⟩

/-- A packet: a body without dollar and sharp in its frame, and two digits of either case. -/
structure IsPacket (body : List Byte) (high low : Byte) : Prop where
  clean : ∀ b ∈ body, b ≠ ch '$' ∧ b ≠ ch '#'
  high_digit : isDigit 16 high = true
  low_digit : isDigit 16 low = true

def packetText (body : List Byte) (high low : Byte) : List Byte :=
  ch '$' :: (body ++ [ch '#', high, low])

theorem mem_packetPattern {w : List Byte} : w ∈ packetPattern.matches' ↔
    ∃ body high low, IsPacket body high low ∧ w = packetText body high low := by
  simp only [packetPattern, matches'_mul, Language.mem_mul, mem_char, mem_star_oneOf, hex,
    mem_oneOf, mem_bytesExcept]
  constructor
  · rintro ⟨_, rfl, _, ⟨body, clean, _, ⟨_, rfl, _,
      ⟨_, ⟨high, first, rfl⟩, _, ⟨low, second, rfl⟩, rfl⟩, rfl⟩, rfl⟩, rfl⟩
    refine ⟨body, high, low, ⟨?_, (isDigit_iff _).mpr first, (isDigit_iff _).mpr second⟩, rfl⟩
    intro b inside
    simpa using clean b inside
  · rintro ⟨body, high, low, packet, rfl⟩
    refine ⟨_, rfl, _, ⟨body, ?_, _, ⟨_, rfl, _,
      ⟨_, ⟨high, (isDigit_iff _).mp packet.high_digit, rfl⟩,
      _, ⟨low, (isDigit_iff _).mp packet.low_digit, rfl⟩, rfl⟩, rfl⟩, rfl⟩, rfl⟩
    intro b inside
    simpa using packet.clean b inside

variable {body : List Byte} {high low : Byte}

theorem IsPacket.scanned (packet : IsPacket body high low) :
    tokens scannerRules (packetText body high low) =
      [⟨some .packet, packetText body high low⟩] := by
  have first : ∀ s ∈ [(⟨char (ch '+'), .plus⟩ : Rule Byte ScannerRule), ⟨char (ch '-'), .minus⟩],
      packetText body high low ∉ s.pattern.matches' := by
    intro s member found
    simp only [List.mem_cons, List.not_mem_nil, or_false] at member
    rcases member with rfl | rfl
    all_goals
      have same := congrArg List.length (mem_char.mp found)
      simp [packetText] at same
  exact tokens_whole (List.cons_ne_nil _ _) (mem_packetPattern.mpr ⟨body, high, low, packet, rfl⟩)
    first

theorem IsPacket.no_dollar (packet : IsPacket body high low) :
    ch '$' ∉ body ++ [ch '#', high, low] := by
  intro inside
  simp only [List.mem_append, List.mem_cons, List.not_mem_nil, or_false] at inside
  rcases inside with inBody | sharp | isHigh | isLow
  · exact (packet.clean _ inBody).1 rfl
  · exact absurd sharp (by decide)
  · exact digit_ne packet.high_digit (by decide) isHigh.symm
  · exact digit_ne packet.low_digit (by decide) isLow.symm

theorem cut_dollar (u more : List Byte) : Cut scannerRules u (ch '$' :: more) := by
  intro v x _ vNonempty start xNonempty r member found
  obtain ⟨first, before, rfl⟩ := List.exists_cons_of_ne_nil vNonempty
  obtain ⟨c, after, rfl⟩ := List.exists_cons_of_ne_nil xNonempty
  obtain rfl : c = ch '$' := (List.cons_prefix_cons.mp start).1
  have single (d : Byte) (same : first :: before ++ ch '$' :: after = [d]) : False := by
    have lengths := congrArg List.length same
    simp only [List.length_append, List.length_cons, List.length_nil] at lengths
    omega
  simp only [scannerRules, List.mem_cons, List.not_mem_nil, or_false] at member
  rcases member with rfl | rfl | rfl | rfl
  · exact single _ (mem_char.mp found)
  · exact single _ (mem_char.mp found)
  · obtain ⟨other, _, _, packet, same⟩ := mem_packetPattern.mp found
    apply packet.no_dollar
    rw [← (List.cons.inj same).2]
    simp
  · obtain ⟨d, _, same⟩ := mem_oneOf.mp found
    exact single d same

end Packets

section Actions

def tokenPackets (t : Token Byte ScannerRule) : List (List Byte × Nat) :=
  if t.action = some .packet then [(t.text, t.text.length)] else []

def Steps (data : ParserData) (result : Option ParserData) (handed : List (List Byte × Nat)) :
    Prop :=
  ∃ data', result = some data' ∧ data'.len < maxErrorSize ∧
    packets data'.calls = packets data.calls ++ handed

variable {data : ParserData}

@[simp] theorem ParserData.packets_call (c : ScannerCall) :
    packets (data.call c).calls = packets data.calls ++ (packetCall c).toList := by
  cases c <;> simp [call, packets, packetCall]

theorem ParserData.store_inside {i : Nat} (inside : i < maxErrorSize) (c : Byte) :
    data.store i c = some { data with buffer := Function.update data.buffer i c } := if_pos inside

def ParserData.flushed (data : ParserData) : ParserData :=
  { buffer := Function.update data.buffer data.len 0#8, len := 0,
    calls := data.calls ++ [.requireRetransmission] }

def ParserData.extended (data : ParserData) (c : Byte) : ParserData :=
  { data with buffer := Function.update data.buffer data.len c, len := data.len + 1 }

theorem handleError_empty (empty : data.len = 0) : handleError data = some data := by
  simp [handleError, empty]

theorem handleError_flushes (filled : data.len ≠ 0) (inside : data.len < maxErrorSize) :
    handleError data = some data.flushed := by
  simp [handleError, filled, ParserData.store_inside inside, ParserData.call, ParserData.flushed]

theorem addCharacterToError_extends (room : data.len ≤ maxErrorSize - 2) (c : Byte) :
    addCharacterToError data c = some (data.extended c) := by
  have inside : data.len < maxErrorSize := by simp only [maxErrorSize] at *; omega
  simp [addCharacterToError, Nat.not_lt_of_le room, ParserData.store_inside inside,
    ParserData.extended]

theorem addCharacterToError_flushes (full : maxErrorSize - 2 < data.len)
    (inside : data.len < maxErrorSize) (c : Byte) :
    addCharacterToError data c = some (data.flushed.extended c) := by
  have room : data.flushed.len < maxErrorSize := by simp [ParserData.flushed, maxErrorSize]
  have flushed := handleError_flushes (by omega) inside
  simp [addCharacterToError, full, flushed, ParserData.store_inside room, ParserData.extended]

theorem handleError_steps (inside : data.len < maxErrorSize) :
    ∃ data', handleError data = some data' ∧ data'.len = 0 ∧
      packets data'.calls = packets data.calls := by
  by_cases empty : data.len = 0
  · exact ⟨data, handleError_empty empty, empty, rfl⟩
  · refine ⟨data.flushed, handleError_flushes empty inside, rfl, ?_⟩
    simp [ParserData.flushed, packets, packetCall]

theorem addCharacterToError_steps (inside : data.len < maxErrorSize) (c : Byte) :
    Steps data (addCharacterToError data c) [] := by
  rcases Nat.lt_or_ge (maxErrorSize - 2) data.len with full | room
  · refine ⟨_, addCharacterToError_flushes full inside c, ?_, ?_⟩
    · simp [ParserData.extended, ParserData.flushed, maxErrorSize]
    · simp [ParserData.extended, ParserData.flushed, packets, packetCall]
  · refine ⟨_, addCharacterToError_extends room c, ?_, ?_⟩
    · simp only [ParserData.extended, maxErrorSize] at room ⊢
      omega
    · simp [ParserData.extended]

theorem scannerAction_steps (inside : data.len < maxErrorSize) (t : Token Byte ScannerRule) :
    Steps data (scannerAction data t) (tokenPackets t) := by
  obtain ⟨flushed, done, zero, same⟩ := handleError_steps inside
  have room : flushed.len < maxErrorSize := by simp [zero, maxErrorSize]
  cases kind : t.action with
  | none =>
    refine ⟨data.call (.echo t.text), by simp only [scannerAction, kind], inside, ?_⟩
    simp [tokenPackets, kind, packetCall]
  | some rule =>
    cases rule with
    | plus =>
      refine ⟨flushed, by simp only [scannerAction, kind, done], room, ?_⟩
      simp [same, tokenPackets, kind]
    | minus =>
      refine ⟨flushed.call .transmitPacket, by simp [scannerAction, kind, done], room, ?_⟩
      simp [same, tokenPackets, kind, packetCall]
    | packet =>
      refine ⟨flushed.call (.packetAnalysis t.text t.text.length),
        by simp [scannerAction, kind, done], room, ?_⟩
      simp [same, tokenPackets, kind, packetCall]
    | any =>
      have added := addCharacterToError_steps inside (t.text.headD 0#8)
      simpa [scannerAction, tokenPackets, kind] using added

theorem scannerRun_steps (ts : List (Token Byte ScannerRule)) (inside : data.len < maxErrorSize) :
    Steps data (ts.foldlM scannerAction data) (ts.flatMap tokenPackets) := by
  induction ts generalizing data with
  | nil => exact ⟨data, rfl, inside, by simp⟩
  | cons t ts ih =>
    obtain ⟨next, acted, room, handed⟩ := scannerAction_steps inside t
    obtain ⟨last, ran, within, rest⟩ := ih room
    refine ⟨last, by simp [acted, ran], within, ?_⟩
    rw [rest, handed, List.flatMap_cons, List.append_assoc]

theorem gdbScanner_packets (buffer : Nat → Byte) (input : List Byte) :
    ∃ calls, gdbScanner buffer input = some calls ∧
      packets calls = (tokens scannerRules input).flatMap tokenPackets := by
  have start : (⟨buffer, 0, []⟩ : ParserData).len < maxErrorSize := by simp [maxErrorSize]
  obtain ⟨last, ran, within, handed⟩ := scannerRun_steps (tokens scannerRules input) start
  obtain ⟨flushed, done, -, same⟩ := handleError_steps within
  refine ⟨flushed.calls, by simp [gdbScanner, yylex, ran, done], ?_⟩
  rw [same, handed]
  simp [packets]

end Actions

theorem packet_resynchronised (buffer : Nat → Byte) (u body : List Byte) (high low : Byte)
    (packet : IsPacket body high low) :
    ∃ alone followed, gdbScanner buffer u = some alone ∧
      gdbScanner buffer (u ++ packetText body high low) = some followed ∧
      packets followed = packets alone ++
        [(packetText body high low, (packetText body high low).length)] := by
  obtain ⟨alone, ranAlone, before⟩ := gdbScanner_packets buffer u
  obtain ⟨followed, ranFollowed, after⟩ := gdbScanner_packets buffer (u ++ packetText body high low)
  have boundary : Cut scannerRules u (packetText body high low) := cut_dollar u _
  refine ⟨alone, followed, ranAlone, ranFollowed, ?_⟩
  rw [after, before, tokens_append boundary, packet.scanned, List.flatMap_append]
  rfl

theorem packet_resynchronised_after_strays : ∃ alone followed,
    gdbScanner (fun _ => 0#8) (text "$x#1$#+") = some alone ∧
      gdbScanner (fun _ => 0#8) (text "$x#1$#+" ++ packetText (text "g") (ch '6') (ch '7')) =
        some followed ∧
      packets followed = packets alone ++ [(packetText (text "g") (ch '6') (ch '7'), 5)] :=
  packet_resynchronised (fun _ => 0#8) (text "$x#1$#+") (text "g") (ch '6') (ch '7')
    ⟨by decide, by decide, by decide⟩

end ArmSimulator
