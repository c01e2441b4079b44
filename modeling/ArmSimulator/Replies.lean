import ArmSimulator.PacketFrame

/-! The replies of the handlers: texts that fit the packet, and what they say.
Only a memory dump can be too long. -/
namespace ArmSimulator
open CString Outcomes

section Fields

variable {h : Platform} {g : Gdb} {t : List Byte}

def hexWord (h : Platform) (value : Word) : List Byte :=
  (wordIndices h).flatMap fun i => hex2 ((hostBytes h value).getD i 0#8)

theorem wordIndices_eq (h : Platform) : wordIndices h =
    if h.isBigEndian = h.bigEndianSimulator then [0, 1, 2, 3] else [3, 2, 1, 0] := rfl

theorem length_wordIndices (h : Platform) : (wordIndices h).length = 4 := by
  rw [wordIndices_eq]
  split <;> rfl

theorem length_flatMap_hex2 {α : Type*} (f : α → Byte) (l : List α) :
    (l.flatMap fun i => hex2 (f i)).length = 2 * l.length := by
  simp [List.length_flatMap, Nat.mul_comm]

theorem isDigit_flatMap_hex2 {α : Type*} (f : α → Byte) (l : List α) :
    ∀ b ∈ l.flatMap fun i => hex2 (f i), isDigit 16 b = true := by
  intro b inside
  obtain ⟨i, -, here⟩ := List.mem_flatMap.mp inside
  exact isDigit_hex2 _ b here

theorem length_hexWord (h : Platform) (value : Word) : (hexWord h value).length = 8 := by
  rw [hexWord, length_flatMap_hex2, length_wordIndices]

theorem isDigit_hexWord (h : Platform) (value : Word) :
    ∀ b ∈ hexWord h value, isDigit 16 b = true := isDigit_flatMap_hex2 _ _

theorem writeWordBytes_text (pos : Nat) (bytes : List Byte) (indices : List Nat)
    (begins : Begins g t) (place : pos = t.length + 1)
    (room : pos + 2 * indices.length + 1 ≤ maxPacketSize) :
    ∃ p, writeWordBytes g pos bytes indices = .ok { g with packet := p } ∧
      Begins { g with packet := p }
        (t ++ (indices.flatMap fun i => hex2 (bytes.getD i 0#8)) ++ [0#8]) := by
  induction indices generalizing g t pos with
  | nil =>
    obtain ⟨p, done, text⟩ := begins.put (s := [0#8]) pos place (by simpa using room)
    exact ⟨p, done, by simpa using text⟩
  | cons i indices ih =>
    rw [List.length_cons] at room
    obtain ⟨p, done, text⟩ := begins.put (s := hex2 (bytes.getD i 0#8) ++ [0#8]) pos place
      (by simp; omega)
    rw [← List.append_assoc] at text
    obtain ⟨q, rest, whole⟩ := ih (pos + 2) text.prefix_of (by simp; omega) (by omega)
    refine ⟨q, ?_, by simpa using whole⟩
    simp only [writeWordBytes, done, bind, Except.bind, rest]

theorem writeUint32_text (pos : Nat) (value : Word) (begins : Begins g t)
    (place : pos = t.length + 1) (room : pos + 9 ≤ maxPacketSize) :
    ∃ p, writeUint32 h g pos value = .ok { g with packet := p } ∧
      Begins { g with packet := p } (t ++ hexWord h value ++ [0#8]) :=
  writeWordBytes_text pos _ _ begins place (by rw [length_wordIndices]; exact room)

theorem writeWords_text (pos : Nat) (values : List Word) (begins : Begins g t)
    (place : pos = t.length + 1) (room : pos + 8 * values.length + 1 ≤ maxPacketSize) :
    ∃ p, Gdb.writeWords h pos values g = .ok { g with packet := p } ∧
      Begins { g with packet := p } (t ++ values.flatMap (hexWord h)) := by
  induction values generalizing g t pos with
  | nil => exact ⟨g.packet, rfl, by simpa using begins⟩
  | cons value values ih =>
    rw [List.length_cons] at room
    obtain ⟨p, done, text⟩ := writeUint32_text (h := h) pos value begins place (by omega)
    obtain ⟨q, rest, whole⟩ := ih (pos + 8) text.prefix_of
      (by rw [List.length_append, length_hexWord]; omega) (by omega)
    refine ⟨q, ?_, by simpa using whole⟩
    simp only [Gdb.writeWords, done, bind, Except.bind, rest]

theorem writeUnknown_text (pos : Nat) (n : Nat) (begins : Begins g t)
    (place : pos = t.length + 1) (room : pos + 8 * n + 1 ≤ maxPacketSize) :
    ∃ p, Gdb.writeUnknown pos n g = .ok { g with packet := p } ∧
      Begins { g with packet := p } (t ++ List.replicate (8 * n) (ch 'x')) := by
  induction n generalizing g t pos with
  | zero => exact ⟨g.packet, rfl, by simpa using begins⟩
  | succ n ih =>
    have eight : text "xxxxxxxx" = List.replicate 8 (ch 'x') := by decide
    obtain ⟨p, done, field⟩ := begins.put (s := text "xxxxxxxx" ++ [0#8]) pos place
      (by simp [eight]; omega)
    rw [← List.append_assoc] at field
    obtain ⟨q, rest, whole⟩ := ih (pos + 8) field.prefix_of (by simp [eight]; omega) (by omega)
    refine ⟨q, ?_, ?_⟩
    · simp only [Gdb.writeUnknown, done, bind, Except.bind, rest]
    · rwa [List.append_assoc, eight, List.replicate_append_replicate,
        show 8 + 8 * n = 8 * (n + 1) by omega] at whole

end Fields

section RegisterBlock

variable (h : Platform) (g : Gdb)

def registerBlock (p : ArmCore) : List Byte :=
  (Gdb.generalRegisters p).flatMap (hexWord h) ++ List.replicate 200 (ch 'x') ++
    hexWord h (armReadCpsr p)

theorem length_flatMap_hexWord (values : List Word) :
    (values.flatMap (hexWord h)).length = 8 * values.length := by
  simp [List.length_flatMap, length_hexWord, Nat.mul_comm]

theorem length_generalRegisters (p : ArmCore) : (Gdb.generalRegisters p).length = 16 := rfl

theorem length_registerBlock (p : ArmCore) : (registerBlock h p).length = 336 := by
  simp only [registerBlock, List.length_append, length_flatMap_hexWord, length_generalRegisters,
    List.length_replicate, length_hexWord]

theorem registerBlock_clean (p : ArmCore) : 0#8 ∉ registerBlock h p := by
  have digits (value : Word) : 0#8 ∉ hexWord h value :=
    not_mem_of_digits (isDigit_hexWord h value) (by decide)
  simp only [registerBlock, List.mem_append, List.mem_flatMap, List.mem_replicate, not_or,
    not_exists, not_and]
  exact ⟨⟨fun value _ => digits value, fun _ => by decide⟩, digits _⟩

theorem readGeneralRegisters_replies : ∃ g', g.readGeneralRegisters h = .ok g' ∧
    Replied g (registerBlock h g.arm) g' := by
  have size : ((Gdb.generalRegisters g.arm).flatMap (hexWord h)).length = 128 := by
    rw [length_flatMap_hexWord, length_generalRegisters]
  obtain ⟨p, general, begins⟩ := writeWords_text (h := h) buffer
    (Gdb.generalRegisters g.arm) (begins_nil g) rfl (by rw [length_generalRegisters]; decide)
  obtain ⟨q, floating, begins⟩ := writeUnknown_text (buffer + 128) 24 begins
    (by rw [List.nil_append, size, buffer]) (by decide)
  obtain ⟨r, point, begins⟩ := writeUnknown_text (buffer + 320) 1 begins
    (by rw [List.nil_append, List.length_append, size, List.length_replicate, buffer]) (by decide)
  obtain ⟨s, status, begins⟩ := writeUint32_text (h := h) (buffer + 328)
    (armReadCpsr g.arm) begins
    (by
      rw [List.nil_append, List.length_append, List.length_append, size, List.length_replicate,
        List.length_replicate, buffer])
    (by decide)
  have whole : Begins { g with packet := s } (registerBlock h g.arm ++ [0#8]) := by
    rwa [List.nil_append, List.append_assoc _ (List.replicate (8 * 24) _),
      List.replicate_append_replicate] at begins
  obtain ⟨g', sent, replied⟩ := gdbSendBuffer_fits whole (registerBlock_clean h g.arm)
    (by rw [length_registerBlock]; decide)
  refine ⟨g', ?_, replied.of_draft⟩
  simp only [Gdb.readGeneralRegisters, general, floating, point, status, sent, bind, Except.bind]

end RegisterBlock

section Bounded

/-- A call that stays in the packet and only adds to the calls made so far. -/
def Bounded (calls : List GdbCall) (x : Answer) : Prop :=
  Ends x (· ≠ .overflow) fun g => calls <+: g.calls

variable {h : Platform} {e : Locals} {g : Gdb} {d data : List Byte} {calls : List GdbCall}
    {x : Answer}

theorem Replied.bounded (replies : ∃ g', x = .ok g' ∧ Replied g d g')
    (kept : calls <+: g.calls) : Bounded calls x := by
  obtain ⟨g', sent, replied⟩ := replies
  apply Ends.of_eq sent
  rw [replied.calls]
  exact kept.trans (List.prefix_append _ _)

theorem gdbSendData_bounded (clean : 0#8 ∉ d) (short : d.length + 5 ≤ maxPacketSize)
    (kept : calls <+: g.calls) : Bounded calls (gdbSendData g d) :=
  Replied.bounded (gdbSendData_replies clean short) kept

theorem stringAt_ends (data : List Byte) :
    Ends (stringAt data) (· ≠ .overflow) fun _ => True := by
  unfold stringAt
  split
  · trivial
  · exact Ends.of_error (by decide)

theorem gdbSendStopReason_bounded (kept : calls <+: g.calls) :
    Bounded calls (gdbSendStopReason g) := by
  unfold gdbSendStopReason
  split <;> exact gdbSendData_bounded (by decide) (by decide) kept

theorem armStepOf_ends (h : Platform) (e : Locals) (g : Gdb) (k : Nat) :
    Ends (g.armStepOf h e k) (· ≠ .overflow) fun g' => g'.calls = g.calls := by
  unfold Gdb.armStepOf
  split
  · rfl
  · exact Ends.of_error (by decide)
  · exact Ends.of_error (by decide)

theorem contLoop_bounded (fuel k : Nat) (instruction : Word) (kept : calls <+: g.calls) :
    Bounded calls (Gdb.contLoop h e fuel k instruction g) := by
  induction fuel generalizing k instruction g with
  | zero => exact Ends.of_error (by decide)
  | succ fuel ih =>
    simp only [Gdb.contLoop]
    split
    · exact gdbSendStopReason_bounded kept
    · apply (armStepOf_ends h e g k).bind
      intro g' same
      exact ih _ _ (same ▸ kept)

theorem query_bounded (kept : calls <+: g.calls) : Bounded calls (g.query data) := by
  apply (stringAt_ends data).bind
  intro s _
  repeat' split
  all_goals exact gdbSendData_bounded (by decide) (by decide) kept

theorem writeUint32_replies (h : Platform) (g : Gdb) (value : Word) :
    ∃ g', (do let g ← writeUint32 h g buffer value; gdbSendBuffer g) = .ok g' ∧
      Replied g (hexWord h value) g' := by
  obtain ⟨p, written, begins⟩ := writeUint32_text (h := h) buffer value (begins_nil g) rfl
    (by decide)
  obtain ⟨g', sent, replied⟩ := gdbSendBuffer_fits begins
    (not_mem_of_digits (isDigit_hexWord h value) (by decide)) (by
      rw [List.nil_append, length_hexWord]
      decide)
  refine ⟨g', ?_, replied.of_draft⟩
  simp only [written, bind, Except.bind, sent]

theorem readRegister_bounded (kept : calls <+: g.calls) :
    Bounded calls (g.readRegister h data) := by
  apply (stringAt_ends data).bind
  intro s _
  dsimp only
  split
  · exact Replied.bounded (writeUint32_replies h g _) kept
  · exact Ends.of_error (by decide)

theorem setThread_bounded (kept : calls <+: g.calls) : Bounded calls (g.setThread h data) := by
  unfold Gdb.setThread
  split
  · exact Ends.of_error (by decide)
  · apply (stringAt_ends _).bind
    intro s _
    dsimp only
    split <;> exact gdbSendData_bounded (by decide) (by decide) kept

theorem step_bounded (kept : calls <+: g.calls) : Bounded calls (g.step h e) := by
  apply (armStepOf_ends h e g 0).bind
  intro g' same
  exact gdbSendStopReason_bounded (same ▸ kept)

theorem readUint32_ends (h : Platform) (e : Locals) (data : List Byte) :
    Ends (readUint32 h e data) (· ≠ .overflow) fun _ => True := by
  have loop (value : Word) (bytes : List Byte) (indices : List Nat) :
      Ends (readWordBytes h data value bytes indices) (· ≠ .overflow) fun _ => True := by
    induction indices generalizing data value bytes with
    | nil => trivial
    | cons i indices ih =>
      apply (stringAt_ends data).bind
      intro s _
      exact ih _ _ _
  apply (loop _ _ _).bind
  intro bytes _
  trivial

theorem writeRegisters_ends (indices : List Nat) (p : ArmCore) :
    Ends (Gdb.writeRegisters h e data indices p) (· ≠ .overflow) fun _ => True := by
  induction indices generalizing data p with
  | nil => trivial
  | cons i indices ih =>
    apply (readUint32_ends h e data).bind
    intro value _
    exact ih _

theorem skipWords_ends (n : Nat) :
    Ends (Gdb.skipWords h e data n) (· ≠ .overflow) fun _ => True := by
  induction n generalizing data with
  | zero => trivial
  | succ n ih =>
    apply (readUint32_ends h e data).bind
    intro value _
    exact ih

theorem writeGeneralRegisters_bounded (kept : calls <+: g.calls) :
    Bounded calls (g.writeGeneralRegisters h e data) := by
  apply (writeRegisters_ends _ _).bind
  intro p _
  apply (skipWords_ends 24).bind
  intro _ _
  apply (skipWords_ends 1).bind
  intro _ _
  apply (readUint32_ends _ _ _).bind
  intro value _
  exact gdbSendData_bounded (by decide) (by decide) kept

theorem decodeByte_ends (content : Option (List Byte)) :
    Ends (Gdb.decodeByte content) (· ≠ .overflow) fun _ => True := by
  unfold Gdb.decodeByte
  repeat' split
  all_goals first | trivial | exact Ends.of_error (by decide)

theorem downloadLoop_ends (size : Nat) (content : Option (List Byte)) (address : Word)
    (mem : Memory) :
    Ends (Gdb.downloadLoop h size content address mem) (· ≠ .overflow) fun _ => True := by
  induction size generalizing content address mem with
  | zero => trivial
  | succ size ih =>
    apply (decodeByte_ends content).bind
    rintro ⟨value, rest⟩ _
    dsimp only
    split
    · exact ih _ _ _
    · trivial

theorem writeMemoryBinary_bounded (kept : calls <+: g.calls) :
    Bounded calls (g.writeMemoryBinary h e data) := by
  apply (stringAt_ends data).bind
  intro s _
  have answered (r : Memory × Bool) : Bounded calls
      (if r.2 then gdbSendData { g with arm := { g.arm with mem := r.1 } } (text "OK")
        else gdbSendData { g with arm := { g.arm with mem := r.1 } } (text "E02")) := by
    split <;> exact gdbSendData_bounded (by decide) (by decide) kept
  dsimp only
  split
  · apply (downloadLoop_ends _ _ _ _).bind
    exact fun r _ => answered r
  · exact answered (g.arm.mem, false)

theorem writeRegister_bounded (kept : calls <+: g.calls) :
    Bounded calls (g.writeRegister h e data) := by
  apply (stringAt_ends data).bind
  intro s _
  dsimp only
  split
  · exact Ends.of_error (by decide)
  · apply (readUint32_ends _ _ _).bind
    intro value _
    split
    · exact gdbSendData_bounded (by decide) (by decide) kept
    · exact Ends.of_error (by decide)

end Bounded

end ArmSimulator
