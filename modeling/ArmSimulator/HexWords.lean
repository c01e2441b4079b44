import ArmSimulator.RegisterBlock

/-! Words as text: what `write_uint32` writes and `read_uint32` reads, for every
host and both byte orders of the simulated machine. -/
namespace ArmSimulator
open CString ByteStore

/-- The bytes of a word in the byte order of the simulated machine, two digits each. -/
def wordText (bigEndianSimulator : Bool) (value : Word) : List Byte :=
  (ordered bigEndianSimulator (leBytes 4 value)).flatMap hex2

section Text

variable (h : Platform) (value : Word)

theorem hexWord_eq : hexWord h value = wordText h.bigEndianSimulator value := by
  rw [wordText, ← wordIndices_bytes, List.flatMap_map]
  rfl

theorem length_wordText (bigEndianSimulator : Bool) :
    (wordText bigEndianSimulator value).length = 8 := by
  rw [wordText, length_flatMap_hex2, length_ordered, length_leBytes]

theorem wordText_lower (bigEndianSimulator : Bool) :
    ∀ c ∈ wordText bigEndianSimulator value, c ∈ lowerHexDigits := by
  intro c inside
  obtain ⟨b, -, here⟩ := List.mem_flatMap.mp inside
  exact hex2_lower b c here

theorem wordText_value (bigEndianSimulator : Bool) :
    ofLeBytes 32 (ordered bigEndianSimulator (fieldBytes (wordText bigEndianSimulator value))) =
      value := by
  have bytes := fieldBytes_flatMap id (ordered bigEndianSimulator (leBytes 4 value))
  simp only [id_eq, List.map_id_fun] at bytes
  rw [wordText, bytes, ordered_ordered, Bool.xor_self, ordered_false]
  exact ofLeBytes_leBytes (by decide) value

theorem wordText_inj {bigEndianSimulator : Bool} {v v' : Word}
    (same : wordText bigEndianSimulator v = wordText bigEndianSimulator v') : v = v' := by
  rw [← wordText_value v bigEndianSimulator, same, wordText_value]

theorem flatMap_fieldBytes {field : List Byte} (even : 2 ∣ field.length)
    (digits : ∀ c ∈ field, isDigit 16 c = true) :
    (fieldBytes field).flatMap hex2 = field.map toLower := by
  induction field using fieldBytes.induct with
  | case1 a b rest ih =>
    have pair := hex2_number (digits a (by simp)) (digits b (by simp))
    have later := ih (by simp only [List.length_cons] at even; omega) fun c inside =>
      digits c (by simp [inside])
    rw [fieldBytes, List.flatMap_cons, pair, later]
    rfl
  | case2 field short =>
    cases field with
    | nil => rfl
    | cons a rest =>
      cases rest with
      | nil => simp at even
      | cons b rest => exact absurd rfl (short a b rest)

end Text

section Writing

variable {bytes : List Byte}

theorem Gdb.put_inside (g : Gdb) {pos : Nat} {bs : List Byte}
    (inside : pos + bs.length ≤ maxPacketSize) :
    ∃ p, g.put pos bs = .ok { g with packet := p } ∧ p.bytes = overwrite g.packet.bytes pos bs :=
  ⟨_, dif_pos inside, rfl⟩

theorem writeWordBytes_overwrites (g : Gdb) (pos : Nat) (indices : List Nat)
    (room : pos + 2 * indices.length + 1 ≤ maxPacketSize) :
    ∃ p, writeWordBytes g pos bytes indices = .ok { g with packet := p } ∧
      p.bytes = overwrite g.packet.bytes pos
        ((indices.flatMap fun i => hex2 (bytes.getD i 0#8)) ++ [0#8]) := by
  induction indices generalizing g pos with
  | nil => exact g.put_inside (by simpa using room)
  | cons i indices ih =>
    rw [List.length_cons] at room
    let digits := hex2 (bytes.getD i 0#8)
    let rest := indices.flatMap fun i => hex2 (bytes.getD i 0#8)
    have inside : pos + (digits ++ [0#8]).length ≤ maxPacketSize := by
      rw [List.length_append, length_hex2, List.length_singleton]
      omega
    obtain ⟨p, first, opened⟩ := g.put_inside inside
    obtain ⟨q, later, closed⟩ := ih { g with packet := p } (pos + 2) (by omega)
    refine ⟨q, ?_, ?_⟩
    · simp only [writeWordBytes, first, bind, Except.bind, later, digits]
    · have again : overwrite (overwrite g.packet.bytes pos (digits ++ [0#8]))
          (pos + digits.length) (rest ++ [0#8]) =
            overwrite g.packet.bytes pos (digits ++ (rest ++ [0#8])) :=
        overwrite_again (by rw [g.packet.length_eq, length_hex2]; omega) 0#8 (by simp)
      rw [closed, List.flatMap_cons, List.append_assoc, ← again, ← opened]
      rfl

theorem writeUint32_overwrites (h : Platform) (g : Gdb) (pos : Nat) (value : Word)
    (room : pos + 9 ≤ maxPacketSize) :
    ∃ p, writeUint32 h g pos value = .ok { g with packet := p } ∧
      p.bytes = overwrite g.packet.bytes pos (wordText h.bigEndianSimulator value ++ [0#8]) := by
  rw [← hexWord_eq]
  exact writeWordBytes_overwrites g pos (wordIndices h) (by rw [length_wordIndices]; exact room)

end Writing

section Reading

variable {h : Platform} {e : Locals}

theorem cString_following (following behind : List Byte) :
    cString (following ++ 0#8 :: behind) = some (upToNul following) :=
  cString_terminated following behind

theorem readUint32_wordText (value : Word) (following behind : List Byte) :
    readUint32 h e (wordText h.bigEndianSimulator value ++ (following ++ 0#8 :: behind)) =
      .ok value := by
  rw [← hexWord_eq, readUint32_field (length_hexWord h value) (isDigit_hexWord h value)
    (cString_following following behind), hexWord_value]

theorem wordText_fieldBytes {field : List Byte} (eight : field.length = 8)
    (digits : ∀ c ∈ field, isDigit 16 c = true) (bigEndianSimulator : Bool) :
    wordText bigEndianSimulator
      (ofLeBytes 32 (ordered bigEndianSimulator (fieldBytes field))) = field.map toLower := by
  have four : (ordered bigEndianSimulator (fieldBytes field)).length = 4 := by
    rw [length_ordered, length_fieldBytes (n := 4) eight]
  rw [wordText, leBytes_ofLeBytes (by decide) four, ordered_ordered, Bool.xor_self, ordered_false]
  exact flatMap_fieldBytes ⟨4, eight⟩ digits

def wordCounter (h : Platform) : Word × Word :=
  if h.isBigEndian = h.bigEndianSimulator then (0#32, 1#32) else (3#32, -1#32)

theorem wordLoop_ends (h : Platform) (fuel : Nat) :
    wordLoop (wordCounter h).2 (fuel + 5) (wordCounter h).1 = wordIndices h := by
  rw [wordIndices_eq, wordCounter]
  split <;> rfl

end Reading

theorem hex_word_codec (h : Platform) (e : Locals) :
    (∀ fuel, wordLoop (wordCounter h).2 (fuel + 5) (wordCounter h).1 = wordIndices h ∧
      (wordIndices h).length = 4) ∧
    (∀ (g : Gdb) (pos : Nat) (value : Word), pos + 9 ≤ maxPacketSize →
      ∃ p, writeUint32 h g pos value = .ok { g with packet := p } ∧
        p.bytes = overwrite g.packet.bytes pos (wordText h.bigEndianSimulator value ++ [0#8])) ∧
    (∀ value : Word, (wordText h.bigEndianSimulator value).length = 8 ∧
      ∀ c ∈ wordText h.bigEndianSimulator value, c ∈ lowerHexDigits) ∧
    (∀ (value : Word) (following behind : List Byte),
      readUint32 h e (wordText h.bigEndianSimulator value ++ (following ++ 0#8 :: behind)) =
        .ok value) ∧
    ∀ s following behind : List Byte, s.length = 8 → (∀ c ∈ s, isDigit 16 c = true) →
      ∃ value, readUint32 h e (s ++ (following ++ 0#8 :: behind)) = .ok value ∧
        wordText h.bigEndianSimulator value = s.map toLower := by
  refine ⟨fun fuel => ⟨wordLoop_ends h fuel, length_wordIndices h⟩,
    fun g pos value room => writeUint32_overwrites h g pos value room,
    fun value => ⟨length_wordText value _, wordText_lower value _⟩, readUint32_wordText, ?_⟩
  intro s following behind eight digits
  exact ⟨_, readUint32_field eight digits (cString_following following behind),
    wordText_fieldBytes eight digits h.bigEndianSimulator⟩

theorem hex_word_codec_deadbeef :
    (∃ p, writeUint32 lp64 sampleGdb buffer 0xDEADBEEF#32 = .ok { sampleGdb with packet := p } ∧
      p.bytes = overwrite sampleGdb.packet.bytes buffer (text "deadbeef" ++ [0#8])) ∧
    ∃ value, readUint32 lp64 sampleLocals (text "DEADBEEF" ++ (text "01" ++ [0#8])) = .ok value ∧
      wordText true value = text "deadbeef" := by
  obtain ⟨-, written, -, -, read⟩ := hex_word_codec lp64 sampleLocals
  exact ⟨written sampleGdb buffer 0xDEADBEEF#32 (by decide),
    read (text "DEADBEEF") (text "01") [] (by decide) (by decide)⟩

end ArmSimulator
