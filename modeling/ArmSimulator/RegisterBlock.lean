import ArmSimulator.Library.KeyedStore
import ArmSimulator.ReplyBounds

/-! The register block of the G and g requests: its fields, what a write of the
block stores, and when the next read reports what was written. -/
namespace ArmSimulator
open CString ByteStore KeyedStore

def fieldBytes : List Byte → List Byte
  | a :: b :: rest => BitVec.ofNat 8 (number 16 [a, b]) :: fieldBytes rest
  | _ => []

/-- The word in the field number `i` of a block, in the byte order of the simulated machine. -/
def fieldValue (h : Platform) (block : List Byte) (i : Nat) : Word :=
  ofLeBytes 32 (ordered h.bigEndianSimulator (fieldBytes ((block.drop (8 * i)).take 8)))

section Order

theorem ordered_swap (a b : Bool) (l : List Byte) :
    ordered a (if a = b then l else l.reverse) = ordered b l := by
  cases a <;> cases b <;> simp [ordered]

end Order

section Reading

variable {h : Platform} {e : Locals}

theorem readWordBytes_digits {a b : Byte} (digits : ∀ c ∈ [a, b], isDigit 16 c = true)
    {rest s : List Byte} (string : cString rest = some s) (value : Word) (bytes : List Byte)
    (i : Nat) (indices : List Nat) :
    readWordBytes h (a :: b :: rest) value bytes (i :: indices) =
      readWordBytes h rest (BitVec.ofNat 32 (number 16 [a, b]))
        (bytes.set i (BitVec.ofNat 8 (number 16 [a, b]))) indices := by
  have joined : cString (a :: b :: rest) = some (a :: b :: s) := cString_digits digits string
  have whole : stringAt (a :: b :: rest) = .ok (a :: b :: s) := by rw [stringAt, joined]
  have item := hexItem_pair h.sizeTBits_ge digits
  have field : scanHexField h.sizeTBits 2 (a :: b :: s) =
      some (BitVec.ofNat 32 (number 16 [a, b])) := by
    simp [scanHexField, isSpace_digit a (digits a (by simp)), item]
  have narrow : (BitVec.ofNat 32 (number 16 [a, b])).setWidth 8 =
      BitVec.ofNat 8 (number 16 [a, b]) := by
    simp
  simp only [readWordBytes, whole, field, narrow, bind, Except.bind, Option.getD_some]
  rfl

theorem readWordBytes_field {field rest s : List Byte}
    (digits : ∀ c ∈ field, isDigit 16 c = true) (string : cString rest = some s) (value : Word)
    (bytes : List Byte) (indices : List Nat) (length : field.length = 2 * indices.length) :
    readWordBytes h (field ++ rest) value bytes indices =
      .ok ((indices.zip (fieldBytes field)).foldl (fun bytes p => bytes.set p.1 p.2) bytes) := by
  induction indices generalizing field value bytes with
  | nil =>
    rfl
  | cons i indices ih =>
    cases field with
    | nil => simp at length
    | cons a field =>
      cases field with
      | nil => simp at length; omega
      | cons b field =>
        have pair : ∀ c ∈ [a, b], isDigit 16 c = true := fun c inside =>
          digits c (by simp only [List.mem_cons, List.not_mem_nil, or_false] at inside ⊢; tauto)
        have others : ∀ c ∈ field, isDigit 16 c = true := fun c inside =>
          digits c (by simp [inside])
        rw [List.cons_append, List.cons_append,
          readWordBytes_digits pair (cString_digits others string),
          ih others _ _ (by simp at length; omega)]
        rfl

theorem length_fieldBytes {n : Nat} {field : List Byte} (length : field.length = 2 * n) :
    (fieldBytes field).length = n := by
  induction n generalizing field with
  | zero =>
    obtain rfl : field = [] := by simpa using length
    rfl
  | succ n ih =>
    cases field with
    | nil => simp at length
    | cons a field =>
      cases field with
      | nil => simp at length; omega
      | cons b field =>
        rw [fieldBytes, List.length_cons, ih (by simp at length; omega)]

theorem fill_four (h : Platform) {bytes found : List Byte} (four : bytes.length = 4)
    (length : found.length = 4) :
    ((wordIndices h).zip found).foldl (fun bytes p => bytes.set p.1 p.2) bytes =
      if h.isBigEndian = h.bigEndianSimulator then found else found.reverse := by
  obtain ⟨x, y, z, u, rfl⟩ : ∃ x y z u, bytes = [x, y, z, u] := List.length_eq_four.mp four
  obtain ⟨x', y', z', u', rfl⟩ : ∃ x y z u, found = [x, y, z, u] := List.length_eq_four.mp length
  rw [wordIndices_eq]
  split <;> rfl

theorem readUint32_field {field rest s : List Byte} (eight : field.length = 8)
    (digits : ∀ c ∈ field, isDigit 16 c = true) (string : cString rest = some s) :
    readUint32 h e (field ++ rest) =
      .ok (ofLeBytes 32 (ordered h.bigEndianSimulator (fieldBytes field))) := by
  have four : (hostBytes h e.mem).length = 4 := length_hostBytes h e.mem
  have filled := fill_four h four (length_fieldBytes (n := 4) eight)
  have loop := readWordBytes_field (h := h) digits string e.value (hostBytes h e.mem)
    (wordIndices h) (by rw [eight, length_wordIndices])
  simp only [readUint32, loop, filled, ofHostBytes, bind, Except.bind]
  rw [ordered_swap]

end Reading

section Writing

variable (h : Platform)

theorem fieldBytes_flatMap {α : Type*} (f : α → Byte) (l : List α) :
    fieldBytes (l.flatMap fun i => hex2 (f i)) = l.map f := by
  induction l with
  | nil => rfl
  | cons i l ih =>
    have value : BitVec.ofNat 8 (number 16 (hex2 (f i))) = f i := by
      rw [number_hex2, BitVec.ofNat_toNat, BitVec.setWidth_eq]
    rw [List.flatMap_cons, List.map_cons, ← ih]
    exact congrArg (· :: _) value

theorem wordIndices_bytes (value : Word) :
    (wordIndices h).map (fun i => (hostBytes h value).getD i 0#8) =
      ordered h.bigEndianSimulator (leBytes 4 value) := by
  have four : (hostBytes h value).length = 4 := length_hostBytes h value
  have listed : (wordIndices h).map (fun i => (hostBytes h value).getD i 0#8) =
      if h.bigEndianSimulator = h.isBigEndian then hostBytes h value
      else (hostBytes h value).reverse := by
    obtain ⟨x, y, z, u, bytes⟩ := List.length_eq_four.mp four
    rw [wordIndices_eq, bytes]
    by_cases same : h.isBigEndian = h.bigEndianSimulator
    · rw [if_pos same, if_pos same.symm]
      rfl
    · rw [if_neg same, if_neg (Ne.symm same)]
      rfl
  rw [listed, hostBytes]
  cases h.bigEndianSimulator <;> cases h.isBigEndian <;> simp [ordered]

theorem hexWord_value (value : Word) :
    ofLeBytes 32 (ordered h.bigEndianSimulator (fieldBytes (hexWord h value))) = value := by
  rw [hexWord, fieldBytes_flatMap, wordIndices_bytes, ordered_ordered, Bool.xor_self, ordered_false]
  exact ofLeBytes_leBytes (by decide) value

theorem take_drop_flatMap (values : List Word) (rest : List Byte) {i : Nat} {value : Word}
    (there : values[i]? = some value) :
    ((values.flatMap (hexWord h) ++ rest).drop (8 * i)).take 8 = hexWord h value := by
  induction values generalizing i with
  | nil => simp at there
  | cons first values ih =>
    have eight := length_hexWord h first
    cases i with
    | zero =>
      obtain rfl : first = value := by simpa using there
      simp [eight]
    | succ i =>
      have later := ih (by simpa using there)
      rw [List.flatMap_cons, List.append_assoc, Nat.mul_add_one, Nat.add_comm, ← List.drop_drop,
        List.drop_left' eight, later]

theorem registerBlock_general (p : ArmCore) {i : Nat} {value : Word}
    (there : (Gdb.generalRegisters p)[i]? = some value) :
    fieldValue h (registerBlock h p) i = value := by
  rw [fieldValue, registerBlock, List.append_assoc, take_drop_flatMap h _ _ there, hexWord_value]

theorem registerBlock_status (p : ArmCore) :
    fieldValue h (registerBlock h p) 41 = armReadCpsr p := by
  have size : ((Gdb.generalRegisters p).flatMap (hexWord h) ++ List.replicate 200 (ch 'x')).length =
      8 * 41 := by
    rw [List.length_append, length_flatMap_hexWord, List.length_replicate]
    rfl
  rw [fieldValue, registerBlock, ← size, List.drop_left, List.take_of_length_le, hexWord_value]
  rw [length_hexWord]

end Writing

section Received

variable {h : Platform} {e : Locals}

theorem readUint32_block {block tail s : List Byte} (digits : ∀ c ∈ block, isDigit 16 c = true)
    (string : cString tail = some s) {i : Nat} (inside : 8 * i + 8 ≤ block.length) :
    readUint32 h e ((block ++ tail).drop (8 * i)) = .ok (fieldValue h block i) := by
  have cut : (block ++ tail).drop (8 * i) =
      (block.drop (8 * i)).take 8 ++ ((block.drop (8 * i)).drop 8 ++ tail) := by
    rw [List.drop_append_of_le_length (by omega), ← List.append_assoc, List.take_append_drop]
  have later : ∀ c ∈ (block.drop (8 * i)).drop 8, isDigit 16 c = true := fun c member =>
    digits c (List.mem_of_mem_drop (List.mem_of_mem_drop member))
  rw [cut, readUint32_field (by simp; omega)
    (fun c member => digits c (List.mem_of_mem_drop (List.mem_of_mem_take member)))
    (cString_digits later string), fieldValue]

variable {data : List Byte} {w : Nat → Word}

theorem drop_field (data : List Byte) (s : Nat) :
    (data.drop (8 * s)).drop 8 = data.drop (8 * (s + 1)) := by
  rw [List.drop_drop, Nat.mul_add_one]

theorem writeRegisters_eq (n s : Nat) (p : ArmCore)
    (reads : ∀ i, s ≤ i → i < s + n → readUint32 h e (data.drop (8 * i)) = .ok (w i)) :
    Gdb.writeRegisters h e (data.drop (8 * s)) (List.range' s n) p =
      .ok { p with
        registersStorage := writeAll Function.update p.registersStorage
          ((List.range' s n).map fun i => (registers (armMode p) (BitVec.ofNat 4 i), w i)) } := by
  induction n generalizing s p with
  | zero => rfl
  | succ n ih =>
    rw [List.range'_succ]
    simp only [Gdb.writeRegisters, reads s (le_refl s) (by omega), bind, Except.bind, drop_field]
    rw [ih (s + 1) _ fun i above below => reads i (by omega) (by omega)]
    rfl

theorem skipWords_eq (n s : Nat)
    (reads : ∀ i, s ≤ i → i < s + n → readUint32 h e (data.drop (8 * i)) = .ok (w i)) :
    Gdb.skipWords h e (data.drop (8 * s)) n = .ok () := by
  induction n generalizing s with
  | zero => rfl
  | succ n ih =>
    simp only [Gdb.skipWords, reads s (le_refl s) (by omega), bind, Except.bind, drop_field]
    exact ih (s + 1) fun i above below => reads i (by omega) (by omega)

/-- The processor after a block: the registers of the mode it was in, then the status. -/
def blockWritten (h : Platform) (block : List Byte) (p : ArmCore) : ArmCore :=
  let values := (List.range' 0 16).map fun i =>
    (registers (armMode p) (BitVec.ofNat 4 i), fieldValue h block i)
  armWriteCpsr { p with registersStorage := writeAll Function.update p.registersStorage values }
    (fieldValue h block 41)

theorem writeGeneralRegisters_replies {block s : List Byte} (tail : List Byte) (g : Gdb)
    (size : block.length = 336) (digits : ∀ c ∈ block, isDigit 16 c = true)
    (string : cString tail = some s) :
    ∃ g', g.writeGeneralRegisters h e (block ++ tail) = .ok g' ∧
      Replied { g with arm := blockWritten h block g.arm } (text "OK") g' := by
  obtain ⟨g', sent, replied⟩ := gdbSendData_replies
    (g := { g with arm := blockWritten h block g.arm }) (d := text "OK") (by decide) (by decide)
  have reads (i : Nat) (below : i < 42) :
      readUint32 h e ((block ++ tail).drop (8 * i)) = .ok (fieldValue h block i) :=
    readUint32_block digits string (by omega)
  have general := writeRegisters_eq 16 0 g.arm fun i _ below => reads i (by omega)
  have floating := skipWords_eq 24 16 fun i _ below => reads i (by omega)
  have point := skipWords_eq 1 40 fun i _ below => reads i (by omega)
  have status := reads 41 (by decide)
  refine ⟨g', ?_, replied⟩
  simp only [Nat.mul_zero, List.drop_zero] at general
  simp only [Gdb.writeGeneralRegisters, List.range_eq_range', general, floating, point,
    status, bind, Except.bind]
  exact sent

end Received

section Banks

variable (h : Platform) (block : List Byte) (p : ArmCore)

theorem blockWritten_storage_same (i : Reg) :
    (blockWritten h block p).registersStorage (registers (armMode p) i) =
      fieldValue h block i.toNat := by
  have small := i.isLt
  have listed : (registers (armMode p) i, fieldValue h block i.toNat) ∈ (List.range' 0 16).map
      fun i => (registers (armMode p) (BitVec.ofNat 4 i), fieldValue h block i) :=
    List.mem_map.mpr ⟨i.toNat, by simpa [List.mem_range'_1] using small, by simp⟩
  refine lawful_update.read_mem p.registersStorage (List.pairwise_map.mpr ?_) listed
  have ascending : (List.range' 0 16).Pairwise (· < ·) := List.pairwise_lt_range' ..
  apply ascending.imp_of_mem
  intro a b hasA hasB less same
  have values := congrArg BitVec.toNat (registers_inj _ _ _ same)
  simp only [List.mem_range'_1] at hasA hasB
  simp only [BitVec.toNat_ofNat] at values
  omega

theorem blockWritten_storage_other {k : Fin 31} (other : registers (armMode p) (storageReg k) ≠ k) :
    (blockWritten h block p).registersStorage k = p.registersStorage k := by
  apply lawful_update.read_apart p.registersStorage
  intro q listed
  obtain ⟨i, -, rfl⟩ := List.mem_map.mp listed
  intro same
  apply other
  rw [← same, storageReg_registers]

theorem blockWritten_mode :
    armMode (blockWritten h block p) = (fieldValue h block 41).setWidth 5 :=
      armMode_armWriteCpsr _ _

/-- A register of the new mode is the one written if the modes share it, and an old one if not. -/
theorem blockWritten_read_iff {i : Reg} (notPc : i ≠ Reg.pc) :
    armReadRegister (blockWritten h block p) i = fieldValue h block i.toNat ↔
      registers ((fieldValue h block 41).setWidth 5) i = registers (armMode p) i ∨
        p.registersStorage (registers ((fieldValue h block 41).setWidth 5) i) =
          fieldValue h block i.toNat := by
  rw [armReadRegister_of_ne notPc, blockWritten_mode]
  by_cases shared : registers ((fieldValue h block 41).setWidth 5) i = registers (armMode p) i
  · rw [shared, blockWritten_storage_same]
    simp
  · have other : registers (armMode p)
        (storageReg (registers ((fieldValue h block 41).setWidth 5) i)) ≠
        registers ((fieldValue h block 41).setWidth 5) i := by
      rw [storageReg_registers]
      exact Ne.symm shared
    rw [blockWritten_storage_other h block p other]
    simp [shared]

theorem blockWritten_pc (aligned : (fieldValue h block 15).toNat % 4 = 0) :
    armReadRegister (blockWritten h block p) Reg.pc - 4#32 = fieldValue h block 15 := by
  have stored := blockWritten_storage_same h block p Reg.pc
  rw [registers_pc] at stored
  have same : (blockWritten h block p).registersStorage 15 = fieldValue h block 15 := stored
  have clear : ((blockWritten h block p).registersStorage 15).toNat % 4 < 2 := by
    rw [same]
    omega
  exact (fetchAddress_of_clear clear).trans same

end Banks

def Reports (h : Platform) (d block : List Byte) : Prop :=
  (∀ i < 16, fieldValue h d i = fieldValue h block i) ∧ fieldValue h d 41 = fieldValue h block 41

theorem generalRegisters_get (p : ArmCore) {i : Nat} (below : i < 15) :
    (Gdb.generalRegisters p)[i]? = some (armReadRegister p (BitVec.ofNat 4 i)) := by
  rw [Gdb.generalRegisters, List.getElem?_append_left (by simpa using below)]
  simp [below]

theorem registerBlock_reports_iff (h : Platform) (block : List Byte) (p : ArmCore)
    (aligned : (fieldValue h block 15).toNat % 4 = 0) :
    Reports h (registerBlock h (blockWritten h block p)) block ↔
      ∀ i : Reg, i ≠ Reg.pc →
        registers ((fieldValue h block 41).setWidth 5) i = registers (armMode p) i ∨
          p.registersStorage (registers ((fieldValue h block 41).setWidth 5) i) =
            fieldValue h block i.toNat := by
  constructor
  · intro reports i notPc
    have below : i.toNat < 15 := by
      have small := i.isLt
      have other : i.toNat ≠ 15 := fun same => notPc (BitVec.eq_of_toNat_eq same)
      omega
    have read := registerBlock_general h _ (generalRegisters_get (blockWritten h block p) below)
    rw [BitVec.ofNat_toNat, BitVec.setWidth_eq] at read
    exact (blockWritten_read_iff h block p notPc).mp (read.symm.trans (reports.1 _ (by omega)))
  · intro shared
    refine ⟨?_, registerBlock_status h _⟩
    intro i below
    rcases Nat.lt_or_ge i 15 with general | last
    · have notPc : BitVec.ofNat 4 i ≠ Reg.pc := by
        intro same
        have values := congrArg BitVec.toNat same
        simp at values
        omega
      have read := (blockWritten_read_iff h block p notPc).mpr (shared _ notPc)
      rw [registerBlock_general h _ (generalRegisters_get (blockWritten h block p) general), read,
        BitVec.toNat_ofNat, Nat.mod_eq_of_lt (by omega)]
    · obtain rfl : i = 15 := by omega
      have there : (Gdb.generalRegisters (blockWritten h block p))[15]? =
          some (armReadRegister (blockWritten h block p) Reg.pc - 4#32) := rfl
      rw [registerBlock_general h _ there, blockWritten_pc h block p aligned]

/-- The text of a register block: 42 fields of eight digits. -/
structure BlockText (block : List Byte) : Prop where
  size : block.length = 336
  digits : ∀ c ∈ block, isDigit 16 c = true

theorem BlockText.clean {block : List Byte} (fields : BlockText block) :
    ∀ b ∈ ch 'G' :: block, b ≠ ch '$' ∧ b ≠ ch '#' := by
  intro b inside
  rcases List.mem_cons.mp inside with rfl | member
  · decide
  · exact clean_of_digits fields.digits b member

/-- The block is written by one request and the answer to the next, a read, reports it. -/
def ReadsBack (h : Platform) (e e' : Locals) (fuel fuel' : Nat) (g : Gdb) (block : List Byte)
    (high low high' low' : Byte) (following following' : List Byte) : Prop :=
  ∃ written read d,
    gdbPacketAnalysis h e fuel g (packetText (ch 'G' :: block) high low ++ 0#8 :: following)
      (packetText (ch 'G' :: block) high low).length = .ok written ∧
    gdbPacketAnalysis h e' fuel' written (packetText (text "g") high' low' ++ 0#8 :: following')
      (packetText (text "g") high' low').length = .ok read ∧
    read.calls = written.calls ++ [.write (text "+"), .write (frame d)] ∧ Reports h d block

theorem readsBack_iff_reports {h : Platform} {e e' : Locals} {fuel fuel' : Nat} {g : Gdb}
    {block : List Byte} {high low high' low' : Byte} {following following' : List Byte}
    (fields : BlockText block) (right : RightChecksum (ch 'G' :: block) high low)
    (right' : RightChecksum (text "g") high' low') :
    ReadsBack h e e' fuel fuel' g block high low high' low' following following' ↔
      Reports h (registerBlock h (blockWritten h block g.arm)) block := by
  obtain ⟨written, wrote, replied⟩ := writeGeneralRegisters_replies (h := h) (e := e)
    (0#8 :: high :: low :: 0#8 :: following) (gdbSendAck g) fields.size fields.digits rfl
  obtain ⟨read, answered, replied'⟩ := readGeneralRegisters_replies h (gdbSendAck written)
  have first := (right.analysed h e fuel g fields.clean following).trans wrote
  have second := (right'.analysed h e' fuel' written (by decide) following').trans answered
  have arm : (gdbSendAck written).arm = blockWritten h block g.arm := replied.arm
  have sent : read.calls = written.calls ++
      [.write (text "+"), .write (frame (registerBlock h (blockWritten h block g.arm)))] := by
    rw [replied'.calls, arm]
    simp [gdbSendAck, rioWriten]
  constructor
  · rintro ⟨written', read', d, wrote', answered', sent', reports⟩
    obtain rfl := Except.ok.inj (first.symm.trans wrote')
    obtain rfl := Except.ok.inj (second.symm.trans answered')
    rw [sent] at sent'
    have same : frame (registerBlock h (blockWritten h block g.arm)) = frame d := by
      simpa using sent'
    rwa [frame_inj same]
  · exact fun reports => ⟨written, read, _, first, second, sent, reports⟩

theorem register_block_iff (h : Platform) (e e' : Locals) (fuel fuel' : Nat) (g : Gdb)
    (block : List Byte) (high low high' low' : Byte) (following following' : List Byte)
    (fields : BlockText block) (aligned : (fieldValue h block 15).toNat % 4 = 0)
    (right : RightChecksum (ch 'G' :: block) high low)
    (right' : RightChecksum (text "g") high' low') :
    ReadsBack h e e' fuel fuel' g block high low high' low' following following' ↔
      ∀ i : Reg, i ≠ Reg.pc →
        registers ((fieldValue h block 41).setWidth 5) i = registers (armMode g.arm) i ∨
          g.arm.registersStorage (registers ((fieldValue h block 41).setWidth 5) i) =
            fieldValue h block i.toNat :=
  (readsBack_iff_reports fields right right').trans
  (registerBlock_reports_iff h block g.arm aligned)

def sampleBlock (mode : String) : List Byte := List.replicate 334 (ch '0') ++ text mode

theorem sampleBlock_text {mode : String} (two : (text mode).length = 2)
    (digits : ∀ c ∈ text mode, isDigit 16 c = true) : BlockText (sampleBlock mode) where
  size := by rw [sampleBlock, List.length_append, List.length_replicate, two]
  digits := by
    intro c inside
    rcases List.mem_append.mp inside with zeros | status
    · rw [List.eq_of_mem_replicate zeros]
      decide
    · exact digits c status

theorem register_block_same_mode :
    ReadsBack lp64 sampleLocals sampleLocals 0 0 sampleGdb (sampleBlock "13") (ch '4') (ch 'b')
      (ch '6') (ch '7') [] [] := by
  apply (register_block_iff lp64 sampleLocals sampleLocals 0 0 sampleGdb (sampleBlock "13") (ch '4')
    (ch 'b') (ch '6') (ch '7') [] [] (sampleBlock_text rfl (by decide)) (by decide +kernel)
    ⟨by decide, by decide, by decide +kernel⟩ ⟨by decide, by decide, by decide⟩).mpr
  decide +kernel

theorem register_block_mode_change :
    ¬ ReadsBack lp64 sampleLocals sampleLocals 0 0 sampleGdb (sampleBlock "10") (ch '4') (ch '8')
      (ch '6') (ch '7') [] [] := by
  rw [readsBack_iff_reports (sampleBlock_text rfl (by decide))
    ⟨by decide, by decide, by decide +kernel⟩ ⟨by decide, by decide, by decide⟩,
    registerBlock_reports_iff lp64 (sampleBlock "10") sampleGdb.arm (by decide +kernel)]
  intro shared
  exact absurd (shared Reg.sp (by decide)) (by decide +kernel)

end ArmSimulator
