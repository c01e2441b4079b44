import ArmSimulator.Download
import ArmSimulator.HexWords

namespace ArmSimulator
open CString ByteStore

def RegisterText (digits : List Byte) (reg : Reg) : Prop := HexText digits reg.toNat

def writeBody (digits field : List Byte) : List Byte := ch 'P' :: (digits ++ ch '=' :: field)

def readBody (digits : List Byte) : List Byte := ch 'p' :: digits

structure FieldText (h : Platform) (field : List Byte) (value : Word) : Prop where
  eight : field.length = 8
  digits : ∀ c ∈ field, isDigit 16 c = true
  lower : field.map toLower = wordText h.bigEndianSimulator value

section Handlers

variable {h : Platform} {e : Locals} {digits field : List Byte} {reg : Reg} {value : Word}

theorem FieldText.read (text : FieldText h field value) {rest s : List Byte}
    (string : cString rest = some s) : readUint32 h e (field ++ rest) = .ok value := by
  have same : wordText h.bigEndianSimulator
      (ofLeBytes 32 (ordered h.bigEndianSimulator (fieldBytes field))) =
        wordText h.bigEndianSimulator value :=
    (wordText_fieldBytes text.eight text.digits h.bigEndianSimulator).trans text.lower
  rw [readUint32_field text.eight text.digits string, wordText_inj same]

theorem RegisterText.clean (number : RegisterText digits reg) : 0#8 ∉ digits :=
  not_mem_of_digits number.all (by decide)

theorem writeRegister_replies (number : RegisterText digits reg) (text : FieldText h field value)
    (g : Gdb) (rest : List Byte) {s : List Byte} (string : cString rest = some s) :
    ∃ g', g.writeRegister h e (digits ++ ch '=' :: (field ++ rest)) = .ok g' ∧
      Replied { g with arm := armWriteRegister g.arm reg value } (CString.text "OK") g' := by
  obtain ⟨g', sent, replied⟩ := gdbSendData_replies
    (g := { g with arm := armWriteRegister g.arm reg value }) (d := CString.text "OK") (by decide)
    (by decide)
  have whole : stringAt (digits ++ ch '=' :: (field ++ rest)) =
      .ok (digits ++ ch '=' :: (field ++ s)) := by
    rw [stringAt, cString_clean_append number.clean, cString_cons (by decide),
      cString_digits text.digits string]
    rfl
  have small := reg.isLt
  have scanned := HexText.scanned number h.sizeTBits_ge (by omega)
    (endsNumber_cons (field ++ s) (c := ch '=') (by decide))
  have found : index (ch '=') (digits ++ ch '=' :: (field ++ rest)) =
      some (ch '=' :: (field ++ rest)) :=
    index_append (not_mem_of_digits number.all (by decide)) number.clean _
  have read := text.read (e := e) string
  have below : BitVec.ofNat 32 reg.toNat < 16#32 := by
    rw [BitVec.lt_def, BitVec.toNat_ofNat, BitVec.toNat_ofNat]
    omega
  have same : (BitVec.ofNat 32 reg.toNat).setWidth 4 = reg := by
    apply BitVec.eq_of_toNat_eq
    rw [BitVec.toNat_setWidth, BitVec.toNat_ofNat]
    omega
  refine ⟨g', ?_, replied⟩
  simp only [Gdb.writeRegister, whole, scanned, found, Option.map_some, Option.getD_some,
    List.tail_cons, read, below, if_true, same, bind, Except.bind]
  exact sent

/-- The number that the read request makes of the same digits. -/
def numberRead (reg : Reg) : Reg := if reg.toNat ≤ 9 then reg else 0#4

theorem readRegister_replies (number : RegisterText digits reg) (g : Gdb) (rest : List Byte) :
    ∃ g', g.readRegister h (digits ++ 0#8 :: rest) = .ok g' ∧
      Replied g (wordText h.bigEndianSimulator (armReadRegister g.arm (numberRead reg))) g' := by
  have small := reg.isLt
  have string : stringAt (digits ++ 0#8 :: rest) = .ok digits := by
    rw [stringAt, cString_append number.clean]
  have read := atoi_one_digit h.sizeTBits_ge number.nonempty number.all number.value small
  obtain ⟨g', sent, replied⟩ := writeUint32_replies h g (armReadRegister g.arm (numberRead reg))
  rw [hexWord_eq] at replied
  refine ⟨g', ?_, replied⟩
  have low : (if reg.toNat ≤ 9 then reg.toNat else 0) < 10 := by split <;> omega
  have same : (BitVec.ofNat 32 (if reg.toNat ≤ 9 then reg.toNat else 0)).setWidth 4 =
      numberRead reg := by
    apply BitVec.eq_of_toNat_eq
    rw [BitVec.toNat_setWidth, BitVec.toNat_ofNat, numberRead]
    split
    · omega
    · rfl
  have below : BitVec.ofNat 32 (if reg.toNat ≤ 9 then reg.toNat else 0) < 16#32 := by
    rw [BitVec.lt_def, BitVec.toNat_ofNat, BitVec.toNat_ofNat]
    omega
  have notPc : BitVec.ofNat 32 (if reg.toNat ≤ 9 then reg.toNat else 0) ≠ 15#32 := by
    intro last
    have values := congrArg BitVec.toNat last
    simp only [BitVec.toNat_ofNat] at values
    omega
  simp only [Gdb.readRegister, string, read, same, below, notPc, if_true, if_false, bind,
    Except.bind, BitVec.sub_zero]
  exact sent

theorem FieldText.body_clean (number : RegisterText digits reg) (text : FieldText h field value) :
    ∀ b ∈ writeBody digits field, b ≠ ch '$' ∧ b ≠ ch '#' := by
  intro b inside
  rcases List.mem_cons.mp inside with rfl | inside
  · decide
  · rcases List.mem_append.mp inside with inNumber | inside
    · exact clean_of_digits number.all b inNumber
    · rcases List.mem_cons.mp inside with rfl | inField
      · decide
      · exact clean_of_digits text.digits b inField

theorem RegisterText.body_clean (number : RegisterText digits reg) :
    ∀ b ∈ readBody digits, b ≠ ch '$' ∧ b ≠ ch '#' := by
  intro b inside
  rcases List.mem_cons.mp inside with rfl | inNumber
  · decide
  · exact clean_of_digits number.all b inNumber

end Handlers

/-- The value is written by one request, the answer to the next, for the same digits, is its text,
and the other registers read as before. -/
def RegisterReadsBack (h : Platform) (e e' : Locals) (fuel fuel' : Nat) (g : Gdb)
    (digits field : List Byte) (reg : Reg) (value : Word) (high low high' low' : Byte)
    (following following' : List Byte) : Prop :=
  ∃ written read,
    gdbPacketAnalysis h e fuel g (packetText (writeBody digits field) high low ++ 0#8 :: following)
      (packetText (writeBody digits field) high low).length = .ok written ∧
    gdbPacketAnalysis h e' fuel' written
      (packetText (readBody digits) high' low' ++ 0#8 :: following')
      (packetText (readBody digits) high' low').length = .ok read ∧
    read.calls = written.calls ++
      [.write (text "+"), .write (frame (wordText h.bigEndianSimulator value))] ∧
    ∀ other : Reg, other ≠ reg → armReadRegister read.arm other = armReadRegister g.arm other

theorem registerReadsBack_iff_read {h : Platform} {e e' : Locals} {fuel fuel' : Nat} {g : Gdb}
    {digits field : List Byte} {reg : Reg} {value : Word} {high low high' low' : Byte}
    {following following' : List Byte} (number : RegisterText digits reg)
    (field_text : FieldText h field value) (right : RightChecksum (writeBody digits field) high low)
    (right' : RightChecksum (readBody digits) high' low') :
    RegisterReadsBack h e e' fuel fuel' g digits field reg value high low high' low' following
        following' ↔
      armReadRegister (armWriteRegister g.arm reg value) (numberRead reg) = value := by
  obtain ⟨written, wrote, replied⟩ := writeRegister_replies (e := e) number field_text
    (gdbSendAck g) (0#8 :: high :: low :: 0#8 :: following) rfl
  obtain ⟨read, answered, replied'⟩ := readRegister_replies (h := h) number (gdbSendAck written)
    (high' :: low' :: 0#8 :: following')
  have data : (received (writeBody digits field) high low following).drop 1 =
      digits ++ ch '=' :: (field ++ 0#8 :: high :: low :: 0#8 :: following) := by
    simp [received, writeBody]
  have first := right.analysed h e fuel g (field_text.body_clean number) following
  rw [data] at first
  have wrote := first.trans wrote
  have answered := (right'.analysed h e' fuel' written number.body_clean following').trans answered
  have arm : (gdbSendAck written).arm = armWriteRegister g.arm reg value := replied.arm
  rw [arm] at replied'
  have sent : read.calls = written.calls ++ [.write (text "+"), .write (frame (wordText
      h.bigEndianSimulator
        (armReadRegister (armWriteRegister g.arm reg value) (numberRead reg))))] := by
    rw [replied'.calls]
    simp [gdbSendAck, rioWriten]
  constructor
  · rintro ⟨written', read', wrote', answered', sent', -⟩
    obtain rfl := Except.ok.inj (wrote.symm.trans wrote')
    obtain rfl := Except.ok.inj (answered.symm.trans answered')
    rw [sent] at sent'
    have same : frame (wordText h.bigEndianSimulator
        (armReadRegister (armWriteRegister g.arm reg value) (numberRead reg))) =
          frame (wordText h.bigEndianSimulator value) := by
      simpa using sent'
    exact wordText_inj (frame_inj same)
  · intro same
    rw [same] at sent
    refine ⟨written, read, wrote, answered, sent, ?_⟩
    intro other different
    rw [replied'.arm, arm, armReadRegister_armWriteRegister_other _ _ _ _ different]

/-- The read request takes the digits for a decimal number: a letter makes it register 0. -/
theorem register_reads_back_iff (h : Platform) (e e' : Locals) (fuel fuel' : Nat) (g : Gdb)
    (digits field : List Byte) (reg : Reg) (value : Word) (high low high' low' : Byte)
    (following following' : List Byte) (number : RegisterText digits reg)
    (field_text : FieldText h field value)
    (right : RightChecksum (writeBody digits field) high low)
    (right' : RightChecksum (readBody digits) high' low') :
    RegisterReadsBack h e e' fuel fuel' g digits field reg value high low high' low' following
        following' ↔
      reg.toNat ≤ 9 ∨ armReadRegister g.arm 0#4 = value := by
  rw [registerReadsBack_iff_read number field_text right right', numberRead]
  by_cases decimal : reg.toNat ≤ 9
  · have notPc : reg ≠ Reg.pc := by
      rintro rfl
      exact absurd decimal (by decide)
    rw [if_pos decimal, armReadRegister_armWriteRegister_self _ _ _ notPc]
    exact iff_of_true rfl (.inl decimal)
  · have other : 0#4 ≠ reg := by
      rintro rfl
      exact decimal (by decide)
    rw [if_neg decimal, armReadRegister_armWriteRegister_other _ _ _ _ other]
    exact (or_iff_right decimal).symm

theorem register_reads_back_r3 :
    RegisterReadsBack lp64 sampleLocals sampleLocals 0 0 sampleGdb (text "3") (text "12345678") 3#4
      0x12345678#32 (ch '6') (ch '4') (ch 'a') (ch '3') [] [] :=
  (register_reads_back_iff lp64 sampleLocals sampleLocals 0 0 sampleGdb (text "3")
    (text "12345678") 3#4 0x12345678#32 (ch '6') (ch '4') (ch 'a') (ch '3') [] []
    ⟨by decide, by decide, by decide⟩ ⟨by decide, by decide, by decide⟩
    ⟨by decide, by decide, by decide⟩ ⟨by decide, by decide, by decide⟩).mpr (.inl (by decide))

theorem register_a_not_read_back :
    ¬RegisterReadsBack lp64 sampleLocals sampleLocals 0 0 sampleGdb (text "a") (text "12345678")
      10#4 0x12345678#32 (ch '9') (ch '2') (ch 'd') (ch '1') [] [] := by
  rw [registerReadsBack_iff_read ⟨by decide, by decide, by decide⟩ ⟨by decide, by decide, by decide⟩
    ⟨by decide, by decide, by decide⟩ ⟨by decide, by decide, by decide⟩]
  decide +kernel

end ArmSimulator
