import ArmSimulator.ReplyBounds

/-! Binary downloads: what the two sides agree on about an escaped content, its
way into the memory, and the dump that reads it back. -/
namespace ArmSimulator
open CString ByteStore

/-- The texts that stand for a content: the bytes with a meaning of their own are escaped, any
other may be, as long as no dollar or sharp comes out. -/
inductive Escaped : List Byte → List Byte → Prop where
  | nil : Escaped [] []
  | plain (b : Byte) (ordinary : b ≠ ch '$' ∧ b ≠ ch '#' ∧ b ≠ ch '}') (content text : List Byte) :
      Escaped content text → Escaped (b :: content) (b :: text)
  | escape (b : Byte) (clean : b ^^^ 0x20#8 ≠ ch '$' ∧ b ^^^ 0x20#8 ≠ ch '#')
      (content text : List Byte) :
      Escaped content text → Escaped (b :: content) (ch '}' :: (b ^^^ 0x20#8) :: text)

/-- A number in hexadecimal digits of either case, with or without leading zeros. -/
structure HexText (digits : List Byte) (n : Nat) : Prop where
  nonempty : digits ≠ []
  all : ∀ b ∈ digits, isDigit 16 b = true
  value : number 16 digits = n

def DownloadBody (address : Word) (content body : List Byte) : Prop :=
  ∃ at_ size text, HexText at_ address.toNat ∧ HexText size content.length ∧ Escaped content text ∧
    body = ch 'X' :: (at_ ++ ch ',' :: (size ++ ch ':' :: text))

def DumpBody (address : Word) (count : Nat) (body : List Byte) : Prop :=
  ∃ at_ size, HexText at_ address.toNat ∧ HexText size count ∧
    body = ch 'm' :: (at_ ++ ch ',' :: size)

section Fields

variable {digits size rest : List Byte} {n m long : Nat}

theorem HexText.not_mem (hex : HexText digits n) {c : Byte} (other : isDigit 16 c = false) :
    c ∉ digits := not_mem_of_digits hex.all other

theorem HexText.scanned (hex : HexText digits n) (wide : 32 ≤ long) (fits : n < 2 ^ 32)
    (ends : EndsNumber rest) : scanHex long (digits ++ rest) = some (BitVec.ofNat 32 n, rest) := by
  rw [scanHex_digits wide hex.nonempty hex.all ends (hex.value ▸ fits), hex.value]

theorem endsNumber_cons (rest : List Byte) {c : Byte}
    (other : isDigit 16 c = false ∧ c ≠ ch 'x' ∧ c ≠ ch 'X') :
    EndsNumber (c :: rest) := by
  intro b here
  obtain rfl := Option.some.inj here
  exact other

theorem scanHexPair_numbers (long : Nat) (first : HexText digits n) (second : HexText size m)
    (ends : EndsNumber rest) : scanHexPair long (digits ++ ch ',' :: (size ++ rest)) =
      (some (hexValue long n), some (hexValue long m)) := by
  have comma := scanHex_number long first.nonempty first.all
    (endsNumber_cons (size ++ rest) (c := ch ',') (by decide))
  have last := scanHex_number long second.nonempty second.all ends
  simp [scanHexPair, comma, last, first.value, second.value]

theorem scanHexPair_fields (first : HexText digits n) (second : HexText size m)
    (wide : 32 ≤ long) (fits : n < 2 ^ 32) (fits' : m < 2 ^ 32) (ends : EndsNumber rest) :
    scanHexPair long (digits ++ ch ',' :: (size ++ rest)) =
      (some (BitVec.ofNat 32 n), some (BitVec.ofNat 32 m)) := by
  rw [scanHexPair_numbers long first second ends, hexValue_fits wide fits,
    hexValue_fits wide fits']

end Fields

section Content

variable {content text : List Byte}

theorem Escaped.clean (escaped : Escaped content text) :
    ∀ b ∈ text, b ≠ ch '$' ∧ b ≠ ch '#' := by
  induction escaped with
  | nil => simp
  | plain b ordinary content text _ ih =>
    simpa [ih] using And.intro (And.intro ordinary.1 ordinary.2.1) fun b inside => ih b inside
  | escape b clean content text _ ih =>
    simp only [List.mem_cons, forall_eq_or_imp]
    exact ⟨by decide, clean, ih⟩

theorem decodeByte_plain {b : Byte} (ordinary : b ≠ ch '}') (rest : List Byte) :
    Gdb.decodeByte (some (b :: rest)) = .ok (b, rest) := if_neg ordinary

theorem decodeByte_escape (b : Byte) (rest : List Byte) :
    Gdb.decodeByte (some (ch '}' :: (b ^^^ 0x20#8) :: rest)) = .ok (b, rest) := by
  have back : b ^^^ 0x20#8 ^^^ 0x20#8 = b := by
    rw [BitVec.xor_assoc, BitVec.xor_self, BitVec.xor_zero]
  change Except.ok (b ^^^ 0x20#8 ^^^ 0x20#8, rest) = _
  rw [back]

def Stores (h : Platform) (pointer : Option (List Byte)) (content : List Byte) : Prop :=
  ∀ (address : Word) (mem : Memory), address.toNat + content.length ≤ mem.size →
    content.length ≤ 2 ^ 32 → Gdb.downloadLoop h content.length pointer address mem =
      .ok ({ mem with address := store mem.address address content }, true)

theorem Stores.cons {h : Platform} {pointer : Option (List Byte)} {b : Byte} {rest : List Byte}
    (decoded : Gdb.decodeByte pointer = .ok (b, rest)) (stores : Stores h (some rest) content) :
    Stores h pointer (b :: content) := by
  intro address mem inside small
  rw [List.length_cons] at inside small
  have next := toNat_add_one_le address
  have byte : Gdb.downloadLoop h (content.length + 1) pointer address mem =
      Gdb.downloadLoop h content.length (some rest) (address + 1#32)
        { mem with address := store mem.address address [b] } := by
    have here : address.toNat < mem.size := by omega
    simp [Gdb.downloadLoop, decoded, bind, Except.bind, memoryWriteByte_inside h b here]
  rw [List.length_cons, byte, stores _ _ (by simp only; omega) (by omega),
    store_cons _ _ b content (by omega)]

theorem downloadLoop_stores (h : Platform) (escaped : Escaped content text) (rest : List Byte) :
    Stores h (some (text ++ rest)) content := by
  induction escaped with
  | nil =>
    intro address mem _ _
    rw [store_nil]
    rfl
  | plain b ordinary content text _ ih => exact ih.cons (decodeByte_plain ordinary.2.2 _)
  | escape b clean content text _ ih => exact ih.cons (decodeByte_escape b _)

end Content

section Requests

variable (h : Platform) (e : Locals) (fuel : Nat) {g : Gdb} {address : Word}
  {content body : List Byte} {high low : Byte}

theorem header_clean {at_ size : List Byte} {n m : Nat} (first : HexText at_ n)
    (second : HexText size m) : ∀ b ∈ at_ ++ ch ',' :: size, b ≠ ch '$' ∧ b ≠ ch '#' := by
  intro b inside
  rcases List.mem_append.mp inside with inAddress | inSize
  · exact clean_of_digits first.all b inAddress
  · rcases List.mem_cons.mp inSize with rfl | inSize
    · decide
    · exact clean_of_digits second.all b inSize

def writeRequest (at_ size payload : List Byte) : List Byte :=
  ch 'X' :: (at_ ++ ch ',' :: (size ++ ch ':' :: payload))

theorem writeRequest_clean {at_ size payload : List Byte} {n m : Nat} (first : HexText at_ n)
    (second : HexText size m) (clean : ∀ b ∈ payload, b ≠ ch '$' ∧ b ≠ ch '#') :
    ∀ b ∈ writeRequest at_ size payload, b ≠ ch '$' ∧ b ≠ ch '#' := by
  rw [writeRequest, show at_ ++ ch ',' :: (size ++ ch ':' :: payload) =
    at_ ++ ch ',' :: size ++ ch ':' :: payload by simp]
  intro b inside
  rcases List.mem_cons.mp inside with rfl | inside
  · decide
  · rcases List.mem_append.mp inside with inHeader | inText
    · exact header_clean first second b inHeader
    · rcases List.mem_cons.mp inText with rfl | inText
      · decide
      · exact clean b inText

theorem received_writeRequest (at_ size payload : List Byte) (high low : Byte)
    (following : List Byte) :
    (received (writeRequest at_ size payload) high low following).drop 1 =
      at_ ++ ch ',' :: size ++ ch ':' :: (payload ++ 0#8 :: high :: low :: 0#8 :: following) := by
  simp [received, writeRequest]

theorem DownloadBody.clean (download : DownloadBody address content body) :
    ∀ b ∈ body, b ≠ ch '$' ∧ b ≠ ch '#' := by
  obtain ⟨at_, size, text, first, second, escaped, rfl⟩ := download
  exact writeRequest_clean first second escaped.clean

theorem DumpBody.clean {count : Nat} (dump : DumpBody address count body) :
    ∀ b ∈ body, b ≠ ch '$' ∧ b ≠ ch '#' := by
  obtain ⟨at_, size, first, second, rfl⟩ := dump
  intro b inside
  rcases List.mem_cons.mp inside with rfl | inHeader
  · decide
  · exact header_clean first second b inHeader

theorem header_not_mem {at_ size : List Byte} {n m : Nat} (first : HexText at_ n)
    (second : HexText size m) {c : Byte} (other : isDigit 16 c = false) (notComma : c ≠ ch ',') :
    c ∉ at_ ++ ch ',' :: size := by
  simp only [List.mem_append, List.mem_cons, not_or]
  exact ⟨first.not_mem other, notComma, second.not_mem other⟩

theorem download_fields {at_ size : List Byte} {n m : Nat} (first : HexText at_ n)
    (second : HexText size m) (content behind : List Byte) :
    let data := at_ ++ ch ',' :: size ++ ch ':' :: (content ++ 0#8 :: behind)
    (∃ s, stringAt data = .ok s ∧ scanHexPair h.sizeTBits s =
      (some (hexValue h.sizeTBits n), some (hexValue h.sizeTBits m))) ∧
    index (ch ':') data = some (ch ':' :: (content ++ 0#8 :: behind)) := by
  constructor
  · refine ⟨at_ ++ ch ',' :: (size ++ ch ':' :: upToNul content), ?_, ?_⟩
    · have clean := header_not_mem first second (c := 0#8) (by decide) (by decide)
      rw [stringAt, cString_clean_append clean, cString_cons (by decide), cString_terminated]
      simp
    · exact scanHexPair_numbers h.sizeTBits first second
        (endsNumber_cons (upToNul content) (c := ch ':') (by decide))
  · exact index_append (header_not_mem first second (by decide) (by decide))
      (header_not_mem first second (by decide) (by decide)) _

theorem DownloadBody.stored (download : DownloadBody address content body)
    (inside : address.toNat + content.length ≤ g.arm.mem.size) (small : content.length < 2 ^ 32)
    (nonempty : content ≠ []) (high low : Byte) (following : List Byte) :
    ∃ g', gdbDispatch h e fuel g ((received body high low following).getD 0 0#8)
        ((received body high low following).drop 1) = .ok g' ∧
      g'.arm = { g.arm with mem :=
        { g.arm.mem with address := store g.arm.mem.address address content } } ∧
      g'.calls = g.calls ++ [.write (frame (text "OK"))] := by
  obtain ⟨at_, size, escapedText, first, second, escaped, rfl⟩ := download
  have data := received_writeRequest at_ size escapedText high low following
  rw [writeRequest] at data
  obtain ⟨⟨s, string, fields⟩, colon⟩ := download_fields h first second escapedText
    (high :: low :: 0#8 :: following)
  rw [hexValue_fits h.sizeTBits_ge address.isLt, hexValue_fits h.sizeTBits_ge small] at fields
  have loop := downloadLoop_stores h escaped (0#8 :: high :: low :: 0#8 :: following) address
    g.arm.mem inside small.le
  have there : address.toNat < g.arm.mem.size := by
    have positive := List.length_pos_iff.mpr nonempty
    omega
  obtain ⟨g', sent, replied⟩ := gdbSendData_replies
    (g := { g with arm := { g.arm with mem := { g.arm.mem with
      address := store g.arm.mem.address address content } } })
    (d := text "OK") (by decide) (by decide)
  refine ⟨g', ?_, replied.arm, replied.calls⟩
  rw [data]
  change g.writeMemoryBinary h e _ = _
  have size_eq : (BitVec.ofNat 32 content.length).toNat = content.length := by
    rw [BitVec.toNat_ofNat, Nat.mod_eq_of_lt small]
  simp only [Gdb.writeMemoryBinary, string, fields, colon, Option.getD_some, Option.map_some,
    List.tail_cons, BitVec.ofNat_toNat, BitVec.setWidth_eq, size_eq, there, if_true, loop, bind,
    Except.bind]
  exact sent

theorem dump_load (mem : Memory) (size : Nat) (address : Word)
    (inside : address.toNat + size ≤ mem.size) :
    dump mem size address = load mem.address address size := by
  induction size generalizing address with
  | zero => rfl
  | succ size ih =>
    have next := toNat_add_one_le address
    rw [dump, if_pos (by omega), ih (address + 1#32) (by omega), load_succ]

theorem DumpBody.answered {count : Nat} (dump : DumpBody address count body)
    (inside : address.toNat + count ≤ g.arm.mem.size) (short : count ≤ 509) (high low : Byte)
    (following : List Byte) :
    ∃ g', gdbDispatch h e fuel g ((received body high low following).getD 0 0#8)
        ((received body high low following).drop 1) = .ok g' ∧ g'.arm = g.arm ∧
      g'.calls = g.calls ++
        [.write (frame ((load g.arm.mem.address address count).flatMap hex2))] := by
  obtain ⟨at_, size, first, second, rfl⟩ := dump
  have data : (received (ch 'm' :: (at_ ++ ch ',' :: size)) high low following).drop 1 =
      at_ ++ ch ',' :: size ++ 0#8 :: high :: low :: 0#8 :: following := by
    simp [received]
  have string : stringAt (at_ ++ ch ',' :: size ++ 0#8 :: high :: low :: 0#8 :: following) =
      .ok (at_ ++ ch ',' :: size) := by
    rw [stringAt, cString_append (header_not_mem first second (by decide) (by decide))]
  have fields := scanHexPair_fields first second h.sizeTBits_ge address.isLt (by omega)
    endsNumber_nil
  rw [List.append_nil] at fields
  have bytes : dumpRequest h e g (at_ ++ ch ',' :: size) =
      load g.arm.mem.address address count := by
    have count_eq : (BitVec.ofNat 32 count).toNat = count := by
      rw [BitVec.toNat_ofNat, Nat.mod_eq_of_lt (by omega)]
    rw [dumpRequest, fields, Option.getD_some, Option.getD_some, count_eq, BitVec.ofNat_toNat,
      BitVec.setWidth_eq, dump_load _ _ _ inside]
  obtain ⟨g', sent, replied⟩ := readMemory_replies h e g string
    (by rw [bytes, length_load]; exact short)
  rw [bytes] at replied
  refine ⟨g', ?_, replied.arm, replied.calls⟩
  rw [data]
  exact sent

end Requests

theorem download_read_back (h : Platform) (e e' : Locals) (fuel fuel' : Nat) (g : Gdb)
    (content body body' : List Byte) (address : Word) (high low high' low' : Byte)
    (following following' : List Byte) (nonempty : 1 ≤ content.length)
    (short : content.length ≤ 509) (inside : address.toNat + content.length ≤ g.arm.mem.size)
    (download : DownloadBody address content body) (right : RightChecksum body high low)
    (dump : DumpBody address content.length body') (right' : RightChecksum body' high' low') :
    IsPacket body high low ∧ IsPacket body' high' low' ∧
      ∃ written read,
        gdbPacketAnalysis h e fuel g (packetText body high low ++ 0#8 :: following)
          (packetText body high low).length = .ok written ∧
        load written.arm.mem.address address content.length = content ∧
        (∀ x : Word, content.length ≤ (x - address).toNat →
          written.arm.mem.address x = g.arm.mem.address x) ∧
        written.arm = { g.arm with mem := ⟨written.arm.mem.address, g.arm.mem.size⟩ } ∧
        written.calls = g.calls ++ [.write (text "+"), .write (text "$OK#9a")] ∧
        gdbPacketAnalysis h e' fuel' written (packetText body' high' low' ++ 0#8 :: following')
          (packetText body' high' low').length = .ok read ∧
        read.arm = written.arm ∧
        read.calls = written.calls ++
          [.write (text "+"), .write (frame (content.flatMap hex2))] := by
  have analysed := right.analysed h e fuel g download.clean following
  obtain ⟨written, stored, arm, calls⟩ := download.stored h e fuel
    (g := gdbSendAck g) inside (by omega) (List.length_pos_iff.mp nonempty) high low following
  have cells : written.arm.mem.address = store g.arm.mem.address address content := by
    rw [arm]
    rfl
  have analysed' := right'.analysed h e' fuel' written dump.clean following'
  obtain ⟨read, answered, same, sent⟩ := dump.answered h e' fuel'
    (g := gdbSendAck written) (by
      change _ ≤ written.arm.mem.size
      rw [arm]
      exact inside) short high' low' following'
  have back : load written.arm.mem.address address content.length = content := by
    rw [cells, load_store_same _ _ _ (by omega)]
  refine ⟨right.packet download.clean, right'.packet dump.clean, written, read,
    analysed.trans stored, back, ?_, ?_, ?_, analysed'.trans answered, same, ?_⟩
  · intro x outside
    rw [cells, store_outside _ _ _ _ outside]
  · rw [arm]
    rfl
  · rw [calls]
    simp [gdbSendAck, rioWriten]
    decide
  · rw [sent]
    change written.calls ++ _ ++ [GdbCall.write (frame ((load written.arm.mem.address address
      content.length).flatMap hex2))] = _
    rw [back, List.append_assoc]
    rfl

theorem download_read_back_three : ∃ written read,
    gdbPacketAnalysis lp64 sampleLocals 0 sampleGdb
      (packetText (text "X100,3:" ++ [0x7d#8, 0x03#8, 0x00#8, 0x7d#8, 0x5d#8]) (ch 'D') (ch 'c') ++
        [0#8]) 16 = .ok written ∧
    load written.arm.mem.address 0x100#32 3 = [ch '#', 0#8, ch '}'] ∧
    gdbPacketAnalysis lp64 sampleLocals 0 written
      (packetText (text "m100,3") (ch '5') (ch 'd') ++ [0#8]) 10 = .ok read ∧
    read.calls = written.calls ++ [.write (text "+"), .write (frame (text "23007d"))] := by
  have number : HexText (text "100") 0x100 := ⟨by decide, by decide, by decide⟩
  have three : HexText (text "3") 3 := ⟨by decide, by decide, by decide⟩
  have escaped : Escaped [ch '#', 0#8, ch '}'] [0x7d#8, 0x03#8, 0x00#8, 0x7d#8, 0x5d#8] :=
    .escape (ch '#') (by decide) _ _ (.plain 0#8 (by decide) _ _
      (.escape (ch '}') (by decide) _ _ .nil))
  obtain ⟨-, -, written, read, analysed, stored, -, -, -, analysed', -, sent⟩ :=
    download_read_back lp64 sampleLocals sampleLocals 0 0 sampleGdb [ch '#', 0#8, ch '}']
      (text "X100,3:" ++ [0x7d#8, 0x03#8, 0x00#8, 0x7d#8, 0x5d#8]) (text "m100,3") 0x100#32
      (ch 'D') (ch 'c') (ch '5') (ch 'd') [] [] (by decide) (by decide) (by decide)
      ⟨text "100", text "3", _, number, three, escaped, by decide⟩ ⟨by decide, by decide, by decide⟩
      ⟨text "100", text "3", number, three, by decide⟩ ⟨by decide, by decide, by decide⟩
  exact ⟨written, read, analysed, stored, analysed', sent⟩

end ArmSimulator
