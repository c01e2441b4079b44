import ArmSimulator.Replies

namespace ArmSimulator
open CString Outcomes

section Dump

variable {h : Platform} {g : Gdb} {t : List Byte}

def dump (mem : Memory) : Nat → Word → List Byte
  | 0, _ => []
  | size + 1, address =>
    if address.toNat < mem.size then mem.address address :: dump mem size (address + 1#32) else []

theorem length_dump (mem : Memory) (size : Nat) (address : Word) : (dump mem size address).length =
    if 2 ^ 32 ≤ mem.size then size else min size (mem.size - address.toNat) := by
  induction size generalizing address with
  | zero => simp [dump]
  | succ size ih =>
    have bound := address.isLt
    by_cases inside : address.toNat < mem.size
    · rw [dump, if_pos inside, List.length_cons, ih]
      split
      · rfl
      · have next : (address + 1#32).toNat = address.toNat + 1 := by
          rw [BitVec.toNat_add, BitVec.toNat_ofNat]
          omega
        omega
    · rw [dump, if_neg inside, List.length_nil, if_neg (by omega)]
      omega

theorem readMemoryLoop_fits (pos : Nat) (size : Nat) (address : Word) (value : Byte)
    (begins : Begins g (t ++ [0#8])) (place : pos = t.length + 1)
    (room : pos + 2 * (dump g.arm.mem size address).length + 1 ≤ maxPacketSize) :
    ∃ p, Gdb.readMemoryLoop h size address value pos g = .ok { g with packet := p } ∧
      Begins { g with packet := p } (t ++ (dump g.arm.mem size address).flatMap hex2 ++ [0#8]) := by
  induction size generalizing g t address value pos with
  | zero => exact ⟨g.packet, rfl, by simpa [dump] using begins⟩
  | succ size ih =>
    by_cases inside : address.toNat < g.arm.mem.size
    · rw [dump, if_pos inside, List.length_cons] at room
      obtain ⟨p, done, byte⟩ := begins.prefix_of.put
        (s := hex2 (g.arm.mem.address address) ++ [0#8]) pos place (by simp; omega)
      rw [← List.append_assoc] at byte
      obtain ⟨q, rest, whole⟩ := ih (pos + 2) (address + 1#32) (g.arm.mem.address address)
        byte (by simp; omega) (by simp only; omega)
      refine ⟨q, ?_, by simpa [dump, inside] using whole⟩
      simp [Gdb.readMemoryLoop, memoryReadByte_inside h value inside, done, bind, Except.bind, rest]
    · refine ⟨g.packet, ?_, by simpa [dump, inside] using begins⟩
      simp [Gdb.readMemoryLoop, memoryReadByte_outside h value (Nat.le_of_not_lt inside)]

theorem readMemoryLoop_overflows (pos : Nat) (size : Nat) (address : Word) (value : Byte)
    (start : pos + 1 ≤ maxPacketSize)
    (full : maxPacketSize < pos + 2 * (dump g.arm.mem size address).length + 1) :
    Gdb.readMemoryLoop h size address value pos g = .error .overflow := by
  induction size generalizing g address value pos with
  | zero => simp [dump] at full; omega
  | succ size ih =>
    by_cases inside : address.toNat < g.arm.mem.size
    · rw [dump, if_pos inside, List.length_cons] at full
      simp only [Gdb.readMemoryLoop, memoryReadByte_inside h value inside]
      rcases Nat.lt_or_ge maxPacketSize (pos + 3) with beyond | room
      · rw [put_overflows _ (by simpa using beyond)]
        rfl
      · have put : ∃ p, g.put pos (hex2 (g.arm.mem.address address) ++ [0#8]) =
            .ok { g with packet := p } := ⟨_, dif_pos (by simpa using room)⟩
        obtain ⟨p, put⟩ := put
        have rest := ih (g := { g with packet := p }) (pos + 2) (address + 1#32)
          (g.arm.mem.address address) (by omega) (by simp only; omega)
        simpa [put, bind, Except.bind] using rest
    · rw [dump, if_neg inside] at full
      simp at full
      omega

end Dump

section Request

variable (h : Platform) (e : Locals) (g : Gdb) {data s : List Byte}

/-- The bytes a request for memory names, with the fields as sscanf leaves them. -/
def dumpRequest (s : List Byte) : List Byte :=
  dump g.arm.mem ((scanHexPair h.sizeTBits s).2.getD e.size).toNat
    ((scanHexPair h.sizeTBits s).1.getD e.address)

theorem dumpRequest_clean : 0#8 ∉ (dumpRequest h e g s).flatMap hex2 := by
  have digits := isDigit_flatMap_hex2 id (dumpRequest h e g s)
  exact not_mem_of_digits digits (by decide)

theorem dumpRequest_text : ((dumpRequest h e g s).flatMap hex2).length =
    2 * (dumpRequest h e g s).length := length_flatMap_hex2 id _

theorem readMemory_dumped (string : stringAt data = .ok s)
    (within : (dumpRequest h e g s).length ≤ 511) :
    ∃ p, g.readMemory h e data = gdbSendBuffer { g with packet := p } ∧
      Begins { g with packet := p } ((dumpRequest h e g s).flatMap hex2 ++ [0#8]) := by
  obtain ⟨p, emptied, begins⟩ := (begins_nil g).put (s := [0#8]) buffer rfl (by decide)
  rw [dumpRequest] at within
  obtain ⟨q, dumped, whole⟩ := readMemoryLoop_fits (h := h) buffer
    ((scanHexPair h.sizeTBits s).2.getD e.size).toNat
    ((scanHexPair h.sizeTBits s).1.getD e.address) (e.value.setWidth 8) begins rfl
    (by simp only [buffer, maxPacketSize]; omega)
  refine ⟨q, ?_, whole⟩
  simp only [Gdb.readMemory, string, emptied, dumped, bind, Except.bind]

theorem readMemory_replies (string : stringAt data = .ok s)
    (short : (dumpRequest h e g s).length ≤ 509) : ∃ g', g.readMemory h e data = .ok g' ∧
      Replied g ((dumpRequest h e g s).flatMap hex2) g' := by
  obtain ⟨p, dumped, whole⟩ := readMemory_dumped h e g string (by omega)
  obtain ⟨g', sent, replied⟩ := gdbSendBuffer_fits whole (dumpRequest_clean h e g)
    (by rw [dumpRequest_text, maxPacketSize]; omega)
  exact ⟨g', dumped.trans sent, replied.of_draft⟩

theorem readMemory_overflows (string : stringAt data = .ok s)
    (long : 509 < (dumpRequest h e g s).length) :
    g.readMemory h e data = .error .overflow := by
  rcases Nat.lt_or_ge 511 (dumpRequest h e g s).length with beyond | within
  · obtain ⟨p, emptied, begins⟩ := (begins_nil g).put (s := [0#8]) buffer rfl (by decide)
    rw [dumpRequest] at beyond
    simp only [Gdb.readMemory, string, emptied, bind, Except.bind]
    rw [readMemoryLoop_overflows _ _ _ _ (by decide) (by simp only [buffer, maxPacketSize]; omega)]
  · obtain ⟨p, dumped, whole⟩ := readMemory_dumped h e g string within
    rw [dumped]
    exact gdbSendBuffer_overflows whole (dumpRequest_clean h e g)
      (by rw [dumpRequest_text, maxPacketSize]; omega)

end Request

section Dispatch

variable (h : Platform) (e : Locals) (fuel : Nat) {g : Gdb} {calls : List GdbCall}

theorem GdbHandler.run_bounded {handler : GdbHandler} (other : handler ≠ .readMemory)
    (data : List Byte) (kept : calls <+: g.calls) :
    Bounded calls (handler.run h e fuel g data) := by
  cases handler with
  | cont => exact contLoop_bounded fuel 0 _ kept
  | killRequest => exact kept.trans (List.prefix_append _ _)
  | query => exact query_bounded kept
  | readGeneralRegisters => exact Replied.bounded (readGeneralRegisters_replies h g) kept
  | readMemory => contradiction
  | readRegister => exact readRegister_bounded kept
  | reason => exact gdbSendStopReason_bounded kept
  | setThread => exact setThread_bounded kept
  | step => exact step_bounded kept
  | writeGeneralRegisters => exact writeGeneralRegisters_bounded kept
  | writeMemoryBinary => exact writeMemoryBinary_bounded kept
  | writeRegister => exact writeRegister_bounded kept

theorem gdbDispatch_memory (data : List Byte) :
    gdbDispatch h e fuel g (ch 'm') data = g.readMemory h e data := rfl

theorem gdbDispatch_bounded {index : Byte} (other : index ≠ ch 'm') (data : List Byte)
    (kept : calls <+: g.calls) : Bounded calls (gdbDispatch h e fuel g index data) := by
  unfold gdbDispatch
  split
  · rename_i handler found
    apply GdbHandler.run_bounded h e fuel _ data kept
    rintro rfl
    have table : ∀ b : Byte, gdbHandlers.lookup b = some .readMemory → b = ch 'm' := by
      decide +kernel
    exact other (table index found)
  · exact gdbSendData_bounded (by decide) (by decide) kept

end Dispatch

/-- A body that asks for more bytes of memory than a reply can hold, and memory that has them.
The fields are those sscanf finds in the request, or what the locals held before. -/
def LongDump (h : Platform) (e : Locals) (mem : Memory) (body : List Byte) : Prop :=
  ∃ request, body = ch 'm' :: request ∧
    let fields := scanHexPair h.sizeTBits (upToNul request)
    509 < (fields.2.getD e.size).toNat ∧
      (2 ^ 32 ≤ mem.size ∨ 509 < mem.size - (fields.1.getD e.address).toNat)

section Packets

variable (h : Platform) (e : Locals) (fuel : Nat) (g : Gdb) {body : List Byte}

theorem longDump_iff (request : List Byte) : LongDump h e g.arm.mem (ch 'm' :: request) ↔
    509 < (dumpRequest h e g (upToNul request)).length := by
  rw [dumpRequest, length_dump]
  constructor
  · rintro ⟨_, same, asked, there⟩
    obtain rfl := (List.cons.inj same).2
    split <;> omega
  · intro long
    refine ⟨request, rfl, ?_⟩
    dsimp only
    split at long <;> omega

theorem gdbDispatch_fits_iff (high low : Byte) (following : List Byte) :
    gdbDispatch h e fuel g ((received body high low following).getD 0 0#8)
        ((received body high low following).drop 1) ≠ .error .overflow ↔
      ¬ LongDump h e g.arm.mem body := by
  by_cases memory : body.head? = some (ch 'm')
  · obtain ⟨request, rfl⟩ := List.head?_eq_some_iff.mp memory
    have string : stringAt ((received (ch 'm' :: request) high low following).drop 1) =
        .ok (upToNul request) := by
      rw [received, List.cons_append, List.drop_one, List.tail_cons, stringAt, cString_terminated]
    have letter : (received (ch 'm' :: request) high low following).getD 0 0#8 = ch 'm' := rfl
    rw [letter, gdbDispatch_memory, longDump_iff h e g]
    constructor
    · exact fun fits long => fits (readMemory_overflows h e g string long)
    · intro short
      obtain ⟨g', replied, -⟩ := readMemory_replies h e g string (Nat.le_of_not_lt short)
      rw [replied]
      intro impossible
      cases impossible
  · have other : (received body high low following).getD 0 0#8 ≠ ch 'm' :=
      fun same => memory (received_first (by decide) same)
    have bounded := gdbDispatch_bounded h e fuel (g := g) other
      ((received body high low following).drop 1) (List.prefix_refl g.calls)
    have short : ¬ LongDump h e g.arm.mem body := by
      rintro ⟨request, rfl, -⟩
      simp at memory
    refine ⟨fun _ => short, fun _ overflow => ?_⟩
    rw [overflow] at bounded
    exact bounded rfl

end Packets

theorem reply_fits_iff (h : Platform) (e : Locals) (fuel : Nat) (g : Gdb) (body : List Byte)
    (high low : Byte) (packet : IsPacket body high low) (following : List Byte) :
    gdbPacketAnalysis h e fuel g (packetText body high low ++ 0#8 :: following)
        (packetText body high low).length ≠ .error .overflow ↔
      (number 16 [high, low] = checksum body → ¬ LongDump h e g.arm.mem body) := by
  rw [gdbPacketAnalysis_eq h e fuel g packet]
  split
  · rename_i right
    rw [gdbDispatch_fits_iff]
    simp [right, gdbSendAck, rioWriten]
  · rename_i wrong
    simp [wrong]

theorem reply_fits_509 : gdbPacketAnalysis lp64 sampleLocals 0 sampleGdb
    (packetText (text "m0,1fd") (ch 'c') (ch '4') ++ [0#8])
    (packetText (text "m0,1fd") (ch 'c') (ch '4')).length ≠ .error .overflow := by
  apply (reply_fits_iff lp64 sampleLocals 0 sampleGdb (text "m0,1fd") (ch 'c') (ch '4')
    ⟨by decide, by decide, by decide⟩ []).mpr
  rintro - ⟨request, same, asked, -⟩
  obtain rfl : text "0,1fd" = request := (List.cons.inj same).2
  exact absurd asked (by decide)

theorem reply_of_510_overflows : gdbPacketAnalysis lp64 sampleLocals 0 sampleGdb
    (packetText (text "m0,1fe") (ch 'c') (ch '5') ++ [0#8])
    (packetText (text "m0,1fe") (ch 'c') (ch '5')).length = .error .overflow := by
  have packet : IsPacket (text "m0,1fe") (ch 'c') (ch '5') := ⟨by decide, by decide, by decide⟩
  have long : LongDump lp64 sampleLocals (gdbSendAck sampleGdb).arm.mem (text "m0,1fe") :=
    ⟨text "0,1fe", rfl, by decide⟩
  rw [gdbPacketAnalysis_eq lp64 sampleLocals 0 sampleGdb packet [], if_pos (by decide)]
  exact not_not.mp (mt (gdbDispatch_fits_iff lp64 sampleLocals 0 _ (ch 'c') (ch '5') []).mp
    (not_not.mpr long))

end ArmSimulator
