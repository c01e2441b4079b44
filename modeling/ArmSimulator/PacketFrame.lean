import ArmSimulator.GdbProtocol
import ArmSimulator.Library.Outcomes
import ArmSimulator.Scanner

/-! The frame of a packet: what `gdb_send_buffer` puts around a text, and what
`gdb_packet_analysis` makes of it. -/
namespace ArmSimulator
open CString Outcomes

def checksum (d : List Byte) : Nat := (d.map BitVec.toNat).sum % 256

def frame (d : List Byte) : List Byte :=
  ch '$' :: (d ++ ch '#' :: hex2 (BitVec.ofNat 8 (checksum d)))

section Array

variable {g : Gdb} {t s : List Byte}

theorem put_extends (pos : Nat) (begins : t <+: g.packet.bytes) (place : pos = t.length)
    (room : pos + s.length ≤ maxPacketSize) :
    ∃ p, g.put pos s = .ok { g with packet := p } ∧ t ++ s <+: p.bytes := by
  subst place
  exact ⟨_, dif_pos room, overwrite_begins begins s⟩

theorem put_overflows (pos : Nat) (full : maxPacketSize < pos + s.length) :
    g.put pos s = .error .overflow := dif_neg (Nat.not_le_of_lt full)

def Begins (g : Gdb) (t : List Byte) : Prop := ∃ c, c :: t <+: g.packet.bytes

theorem begins_nil (g : Gdb) : Begins g [] := by
  have length := g.packet.length_eq
  cases array : g.packet.bytes with
  | nil => simp [array, maxPacketSize] at length
  | cons c rest => exact ⟨c, by simp [array]⟩

theorem Begins.prefix_of (begins : Begins g (t ++ s)) : Begins g t := by
  obtain ⟨c, rest, whole⟩ := begins
  exact ⟨c, s ++ rest, by simpa using whole⟩

theorem Begins.put (begins : Begins g t) (pos : Nat) (place : pos = t.length + 1)
    (room : pos + s.length ≤ maxPacketSize) :
    ∃ p, g.put pos s = .ok { g with packet := p } ∧ Begins { g with packet := p } (t ++ s) := by
  obtain ⟨c, begins⟩ := begins
  obtain ⟨p, done, extended⟩ := put_extends pos begins place room
  exact ⟨p, done, c, extended⟩

end Array

section Replies

variable {g : Gdb} {d : List Byte}

theorem foldl_add (d : List Byte) (c : Byte) :
    d.foldl (· + ·) c = c + BitVec.ofNat 8 (checksum d) := by
  induction d generalizing c with
  | nil => simp [checksum]
  | cons b d ih =>
    rw [List.foldl_cons, ih]
    apply BitVec.eq_of_toNat_eq
    simp only [checksum, List.map_cons, List.sum_cons, BitVec.toNat_add, BitVec.toNat_ofNat]
    omega

theorem checkLoop_text (clean : 0#8 ∉ d) (rest : List Byte) (check : Byte) (i : Nat) :
    checkLoop (d ++ 0#8 :: rest) check i = some (d.foldl (· + ·) check, i + d.length) := by
  induction d generalizing check i with
  | nil => simp [checkLoop]
  | cons b d ih =>
    simp only [List.mem_cons, not_or] at clean
    rw [List.cons_append, checkLoop, if_neg (Ne.symm clean.1), ih clean.2, List.foldl_cons,
      List.length_cons, Nat.add_assoc, Nat.add_comm 1]

/-- What sending the text `d` leaves: the processor as it was, and the frame of the text in the
packet, terminated, and on the wire. -/
structure Replied (g : Gdb) (d : List Byte) (g' : Gdb) : Prop where
  arm : g'.arm = g.arm
  targetException : g'.targetException = g.targetException
  calls : g'.calls = g.calls ++ [.write (frame d)]
  packet : frame d ++ [0#8] <+: g'.packet.bytes
  len : g'.len = (frame d).length

theorem length_frame (d : List Byte) : (frame d).length = d.length + 4 := by
  simp [frame]

theorem Replied.of_draft {p : Packet} {g' : Gdb} (replied : Replied { g with packet := p } d g') :
    Replied g d g' :=
  ⟨replied.arm, replied.targetException, replied.calls, replied.packet, replied.len⟩

theorem Replied.text_eq {g' : Gdb} (replied : Replied g d g') :
    g'.packet.bytes.take g'.len = frame d := by
  obtain ⟨rest, whole⟩ := replied.packet
  rw [replied.len, ← whole]
  simp

theorem gdbSendBuffer_closed (begins : Begins g (d ++ [0#8])) (clean : 0#8 ∉ d) :
    ∃ p, ch '$' :: (d ++ [ch '#']) <+: p.bytes ∧ gdbSendBuffer g = (do
        let g ← Gdb.put { g with packet := p } (1 + d.length + 1)
          (hex2 (BitVec.ofNat 8 (checksum d)) ++ [0#8])
        let g ← g.put (1 + d.length + 3) [0#8]
        .ok (gdbTransmitPacket { g with len := 1 + d.length + 3 })) := by
  obtain ⟨c, rest, whole⟩ := begins
  have array : g.packet.bytes = c :: (d ++ 0#8 :: rest) := by simpa using whole.symm
  have inside : d.length + rest.length + 2 = maxPacketSize := by
    rw [← g.packet.length_eq, array]
    simp
    omega
  have opened : ∃ p, g.put 0 [ch '$'] = .ok { g with packet := p } ∧
      p.bytes = ch '$' :: (d ++ 0#8 :: rest) :=
    ⟨_, dif_pos (by decide), by simp [overwrite, array]⟩
  obtain ⟨p, dollar, opened⟩ := opened
  have summed : checkLoop (p.bytes.drop 1) 0#8 1 =
      some (BitVec.ofNat 8 (checksum d), 1 + d.length) := by
    rw [opened, List.drop_one, List.tail_cons, checkLoop_text clean, foldl_add, BitVec.zero_add]
  obtain ⟨q, sharp, closed⟩ := put_extends (g := { g with packet := p }) (s := [ch '#'])
    (t := ch '$' :: d) (1 + d.length) ⟨0#8 :: rest, by simp [opened]⟩ (by simp; omega)
    (by simp; omega)
  refine ⟨q, by simpa using closed, ?_⟩
  simp only [gdbSendBuffer, dollar, bind, Except.bind, summed, sharp]

theorem gdbSendBuffer_fits (begins : Begins g (d ++ [0#8])) (clean : 0#8 ∉ d)
    (short : d.length + 5 ≤ maxPacketSize) : ∃ g', gdbSendBuffer g = .ok g' ∧ Replied g d g' := by
  obtain ⟨p, closed, sent⟩ := gdbSendBuffer_closed begins clean
  have len : 1 + d.length + 3 = (frame d).length := by
    rw [length_frame]
    omega
  obtain ⟨q, third, summed⟩ := put_extends (g := { g with packet := p })
    (s := hex2 (BitVec.ofNat 8 (checksum d)) ++ [0#8]) (1 + d.length + 1) closed (by simp; omega)
    (by simp; omega)
  have written : frame d <+: q.bytes := by
    apply List.IsPrefix.trans _ summed
    simp [frame]
  obtain ⟨r, fourth, ended⟩ := put_extends (g := { g with packet := q }) (s := [0#8]) _ written len
    (by simp; omega)
  refine ⟨gdbTransmitPacket { g with packet := r, len := 1 + d.length + 3 }, ?_, rfl, rfl, ?_,
    ended, len⟩
  · simp only [sent, third, fourth, bind, Except.bind]
  · obtain ⟨rest, whole⟩ := ended
    simp [gdbTransmitPacket, rioWriten, ← whole, len]

/-- A text too long for its frame is not sent: the checksum or its NUL overruns the packet. -/
theorem gdbSendBuffer_overflows (begins : Begins g (d ++ [0#8])) (clean : 0#8 ∉ d)
    (long : maxPacketSize < d.length + 5) : gdbSendBuffer g = .error .overflow := by
  obtain ⟨p, -, sent⟩ := gdbSendBuffer_closed begins clean
  have full := put_overflows (g := { g with packet := p })
    (s := hex2 (BitVec.ofNat 8 (checksum d)) ++ [0#8]) (1 + d.length + 1) (by simp; omega)
  simp only [sent, full, bind, Except.bind]

theorem gdbSendData_replies (clean : 0#8 ∉ d) (short : d.length + 5 ≤ maxPacketSize) :
    ∃ g', gdbSendData g d = .ok g' ∧ Replied g d g' := by
  obtain ⟨p, copied, begins⟩ := (begins_nil g).put (s := d ++ [0#8]) buffer rfl
    (by simp [buffer]; omega)
  obtain ⟨g', sent, replied⟩ := gdbSendBuffer_fits begins clean short
  refine ⟨g', ?_, replied.of_draft⟩
  simp only [gdbSendData, copied, bind, Except.bind, sent]

theorem frame_inj {d d' : List Byte} (same : frame d = frame d') : d = d' := by
  have lengths := congrArg List.length same
  rw [length_frame, length_frame] at lengths
  exact (List.append_inj (List.cons.inj same).2 (by omega)).1

theorem frame_eq (d : List Byte) : frame d = packetText d
    (lowerHex ((BitVec.ofNat 8 (checksum d)).toNat / 16))
    (lowerHex ((BitVec.ofNat 8 (checksum d)).toNat % 16)) := rfl

end Replies

section Analysis

variable {body : List Byte} {high low : Byte}

/-- The input buffer from the body on, when a NUL has taken the place of the sharp. -/
def received (body : List Byte) (high low : Byte) (following : List Byte) : List Byte :=
  body ++ 0#8 :: high :: low :: 0#8 :: following

theorem received_string (clean : 0#8 ∉ body) (high low : Byte) (following : List Byte) :
    cString (received body high low following) = some body := cString_append clean _

theorem received_first {c : Byte} (letter : c ≠ 0#8) {following : List Byte}
    (first : (received body high low following).getD 0 0#8 = c) : body.head? = some c := by
  cases body with
  | nil => exact absurd first.symm letter
  | cons b body => exact congrArg some first

theorem IsPacket.digits (packet : IsPacket body high low) :
    ∀ b ∈ [high, low], isDigit 16 b = true := by
  intro b member
  simp only [List.mem_cons, List.not_mem_nil, or_false] at member
  rcases member with rfl | rfl
  · exact packet.high_digit
  · exact packet.low_digit

def examine (h : Platform) (e : Locals) (packet : List Byte) (length : Nat) :
    Except Fault (Option (Byte × List Byte)) := do
  let i := max 1 (length - 3)
  let check := ((packet.take i).drop 1).foldl (· + ·) 0#8
  let s ← stringAt (packet.drop (i + 1))
  let given := ((scanHex h.sizeTBits s).map Prod.fst).getD e.given
  let packet := packet.set i 0#8
  .ok (if check.setWidth 32 = given then some (packet.getD 1 0#8, packet.drop 2) else none)

def Gdb.analysed (h : Platform) (e : Locals) (fuel : Nat) (g : Gdb) :
    Option (Byte × List Byte) → Answer
  | some (index, data) => gdbDispatch h e fuel (gdbSendAck g) index data
  | none => .ok (gdbRequireRetransmission g)

theorem gdbPacketAnalysis_examine (h : Platform) (e : Locals) (fuel : Nat) (g : Gdb)
    (packet : List Byte) (length : Nat) : gdbPacketAnalysis h e fuel g packet length =
      (examine h e packet length).bind (g.analysed h e fuel) := by
  unfold gdbPacketAnalysis examine
  cases string : stringAt (packet.drop (max 1 (length - 3) + 1)) with
  | error fault =>
    simp only [string]
    rfl
  | ok s =>
    simp only [string, bind, Except.bind]
    split_ifs <;> rfl

theorem examine_packet (h : Platform) (e : Locals) (packet : IsPacket body high low)
    (following : List Byte) :
    examine h e (packetText body high low ++ 0#8 :: following) (packetText body high low).length =
      .ok (if number 16 [high, low] = checksum body then
        some ((received body high low following).getD 0 0#8,
          (received body high low following).drop 1)
      else none) := by
  have length : (packetText body high low).length - 3 = body.length + 1 := by simp [packetText]
  have string : stringAt (high :: low :: 0#8 :: following) = .ok [high, low] := by
    have clean := not_mem_of_digits packet.digits (show isDigit 16 0#8 = false by decide)
    rw [stringAt, show high :: low :: 0#8 :: following = [high, low] ++ 0#8 :: following from rfl,
      cString_append clean]
  have given := scanHex_pair h.sizeTBits_ge packet.digits
  have small := number_pair_lt (c := high) (d := low)
  have compared : (BitVec.ofNat 8 (checksum body)).setWidth 32 =
      BitVec.ofNat 32 (number 16 [high, low]) ↔ number 16 [high, low] = checksum body := by
    have sum : checksum body < 256 := Nat.mod_lt _ (by decide)
    rw [← BitVec.toNat_inj, BitVec.toNat_setWidth, BitVec.toNat_ofNat, BitVec.toNat_ofNat]
    omega
  have inside : (((packetText body high low ++ 0#8 :: following).take
      (body.length + 1)).drop 1).foldl (· + ·) 0#8 = BitVec.ofNat 8 (checksum body) := by
    simp [packetText, foldl_add]
  have digits : (packetText body high low ++ 0#8 :: following).drop (body.length + 1 + 1) =
      high :: low :: 0#8 :: following := by
    simp [packetText]
  have cut : (packetText body high low ++ 0#8 :: following).set (body.length + 1) 0#8 =
      ch '$' :: received body high low following := by
    simp [packetText, received]
  have start : max 1 (body.length + 1) = body.length + 1 := by omega
  simp only [examine, length, start, inside, digits, string, given, cut, compared,
    Option.map_some, Option.getD_some, bind, Except.bind, List.getD_cons_succ, List.drop_succ_cons]

theorem gdbPacketAnalysis_eq (h : Platform) (e : Locals) (fuel : Nat) (g : Gdb)
    (packet : IsPacket body high low) (following : List Byte) :
    gdbPacketAnalysis h e fuel g (packetText body high low ++ 0#8 :: following)
        (packetText body high low).length =
      if number 16 [high, low] = checksum body then
        gdbDispatch h e fuel (gdbSendAck g) ((received body high low following).getD 0 0#8)
          ((received body high low following).drop 1)
      else .ok (gdbRequireRetransmission g) := by
  rw [gdbPacketAnalysis_examine, examine_packet h e packet]
  split <;> rfl

theorem clean_of_digits {digits : List Byte} (all : ∀ b ∈ digits, isDigit 16 b = true) :
    ∀ b ∈ digits, b ≠ ch '$' ∧ b ≠ ch '#' :=
  fun b inside => ⟨digit_ne (all b inside) (by decide), digit_ne (all b inside) (by decide)⟩

structure RightChecksum (body : List Byte) (high low : Byte) : Prop where
  high_digit : isDigit 16 high = true
  low_digit : isDigit 16 low = true
  sum : number 16 [high, low] = checksum body

theorem RightChecksum.packet (right : RightChecksum body high low)
    (clean : ∀ b ∈ body, b ≠ ch '$' ∧ b ≠ ch '#') : IsPacket body high low :=
  ⟨clean, right.high_digit, right.low_digit⟩

theorem RightChecksum.analysed (right : RightChecksum body high low) (h : Platform) (e : Locals)
    (fuel : Nat) (g : Gdb) (clean : ∀ b ∈ body, b ≠ ch '$' ∧ b ≠ ch '#') (following : List Byte) :
    gdbPacketAnalysis h e fuel g (packetText body high low ++ 0#8 :: following)
        (packetText body high low).length =
      gdbDispatch h e fuel (gdbSendAck g) ((received body high low following).getD 0 0#8)
        ((received body high low following).drop 1) := by
  rw [gdbPacketAnalysis_eq h e fuel g (right.packet clean), if_pos right.sum]

end Analysis

end ArmSimulator
