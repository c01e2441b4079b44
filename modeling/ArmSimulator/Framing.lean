import ArmSimulator.ReplyBounds

/-! The two ends of the protocol agree: what is sent is accepted and read back,
and a packet is acted on exactly when its checksum is right. -/
namespace ArmSimulator
open CString Outcomes RegularExpression

section Sent

variable {d : List Byte}

theorem isPacket_frame (clean : ∀ b ∈ d, b ≠ ch '$' ∧ b ≠ ch '#') :
    IsPacket d (lowerHex ((BitVec.ofNat 8 (checksum d)).toNat / 16))
      (lowerHex ((BitVec.ofNat 8 (checksum d)).toNat % 16)) := by
  have small := (BitVec.ofNat 8 (checksum d)).isLt
  exact ⟨clean, isDigit_lowerHex (by omega), isDigit_lowerHex (by omega)⟩

theorem number_frame (d : List Byte) :
    number 16 [lowerHex ((BitVec.ofNat 8 (checksum d)).toNat / 16),
      lowerHex ((BitVec.ofNat 8 (checksum d)).toNat % 16)] = checksum d := by
  have digits := number_hex2 (BitVec.ofNat 8 (checksum d))
  have small : checksum d < 2 ^ 8 := Nat.mod_lt _ (by decide)
  rw [BitVec.toNat_ofNat, Nat.mod_eq_of_lt small] at digits
  exact digits

end Sent

section Received

variable (h : Platform) (e : Locals) (fuel : Nat) (g : Gdb)

theorem readMemory_calls (data : List Byte) :
    Ends (g.readMemory h e data) (fun _ => True) fun g' => g.calls <+: g'.calls := by
  cases string : stringAt data with
  | error fault =>
    simp only [Gdb.readMemory, string, bind, Except.bind]
    exact Ends.of_error trivial
  | ok s =>
    rcases Nat.lt_or_ge 509 (dumpRequest h e g s).length with long | short
    · rw [readMemory_overflows h e g string long]
      exact Ends.of_error trivial
    · obtain ⟨g', sent, replied⟩ := readMemory_replies h e g string short
      exact Ends.of_eq sent (replied.calls ▸ List.prefix_append _ _)

theorem gdbDispatch_calls (index : Byte) (data : List Byte) :
    Ends (gdbDispatch h e fuel g index data) (fun _ => True) fun g' => g.calls <+: g'.calls := by
  by_cases memory : index = ch 'm'
  · rw [memory, gdbDispatch_memory]
    exact readMemory_calls h e g data
  · have bounded := gdbDispatch_bounded h e fuel memory data
      (List.prefix_refl g.calls)
    exact bounded.mono (fun _ _ => trivial) fun _ kept => kept

/-- The request in `buffer`, acknowledged and handed to the handler of its first byte, which gets
the rest; where there is none the answer is empty. -/
def handedOver (buffer : List Byte) : Answer :=
  let g := { g with calls := g.calls ++ [.write (text "+")] }
  (gdbHandlers.lookup (buffer.getD 0 0#8)).elim (gdbSendData g []) fun handler =>
    handler.run h e fuel g (buffer.drop 1)

theorem gdbDispatch_handedOver (buffer : List Byte) :
    gdbDispatch h e fuel (gdbSendAck g) (buffer.getD 0 0#8) (buffer.drop 1) =
      handedOver h e fuel g buffer := by
  unfold gdbDispatch handedOver
  cases gdbHandlers.lookup (buffer.getD 0 0#8) <;> rfl

theorem handedOver_acknowledged (buffer : List Byte) :
    Ends (handedOver h e fuel g buffer) (fun _ => True) fun g' =>
      g.calls ++ [.write (text "+")] <+: g'.calls := by
  rw [← gdbDispatch_handedOver]
  exact gdbDispatch_calls h e fuel (gdbSendAck g) _ _

/-- A request that was handed over has been acknowledged, so its end is not that of a refused
packet. -/
theorem handedOver_ne_refused (buffer : List Byte) :
    handedOver h e fuel g buffer ≠ .ok { g with calls := g.calls ++ [.write (text "-")] } := by
  intro refused
  have kept := handedOver_acknowledged h e fuel g buffer
  rw [refused] at kept
  have same : g.calls ++ [.write (text "+")] <+: g.calls ++ [.write (text "-")] := kept
  rw [List.prefix_append_right_inj] at same
  exact absurd same (by decide)

theorem gdbPacketAnalysis_handedOver {body : List Byte} {high low : Byte}
    (packet : IsPacket body high low) (following : List Byte) :
    gdbPacketAnalysis h e fuel g (packetText body high low ++ 0#8 :: following)
        (packetText body high low).length =
      if number 16 [high, low] = checksum body then
        handedOver h e fuel g (received body high low following)
      else .ok { g with calls := g.calls ++ [.write (text "-")] } := by
  rw [gdbPacketAnalysis_eq h e fuel g packet, gdbDispatch_handedOver]
  rfl

end Received

theorem framing_round_trip (h : Platform) (e : Locals) (fuel : Nat) :
    (∀ (g : Gdb) (d : List Byte), d.length ≤ 1019 →
      (∀ b ∈ d, b ≠ 0#8 ∧ b ≠ ch '$' ∧ b ≠ ch '#') →
      ∃ g', gdbSendData g d = .ok g' ∧
        g'.packet.bytes.take g'.len =
          ch '$' :: (d ++ ch '#' :: hex2 (BitVec.ofNat 8 ((d.map BitVec.toNat).sum % 256))) ∧
        g'.len = d.length + 4 ∧
        g'.packet.bytes.take g'.len ∈ packetPattern.matches' ∧
        ∀ (peer : Gdb) (following : List Byte), ∃ buffer, cString buffer = some d ∧
          gdbPacketAnalysis h e fuel peer (g'.packet.bytes.take g'.len ++ 0#8 :: following) g'.len =
            handedOver h e fuel peer buffer) ∧
    ∀ (g : Gdb) (body : List Byte) (high low : Byte) (following : List Byte),
      IsPacket body high low →
      let result := gdbPacketAnalysis h e fuel g (packetText body high low ++ 0#8 :: following)
        (packetText body high low).length
      (result = handedOver h e fuel g (received body high low following) ↔
        number 16 [high, low] = (body.map BitVec.toNat).sum % 256) ∧
      (number 16 [high, low] = (body.map BitVec.toNat).sum % 256 →
        ∀ g', result = .ok g' → g.calls ++ [.write (text "+")] <+: g'.calls) ∧
      (number 16 [high, low] ≠ (body.map BitVec.toNat).sum % 256 →
        result = .ok { g with calls := g.calls ++ [.write (text "-")] }) := by
  constructor
  · intro g d short clean
    obtain ⟨g', sent, replied⟩ := gdbSendData_replies (g := g) (d := d)
      (fun inside => (clean _ inside).1 rfl) (by rw [maxPacketSize]; omega)
    have packet := isPacket_frame fun b inside => (clean b inside).2
    refine ⟨g', sent, replied.text_eq, by rw [replied.len, length_frame], ?_, ?_⟩
    · rw [replied.text_eq, frame_eq]
      exact mem_packetPattern.mpr ⟨_, _, _, packet, rfl⟩
    · intro peer following
      have analysed := gdbPacketAnalysis_handedOver h e fuel peer packet following
      rw [if_pos (number_frame d), ← frame_eq] at analysed
      rw [replied.text_eq, replied.len]
      exact ⟨_, received_string (fun inside => (clean _ inside).1 rfl) _ _ _, analysed⟩
  · intro g body high low following packet
    have analysed := gdbPacketAnalysis_handedOver h e fuel g packet following
    rw [checksum] at analysed
    dsimp only
    rw [analysed]
    refine ⟨⟨?_, fun right => if_pos right⟩, ?_, fun wrong => if_neg wrong⟩
    · intro same
      by_contra wrong
      rw [if_neg wrong] at same
      exact handedOver_ne_refused h e fuel g _ same.symm
    · intro right g' returned
      rw [if_pos right] at returned
      have acknowledged := handedOver_acknowledged h e fuel g (received body high low following)
      rw [returned] at acknowledged
      exact acknowledged

theorem framing_round_trip_ok : ∃ g' g'', gdbSendData sampleGdb (text "OK") = .ok g' ∧
    g'.packet.bytes.take g'.len = text "$OK#9a" ∧
    gdbPacketAnalysis lp64 sampleLocals 0 sampleGdb
      (packetText (text "?") (ch '3') (ch 'f') ++ [0#8]) 5 =
      .ok g'' ∧
    g''.calls = [.write (text "+"), .write (text "$S05#b8")] ∧
    gdbPacketAnalysis lp64 sampleLocals 0 sampleGdb
      (packetText (text "g") (ch '6') (ch '8') ++ [0#8]) 5 =
      .ok { sampleGdb with calls := [.write (text "-")] } := by
  obtain ⟨g', sent, same, -⟩ := (framing_round_trip lp64 sampleLocals 0).1 sampleGdb (text "OK")
    (by decide) (by decide)
  have accepted := ((framing_round_trip lp64 sampleLocals 0).2 sampleGdb (text "?") (ch '3')
    (ch 'f') [] ⟨by decide, by decide, by decide⟩).1.mpr (by decide)
  have refused := ((framing_round_trip lp64 sampleLocals 0).2 sampleGdb (text "g") (ch '6') (ch '8')
    [] ⟨by decide, by decide, by decide⟩).2.2 (by decide)
  obtain ⟨g'', answered, replied⟩ := gdbSendData_replies (g := gdbSendAck sampleGdb)
    (d := text "S05") (by decide) (by decide)
  exact ⟨g', g'', sent, same, accepted.trans answered, replied.calls, refused⟩

end ArmSimulator
