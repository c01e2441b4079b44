import ArmSimulator.Download

/-! Where the bytes of a download come from: the stores of `write_memory_binary`
with the pointers around the text of each byte, and when none of them leaves the
packet. -/
namespace ArmSimulator
open CString ByteStore

/-- A byte in the memory and the text it is decoded from, which is what `pointer` has more
than `next`. -/
structure StoredByte where
  pointer : List Byte
  next : List Byte
  address : Word
  value : Byte
  decoded : Gdb.decodeByte (some pointer) = .ok (value, next)

def downloadStores (h : Platform) :
    Nat → List Byte → Word → Memory → List StoredByte × Except Fault (Memory × Bool)
  | 0, _, _, mem => ([], .ok (mem, true))
  | size + 1, content, address, mem =>
    match decoded : Gdb.decodeByte (some content) with
    | .error fault => ([], .error fault)
    | .ok (value, rest) =>
      let r := memoryWriteByte h mem address value
      if r.2 = 0 then
        let later := downloadStores h size rest (address + 1#32) r.1
        (⟨content, rest, address, value, decoded⟩ :: later.1, later.2)
      else ([], .ok (r.1, false))

/-- The bytes `write_memory_binary` stores, in their order, also when it faults later. -/
def writeMemoryBinaryStores (h : Platform) (e : Locals) (g : Gdb) (data : List Byte) :
    List StoredByte :=
  match stringAt data, index (ch ':') data with
  | .ok s, some colon =>
    let fields := scanHexPair h.sizeTBits s
    let address := fields.1.getD e.address
    if address.toNat < g.arm.mem.size then
      (downloadStores h (fields.2.getD e.size).toNat colon.tail address g.arm.mem).1
    else []
  | _, _ => []

def replay (mem : Memory) (stores : List StoredByte) : Memory :=
  stores.foldl (fun mem s => { mem with address := store mem.address s.address [s.value] }) mem

/-- What a payload decodes to; an escape character at its end has nothing to escape. -/
def carried : List Byte → List Byte
  | [] => []
  | c :: rest =>
    if c = 0x7d#8 then
      match rest with
      | [] => []
      | d :: rest => (d ^^^ 0x20#8) :: carried rest
    else c :: carried rest

def Room (size : Nat) (address : Word) (count : Nat) : Prop :=
  ∀ j < count, (address + BitVec.ofNat 32 j).toNat < size

instance (size : Nat) (address : Word) (count : Nat) : Decidable (Room size address count) :=
  inferInstanceAs (Decidable (∀ j < count, (address + BitVec.ofNat 32 j).toNat < size))

theorem room_succ {size count : Nat} {address : Word} : Room size address (count + 1) ↔
    address.toNat < size ∧ Room size (address + 1#32) count := by
  have next (j : Nat) : address + BitVec.ofNat 32 (j + 1) = address + 1#32 + BitVec.ofNat 32 j := by
    rw [BitVec.add_assoc, Nat.add_comm, BitVec.ofNat_add]
  constructor
  · intro room
    refine ⟨by simpa using room 0 (by omega), fun j below => ?_⟩
    rw [← next]
    exact room (j + 1) (by omega)
  · rintro ⟨here, room⟩ j below
    cases j with
    | zero => simpa using here
    | succ j =>
      rw [next]
      exact room j (by omega)

theorem Room.mono {size count count' : Nat} {address : Word} (room : Room size address count)
    (fewer : count' ≤ count) : Room size address count' :=
  fun j below => room j (by omega)

section Loop

variable (h : Platform) {content rest : List Byte} {address : Word} {mem : Memory} {value : Byte}

theorem downloadStores_inside (decoded : Gdb.decodeByte (some content) = .ok (value, rest))
    (inside : address.toNat < mem.size) (size : Nat) :
    downloadStores h (size + 1) content address mem =
      (⟨content, rest, address, value, decoded⟩ ::
        (downloadStores h size rest (address + 1#32)
          { mem with address := store mem.address address [value] }).1,
        (downloadStores h size rest (address + 1#32)
          { mem with address := store mem.address address [value] }).2) := by
  rw [downloadStores]
  split
  · next fault failed => simp [decoded] at failed
  · next value' rest' same =>
    obtain ⟨rfl, rfl⟩ := Prod.mk.inj (Except.ok.inj (decoded.symm.trans same))
    simp [memoryWriteByte_inside h value inside]

theorem downloadStores_outside (decoded : Gdb.decodeByte (some content) = .ok (value, rest))
    (outside : mem.size ≤ address.toNat) (size : Nat) :
    downloadStores h (size + 1) content address mem = ([], .ok (mem, false)) := by
  rw [downloadStores]
  split
  · next fault failed => simp [decoded] at failed
  · next value' rest' same => simp [memoryWriteByte_outside h value' outside]

theorem downloadStores_fault {fault : Fault}
    (failed : Gdb.decodeByte (some content) = .error fault) (size : Nat) :
    downloadStores h (size + 1) content address mem = ([], .error fault) := by
  rw [downloadStores]
  split
  · next fault' same => rw [Except.error.inj (failed.symm.trans same)]
  · next value rest decoded => simp [failed] at decoded

theorem downloadStores_loop (size : Nat) (content : List Byte) (address : Word) (mem : Memory) :
    (downloadStores h size content address mem).2 =
        Gdb.downloadLoop h size (some content) address mem ∧
      ∀ mem' done, Gdb.downloadLoop h size (some content) address mem = .ok (mem', done) →
        mem' = replay mem (downloadStores h size content address mem).1 := by
  induction size generalizing content address mem with
  | zero =>
    refine ⟨rfl, fun mem' done ended => ?_⟩
    exact (Prod.mk.inj (Except.ok.inj ended)).1.symm
  | succ size ih =>
    cases decoded : Gdb.decodeByte (some content) with
    | error fault =>
      rw [downloadStores_fault h decoded]
      simp [Gdb.downloadLoop, decoded, bind, Except.bind]
    | ok r =>
      obtain ⟨value, rest⟩ := r
      rcases Nat.lt_or_ge address.toNat mem.size with inside | outside
      · rw [downloadStores_inside h decoded inside]
        obtain ⟨same, replayed⟩ := ih rest (address + 1#32)
          { mem with address := store mem.address address [value] }
        simpa [Gdb.downloadLoop, decoded, bind, Except.bind, memoryWriteByte_inside h value inside,
          replay] using And.intro same replayed
      · rw [downloadStores_outside h decoded outside]
        simp [Gdb.downloadLoop, decoded, bind, Except.bind,
          memoryWriteByte_outside h value outside, replay]

end Loop

section Payload

variable (h : Platform) {payload behind : List Byte} {address : Word} {mem : Memory}

theorem carried_plain {c : Byte} (plain : c ≠ 0x7d#8) (rest : List Byte) :
    carried (c :: rest) = c :: carried rest := by
  cases rest <;> simp [carried, plain]

theorem carried_cons {b : Byte} {content : List Byte} (carries : carried payload = b :: content) :
    ∃ rest, carried rest = content ∧
      ∀ behind, Gdb.decodeByte (some (payload ++ behind)) = .ok (b, rest ++ behind) := by
  cases payload with
  | nil => simp [carried] at carries
  | cons c rest =>
    by_cases escape : c = 0x7d#8
    · cases rest with
      | nil => simp [carried, escape] at carries
      | cons d rest =>
        subst escape
        obtain ⟨rfl, same⟩ := List.cons.inj carries
        exact ⟨rest, same, fun behind => rfl⟩
    · rw [carried_plain escape] at carries
      obtain ⟨rfl, same⟩ := List.cons.inj carries
      exact ⟨rest, same, fun behind => by simp [Gdb.decodeByte, escape]⟩

theorem carried_nil (carries : carried payload = []) (behind : List Byte) :
    ∃ b, Gdb.decodeByte (some (payload ++ 0#8 :: behind)) = .ok (b, behind) := by
  cases payload with
  | nil => exact ⟨0#8, rfl⟩
  | cons c rest =>
    by_cases escape : c = 0x7d#8
    · cases rest with
      | nil => exact ⟨0x20#8, by simp [Gdb.decodeByte, escape]⟩
      | cons d rest => simp [carried, escape] at carries
    · simp [carried_plain escape] at carries

/-- The loop ends by its count or at the end of the memory before the payload does. -/
def EndsInside (mem : Memory) (address : Word) (payload : List Byte) (size : Nat) : Prop :=
  size ≤ (carried payload).length ∨
    ¬Room mem.size address (min size ((carried payload).length + 1))

theorem EndsInside.stores {size : Nat} (ends : EndsInside mem address payload size)
    (behind : List Byte) :
    (∀ s ∈ (downloadStores h size (payload ++ 0#8 :: behind) address mem).1,
        0#8 :: behind <:+ s.next) ∧
      ∃ mem', (downloadStores h size (payload ++ 0#8 :: behind) address mem).2 =
        .ok (mem', decide (Room mem.size address size)) := by
  induction size generalizing payload address mem with
  | zero =>
    have all : Room mem.size address 0 := fun j below => absurd below (Nat.not_lt_zero j)
    exact ⟨by simp [downloadStores], mem, by simp [downloadStores, all]⟩
  | succ size ih =>
    rw [EndsInside, Nat.succ_min_succ, room_succ] at ends
    rw [show decide (Room mem.size address (size + 1)) = decide (address.toNat < mem.size ∧
      Room mem.size (address + 1#32) size) from decide_eq_decide.mpr room_succ]
    cases carries : carried payload with
    | nil =>
      obtain ⟨b, decoded⟩ := carried_nil carries behind
      -- the payload is used up, so only the end of the memory can stop the loop here
      have outside : mem.size ≤ address.toNat := by
        by_contra inside
        rw [carries] at ends
        simp [Room] at ends
        omega
      rw [downloadStores_outside h decoded outside]
      refine ⟨by simp, mem, by simp [Nat.not_lt_of_le outside]⟩
    | cons b content =>
      obtain ⟨rest, same, decodes⟩ := carried_cons carries
      rcases Nat.lt_or_ge address.toNat mem.size with inside | outside
      · have later : EndsInside { mem with address := store mem.address address [b] }
            (address + 1#32) rest size := by
          rw [carries, List.length_cons] at ends
          rw [EndsInside, same]
          exact ends.imp Nat.le_of_succ_le_succ fun stops room => stops ⟨inside, room⟩
        obtain ⟨within, mem', ended⟩ := ih later
        rw [downloadStores_inside h (decodes _) inside]
        refine ⟨?_, mem', by simp [ended, inside]⟩
        intro s stored
        rcases List.mem_cons.mp stored with rfl | stored
        · exact List.suffix_append _ _
        · exact within s stored
      · rw [downloadStores_outside h (decodes _) outside]
        exact ⟨by simp, mem, by simp [Nat.not_lt_of_le outside]⟩

theorem stores_uncarried {size : Nat} (short : (carried payload).length < size)
    (room : Room mem.size address ((carried payload).length + 1)) (behind : List Byte) :
    ∃ s ∈ (downloadStores h size (payload ++ 0#8 :: behind) address mem).1,
      ¬0#8 :: behind <:+ s.next := by
  induction size generalizing payload address mem with
  | zero => omega
  | succ size ih =>
    obtain ⟨inside, room⟩ := room_succ.mp room
    cases carries : carried payload with
    | nil =>
      obtain ⟨b, decoded⟩ := carried_nil carries behind
      rw [downloadStores_inside h decoded inside]
      -- the byte behind the payload is decoded from the NUL on
      refine ⟨_, List.mem_cons_self, fun suffix => ?_⟩
      have longer := suffix.length_le
      simp at longer
    | cons b content =>
      obtain ⟨rest, same, decodes⟩ := carried_cons carries
      rw [downloadStores_inside h (decodes _) inside]
      rw [carries, List.length_cons] at short room
      have shorter : (carried rest).length < size := by
        rw [same]
        omega
      have later : Room (⟨store mem.address address [b], mem.size⟩ : Memory).size
          (address + 1#32) ((carried rest).length + 1) := by
        rw [same]
        exact room
      obtain ⟨s, stored, beyond⟩ := ih shorter later
      exact ⟨s, List.mem_cons_of_mem _ stored, beyond⟩

end Payload

section Requests

variable (h : Platform) (e : Locals) (fuel : Nat) (g : Gdb)

theorem writeAnswer_replies (r : Memory × Bool) : ∃ g',
    (if r.2 then gdbSendData { g with arm := { g.arm with mem := r.1 } } (text "OK")
      else gdbSendData { g with arm := { g.arm with mem := r.1 } } (text "E02")) = .ok g' ∧
    g'.arm.mem = r.1 ∧
    g'.calls = g.calls ++ [.write (frame (if r.2 then text "OK" else text "E02"))] := by
  obtain ⟨mem, done⟩ := r
  cases done with
  | true =>
    obtain ⟨g', sent, replied⟩ := gdbSendData_replies
      (g := { g with arm := { g.arm with mem := mem } }) (d := text "OK") (by decide) (by decide)
    exact ⟨g', sent, by rw [replied.arm], replied.calls⟩
  | false =>
    obtain ⟨g', sent, replied⟩ := gdbSendData_replies
      (g := { g with arm := { g.arm with mem := mem } }) (d := text "E02") (by decide) (by decide)
    exact ⟨g', sent, by rw [replied.arm], replied.calls⟩

def requestLoop (data s : List Byte) : Except Fault (Memory × Bool) :=
  let fields := scanHexPair h.sizeTBits s
  let address := fields.1.getD e.address
  if address.toNat < g.arm.mem.size then
    Gdb.downloadLoop h (fields.2.getD e.size).toNat ((index (ch ':') data).map List.tail) address
      g.arm.mem
  else .ok (g.arm.mem, false)

variable {h e g} {data s : List Byte}

theorem writeMemoryBinary_answers (string : stringAt data = .ok s) {r : Memory × Bool}
    (ended : requestLoop h e g data s = .ok r) : ∃ g', g.writeMemoryBinary h e data = .ok g' ∧
      g'.arm.mem = r.1 ∧
      g'.calls = g.calls ++ [.write (frame (if r.2 then text "OK" else text "E02"))] := by
  obtain ⟨g', sent, kept, calls⟩ := writeAnswer_replies g r
  refine ⟨g', ?_, kept, calls⟩
  simp only [Gdb.writeMemoryBinary, string, bind, Except.bind]
  rw [requestLoop] at ended
  split at ended
  · next inside =>
    rw [if_pos inside, ended]
    exact sent
  · next outside =>
    obtain rfl := Except.ok.inj ended
    rw [if_neg outside]
    exact sent

theorem writeMemoryBinary_faults (string : stringAt data = .ok s) {fault : Fault}
    (ended : requestLoop h e g data s = .error fault) :
    g.writeMemoryBinary h e data = .error fault := by
  simp only [Gdb.writeMemoryBinary, string, bind, Except.bind]
  rw [requestLoop] at ended
  split at ended
  · next inside => rw [if_pos inside, ended]
  · cases ended

theorem requestLoop_replays (string : stringAt data = .ok s) {r : Memory × Bool}
    (ended : requestLoop h e g data s = .ok r) :
    r.1 = replay g.arm.mem (writeMemoryBinaryStores h e g data) := by
  rw [requestLoop] at ended
  split at ended
  · next inside =>
    cases place : index (ch ':') data with
    | none =>
      rw [place, Option.map_none] at ended
      cases count : ((scanHexPair h.sizeTBits s).2.getD e.size).toNat with
      | zero =>
        rw [count] at ended
        obtain rfl := Except.ok.inj ended
        simp [writeMemoryBinaryStores, string, place, replay]
      | succ size =>
        rw [count] at ended
        simp [Gdb.downloadLoop, Gdb.decodeByte, bind, Except.bind] at ended
    | some colon =>
      rw [place, Option.map_some] at ended
      rw [(downloadStores_loop h _ _ _ _).2 r.1 r.2 ended]
      simp [writeMemoryBinaryStores, string, place, inside]
  · next outside =>
    obtain rfl := Except.ok.inj ended
    cases place : index (ch ':') data with
    | none => simp [writeMemoryBinaryStores, string, place, replay]
    | some colon => simp [writeMemoryBinaryStores, string, place, outside, replay]

theorem writeMemoryBinary_replays {g' : Gdb} (answered : g.writeMemoryBinary h e data = .ok g') :
    g'.arm.mem = replay g.arm.mem (writeMemoryBinaryStores h e g data) := by
  cases string : stringAt data with
  | error fault => simp [Gdb.writeMemoryBinary, string, bind, Except.bind] at answered
  | ok s =>
    cases ended : requestLoop h e g data s with
    | error fault =>
      rw [writeMemoryBinary_faults string ended] at answered
      cases answered
    | ok r =>
      obtain ⟨reply, sent, kept, -⟩ := writeMemoryBinary_answers string ended
      obtain rfl := Except.ok.inj (sent.symm.trans answered)
      rw [kept, requestLoop_replays string ended]

variable (h e g) {at_ size : List Byte} {n m : Nat}

theorem writeRequest_outcome (first : HexText at_ n) (second : HexText size m)
    (payload behind : List Byte) :
    let data := at_ ++ ch ',' :: size ++ ch ':' :: (payload ++ 0#8 :: behind)
    let loop := downloadStores h (hexValue h.sizeTBits m).toNat (payload ++ 0#8 :: behind)
      (hexValue h.sizeTBits n) g.arm.mem
    let started := (hexValue h.sizeTBits n).toNat < g.arm.mem.size
    writeMemoryBinaryStores h e g data = (if started then loop.1 else []) ∧
      ∀ r, (if started then loop.2 else .ok (g.arm.mem, false)) = .ok r →
        ∃ g', g.writeMemoryBinary h e data = .ok g' ∧
          g'.calls = g.calls ++ [.write (frame (if r.2 then text "OK" else text "E02"))] := by
  obtain ⟨⟨s, string, fields⟩, colon⟩ := download_fields h first second payload behind
  constructor
  · simp only [writeMemoryBinaryStores, string, colon, fields, Option.getD_some, List.tail_cons]
  · intro r ended
    rw [(downloadStores_loop h _ _ _ _).1] at ended
    have loop : requestLoop h e g
        (at_ ++ ch ',' :: size ++ ch ':' :: (payload ++ 0#8 :: behind)) s = .ok r := by
      simpa only [requestLoop, colon, fields, Option.getD_some, Option.map_some, List.tail_cons]
        using ended
    obtain ⟨g', sent, -, calls⟩ := writeMemoryBinary_answers string loop
    exact ⟨g', sent, calls⟩

theorem EndsInside.request (first : HexText at_ n) (second : HexText size m)
    (payload behind : List Byte) (inside : (hexValue h.sizeTBits n).toNat < g.arm.mem.size)
    (ends : EndsInside g.arm.mem (hexValue h.sizeTBits n) payload (hexValue h.sizeTBits m).toNat) :
    let data := at_ ++ ch ',' :: size ++ ch ':' :: (payload ++ 0#8 :: behind)
    (∀ s ∈ writeMemoryBinaryStores h e g data, 0#8 :: behind <:+ s.next) ∧
      ∃ g', g.writeMemoryBinary h e data = .ok g' ∧ g'.calls = g.calls ++ [.write (frame
        (if Room g.arm.mem.size (hexValue h.sizeTBits n) (hexValue h.sizeTBits m).toNat
          then text "OK" else text "E02"))] := by
  intro data
  obtain ⟨traced, answers⟩ := writeRequest_outcome h e g first second payload behind
  obtain ⟨within, mem', ended⟩ := ends.stores h behind
  obtain ⟨g', sent, calls⟩ := answers _ ((if_pos inside).trans ended)
  refine ⟨?_, g', sent, by simpa using calls⟩
  rw [traced, if_pos inside]
  exact within

theorem writeRequest_carried_iff (first : HexText at_ n) (second : HexText size m)
    (payload behind : List Byte) :
    let data := at_ ++ ch ',' :: size ++ ch ':' :: (payload ++ 0#8 :: behind)
    ((∀ s ∈ writeMemoryBinaryStores h e g data, 0#8 :: behind <:+ s.next) ∧
        ((carried payload).length < m → ∃ g', g.writeMemoryBinary h e data = .ok g' ∧
          g'.calls = g.calls ++ [.write (frame (text "E02"))])) ↔
      m ≤ (carried payload).length ∨
        g.arm.mem.size ≤ (hexValue h.sizeTBits n).toNat ∨
        ¬Room g.arm.mem.size (hexValue h.sizeTBits n)
          (min (hexValue h.sizeTBits m).toNat ((carried payload).length + 1)) := by
  intro data
  have smaller := hexValue_le h.sizeTBits m
  obtain ⟨traced, answers⟩ := writeRequest_outcome h e g first second payload behind
  rcases Nat.lt_or_ge (hexValue h.sizeTBits n).toNat g.arm.mem.size with inside | outside
  · constructor
    · rintro ⟨within, refused⟩
      rw [traced, if_pos inside] at within
      by_contra wrong
      simp only [not_or, not_le, not_not] at wrong
      obtain ⟨declared, -, room⟩ := wrong
      rcases Nat.lt_or_ge (carried payload).length (hexValue h.sizeTBits m).toNat with more | enough
      · rw [Nat.min_eq_right (by omega)] at room
        obtain ⟨s, stored, beyond⟩ := stores_uncarried h more room behind
        exact beyond (within s stored)
      -- a size of 2^32 or more may be cut to one that the payload carries
      · rw [Nat.min_eq_left (by omega)] at room
        obtain ⟨-, g', sent, calls⟩ :=
          EndsInside.request h e g first second payload behind inside (.inl enough)
        obtain ⟨g'', sent', calls'⟩ := refused declared
        obtain rfl : g' = g'' := Except.ok.inj (sent.symm.trans sent')
        rw [calls, if_pos room] at calls'
        have same : frame (text "OK") = frame (text "E02") := by
          simpa using List.append_cancel_left calls'
        exact absurd (frame_inj same) (by decide)
    · intro condition
      have ends : EndsInside g.arm.mem (hexValue h.sizeTBits n) payload
          (hexValue h.sizeTBits m).toNat := by
        rcases condition with enough | outside | stops
        · exact .inl (by omega)
        · omega
        · exact .inr stops
      obtain ⟨within, g', sent, calls⟩ :=
        EndsInside.request h e g first second payload behind inside ends
      refine ⟨within, fun declared => ⟨g', sent, ?_⟩⟩
      rw [calls, if_neg]
      intro room
      rcases condition with enough | outside | stops
      · omega
      · omega
      · exact stops (room.mono (Nat.min_le_left _ _))
  · rw [traced, if_neg (Nat.not_lt_of_le outside)]
    obtain ⟨g', sent, calls⟩ := answers _ (if_neg (Nat.not_lt_of_le outside))
    exact iff_of_true ⟨by simp, fun _ => ⟨g', sent, calls⟩⟩ (.inr (.inl outside))

end Requests

def Refused (g : Gdb) (result : Answer) : Prop :=
  ∃ g', result = .ok g' ∧
    g'.calls = g.calls ++ [.write (text "+"), .write (frame (text "E02"))]

/-- For every request with a right checksum: the stores are what the request does to the memory,
and they come from its body, with a request that carries less than it declares refused, exactly
when it carries what it declares or the memory ends before the loop is past the payload. -/
theorem only_carried_iff (h : Platform) (e : Locals) (fuel : Nat) (g : Gdb)
    (at_ size payload : List Byte) (address declared : Nat) (high low : Byte)
    (following : List Byte) (first : HexText at_ address) (second : HexText size declared)
    (clean : ∀ b ∈ payload, b ≠ ch '$' ∧ b ≠ ch '#')
    (right : RightChecksum (writeRequest at_ size payload) high low) :
    let packet := packetText (writeRequest at_ size payload) high low
    let behind := 0#8 :: high :: low :: 0#8 :: following
    let stores := writeMemoryBinaryStores h e (gdbSendAck g)
      ((received (writeRequest at_ size payload) high low following).drop 1)
    let result := gdbPacketAnalysis h e fuel g (packet ++ 0#8 :: following) packet.length
    (∀ g', result = .ok g' → g'.arm.mem = replay g.arm.mem stores) ∧
    (((∀ s ∈ stores, behind <:+ s.next) ∧
        ((carried payload).length < declared → Refused g result)) ↔
      declared ≤ (carried payload).length ∨
        g.arm.mem.size ≤ (hexValue h.sizeTBits address).toNat ∨
        ¬Room g.arm.mem.size (hexValue h.sizeTBits address)
          (min (hexValue h.sizeTBits declared).toNat ((carried payload).length + 1))) := by
  intro packet behind stores result
  have analysed : result = (gdbSendAck g).writeMemoryBinary h e
      ((received (writeRequest at_ size payload) high low following).drop 1) :=
    right.analysed h e fuel g (writeRequest_clean first second clean) following
  constructor
  · intro g' answered
    exact writeMemoryBinary_replays (g := gdbSendAck g) (analysed.symm.trans answered)
  · have whole := writeRequest_carried_iff h e (gdbSendAck g) first second payload
      (high :: low :: 0#8 :: following)
    have acknowledged : (gdbSendAck g).calls ++ [.write (frame (text "E02"))] =
        g.calls ++ [.write (text "+"), .write (frame (text "E02"))] := by
      simp [gdbSendAck, rioWriten]
    simp only [← received_writeRequest, ← analysed, acknowledged] at whole
    exact whole

theorem only_carried_at_end :
    (∀ s ∈ writeMemoryBinaryStores lp64 sampleLocals (gdbSendAck sampleGdb)
        ((received (writeRequest (text "FFFF") (text "2") (text "A")) (ch '4') (ch '9') []).drop 1),
      [0#8, ch '4', ch '9', 0#8] <:+ s.next) ∧
    Refused sampleGdb (gdbPacketAnalysis lp64 sampleLocals 0 sampleGdb (packetText
      (writeRequest (text "FFFF") (text "2") (text "A")) (ch '4') (ch '9') ++ [0#8]) 13) := by
  obtain ⟨-, exactly⟩ := only_carried_iff lp64 sampleLocals 0 sampleGdb (text "FFFF") (text "2")
    (text "A") 0xFFFF 2 (ch '4') (ch '9') [] ⟨by decide, by decide, by decide⟩
    ⟨by decide, by decide, by decide⟩ (by decide) ⟨by decide, by decide, by decide⟩
  obtain ⟨within, refused⟩ := exactly.mpr (.inr (.inr (by decide)))
  exact ⟨within, refused (by decide)⟩

theorem next_byte_stored :
    HexText (text "0") 0 ∧ HexText (text "2") 2 ∧
    RightChecksum (writeRequest (text "0") (text "2") (text "A")) (ch '6') (ch '1') ∧
    (∃ s ∈ writeMemoryBinaryStores lp64 sampleLocals (gdbSendAck sampleGdb)
        ((received (writeRequest (text "0") (text "2") (text "A")) (ch '6') (ch '1') []).drop 1),
      ¬[0#8, ch '6', ch '1', 0#8] <:+ s.next) ∧
    ¬Refused sampleGdb (gdbPacketAnalysis lp64 sampleLocals 0 sampleGdb (packetText
      (writeRequest (text "0") (text "2") (text "A")) (ch '6') (ch '1') ++ [0#8]) 10) := by
  have zero : HexText (text "0") 0 := ⟨by decide, by decide, by decide⟩
  have two : HexText (text "2") 2 := ⟨by decide, by decide, by decide⟩
  refine ⟨zero, two, ⟨by decide, by decide, by decide⟩, ?_, ?_⟩
  · obtain ⟨traced, -⟩ := writeRequest_outcome lp64 sampleLocals (gdbSendAck sampleGdb) zero two
      (text "A") [ch '6', ch '1', 0#8]
    rw [← received_writeRequest] at traced
    rw [traced, if_pos (by decide)]
    exact stores_uncarried lp64 (by decide) (by decide) _
  · rintro ⟨g', ended, calls⟩
    have answered : (gdbPacketAnalysis lp64 sampleLocals 0 sampleGdb (packetText (writeRequest
        (text "0") (text "2") (text "A")) (ch '6') (ch '1') ++ [0#8]) 10).toOption.map Gdb.calls =
        some [.write (text "+"), .write (text "$OK#9a")] := by decide +kernel
    rw [ended] at answered
    have same := (Option.some.inj answered).symm.trans calls
    exact absurd same (by decide)

end ArmSimulator
