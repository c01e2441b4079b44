import ArmSimulator.Download
import ArmSimulator.Requests

/-! The download of an image. gdb cuts it into chunks, one request each; noise on the line and
interrupts of the processor do not keep it from arriving. -/
namespace ArmSimulator
open CString ByteStore

def chunksAt : Word → List (List Byte) → List (Word × List Byte)
  | _, [] => []
  | address, chunk :: chunks =>
    (address, chunk) :: chunksAt (address + BitVec.ofNat 32 chunk.length) chunks

def Piece.Downloads (p : Piece) (x : Word × List Byte) : Prop := DownloadBody x.1 x.2 p.body

def ArmCore.loaded (p : ArmCore) (address : Word) (content : List Byte) : ArmCore :=
  { p with mem := { p.mem with address := store p.mem.address address content } }

theorem length_blank : (List.replicate maxPacketSize (0#8 : Byte)).length = maxPacketSize :=
  List.length_replicate

def Target.connection (t : Target) : Gdb :=
  ⟨t.arm, t.recorded, [], ⟨List.replicate maxPacketSize 0#8, length_blank⟩, 0⟩

section Chunks

variable {h : Platform} {t : Target} {m : Message} {p : Piece}

theorem armException_mem (h : Platform) (p : ArmCore) (exception : ArmException) :
    (armException h p exception).mem = p.mem := by
  cases exception with
  | interrupt =>
    simp only [armException, handleIrq]
    split <;> rfl
  | fastInterrupt =>
    simp only [armException, handleFiq]
    split <;> rfl
  | _ => rfl

theorem download_performed {address : Word} {content : List Byte} (carries : m.Carries p)
    (downloads : p.Downloads (address, content))
    (inside : address.toNat + content.length ≤ t.arm.mem.size) (small : content.length < 2 ^ 32)
    (nonempty : content ≠ []) :
    ∃ t', t.perform h m = .ok t' ∧ t'.arm = t.arm.loaded address content := by
  obtain ⟨following, e, fuel, rfl⟩ := carries
  obtain ⟨g', sent, arm, -⟩ := downloads.stored h e fuel (g := t.connection) inside small nonempty
    p.high p.low following
  obtain ⟨r, answered, link⟩ := request_of_dispatch sent
  have target : g'.target = r.1 := (congrArg Link.target link).trans (answered_fst _ r)
  refine ⟨g'.target, ?_, arm⟩
  rw [target]
  exact congrArg (Except.map Prod.fst) answered

theorem interrupt_performed {m : Message} (other : m.isRequest = false) (t : Target) :
    ∃ t', t.perform h m = .ok t' ∧ t'.arm.mem = t.arm.mem := by
  cases m with
  | request index data e fuel => cases other
  | interrupt exception => exact ⟨_, rfl, armException_mem h t.arm exception⟩
  | _ => exact ⟨t, rfl, rfl⟩

theorem chunks_performed {chunks : List (List Byte)} {tasks : List Message} {pieces : List Piece}
    {base : Word} (carried : List.Forall₂ Message.Carries (tasks.filter Message.isRequest) pieces)
    (downloads : List.Forall₂ Piece.Downloads pieces (chunksAt base chunks))
    (nonempty : ∀ chunk ∈ chunks, chunk ≠ [])
    (inside : base.toNat + chunks.flatten.length ≤ t.arm.mem.size)
    (small : chunks.flatten.length < 2 ^ 32) :
    ∃ t', tasks.foldlM (Target.perform h) t = .ok t' ∧
      t'.arm.mem = ⟨store t.arm.mem.address base chunks.flatten, t.arm.mem.size⟩ := by
  induction tasks generalizing t pieces base chunks with
  | nil =>
    cases carried
    cases chunks with
    | nil => exact ⟨t, rfl, by rw [List.flatten_nil, store_nil]⟩
    | cons chunk chunks => cases downloads
  | cons m tasks ih =>
    cases kind : m.isRequest with
    | false =>
      rw [List.filter_cons_of_neg (Bool.eq_false_iff.mp kind)] at carried
      -- an interrupt leaves the memory alone
      obtain ⟨next, performed, mem⟩ := interrupt_performed (h := h) kind t
      obtain ⟨t', ran, final⟩ := ih (t := next) carried downloads nonempty
        (by rw [mem]; exact inside)
        small
      rw [List.foldlM_cons, performed]
      exact ⟨t', ran, by rw [final, mem]⟩
    | true =>
      rw [List.filter_cons_of_pos kind] at carried
      cases carried with
      | cons carries later =>
        cases chunks with
        | nil => cases downloads
        | cons chunk chunks =>
          cases downloads with
          | cons here rest =>
            rw [List.flatten_cons, List.length_append] at inside small
            obtain ⟨next, performed, arm⟩ := download_performed (h := h) (t := t) carries here
              (by omega) (by omega) (nonempty chunk List.mem_cons_self)
            have size : next.arm.mem.size = t.arm.mem.size := by rw [arm]; rfl
            have behind : (base + BitVec.ofNat 32 chunk.length).toNat ≤
                base.toNat + chunk.length := by
              rw [BitVec.toNat_add, BitVec.toNat_ofNat]
              omega
            obtain ⟨t', ran, final⟩ := ih (t := next) later rest
              (fun other among => nonempty other (List.mem_cons_of_mem _ among)) (by omega)
              (by omega)
            rw [List.foldlM_cons, performed]
            refine ⟨t', ran, ?_⟩
            rw [final, size, List.flatten_cons,
              ← store_append t.arm.mem.address base chunk chunks.flatten (by omega), arm]
            rfl

end Chunks

theorem downloads_spare {pieces : List Piece} {chunks : List (Word × List Byte)}
    (downloads : List.Forall₂ Piece.Downloads pieces chunks) :
    ∀ p ∈ pieces, p.body.head? ≠ some (ch 'k') := by
  intro p inside
  obtain ⟨x, _, _, _, _, _, _, _, body⟩ := forall₂_mem downloads inside
  rw [body, List.head?_cons]
  decide

/-- Over a line with noise, and with interrupts anywhere in between, the chunks of an image that
fits in memory arrive: the image is in memory in one piece, nothing else of the memory has changed,
and a dump of any part of the image is answered with its text. -/
theorem image_downloaded (h : Platform) (base : Word) (chunks : List (List Byte))
    (pieces : List Piece) (rest : List Byte) (sound : ∀ p ∈ pieces, p.Sound) (quiet : Quiet rest)
    (downloads : List.Forall₂ Piece.Downloads pieces (chunksAt base chunks))
    (nonempty : ∀ chunk ∈ chunks, chunk ≠ []) (buffer : Nat → Byte) (calls : List ScannerCall)
    (ran : gdbScanner buffer (conversation pieces rest) = some calls) (events : List Event)
    (order : (events.filterMap Event.call).map Received.call = calls) (g : Gdb)
    (opened : .shutdown ∉ g.calls)
    (inside : base.toNat + chunks.flatten.length ≤ g.arm.mem.size)
    (small : chunks.flatten.length < 2 ^ 32) :
    ∃ g', serve h events g = .ok g' ∧ .shutdown ∉ g'.calls ∧
      load g'.arm.mem.address base chunks.flatten.length = chunks.flatten ∧
      (∀ x : Word, chunks.flatten.length ≤ (x - base).toNat →
        g'.arm.mem.address x = g.arm.mem.address x) ∧
      g'.arm.mem.size = g.arm.mem.size ∧
      ∀ (k n : Nat) (body : List Byte) (high low : Byte) (e : Locals) (fuel : Nat)
        (following : List Byte), k + n ≤ chunks.flatten.length → n ≤ 509 →
        DumpBody (base + BitVec.ofNat 32 k) n body → RightChecksum body high low →
        ∃ read, gdbPacketAnalysis h e fuel g' (packetText body high low ++ 0#8 :: following)
            (packetText body high low).length = .ok read ∧
          read.calls = g'.calls ++ [.write (text "+"),
            .write (frame (((chunks.flatten.drop k).take n).flatMap hex2))] := by
  have carried := requests_carried h sound quiet ran order
  obtain ⟨t, performed, mem⟩ := chunks_performed (t := g.target) carried downloads nonempty
    inside small
  obtain ⟨target, still⟩ := serve_open (scanned_calls ran order)
    (requests_spare h carried (downloads_spare downloads)) (decide_eq_false opened)
  rw [performed] at target
  cases served : serve h events g with
  | error fault =>
    rw [served] at target
    cases target
  | ok g' =>
    rw [served] at target still
    obtain rfl : g'.target = t := Except.ok.inj target
    have cells : g'.arm.mem = ⟨store g.arm.mem.address base chunks.flatten, g.arm.mem.size⟩ := mem
    refine ⟨g', rfl, of_decide_eq_false still, ?_, ?_, by rw [cells], ?_⟩
    · rw [cells, load_store_same _ _ _ (by omega)]
    · intro x outside
      rw [cells]
      exact store_outside _ _ _ _ outside
    · intro k n body high low e fuel following part short dump right
      have start : (base + BitVec.ofNat 32 k).toNat ≤ base.toNat + k := by
        rw [BitVec.toNat_add, BitVec.toNat_ofNat]
        omega
      obtain ⟨read, answered, -, sent⟩ := dump.answered h e fuel (g := gdbSendAck g') (by
        change _ ≤ g'.arm.mem.size
        rw [cells]
        exact Nat.le_trans (by omega) inside) short high low following
      refine ⟨read, (right.analysed h e fuel g' dump.clean following).trans answered, ?_⟩
      have bytes : load (gdbSendAck g').arm.mem.address (base + BitVec.ofNat 32 k) n =
          (chunks.flatten.drop k).take n := by
        change load g'.arm.mem.address _ n = _
        rw [cells, load_store_part _ _ _ part (by omega)]
      rw [sent, bytes]
      simp [gdbSendAck, rioWriten]

def twoChunks : List Piece :=
  [⟨[], text "X100,2:ab", ch '4', ch '4'⟩,
    ⟨packetText (text "X102,2:cd") (ch '0') (ch '0'), text "X102,2:cd", ch '4', ch 'a'⟩]

theorem twoChunks_sound : ∀ p ∈ twoChunks, p.Sound := by
  have damaged : IsPacket (text "X102,2:cd") (ch '0') (ch '0') := ⟨by decide, by decide, by decide⟩
  intro p inside
  simp only [twoChunks, List.mem_cons, List.not_mem_nil, or_false] at inside
  rcases inside with rfl | rfl
  · exact ⟨⟨by decide, by decide, by decide⟩, by decide, quiet_nil⟩
  · refine ⟨⟨by decide, by decide, by decide⟩, by decide, ?_⟩
    intro t member _
    rw [damaged.scanned] at member
    rw [List.mem_singleton.mp member, rightSum_packet]
    decide

theorem twoChunks_downloads : List.Forall₂ Piece.Downloads twoChunks
    (chunksAt 0x100#32 [text "ab", text "cd"]) := by
  have two : HexText (text "2") 2 := ⟨by decide, by decide, by decide⟩
  have plain (a b : Byte) (first : a ≠ ch '$' ∧ a ≠ ch '#' ∧ a ≠ ch '}')
      (second : b ≠ ch '$' ∧ b ≠ ch '#' ∧ b ≠ ch '}') : Escaped [a, b] [a, b] :=
    .plain a first _ _ (.plain b second _ _ .nil)
  refine .cons ⟨text "100", text "2", text "ab", ⟨by decide, by decide, by decide⟩, two,
    plain _ _ (by decide) (by decide), by decide⟩ (.cons ?_ .nil)
  exact ⟨text "102", text "2", text "cd", ⟨by decide, by decide, by decide⟩, two,
    plain _ _ (by decide) (by decide), by decide⟩

theorem image_downloaded_two : ∃ (events : List Event) (g' : Gdb),
    events.filterMap Event.irqByte = [6#8] ∧ serve lp64 events sampleGdb = .ok g' ∧
      load g'.arm.mem.address 0x100#32 4 = text "abcd" := by
  obtain ⟨calls, ran, -⟩ := gdbScanner_packets (fun _ => 0#8) (conversation twoChunks [])
  have order : ((Event.irq 6#8 ::
      calls.map (fun c => Event.received ⟨c, sampleLocals, 0, []⟩)).filterMap Event.call).map
        Received.call = calls := by
    simp [List.filterMap_cons, List.filterMap_map, Function.comp_def, Event.call]
  obtain ⟨g', served, -, back, -⟩ := image_downloaded lp64 0x100#32 [text "ab", text "cd"]
    twoChunks [] twoChunks_sound quiet_nil twoChunks_downloads (by decide) (fun _ => 0#8) calls ran
    _ order sampleGdb (by decide) (by decide) (by decide)
  refine ⟨_, g', ?_, served, back⟩
  simp [List.filterMap_map, Function.comp_def, Event.irqByte]

end ArmSimulator
