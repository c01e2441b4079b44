import ArmSimulator.BlockTransfer
import ArmSimulator.Instruction

/-! Data aborts. A transfer that fails leaves what a handler needs to find and
repeat it, except for two loads of the pc that go on after a failed read. -/
namespace ArmSimulator

def LoadStoreWord (ins : Word) : Prop :=
  instructionGetHandler ins = some .armLoadStore ∨
    instructionGetHandler ins = some .armLoadStoreMiscellaneous ∨
    instructionGetHandler ins = some .armLoadStoreMultiple

/-- The word has the base written back: W of a block transfer, and every form of
a single one but the offset form. -/
def writesBack (ins : Word) : Bool :=
  if instructionGetHandler ins = some .armLoadStoreMultiple then getBit ins 21
  else !(getBit ins 24 && !getBit ins 21)

def transferOffset (p : ArmCore) (ins : Word) : Word :=
  if instructionGetHandler ins = some .armLoadStore then loadStoreOffset p ins
  else miscellaneousOffset p ins

section Contract

variable (h : Platform) (p : ArmCore) (ins : Word)

def singleForm : Option (ArmCore × Word) :=
  let rn := getReg ins 19 16
  if instructionGetHandler ins = some .armLoadStore then
    indexed p ins rn (armReadRegister p rn) (loadStoreOffset p ins)
  else indexed p ins rn (armReadRegister p rn) (miscellaneousOffset p ins)

def based : ArmCore :=
  if instructionGetHandler ins = some .armLoadStoreMultiple then writtenBack p ins
  else ((singleForm p ins).map Prod.fst).getD p

/-- The registers of a transfer with the addresses of their words; of a double
transfer the first. -/
def transferSlots : List (Reg × Word) :=
  if instructionGetHandler ins = some .armLoadStoreMultiple then blockSlots p ins
  else (singleForm p ins).toList.map fun form => (getReg ins 15 12, form.2)

/-- A transfer from `p` has ended as `q` without damage: CPSR, SPSRs and pc are as
they were, and any other register is as the base writeback left it or holds a
word that could be read. -/
structure Undamaged (q : ArmCore) : Prop where
  cpsr : q.cpsr = p.cpsr
  spsr : q.spsr = p.spsr
  pc : q.registersStorage 15 = p.registersStorage 15
  registers : ∀ k, k ≠ 15 → q.registersStorage k = (based p ins).registersStorage k ∨
    ∃ s ∈ transferSlots p ins, (registers (armMode p) s.1 = k ∨ usrStorage s.1 = k) ∧
      outside h p s.2 4 = false ∧ q.registersStorage k = p.wordAt h s.2

/-- The instruction fetched from `p` leaves its state undamaged, and the abort
handler is entered with the address of the instruction plus 8 and the CPSR it
ran under. -/
structure AbortReported (junk : Word) : Prop where
  undamaged : Undamaged h (fetched p) ins (armExecuteInstruction h junk p).1
  link : (armStep h junk p).1.registersStorage (registers Mode.abt Reg.lr) = fetchAddress p + 8#32
  saved : (armStep h junk p).1.spsr Mode.abt = p.cpsr

/-- What the local of LDM(1) holds when the read for the pc fails: the word of the
slot before it, or the initial content. -/
def leftover (junk : Word) : Word :=
  (slots (blockList ins) registersTo14 (blockStart p ins)).foldl (fun _ s => p.wordAt h s.2) junk

/-- The word is no LDM with the pc in its list. If it is one, the CPSR that LDM(3)
restores is the current one or none, the word LDM(1) is left with is the pc with T. -/
def SafeAbort (junk : Word) : Prop :=
  (instructionGetHandler ins = some .armLoadStoreMultiple ∧ getBit ins 20 = true ∧
      getBit ins 15 = true) →
    if getBit ins 22 then armCurrentModeHasSpsr p = true → p.spsr (armMode p) = p.cpsr
    else getBit (leftover h p ins junk) 0 = getBit p.cpsr Psr.t ∧
      leftover h p ins junk &&& 0xFFFFFFFE#32 = p.registersStorage (registers (armMode p) Reg.pc)

end Contract

section Single

variable {h : Platform} {p q : ArmCore} {ins : Word}

theorem singleForm_eq (p : ArmCore) (ins : Word) : singleForm p ins = indexed p ins
    (getReg ins 19 16) (armReadRegister p (getReg ins 19 16)) (transferOffset p ins) := by
  rw [singleForm, transferOffset]
  split <;> rfl

theorem armLoadStore_form (plain : instructionGetHandler ins = some .armLoadStore) (h : Platform)
    (junk : Word) (p : ArmCore) : armLoadStore h junk p ins = afterForm p (singleForm p ins)
      fun q address => loadStoreSwitch h junk q ins (getReg ins 15 12) address := by
  rw [armLoadStore_eq, singleForm_eq, transferOffset, if_pos plain]

theorem armLoadStoreMiscellaneous_form
    (misc : instructionGetHandler ins = some .armLoadStoreMiscellaneous) (h : Platform)
    (junk : Word) (p : ArmCore) :
    armLoadStoreMiscellaneous h junk p ins = afterForm p (singleForm p ins)
      fun q address => miscellaneousSwitch h junk q ins (getReg ins 15 12) address := by
  have notPlain : instructionGetHandler ins ≠ some .armLoadStore := by simp [misc]
  rw [armLoadStoreMiscellaneous_eq, singleForm_eq, transferOffset, if_neg notPlain]

theorem singleForm_keeps (single : instructionGetHandler ins ≠ some .armLoadStoreMultiple)
    (pcKept : ¬(writesBack ins = true ∧ getReg ins 19 16 = Reg.pc)) {address : Word}
    (form : singleForm p ins = some (q, address)) :
    q.cpsr = p.cpsr ∧ q.spsr = p.spsr ∧ q.mem = p.mem ∧
      q.registersStorage 15 = p.registersStorage 15 := by
  have writes : writesBack ins = !(getBit ins 24 && !getBit ins 21) := if_neg single
  rw [singleForm_eq] at form
  rcases indexed_cases p ins address form with rfl | ⟨bits, rfl⟩
  · exact ⟨rfl, rfl, rfl, rfl⟩
  · have notPc : getReg ins 19 16 ≠ Reg.pc := fun isPc => pcKept ⟨by rw [writes, bits]; rfl, isPc⟩
    exact ⟨rfl, rfl, rfl, armWriteRegister_storage_other _ _ _ _ (registers_ne_pc _ _ notPc).symm⟩

theorem transferred_undamaged (single : instructionGetHandler ins ≠ some .armLoadStoreMultiple)
    (pcKept : ¬(writesBack ins = true ∧ getReg ins 19 16 = Reg.pc)) {address : Word}
    (form : singleForm p ins = some (q, address)) {r : ArmCore × ArmException}
    (ends : Transferred h q (getReg ins 15 12) address r) (aborted : r.2 = .dataAbort) :
    Undamaged h p ins r.1 := by
  obtain ⟨cpsr, spsr, mem, pc⟩ := singleForm_keeps single pcKept form
  have base : based p ins = q := by rw [based, if_neg single, form]; rfl
  have slot : (getReg ins 15 12, address) ∈ transferSlots p ins := by
    rw [transferSlots, if_neg single, form]
    exact List.mem_singleton_self _
  have mode : armMode q = armMode p := armMode_congr cpsr
  cases ends with
  | skipped => cases aborted
  | stored => cases aborted
  | loaded => cases aborted
  | loadedPc => cases aborted
  | loadedPair => cases aborted
  | aborted => exact ⟨cpsr, spsr, pc, fun k _ => .inl (by rw [base])⟩
  | storedFirst mem => exact ⟨cpsr, spsr, pc, fun k _ => .inl (by rw [base])⟩
  | loadedFirst notPc inside =>
    refine ⟨cpsr, spsr, ?_, fun k _ => ?_⟩
    · exact (armWriteRegister_storage_other _ _ _ _ (registers_ne_pc _ _ notPc).symm).trans pc
    · by_cases isRd : k = registers (armMode q) (getReg ins 15 12)
      · refine .inr ⟨_, slot, .inl (by rw [isRd, mode]), ?_, ?_⟩
        · rw [← inside, outside, outside, mem]
        · rw [isRd, armWriteRegister_self, ArmCore.wordAt, ArmCore.wordAt, mem, cpsr]
      · exact .inl (by rw [armWriteRegister_storage_other _ _ _ _ isRd, base])

theorem afterForm_undamaged (single : instructionGetHandler ins ≠ some .armLoadStoreMultiple)
    (pcKept : ¬(writesBack ins = true ∧ getReg ins 19 16 = Reg.pc))
    {operation : ArmCore → Word → ArmCore × ArmException}
    (ends : ∀ q address, Transferred h q (getReg ins 15 12) address (operation q address))
    (aborts : (afterForm p (singleForm p ins) operation).2 = .dataAbort) :
    Undamaged h p ins (afterForm p (singleForm p ins) operation).1 := by
  cases form : singleForm p ins with
  | none =>
    rw [form] at aborts
    cases aborts
  | some r =>
    rw [form] at aborts
    exact transferred_undamaged single pcKept form (ends r.1 r.2) aborts

end Single

section Block

variable {h : Platform} {junk : Word} {p : ArmCore} {ins : Word}
  (block : instructionGetHandler ins = some .armLoadStoreMultiple)
  (pcKept : ¬(writesBack ins = true ∧ getReg ins 19 16 = Reg.pc))
include block pcKept

theorem writtenBack_pc : (writtenBack p ins).registersStorage 15 = p.registersStorage 15 := by
  have writes : writesBack ins = getBit ins 21 := if_pos block
  by_cases w : getBit ins 21 = true
  · have notPc : blockRn ins ≠ Reg.pc := fun isPc => pcKept ⟨writes.trans w, isPc⟩
    rw [writtenBack_of_w p ins w]
    exact armWriteRegister_storage_other _ _ _ _ (registers_ne_pc _ _ notPc).symm
  · rw [writtenBack, if_neg w]

theorem stored_undamaged (read : ArmCore → Reg → Word) (is : List Reg) :
    Undamaged h p ins (endTransfer (storeLoop h read (blockList ins) is (writtenBack p ins)
      (blockStart p ins) junk) (blockEnd p ins)).1 := by
  obtain ⟨mem, core⟩ := storeLoop_core h (blockList ins) read is (writtenBack p ins)
    (blockStart p ins) junk
  rw [endTransfer_core, core]
  refine ⟨writtenBack_cpsr p ins, writtenBack_spsr p ins, writtenBack_pc block pcKept, ?_⟩
  intro k _
  exact .inl (by rw [based, if_pos block])

omit block pcKept in
theorem slots14_listed {s : Reg × Word}
    (inside : s ∈ slots (blockList ins) registersTo14 (blockStart p ins)) :
    s ∈ blockSlots p ins ∧ s.1 ≠ Reg.pc := by
  have notPc : ∀ r ∈ registersTo14, r ≠ Reg.pc := by decide
  have listed := List.mem_map_of_mem (f := Prod.fst) inside
  rw [slots_registers] at listed
  refine ⟨?_, notPc s.1 (List.mem_filter.mp listed).1⟩
  rw [blockSlots, slots_to15]
  exact List.mem_append_left _ inside

theorem load_undamaged (h : Platform) (junk : Word) {write : ArmCore → Reg → Word → ArmCore}
    {key : Reg → Fin 31} (writes : ∀ q i v, q.cpsr = p.cpsr →
      write q i v = writeStorage q (key i) v)
    (bank : ∀ i, key i = registers (armMode p) i ∨ key i = usrStorage i)
    (keepsPc : ∀ i, i ≠ Reg.pc → key i ≠ 15) :
    ∃ t done rest, loadLoop h write (blockList ins) registersTo14 (writtenBack p ins)
        (blockStart p ins) junk = t ∧
      Stopped h p.mem (slots (blockList ins) registersTo14 (blockStart p ins)) (blockStart p ins)
        t done rest ∧
      Undamaged h p ins t.core ∧ t.value = done.foldl (fun _ s => p.wordAt h s.2) junk := by
  have word : (writtenBack p ins).wordAt h = p.wordAt h := by
    funext address
    exact wordAt_congr h p address (writtenBack_mem p ins) (by rw [writtenBack_cpsr])
  have writes' : ∀ q i v, q.cpsr = (writtenBack p ins).cpsr →
      write q i v = writeStorage q (key i) v :=
    fun q i v same => writes q i v (same.trans (writtenBack_cpsr p ins))
  obtain ⟨done, rest, stopped, core, value⟩ := loadLoop_stopped h (blockList ins) writes'
    registersTo14 (writtenBack p ins) (blockStart p ins) junk rfl rfl
  rw [writtenBack_mem] at stopped
  rw [word] at core value
  have below : ∀ s ∈ done, s ∈ blockSlots p ins ∧ s.1 ≠ Reg.pc := by
    intro s inside
    apply slots14_listed
    rw [stopped.split]
    exact List.mem_append_left rest inside
  refine ⟨_, done, rest, rfl, stopped, ?_, value⟩
  rw [core]
  refine ⟨writtenBack_cpsr p ins, writtenBack_spsr p ins, ?_, fun k _ => ?_⟩
  · rw [loadSlots_frame key _ fun s inside => keepsPc s.1 (below s inside).2]
    exact writtenBack_pc block pcKept
  · rw [based, if_pos block, transferSlots, if_pos block]
    rcases loadSlots_cases key (p.wordAt h) k with kept | ⟨s, inside, here, read⟩
    · exact .inl kept
    · refine .inr ⟨s, (below s inside).1, ?_, stopped.inside s inside, read⟩
      exact (bank s.1).imp (fun e => e.symm.trans here) (fun e => e.symm.trans here)

omit block pcKept in
theorem armWriteRegister_bank (p : ArmCore) : ∀ q i v, q.cpsr = p.cpsr →
    armWriteRegister q i v = writeStorage q (registers (armMode p) i) v := by
  intro q i v same
  rw [armWriteRegister, armMode_congr same]

omit block pcKept in
theorem blockSlots_pc (withPc : getBit ins 15 = true) :
    blockSlots p ins = slots (blockList ins) registersTo14 (blockStart p ins) ++
      [(Reg.pc, blockStart p ins + BitVec.ofNat 32
        (4 * (slots (blockList ins) registersTo14 (blockStart p ins)).length))] := by
  rw [← getBit_blockList ins (by decide)] at withPc
  exact slots_withPc withPc _

omit block pcKept in
theorem length_slots14 (withPc : getBit ins 15 = true) :
    (slots (blockList ins) registersTo14 (blockStart p ins)).length + 1 = blockCount ins := by
  rw [← length_blockSlots p ins, blockSlots_pc withPc, List.length_append, List.length_singleton]

omit block pcKept in
theorem loop_completed (withPc : getBit ins 15 = true) {t : Transfer}
    {done rest : List (Reg × Word)} {mem : Memory}
    (stopped : Stopped h mem (slots (blockList ins) registersTo14 (blockStart p ins))
      (blockStart p ins) t done rest)
    (reached : t.result = .dataAbort → blockEnd p ins = t.address - 4#32) :
    rest = [] ∧ t.result = .noException ∧
      done = slots (blockList ins) registersTo14 (blockStart p ins) := by
  have split := stopped.split
  cases rest with
  | nil => exact ⟨rfl, stopped.result, by rw [split, List.append_nil]⟩
  | cons s rest =>
    exfalso
    have few : blockCount ins ≤ 16 := numberOfSetBits_le _
    have count := length_slots14 (p := p) withPc
    rw [split, List.length_append, List.length_cons] at count
    have ends := reached stopped.result
    rw [stopped.address, blockEnd, if_neg (List.cons_ne_nil s rest)] at ends
    have offsets := ByteStore.add_ofNat_inj (blockStart p ins) (i := 4 * blockCount ins)
      (j := 4 * (done.length + 1)) (by omega) (by omega) (by bv_omega)
    omega

theorem aborted_at_pc (withPc : getBit ins 15 = true) {pcPart : Transfer → Transfer}
    (skips : ∀ t, t.result = .dataAbort → pcPart t = t)
    (aborts : (endTransfer (pcPart (loadLoop h armWriteRegister (blockList ins) registersTo14
      (writtenBack p ins) (blockStart p ins) junk)) (blockEnd p ins)).2 = .returned .dataAbort) :
    ∃ t, loadLoop h armWriteRegister (blockList ins) registersTo14 (writtenBack p ins)
        (blockStart p ins) junk = t ∧
      t.result = .noException ∧ (pcPart t).result = .dataAbort ∧ Undamaged h p ins t.core ∧
      t.value = leftover h p ins junk := by
  obtain ⟨t, done, rest, loop, stopped, undamaged, value⟩ := load_undamaged block pcKept
    h junk (armWriteRegister_bank p) (fun _ => .inl rfl) (registers_ne_pc (armMode p))
  rw [loop] at aborts
  obtain ⟨ends, result⟩ := endTransfer_returned aborts
  obtain ⟨rfl, finished, rfl⟩ := loop_completed withPc stopped (by
    intro failed
    rwa [skips t failed] at ends)
  exact ⟨t, loop, finished, result, undamaged, value⟩

theorem ldm1_pc_iff (withPc : getBit ins 15 = true)
    (aborts : (ldm1 h junk (writtenBack p ins) (blockList ins) (blockStart p ins)
      (blockEnd p ins)).2 = .returned .dataAbort) :
    Undamaged h p ins (ldm1 h junk (writtenBack p ins) (blockList ins) (blockStart p ins)
        (blockEnd p ins)).1 ↔
      getBit (leftover h p ins junk) 0 = getBit p.cpsr Psr.t ∧
        leftover h p ins junk &&& 0xFFFFFFFE#32 =
          p.registersStorage (registers (armMode p) Reg.pc) := by
  have pcListed : getBit (blockList ins) 15 = true := by rwa [getBit_blockList ins (by decide)]
  have skips : ∀ t, t.result = .dataAbort → ldm1Pc h (blockList ins) t = t := by
    intro t failed
    rw [ldm1Pc, if_neg (by simp [failed])]
  obtain ⟨t, loop, finished, result, undamaged, value⟩ :=
    aborted_at_pc block pcKept withPc skips aborts
  rw [registers_pc, ldm1, loop, endTransfer_core]
  rw [ldm1Pc, if_pos ⟨finished, pcListed⟩] at result ⊢
  have read := armReadWord_failed h t.core t.address result
  rw [value] at read
  simp only [value, read]
  have cpsr := updateFlagT_eq_iff t.core (getBit (leftover h p ins junk) 0)
  rw [undamaged.cpsr] at cpsr
  constructor
  · intro reported
    refine ⟨cpsr.mp reported.cpsr, ?_⟩
    rw [← reported.pc, ← registers_pc (armMode (updateFlagT t.core _)), armWriteRegister_self]
  · rintro ⟨sameT, samePc⟩
    refine ⟨cpsr.mpr sameT, undamaged.spsr, ?_, fun k notPc => ?_⟩
    · rw [← samePc, ← registers_pc (armMode (updateFlagT t.core _)), armWriteRegister_self]
    · rw [armWriteRegister_storage_other _ _ _ _ (by rwa [registers_pc])]
      exact undamaged.registers k notPc

theorem ldm3_iff (withPc : getBit ins 15 = true)
    (aborts : (ldm3 h junk (writtenBack p ins) (blockList ins) (blockStart p ins)
      (blockEnd p ins)).2 = .returned .dataAbort) :
    Undamaged h p ins (ldm3 h junk (writtenBack p ins) (blockList ins) (blockStart p ins)
        (blockEnd p ins)).1 ↔
      (armCurrentModeHasSpsr p = true → p.spsr (armMode p) = p.cpsr) := by
  have skips : ∀ t, t.result = .dataAbort → ldm3Pc h t = t := by
    intro t failed
    rw [ldm3Pc, if_neg (by simp [failed])]
  obtain ⟨t, loop, finished, result, undamaged, _⟩ :=
    aborted_at_pc block pcKept withPc skips aborts
  rw [ldm3, loop, endTransfer_core]
  rw [ldm3Pc, if_pos finished] at result ⊢
  have mode := armMode_congr undamaged.cpsr
  have hasSpsr : armCurrentModeHasSpsr t.core = armCurrentModeHasSpsr p := by
    rw [armCurrentModeHasSpsr, armCurrentModeHasSpsr, mode]
  have spsr : armReadSpsr t.core = p.spsr (armMode p) := by
    rw [armReadSpsr_eq, undamaged.spsr, mode]
  simp only [hasSpsr, spsr] at result ⊢
  simp only [armReadWord_failed h _ t.address result, reduceCtorEq, if_false]
  cases armCurrentModeHasSpsr p with
  | false =>
    simp only [Bool.false_eq_true, false_implies, if_false, iff_true]
    exact undamaged
  | true =>
    simp only [if_true, forall_const]
    exact ⟨fun reported => reported.cpsr,
      fun same => ⟨same, undamaged.spsr, undamaged.pc, undamaged.registers⟩⟩

theorem ldm2_undamaged : Undamaged h p ins (ldm2 h junk (writtenBack p ins) (blockList ins)
    (blockStart p ins) (blockEnd p ins)).1 := by
  have usrStorage_ne_pc : ∀ i, i ≠ Reg.pc → usrStorage i ≠ 15 := by decide
  obtain ⟨t, done, rest, loop, _, undamaged, _⟩ := load_undamaged block pcKept
    h junk (fun q i v _ => (rfl : armWriteUsrRegister q i v = _)) (fun _ => .inr rfl)
    usrStorage_ne_pc
  rwa [ldm2, endTransfer_core, loop]

theorem ldm1_undamaged (withoutPc : getBit ins 15 = false) :
    Undamaged h p ins (ldm1 h junk (writtenBack p ins) (blockList ins) (blockStart p ins)
      (blockEnd p ins)).1 := by
  obtain ⟨t, done, rest, loop, _, undamaged, _⟩ := load_undamaged block pcKept
    h junk (armWriteRegister_bank p) (fun _ => .inl rfl) (registers_ne_pc (armMode p))
  rw [ldm1, endTransfer_core, loop, ldm1Pc, getBit_blockList ins (by decide), withoutPc]
  simpa only [Bool.false_eq_true, and_false, if_false] using undamaged

theorem multiple_undamaged_iff
    (aborts : (armLoadStoreMultiple h junk p ins).2 = .returned .dataAbort) :
    Undamaged h p ins (armLoadStoreMultiple h junk p ins).1 ↔ SafeAbort h p ins junk := by
  rw [armLoadStoreMultiple_eq, multipleSwitch_eq] at aborts ⊢
  unfold SafeAbort
  cases s : getBit ins 22 <;> cases l : getBit ins 20 <;> cases pc : getBit ins 15 <;>
    simp only [s, l, pc, Bool.false_eq_true, if_true, if_false, and_false, and_true, block,
      false_implies, forall_const, iff_true] at aborts ⊢
  case false.false.false => exact stored_undamaged block pcKept _ _
  case false.false.true => exact stored_undamaged block pcKept _ _
  case false.true.false => exact ldm1_undamaged block pcKept pc
  case false.true.true => exact ldm1_pc_iff block pcKept pc aborts
  case true.false.false => exact stored_undamaged block pcKept _ _
  case true.false.true => cases aborts
  case true.true.false => exact ldm2_undamaged block pcKept
  case true.true.true => exact ldm3_iff block pcKept pc aborts

end Block

section Step

variable {h : Platform} {junk : Word} {p : ArmCore} {ins : Word}

theorem abortReported_iff (aborts : (armExecuteInstruction h junk p).2 = .returned .dataAbort) :
    AbortReported h p ins junk ↔
      Undamaged h (fetched p) ins (armExecuteInstruction h junk p).1 := by
  constructor
  · exact AbortReported.undamaged
  · intro undamaged
    have entry : (armStep h junk p).1 = enterException h (armExecuteInstruction h junk p).1
        Mode.abt false
        (armAddressCurrentInstruction (armExecuteInstruction h junk p).1 + 8#32) 0x10#8 := by
      rw [armStep, aborts]
      rfl
    have entered := enterException_entered h (armExecuteInstruction h junk p).1 Mode.abt false
      (armAddressCurrentInstruction (armExecuteInstruction h junk p).1 + 8#32) 0x10#8
    rw [← entry] at entered
    refine ⟨undamaged, ?_, ?_⟩
    · rw [entered.lr, armAddressCurrentInstruction,
        armReadRegister_afterFetch (undamaged.pc.trans fetched_pc), BitVec.sub_add_cancel]
    · rw [entered.spsr, Function.update_self, undamaged.cpsr]
      rfl

theorem armLoadStore_undamaged (plain : instructionGetHandler ins = some .armLoadStore)
    (pcKept : ¬(writesBack ins = true ∧ getReg ins 19 16 = Reg.pc))
    (aborts : (armLoadStore h junk p ins).2 = .dataAbort) :
    Undamaged h p ins (armLoadStore h junk p ins).1 := by
  rw [armLoadStore_form plain] at aborts ⊢
  exact afterForm_undamaged (by simp [plain]) pcKept
    (fun q => loadStoreSwitch_transferred h junk q ins _) aborts

theorem armLoadStoreMiscellaneous_undamaged
    (misc : instructionGetHandler ins = some .armLoadStoreMiscellaneous)
    (pcKept : ¬(writesBack ins = true ∧ getReg ins 19 16 = Reg.pc))
    (aborts : (armLoadStoreMiscellaneous h junk p ins).2 = .dataAbort) :
    Undamaged h p ins (armLoadStoreMiscellaneous h junk p ins).1 := by
  rw [armLoadStoreMiscellaneous_form misc] at aborts ⊢
  exact afterForm_undamaged (by simp [misc]) pcKept
    (fun q => miscellaneousSwitch_transferred h junk q ins _) aborts

theorem executeFetched_aborted {handler : Handler}
    (decoded : instructionGetHandler ins = some handler)
    (aborts : (executeFetched h junk p ins).2 = .returned .dataAbort) :
    executeFetched h junk p ins = handler.run h junk p ins := by
  rw [executeFetched] at aborts ⊢
  cases condition : instructionCheckCondition p ins with
  | passed => rw [decoded]
  | failed =>
    rw [condition] at aborts
    cases aborts
  | undefined =>
    rw [condition] at aborts
    cases aborts

/-- A transfer that ends with a data abort reports the instruction and leaves no
trace of the failed read exactly when it is a safe one. -/
theorem data_abort_reported_iff (h : Platform) (junk : Word) (p : ArmCore) (ins : Word)
    (fetches : Fetches h p ins) (transfer : LoadStoreWord ins)
    (pcKept : ¬(writesBack ins = true ∧ getReg ins 19 16 = Reg.pc))
    (aborts : (armExecuteInstruction h junk p).2 = .returned .dataAbort) :
    AbortReported h p ins junk ↔ SafeAbort h (fetched p) ins junk := by
  rw [abortReported_iff aborts]
  rw [armExecuteInstruction_fetches fetches] at aborts ⊢
  have vacuous (single : instructionGetHandler ins ≠ some .armLoadStoreMultiple) :
      SafeAbort h (fetched p) ins junk := fun block => absurd block.1 single
  rcases transfer with plain | misc | block
  · have run := executeFetched_aborted plain aborts
    rw [run] at aborts ⊢
    exact iff_of_true (armLoadStore_undamaged plain pcKept (Outcome.returned.inj aborts))
      (vacuous (by simp [plain]))
  · have run := executeFetched_aborted misc aborts
    rw [run] at aborts ⊢
    exact iff_of_true (armLoadStoreMiscellaneous_undamaged misc pcKept
      (Outcome.returned.inj aborts)) (vacuous (by simp [misc]))
  · have run := executeFetched_aborted block aborts
    rw [run] at aborts ⊢
    exact multiple_undamaged_iff block pcKept aborts

def lastWordCore (ins : Word) : ArmCore :=
  let mem : Memory := ⟨(repeatedWord ins).address, 0x1000⟩
  armWriteRegister { sampleCore 0x10 0 with mem := mem } 1 0xFFC

theorem data_abort_reported_iff_ldm :
    (armStep lp64 0 (lastWordCore 0xE891000C)).1.registersStorage 19 = 8 := by
  have reported := (data_abort_reported_iff lp64 0 (lastWordCore 0xE891000C) 0xE891000C
    ⟨by decide +kernel, by decide +kernel⟩ (.inr (.inr (by decide))) (by decide)
    (by decide +kernel)).mpr fun withPc => absurd withPc.2.2 (by decide)
  have address : fetchAddress (lastWordCore 0xE891000C) = 0 := by decide +kernel
  have link := reported.link
  rw [address] at link
  exact link

/-- `ldmia r1, {r2, pc}` aborts at the pc and leaves it with the word of r2. -/
theorem ldm_pc_abort_unreported : ¬∀ (junk : Word) (p : ArmCore) (ins : Word),
    Fetches lp64 p ins → LoadStoreWord ins →
    ¬(writesBack ins = true ∧ getReg ins 19 16 = Reg.pc) →
    (armExecuteInstruction lp64 junk p).2 = .returned .dataAbort →
    AbortReported lp64 p ins junk := by
  intro always
  have pc := (always 0 (lastWordCore 0xE8918004) 0xE8918004 ⟨by decide +kernel, by decide +kernel⟩
    (.inr (.inr (by decide))) (by decide) (by decide +kernel)).undamaged.pc
  have kept : (fetched (lastWordCore 0xE8918004)).registersStorage 15 = 4 := by decide +kernel
  have moved : (armExecuteInstruction lp64 0 (lastWordCore 0xE8918004)).1.registersStorage 15 =
      0xE8918004 := by
    decide +kernel
  rw [kept, moved] at pc
  exact absurd pc (by decide)

end Step

end ArmSimulator
