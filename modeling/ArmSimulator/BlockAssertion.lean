import ArmSimulator.DataAbort

/-! The assertion at the end of a block transfer. The end address is computed
from the whole list, so it is met when the loop stops at the last slot or after
it, and an abort at any earlier one ends the simulator. -/
namespace ArmSimulator

/-- The slots that the selected handler walks; with S the pc is never stored. -/
def blockTransfers (p : ArmCore) (ins : Word) : List (Reg × Word) :=
  if getBit ins 22 ∧ ¬getBit ins 20 ∧ getBit ins 15 then [] else blockSlots p ins

/-- The assertion holds, and a word outside the memory ends as a data abort. -/
structure EndsNormally (h : Platform) (mem : Memory) (all : List (Reg × Word))
    (ends : Outcome) : Prop where
  asserted : ends ≠ .assertFailed
  reported : (∃ s ∈ all, outOfBounds h mem s.2 4 = true) → ends = .returned .dataAbort

namespace Stopped

variable {h : Platform} {mem : Memory} {all done rest : List (Reg × Word)} {address : Word}
  {t : Transfer}

theorem last_iff (stopped : Stopped h mem all address t done rest) :
    rest.length ≤ 1 ↔ ∀ s ∈ all.dropLast, outOfBounds h mem s.2 4 = false := by
  rw [stopped.split]
  cases rest with
  | nil =>
    rw [List.append_nil]
    exact iff_of_true (Nat.zero_le 1) fun s early => stopped.inside s (List.dropLast_subset _ early)
  | cons s rest =>
    have failed := stopped.first s rfl
    rw [List.dropLast_append_of_ne_nil (List.cons_ne_nil s rest)]
    cases rest with
    | nil =>
      rw [List.dropLast_singleton, List.append_nil]
      exact iff_of_true (Nat.le_refl 1) stopped.inside
    | cons s' rest =>
      rw [List.dropLast_cons_cons]
      refine iff_of_false (by simp) fun fits => ?_
      rw [fits s (List.mem_append_right _ List.mem_cons_self)] at failed
      contradiction

theorem end_iff (stopped : Stopped h mem all address t done rest) (short : all.length ≤ 16) :
    address + BitVec.ofNat 32 (4 * all.length) - 4#32 = t.address - 4#32 ↔ rest.length ≤ 1 := by
  have length := congrArg List.length stopped.split
  rw [List.length_append] at length
  have counted : all.length = done.length + (if rest = [] then 0 else 1) ↔ rest.length ≤ 1 := by
    cases rest with
    | nil => exact iff_of_true length (Nat.zero_le 1)
    | cons s rest =>
      rw [if_neg (List.cons_ne_nil s rest), length]
      simp only [List.length_cons]
      omega
  rw [BitVec.sub_left_inj, stopped.address, ← counted]
  constructor
  · intro ends
    have offsets := ByteStore.add_ofNat_inj address (by omega) (by split <;> omega) ends
    exact Nat.eq_of_mul_eq_mul_left (by decide) offsets
  · intro ends
    rw [ends]

theorem failed_iff (stopped : Stopped h mem all address t done rest) :
    (∃ s ∈ all, outOfBounds h mem s.2 4 = true) ↔ rest ≠ [] := by
  rw [stopped.split]
  constructor
  · rintro ⟨s, listed, failed⟩ rfl
    rw [List.append_nil] at listed
    rw [stopped.inside s listed] at failed
    contradiction
  · intro nonempty
    obtain ⟨s, rest, rfl⟩ := List.exists_cons_of_ne_nil nonempty
    exact ⟨s, List.mem_append_right _ List.mem_cons_self, stopped.first s rfl⟩

theorem endsNormally_iff (stopped : Stopped h mem all address t done rest)
    (short : all.length ≤ 16) :
    EndsNormally h mem all
      (endTransfer t (address + BitVec.ofNat 32 (4 * all.length) - 4#32)).2 ↔
    ∀ s ∈ all.dropLast, outOfBounds h mem s.2 4 = false := by
  rw [← stopped.last_iff, ← stopped.end_iff short]
  constructor
  · intro ends
    -- an end address that is not met fails the assertion
    by_contra missed
    rw [endTransfer, if_neg missed] at ends
    exact ends.asserted rfl
  · intro met
    rw [endTransfer_of_end met]
    refine ⟨nofun, fun failed => ?_⟩
    rw [stopped.result, if_neg (stopped.failed_iff.mp failed)]

theorem append (stopped : Stopped h mem all address t done rest) (short : rest ≠ [])
    (last : Reg × Word) : Stopped h mem (all ++ [last]) address t done (rest ++ [last]) := by
  obtain ⟨s, rest, rfl⟩ := List.exists_cons_of_ne_nil short
  have result := stopped.result
  have ends := stopped.address
  rw [if_neg short] at result ends
  refine ⟨?_, stopped.inside, stopped.first, ?_, ?_⟩
  · rw [stopped.split, List.append_assoc]
  · rw [List.cons_append, if_neg (List.cons_ne_nil _ _), result]
  · rw [List.cons_append, if_neg (List.cons_ne_nil _ _), ends]

theorem read_last (stopped : Stopped h mem all address t all []) (last : Reg × Word)
    (next : last.2 = address + BitVec.ofNat 32 (4 * all.length)) {t' : Transfer}
    (moved : t'.address = last.2 + 4#32)
    (outcome : t'.result = if outOfBounds h mem last.2 4 then .dataAbort else .noException) :
    ∃ done rest, Stopped h mem (all ++ [last]) address t' done rest := by
  have inside := stopped.inside
  rw [next, BitVec.add_assoc, ← BitVec.ofNat_add, ← Nat.mul_succ] at moved
  cases bounds : outOfBounds h mem last.2 4 with
  | false =>
    refine ⟨all ++ [last], [], (List.append_nil _).symm, ?_, nofun, ?_, ?_⟩
    · rw [List.forall_mem_append, List.forall_mem_singleton]
      exact ⟨inside, bounds⟩
    · rw [outcome, bounds, if_pos rfl, if_neg Bool.false_ne_true]
    · rw [moved, if_pos rfl, Nat.add_zero, List.length_append, List.length_singleton]
  | true =>
    refine ⟨all, [last], rfl, inside, ?_, ?_, ?_⟩
    · intro s first
      rwa [← Option.some.inj first]
    · rw [outcome, bounds, if_pos rfl, if_neg (List.cons_ne_nil _ _)]
    · rw [moved, if_neg (List.cons_ne_nil _ _)]

theorem snoc (stopped : Stopped h mem all address t done rest) (last : Reg × Word)
    (next : last.2 = address + BitVec.ofNat 32 (4 * all.length)) {t' : Transfer}
    (skipped : t.result = .dataAbort → t' = t)
    (read : t.result = .noException → t'.address = t.address + 4#32 ∧ t'.result =
      if outOfBounds h mem t.address 4 then .dataAbort else .noException) :
    ∃ done rest, Stopped h mem (all ++ [last]) address t' done rest := by
  have result := stopped.result
  have ends := stopped.address
  cases rest with
  | cons s rest =>
    rw [if_neg (List.cons_ne_nil s rest)] at result
    rw [skipped result]
    exact ⟨_, _, stopped.append (List.cons_ne_nil s rest) last⟩
  | nil =>
    obtain rfl : done = all := by rw [stopped.split, List.append_nil]
    rw [if_pos rfl] at result ends
    rw [Nat.add_zero, ← next] at ends
    rw [ends] at read
    obtain ⟨moved, outcome⟩ := read result
    exact stopped.read_last last next moved outcome

end Stopped

section Handlers

variable {h : Platform} {junk : Word} {p : ArmCore} {ins : Word}

theorem block_endsNormally_iff {mem : Memory} {done rest : List (Reg × Word)} {t : Transfer}
    (stopped : Stopped h mem (blockSlots p ins) (blockStart p ins) t done rest)
    (same : mem = p.mem) :
    EndsNormally h p.mem (blockSlots p ins) (endTransfer t (blockEnd p ins)).2 ↔
      ∀ s ∈ (blockSlots p ins).dropLast, outside h p s.2 4 = false := by
  subst same
  have count := length_blockSlots p ins
  have ends := stopped.endsNormally_iff (count ▸ numberOfSetBits_le _)
  rwa [count] at ends

theorem store_endsNormally_iff {read : ArmCore → Reg → Word} (value : Reg → Word)
    (reads : ∀ mem i, read { writtenBack p ins with mem := mem } i = value i) :
    EndsNormally h p.mem (blockSlots p ins) (endTransfer (storeLoop h read (blockList ins)
      registersTo15 (writtenBack p ins) (blockStart p ins) junk) (blockEnd p ins)).2 ↔
      ∀ s ∈ (blockSlots p ins).dropLast, outside h p s.2 4 = false := by
  obtain ⟨done, rest, stopped, _⟩ := storeLoop_stopped h (blockList ins) reads registersTo15
    (writtenBack p ins).mem (blockStart p ins) junk rfl
  exact block_endsNormally_iff stopped (writtenBack_mem p ins)

theorem load_endsNormally_iff {write : ArmCore → Reg → Word → ArmCore} {key : Reg → Fin 31}
    (writes : ∀ q i v, q.cpsr = (writtenBack p ins).cpsr → write q i v = writeStorage q (key i) v)
    (pcPart : Transfer → Transfer) (withoutPc : getBit ins 15 = false → ∀ t, pcPart t = t)
    (skips : ∀ t, t.result = .dataAbort → pcPart t = t)
    (reads : getBit ins 15 = true → ∀ t, t.core.mem = p.mem → t.result = .noException →
      (pcPart t).address = t.address + 4#32 ∧ (pcPart t).result =
        if outOfBounds h p.mem t.address 4 then .dataAbort else .noException) :
    EndsNormally h p.mem (blockSlots p ins) (endTransfer (pcPart (loadLoop h write (blockList ins)
      registersTo14 (writtenBack p ins) (blockStart p ins) junk)) (blockEnd p ins)).2 ↔
      ∀ s ∈ (blockSlots p ins).dropLast, outside h p s.2 4 = false := by
  obtain ⟨done, rest, stopped, core, _⟩ := loadLoop_stopped h (blockList ins) writes registersTo14
    (writtenBack p ins) (blockStart p ins) junk rfl rfl
  cases pc : getBit ins 15 with
  | false =>
    have unlisted : getBit (blockList ins) 15 = false := by rwa [getBit_blockList ins (by decide)]
    rw [← slots_withoutPc unlisted] at stopped
    rw [withoutPc pc]
    exact block_endsNormally_iff stopped (writtenBack_mem p ins)
  | true =>
    have mem : (loadLoop h write (blockList ins) registersTo14 (writtenBack p ins)
        (blockStart p ins) junk).core.mem = p.mem := by
      rw [core]
      exact writtenBack_mem p ins
    rw [writtenBack_mem] at stopped
    obtain ⟨done', rest', stopped'⟩ := stopped.snoc (Reg.pc, _) rfl (skips _) (reads pc _ mem)
    rw [← blockSlots_pc pc] at stopped'
    exact block_endsNormally_iff stopped' rfl

theorem ldm1_endsNormally_iff :
    EndsNormally h p.mem (blockSlots p ins) (ldm1 h junk (writtenBack p ins) (blockList ins)
      (blockStart p ins) (blockEnd p ins)).2 ↔
      ∀ s ∈ (blockSlots p ins).dropLast, outside h p s.2 4 = false := by
  apply load_endsNormally_iff (armWriteRegister_bank (writtenBack p ins))
    (ldm1Pc h (blockList ins))
  · intro pc t
    rw [ldm1Pc, getBit_blockList ins (by decide), pc, if_neg (by simp)]
  · intro t failed
    rw [ldm1Pc, if_neg (by simp [failed])]
  · intro pc t mem normal
    rw [ldm1Pc, getBit_blockList ins (by decide), if_pos ⟨normal, pc⟩]
    simp only [armReadWord_eq, outside, mem]
    split <;> exact ⟨trivial, rfl⟩

theorem ldm3_endsNormally_iff (pc : getBit ins 15 = true) :
    EndsNormally h p.mem (blockSlots p ins) (ldm3 h junk (writtenBack p ins) (blockList ins)
      (blockStart p ins) (blockEnd p ins)).2 ↔
      ∀ s ∈ (blockSlots p ins).dropLast, outside h p s.2 4 = false := by
  apply load_endsNormally_iff (armWriteRegister_bank (writtenBack p ins)) (ldm3Pc h)
  · intro withoutPc
    rw [pc] at withoutPc
    contradiction
  · intro t failed
    rw [ldm3Pc, if_neg (by simp [failed])]
  · intro _ t mem normal
    have kept : (if armCurrentModeHasSpsr t.core then armWriteCpsr t.core (armReadSpsr t.core)
        else t.core).mem = p.mem := by
      split <;> exact mem
    rw [ldm3Pc, if_pos normal]
    simp only [armReadWord_eq, outside, kept]
    split <;> exact ⟨trivial, rfl⟩

theorem ldm2_endsNormally_iff (withoutPc : getBit ins 15 = false) :
    EndsNormally h p.mem (blockSlots p ins) (ldm2 h junk (writtenBack p ins) (blockList ins)
      (blockStart p ins) (blockEnd p ins)).2 ↔
      ∀ s ∈ (blockSlots p ins).dropLast, outside h p s.2 4 = false := by
  apply load_endsNormally_iff (fun q i v _ => (rfl : armWriteUsrRegister q i v = _)) id
    (fun _ _ => rfl) (fun _ _ => rfl)
  intro pc
  rw [pc] at withoutPc
  contradiction

end Handlers

/-- A block transfer ends without its assertion failing, and reports a word
outside the memory, exactly when only the word of its last slot can be outside. -/
theorem block_assertion_iff (h : Platform) (junk : Word) (p : ArmCore) (ins : Word) :
    EndsNormally h p.mem (blockTransfers p ins) (armLoadStoreMultiple h junk p ins).2 ↔
      ∀ s ∈ (blockTransfers p ins).dropLast, outside h p s.2 4 = false := by
  rw [armLoadStoreMultiple_eq, multipleSwitch_eq, blockTransfers]
  cases s : getBit ins 22 <;> cases l : getBit ins 20 <;> cases pc : getBit ins 15 <;>
    simp only [Bool.false_eq_true, not_false_eq_true, not_true_eq_false, and_false,
      and_true, if_true, if_false]
  case false.false.false | false.false.true =>
    exact store_endsNormally_iff (armReadRegister (writtenBack p ins)) fun _ _ => rfl
  case false.true.false | false.true.true => exact ldm1_endsNormally_iff
  case true.false.false =>
    exact store_endsNormally_iff (armReadUsrRegister (writtenBack p ins)) fun _ _ => rfl
  case true.false.true => exact iff_of_true ⟨nofun, by simp⟩ (by simp)
  case true.true.false => exact ldm2_endsNormally_iff pc
  case true.true.true => exact ldm3_endsNormally_iff pc

/-- `ldmia r1, {r2, r3}` with both words past the end of the memory. -/
theorem block_assertion_fails : ¬ ∀ (h : Platform) (junk : Word) (p : ArmCore) (ins : Word),
    EndsNormally h p.mem (blockTransfers p ins) (armLoadStoreMultiple h junk p ins).2 := by
  intro ends
  have asserted := (ends lp64 0 (armWriteRegister (lastWordCore 0) 1 0x1000) 0xE891000C).asserted
  exact asserted (by decide +kernel)

end ArmSimulator
