import ArmSimulator.SignedLoads

/-! LDRD and STRD. Each tests the address for itself: a multiple of four is
enough for the load, the store wants a multiple of eight. -/
namespace ArmSimulator

structure EvenPair (rd : Reg) : Prop where
  even : getBit rd 0 = false
  below : rd.toNat < 14

/-- The handler takes `rd` at `address` for UNPREDICTABLE: it does nothing in any state. -/
def LdrdSkips (h : Platform) (rd : Reg) (address : Word) : Prop :=
  ∀ junk p, ldrd h junk p rd address = (p, .noException)

def StrdSkips (h : Platform) (rd : Reg) (address : Word) : Prop :=
  ∀ p, strd h p rd address = (p, .noException)

section Guards

variable {h : Platform} {rd : Reg} {address : Word}

theorem and_three_iff (x : Word) : x &&& 3#32 = 0#32 ↔ x.toNat % 4 = 0 := by
  rw [← BitVec.toNat_inj, BitVec.toNat_and]
  exact iff_of_eq (congrArg (· = 0) (Nat.and_two_pow_sub_one_eq_mod x.toNat 2))

theorem and_four_iff (x : Word) : x &&& 4#32 = 0#32 ↔ x.toNat % 8 < 4 := by
  have mask : (4#32 : Word) = BitVec.twoPow 32 2 := rfl
  rw [mask, BitVec.and_twoPow, BitVec.getLsbD, Nat.testBit_eq_decide_div_mod_eq]
  by_cases bit : x.toNat / 2 ^ 2 % 2 = 1
  · rw [decide_eq_true bit, if_pos rfl]
    exact iff_of_false (by decide) (by omega)
  · rw [decide_eq_false bit, if_neg Bool.false_ne_true]
    exact iff_of_true rfl (by omega)

theorem EvenPair.notLr (pair : EvenPair rd) : rd ≠ Reg.lr := by
  intro isLr
  rw [isLr] at pair
  exact absurd pair.below (by decide)

theorem EvenPair.registers (pair : EvenPair rd) :
    rd ≠ Reg.pc ∧ rd + 1#4 ≠ Reg.pc ∧ rd ≠ rd + 1#4 := by
  have apart : ∀ r : Reg, r ≠ r + 1#4 := by decide
  obtain ⟨first, second⟩ := pair_ne_pc rd pair.even pair.notLr
  exact ⟨first, second, apart rd⟩

theorem ldrd_guard (pair : EvenPair rd) (address : Word) :
    (getBit rd 0 = true ∨ rd = Reg.lr ∨ address &&& 3#32 ≠ 0#32) ↔ address.toNat % 4 ≠ 0 := by
  simp only [pair.even, pair.notLr, Bool.false_eq_true, false_or, ne_eq, and_three_iff]

theorem strd_guard (pair : EvenPair rd) (address : Word) :
    (getBit rd 0 = true ∨ rd = Reg.lr ∨ address &&& 3#32 ≠ 0#32 ∨ address &&& 4#32 ≠ 0#32) ↔
      address.toNat % 8 ≠ 0 := by
  simp only [pair.even, pair.notLr, Bool.false_eq_true, false_or, ne_eq, and_three_iff,
    and_four_iff]
  omega

def emptyCore : ArmCore := { sampleCore 0x10 0 with mem := ⟨fun _ => 0, 0⟩ }

theorem emptyCore_outside (h : Platform) (address : Word) (length : Nat) :
    outside h emptyCore address length = true := by
  rw [outside, outOfBounds, decide_eq_true_iff]
  exact Nat.zero_le _

theorem ldrdSkips_iff (pair : EvenPair rd) : LdrdSkips h rd address ↔ address.toNat % 4 ≠ 0 := by
  rw [← ldrd_guard pair address]
  constructor
  · intro skips
    by_contra valid
    have first : armReadWord h emptyCore address 0#32 = (0#32, .dataAbort) := by
      rw [armReadWord_eq, emptyCore_outside, if_pos rfl]
    have aborts := skips 0#32 emptyCore
    rw [ldrd, if_neg valid, first] at aborts
    cases congrArg Prod.snd aborts
  · intro unpredictable junk p
    rw [ldrd, if_pos unpredictable]

theorem strdSkips_iff (pair : EvenPair rd) : StrdSkips h rd address ↔ address.toNat % 8 ≠ 0 := by
  rw [← strd_guard pair address]
  constructor
  · intro skips
    by_contra valid
    have first : armWriteWord h emptyCore address (armReadRegister emptyCore rd) =
        (emptyCore, .dataAbort) := by
      rw [armWriteWord_eq, emptyCore_outside, if_pos rfl]
    have aborts := skips emptyCore
    rw [strd, if_neg valid, first] at aborts
    cases congrArg Prod.snd aborts
  · intro unpredictable p
    rw [strd, if_pos unpredictable]

end Guards

section Pairs

variable {h : Platform} {junk : Word} {p : ArmCore} {rd : Reg} {address : Word}

def registerPair (p : ArmCore) (rd : Reg) : Word × Word :=
  (armReadRegister p rd, armReadRegister p (rd + 1#4))

def memoryPair (h : Platform) (p : ArmCore) (address : Word) : Word × Word :=
  (p.wordAt h address, p.wordAt h (address + 4#32))

structure PairInside (h : Platform) (p : ArmCore) (address : Word) : Prop where
  first : outside h p address 4 = false
  second : outside h p (address + 4#32) 4 = false

def storePair (h : Platform) (p : ArmCore) (address : Word) (pair : Word × Word) : ArmCore :=
  let be := getBit p.cpsr Psr.e
  { p with mem := (p.mem.put h be address pair.1).put h be (address + 4#32) pair.2 }

theorem next_apart (address : Word) :
    WordApart address (address + 4#32) ∧ WordApart (address + 4#32) address := by
  constructor <;>
  · intro i small
    simp only [BitVec.toNat_sub, BitVec.toNat_add, BitVec.toNat_ofNat]
    omega

theorem memoryPair_storePair (pair : Word × Word) :
    memoryPair h (storePair h p address pair) address = pair := by
  have lawful := lawful_put h (getBit p.cpsr Psr.e)
  refine Prod.ext ?_ ?_
  · exact (lawful.other _ _ _ _ (next_apart address).2).trans (lawful.same _ _ _)
  · exact lawful.same _ _ _

theorem storePair_frame (pair : Word × Word) {x : Word} (apart : 8 ≤ (x - address).toNat) :
    (storePair h p address pair).mem.address x = p.mem.address x := by
  have second : 32 / 8 ≤ (x - (address + 4#32)).toNat := by bv_omega
  have first : 32 / 8 ≤ (x - address).toNat := by omega
  simp only [storePair]
  rw [Memory.put_frame h _ _ _ _ _ second, Memory.put_frame h _ _ _ _ _ first]

theorem PairInside.congr {q : ArmCore} (inside : PairInside h p address)
    (size : q.mem.size = p.mem.size) : PairInside h q address := by
  refine ⟨?_, ?_⟩
  · rw [← inside.first, outside, outside, outOfBounds, outOfBounds, size]
  · rw [← inside.second, outside, outside, outOfBounds, outOfBounds, size]

theorem memoryPair_congr {q : ArmCore} (mem : q.mem = p.mem) (cpsr : q.cpsr = p.cpsr) :
    memoryPair h q address = memoryPair h p address := by
  rw [memoryPair, memoryPair, wordAt_congr h p _ mem (by rw [cpsr]),
    wordAt_congr h p _ mem (by rw [cpsr])]

theorem strd_stores (pair : EvenPair rd) (aligned : address.toNat % 8 = 0)
    (inside : PairInside h p address) :
    strd h p rd address = (storePair h p address (registerPair p rd), .noException) := by
  have valid := mt (strd_guard pair address).mp (not_not.mpr aligned)
  have second : outside h
      { p with mem := p.mem.put h (getBit p.cpsr Psr.e) address (armReadRegister p rd) }
      (address + 4#32) 4 = false := inside.second
  rw [strd, if_neg valid, armWriteWord_eq, inside.first]
  simp only [Bool.false_eq_true, if_false, if_true]
  rw [armWriteWord_eq, second]
  rfl

theorem ldrd_loads (junk : Word) (pair : EvenPair rd) (aligned : address.toNat % 4 = 0)
    (inside : PairInside h p address) : ∃ q, ldrd h junk p rd address = (q, .noException) ∧
      registerPair q rd = memoryPair h p address ∧ q.mem = p.mem := by
  have valid := mt (ldrd_guard pair address).mp (not_not.mpr aligned)
  obtain ⟨first, second, other⟩ := pair.registers
  have inside' : outside h (armWriteRegister p rd (p.wordAt h address)) (address + 4#32) 4 =
      false :=
    inside.second
  rw [ldrd, if_neg valid, armReadWord_eq, inside.first]
  simp only [Bool.false_eq_true, if_false, if_true]
  rw [armReadWord_eq, inside']
  refine ⟨_, rfl, Prod.ext ?_ ?_, rfl⟩
  · simp only [registerPair, memoryPair]
    rw [armReadRegister_armWriteRegister_other _ _ _ _ other,
      armReadRegister_armWriteRegister_self _ _ _ first]
  · simp only [registerPair, memoryPair]
    rw [armReadRegister_armWriteRegister_self _ _ _ second]
    rfl

end Pairs

section Executed

variable {h : Platform} {junk : Word} {p : ArmCore} {ins address : Word}

theorem MiscellaneousAt.run_strd (executed : MiscellaneousAt h p 3#32 ins address) :
    armExecuteInstruction h junk p =
      returning (strd h (based (fetched p) ins) (getReg ins 15 12) address) := by
  simp only [executed.run_miscellaneous, miscellaneousSwitch, executed.operation]

theorem MiscellaneousAt.run_ldrd (executed : MiscellaneousAt h p 2#32 ins address) :
    armExecuteInstruction h junk p =
      returning (ldrd h junk (based (fetched p) ins) (getReg ins 15 12) address) := by
  simp only [executed.run_miscellaneous, miscellaneousSwitch, executed.operation]

def heldPair (p : ArmCore) (ins : Word) : Word × Word :=
  registerPair (based (fetched p) ins) (getReg ins 15 12)

/-- `r` holds the pair in `rd`, and outside the eight bytes at `address` the memory of `p`. -/
structure GivenBack (p : ArmCore) (address : Word) (pair : Word × Word) (rd : Reg) (r : ArmCore) :
    Prop where
  registers : registerPair r rd = pair
  memory : ∀ x, 8 ≤ (x - address).toNat → r.mem.address x = p.mem.address x

/-- At a multiple of eight always; at another multiple of four, where only the load
takes place, if the memory holds the pair already; elsewhere if the registers do. -/
def GivesBack (h : Platform) (p : ArmCore) (strd ldrd address : Word) : Prop :=
  address.toNat % 8 = 0 ∨
    address.toNat % 8 = 4 ∧ memoryPair h p address = heldPair p strd ∨
    address.toNat % 4 ≠ 0 ∧ heldPair (based (fetched p) strd) ldrd = heldPair p strd

theorem executed_strd (junk : Word) (executed : MiscellaneousAt h p 3#32 ins address)
    (pair : EvenPair (getReg ins 15 12)) (inside : PairInside h p address) :
    (armExecuteInstruction h junk p).1 = if address.toNat % 8 = 0 then
      storePair h (based (fetched p) ins) address (heldPair p ins) else based (fetched p) ins := by
  rw [executed.run_strd]
  split
  · rename_i aligned
    rw [strd_stores pair aligned (inside.congr (by rw [(executed.core (by decide)).1]))]
    rfl
  · rename_i unaligned
    rw [(strdSkips_iff pair).mpr unaligned]
    rfl

theorem executed_ldrd (junk : Word) (executed : MiscellaneousAt h p 2#32 ins address)
    (pair : EvenPair (getReg ins 15 12)) (inside : PairInside h p address) :
    (armExecuteInstruction h junk p).1.mem = p.mem ∧
      registerPair (armExecuteInstruction h junk p).1 (getReg ins 15 12) =
        if address.toNat % 4 = 0 then memoryPair h p address else heldPair p ins := by
  obtain ⟨mem, cpsr⟩ := executed.core (by decide)
  rw [executed.run_ldrd]
  split
  · rename_i aligned
    obtain ⟨q, loads, words, kept⟩ := ldrd_loads junk pair aligned
      (inside.congr (q := based (fetched p) ins) (by rw [mem]))
    rw [loads]
    exact ⟨kept.trans mem, words.trans (memoryPair_congr mem cpsr)⟩
  · rename_i unaligned
    rw [(ldrdSkips_iff pair).mpr unaligned]
    exact ⟨mem, rfl⟩

variable {q : ArmCore} {strd ldrd : Word}

theorem strd_leaves (junk : Word) (stored : MiscellaneousAt h p 3#32 strd address)
    (pair : EvenPair (getReg strd 15 12)) (inside : PairInside h p address)
    (after : q = (armExecuteInstruction h junk p).1) :
    PairInside h q address ∧
    (∀ x, 8 ≤ (x - address).toNat → q.mem.address x = p.mem.address x) ∧
    memoryPair h q address =
      if address.toNat % 8 = 0 then heldPair p strd else memoryPair h p address := by
  obtain ⟨mem, cpsr⟩ := stored.core (by decide)
  rw [after, executed_strd junk stored pair inside]
  split
  · refine ⟨inside.congr ?_, fun x apart => ?_, memoryPair_storePair _⟩
    · rw [← mem]
      rfl
    · rw [storePair_frame _ apart, mem]
  · exact ⟨inside.congr (by rw [mem]), fun x _ => by rw [mem], memoryPair_congr mem cpsr⟩

theorem strd_ldrd_words (junk junk' : Word) (stored : MiscellaneousAt h p 3#32 strd address)
    (pair : EvenPair (getReg strd 15 12)) (inside : PairInside h p address)
    (after : q = (armExecuteInstruction h junk p).1)
    (loaded : MiscellaneousAt h q 2#32 ldrd address) (pair' : EvenPair (getReg ldrd 15 12)) :
    registerPair (armExecuteInstruction h junk' q).1 (getReg ldrd 15 12) =
      if address.toNat % 8 = 0 then heldPair p strd
      else if address.toNat % 4 = 0 then memoryPair h p address
      else heldPair (based (fetched p) strd) ldrd := by
  obtain ⟨inside', _, found⟩ := strd_leaves junk stored pair inside after
  rw [(executed_ldrd junk' loaded pair' inside').2, found]
  by_cases both : address.toNat % 8 = 0
  · rw [if_pos both, if_pos both, if_pos (by omega)]
  · rw [if_neg both, if_neg both, after, executed_strd junk stored pair inside, if_neg both]

end Executed

/-- LDRD and STRD take the same addresses but for those that are four more than
a multiple of eight, where only the load takes place; and they give each other's
words back exactly when both take place, or the words are there already. -/
theorem double_transfers_agree_iff (h : Platform) :
    (∀ (rd : Reg) (address : Word), EvenPair rd →
      ((LdrdSkips h rd address ↔ StrdSkips h rd address) ↔ address.toNat % 8 ≠ 4)) ∧
    ∀ (junk junk' : Word) (p q : ArmCore) (strd ldrd address : Word),
      MiscellaneousAt h p 3#32 strd address → EvenPair (getReg strd 15 12) →
      PairInside h p address → q = (armExecuteInstruction h junk p).1 →
      MiscellaneousAt h q 2#32 ldrd address → EvenPair (getReg ldrd 15 12) →
      (GivenBack p address (heldPair p strd) (getReg ldrd 15 12)
          (armExecuteInstruction h junk' q).1 ↔
        GivesBack h p strd ldrd address) := by
  constructor
  · intro rd address pair
    rw [ldrdSkips_iff pair, strdSkips_iff pair]
    omega
  · intro junk junk' p q strd ldrd address stored pair inside after loaded pair'
    obtain ⟨inside', around, _⟩ := strd_leaves junk stored pair inside after
    have kept := (executed_ldrd junk' loaded pair' inside').1
    have words := strd_ldrd_words junk junk' stored pair inside after loaded pair'
    -- nothing but the pair decides, since no other byte changes
    have given : GivenBack p address (heldPair p strd) (getReg ldrd 15 12)
        (armExecuteInstruction h junk' q).1 ↔
        registerPair (armExecuteInstruction h junk' q).1 (getReg ldrd 15 12) = heldPair p strd :=
      ⟨fun back => back.registers, fun back => ⟨back, fun x apart => by rw [kept, around x apart]⟩⟩
    rw [given, words, GivesBack]
    by_cases both : address.toNat % 8 = 0
    · simp only [both, if_true, true_or]
    · by_cases loads : address.toNat % 4 = 0
      · have four : address.toNat % 8 = 4 := by omega
        simp [four, loads]
      · have four : address.toNat % 8 ≠ 4 := by omega
        simp [both, loads, four]

def pairCore (base : Word) : ArmCore where
  registersStorage := fun k =>
    if k = usrStorage 0#4 then 0x11111111#32
    else if k = usrStorage 1#4 then 0x22222222#32
    else if k = usrStorage 2#4 then base
    else 0#32
  spsr := fun _ => 0#32
  cpsr := 0x10#32
  cycleCount := 0#32
  mem := (repeatedWord 0xE1C200F0).put lp64 false 4#32 0xE1C240D0#32

theorem double_transfers_agree_pair : registerPair (armExecuteInstruction lp64 0
    (armExecuteInstruction lp64 0 (pairCore 0x100)).1).1 4 = (0x11111111, 0x22222222) := by
  have held : heldPair (pairCore 0x100) 0xE1C200F0 = (0x11111111, 0x22222222) := by decide +kernel
  rw [← held]
  exact (((double_transfers_agree_iff lp64).2 0 0 (pairCore 0x100) _ 0xE1C200F0 0xE1C240D0 0x100
    ⟨⟨⟨by decide +kernel, by decide +kernel⟩, by decide, by decide, by decide⟩, by decide⟩
    ⟨by decide, by decide⟩ ⟨by decide +kernel, by decide +kernel⟩ rfl
    ⟨⟨⟨by decide +kernel, by decide +kernel⟩, by decide +kernel, by decide, by decide +kernel⟩,
      by decide⟩ ⟨by decide, by decide⟩).mpr (.inl (by decide))).registers

theorem double_transfers_disagree :
    (¬ ∀ (rd : Reg) (address : Word), EvenPair rd →
      (LdrdSkips lp64 rd address ↔ StrdSkips lp64 rd address)) ∧
    ¬ ∀ (junk junk' : Word) (p q : ArmCore) (strd ldrd address : Word),
      MiscellaneousAt lp64 p 3#32 strd address → EvenPair (getReg strd 15 12) →
      PairInside lp64 p address → q = (armExecuteInstruction lp64 junk p).1 →
      MiscellaneousAt lp64 q 2#32 ldrd address → EvenPair (getReg ldrd 15 12) →
      GivenBack p address (heldPair p strd) (getReg ldrd 15 12)
        (armExecuteInstruction lp64 junk' q).1 := by
  constructor
  · intro agree
    have pair : EvenPair 0#4 := ⟨by decide, by decide⟩
    have both := agree 0#4 0x104#32 pair
    rw [ldrdSkips_iff pair, strdSkips_iff pair] at both
    exact absurd (both.mpr (by decide)) (by decide)
  · intro given
    have registers := (given 0 0 (pairCore 0x104) _ 0xE1C200F0 0xE1C240D0 0x104
      ⟨⟨⟨by decide +kernel, by decide +kernel⟩, by decide, by decide, by decide⟩, by decide⟩
      ⟨by decide, by decide⟩ ⟨by decide +kernel, by decide +kernel⟩ rfl
      ⟨⟨⟨by decide +kernel, by decide +kernel⟩, by decide +kernel, by decide, by decide +kernel⟩,
        by decide⟩ ⟨by decide, by decide⟩).registers
    exact absurd registers (by decide +kernel)

end ArmSimulator
