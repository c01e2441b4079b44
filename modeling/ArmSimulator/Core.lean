import ArmSimulator.Memory

/-! arm_constants.h and arm_core.c: the processor state, the register banks and
the accesses to registers and memory. Tracing has no effect on the state and is
left out. -/
namespace ArmSimulator

abbrev Mode := BitVec 5
abbrev Reg := BitVec 4

namespace Mode

abbrev usr : Mode := 0x10#5
abbrev fiq : Mode := 0x11#5
abbrev irq : Mode := 0x12#5
abbrev svc : Mode := 0x13#5
abbrev abt : Mode := 0x17#5
abbrev und : Mode := 0x1b#5
abbrev sys : Mode := 0x1f#5

end Mode

namespace Reg

abbrev sp : Reg := 13#4
abbrev lr : Reg := 14#4
abbrev pc : Reg := 15#4

end Reg

/- The CPSR bits N, Z, C, V, E, I, F and T. -/
namespace Psr

abbrev n : Nat := 31
abbrev z : Nat := 30
abbrev c : Nat := 29
abbrev v : Nat := 28
abbrev e : Nat := 9
abbrev i : Nat := 7
abbrev f : Nat := 6
abbrev t : Nat := 5

end Psr

inductive ArmException where
  | noException
  | reset
  | undefinedInstruction
  | softwareInterrupt
  | prefetchAbort
  | dataAbort
  | interrupt
  | fastInterrupt
deriving DecidableEq, Repr

/-- `p->registers`, the table of pointers into `registers_storage` that
`arm_create` fills and nothing changes afterwards. -/
def registers (mode : Mode) (reg : Reg) : Fin 31 :=
  if mode = Mode.svc ∧ reg = Reg.sp then 16
  else if mode = Mode.svc ∧ reg = Reg.lr then 17
  else if mode = Mode.abt ∧ reg = Reg.sp then 18
  else if mode = Mode.abt ∧ reg = Reg.lr then 19
  else if mode = Mode.und ∧ reg = Reg.sp then 20
  else if mode = Mode.und ∧ reg = Reg.lr then 21
  else if mode = Mode.irq ∧ reg = Reg.sp then 22
  else if mode = Mode.irq ∧ reg = Reg.lr then 23
  else if mode = Mode.fiq ∧ 8 ≤ reg ∧ reg < 15 then Fin.ofNat 31 (reg.toNat + 16)
  else Fin.ofNat 31 reg.toNat

/-- `registers_storage[reg]`, the register as user mode sees it. -/
def usrStorage (reg : Reg) : Fin 31 := Fin.ofNat 31 reg.toNat

structure ArmCore where
  registersStorage : Fin 31 → Word
  spsr : Mode → Word
  cpsr : Word
  cycleCount : Word
  mem : Memory

def armMode (p : ArmCore) : Mode := (p.cpsr &&& 0x1f#32).setWidth 5

def armCurrentModeHasSpsr (p : ArmCore) : Bool :=
  armMode p != Mode.usr && armMode p != Mode.sys

def armInAPrivilegedMode (p : ArmCore) : Bool := armMode p != Mode.usr

/-- The value read for the pc is one instruction ahead of the stored one. -/
def pcAhead (reg : Reg) (value : Word) : Word :=
  if reg = Reg.pc then (value + 4#32) &&& 0xFFFFFFFD#32 else value

def armReadRegister (p : ArmCore) (reg : Reg) : Word :=
  pcAhead reg (p.registersStorage (registers (armMode p) reg))

def armReadUsrRegister (p : ArmCore) (reg : Reg) : Word :=
  pcAhead reg (p.registersStorage (usrStorage reg))

def armReadCpsr (p : ArmCore) : Word := p.cpsr

def armReadSpsr (p : ArmCore) : Word := p.spsr (armMode p)

def writeStorage (p : ArmCore) (k : Fin 31) (value : Word) : ArmCore :=
  { p with registersStorage := Function.update p.registersStorage k value }

def armWriteRegister (p : ArmCore) (reg : Reg) (value : Word) : ArmCore :=
  writeStorage p (registers (armMode p) reg) value

def armWriteUsrRegister (p : ArmCore) (reg : Reg) (value : Word) : ArmCore :=
  writeStorage p (usrStorage reg) value

def armWriteCpsr (p : ArmCore) (value : Word) : ArmCore := { p with cpsr := value }

def armWriteSpsr (p : ArmCore) (value : Word) : ArmCore :=
  { p with spsr := Function.update p.spsr (armMode p) value }

def armReadN (p : ArmCore) : Bool := getBit (armReadCpsr p) Psr.n
def armReadZ (p : ArmCore) : Bool := getBit (armReadCpsr p) Psr.z
def armReadC (p : ArmCore) : Bool := getBit (armReadCpsr p) Psr.c
def armReadV (p : ArmCore) : Bool := getBit (armReadCpsr p) Psr.v

/-- One flag argument of `update_nzcv`; `none` is UNAFFECT_FLAG. -/
def updateFlag (cpsr : Word) (i : Nat) : Option Bool → Word
  | none => cpsr
  | some true => setBit cpsr i
  | some false => clrBit cpsr i

def updateNzcv (p : ArmCore) (n z c v : Option Bool) : ArmCore :=
  let cpsr := updateFlag (armReadCpsr p) Psr.n n
  let cpsr := updateFlag cpsr Psr.z z
  let cpsr := updateFlag cpsr Psr.c c
  let cpsr := updateFlag cpsr Psr.v v
  armWriteCpsr p cpsr

def updateFlagT (p : ArmCore) (t : Option Bool) : ArmCore :=
  armWriteCpsr p (updateFlag (armReadCpsr p) Psr.t t)

section MemoryAccess

variable (h : Platform)

/-- The fetch, with the content `*value` has before and after it. -/
def armFetch (p : ArmCore) (value : Word) : ArmCore × Word × ArmException :=
  let p := { p with cycleCount := p.cycleCount + 1#32 }
  let address := armReadRegister p Reg.pc - 4#32
  let r := memoryReadWord h p.mem (getBit p.cpsr Psr.e) address value
  let p := armWriteRegister p Reg.pc (address + 4#32)
  (p, r.1, if r.2 = 0 then .noException else .prefetchAbort)

def armAddressCurrentInstruction (p : ArmCore) : Word := armReadRegister p Reg.pc - 8#32

def armAddressNextInstruction (p : ArmCore) : Word := armReadRegister p Reg.pc - 4#32

def dataResult (result : Int) : ArmException := if result = 0 then .noException else .dataAbort

def armReadByte (p : ArmCore) (address : Word) (value : Byte) : Byte × ArmException :=
  let r := memoryReadByte h p.mem address value
  (r.1, dataResult r.2)

def armReadHalf (p : ArmCore) (address : Word) (value : Half) : Half × ArmException :=
  let r := memoryReadHalf h p.mem (getBit p.cpsr Psr.e) address value
  (r.1, dataResult r.2)

def armReadWord (p : ArmCore) (address value : Word) : Word × ArmException :=
  let r := memoryReadWord h p.mem (getBit p.cpsr Psr.e) address value
  (r.1, dataResult r.2)

def armWriteByte (p : ArmCore) (address : Word) (value : Byte) : ArmCore × ArmException :=
  let r := memoryWriteByte h p.mem address value
  ({ p with mem := r.1 }, dataResult r.2)

def armWriteHalf (p : ArmCore) (address : Word) (value : Half) : ArmCore × ArmException :=
  let r := memoryWriteHalf h p.mem (getBit p.cpsr Psr.e) address value
  ({ p with mem := r.1 }, dataResult r.2)

def armWriteWord (p : ArmCore) (address value : Word) : ArmCore × ArmException :=
  let r := memoryWriteWord h p.mem (getBit p.cpsr Psr.e) address value
  ({ p with mem := r.1 }, dataResult r.2)

end MemoryAccess

section Banks

theorem registers_pc : ∀ mode : Mode, registers mode Reg.pc = 15 := by decide

theorem registers_usr : ∀ reg : Reg, registers Mode.usr reg = usrStorage reg := by decide

/-- The register a place of `registers_storage` is for, in whatever mode. -/
def storageReg (k : Fin 31) : Reg :=
  BitVec.ofNat 4 (if k.val < 16 then k.val else if k.val < 24 then 13 + k.val % 2 else k.val - 16)

theorem storageReg_registers :
    ∀ (mode : Mode) (reg : Reg), storageReg (registers mode reg) = reg := by
  decide +kernel

theorem registers_inj (mode : Mode) (r r' : Reg) (same : registers mode r = registers mode r') :
    r = r' := by
  rw [← storageReg_registers mode r, same, storageReg_registers]

theorem usrStorage_inj (r r' : Reg) (same : usrStorage r = usrStorage r') : r = r' := by
  rw [← registers_usr, ← registers_usr] at same
  exact registers_inj Mode.usr r r' same

theorem registers_ne_pc (mode : Mode) (reg : Reg) (notPc : reg ≠ Reg.pc) :
    registers mode reg ≠ 15 := by
  rw [← registers_pc mode]
  exact fun same => notPc (registers_inj mode reg Reg.pc same)

def exceptionModes : List Mode := [Mode.fiq, Mode.irq, Mode.svc, Mode.abt, Mode.und]

theorem registers_other_mode : ∀ t ∈ exceptionModes, ∀ mode : Mode, ∀ r : Reg, mode ≠ t →
    r ≠ Reg.pc → registers mode r ≠ registers t Reg.sp ∧ registers mode r ≠ registers t Reg.lr := by
  decide +kernel

end Banks

section Frames

variable (p : ArmCore) (reg reg' : Reg) (value : Word) (k j : Fin 31)

@[simp] theorem armReadCpsr_eq : armReadCpsr p = p.cpsr := rfl
@[simp] theorem armReadSpsr_eq : armReadSpsr p = p.spsr (armMode p) := rfl

@[simp] theorem writeStorage_self : (writeStorage p k value).registersStorage k = value := by
  simp [writeStorage]
theorem writeStorage_other (other : j ≠ k) :
    (writeStorage p k value).registersStorage j = p.registersStorage j :=
  Function.update_of_ne other _ _

@[simp] theorem armWriteRegister_cpsr : (armWriteRegister p reg value).cpsr = p.cpsr := rfl
@[simp] theorem armWriteRegister_spsr : (armWriteRegister p reg value).spsr = p.spsr := rfl

@[simp] theorem armWriteCpsr_cpsr : (armWriteCpsr p value).cpsr = value := rfl
@[simp] theorem armWriteCpsr_spsr : (armWriteCpsr p value).spsr = p.spsr := rfl
@[simp] theorem armWriteCpsr_storage :
    (armWriteCpsr p value).registersStorage = p.registersStorage := rfl

theorem armMode_eq : armMode p = p.cpsr.setWidth 5 := by
  apply BitVec.eq_of_getLsbD_eq
  intro i small
  rw [armMode, BitVec.getLsbD_setWidth, BitVec.getLsbD_and, BitVec.getLsbD_setWidth]
  have mask : (0x1f#32).getLsbD i = true := by
    have cases : i = 0 ∨ i = 1 ∨ i = 2 ∨ i = 3 ∨ i = 4 := by omega
    rcases cases with rfl | rfl | rfl | rfl | rfl <;> rfl
  rw [mask, Bool.and_true]

theorem armMode_congr {p q : ArmCore} (same : p.cpsr = q.cpsr) : armMode p = armMode q := by
  rw [armMode, armMode, same]

@[simp] theorem armMode_armWriteRegister :
    armMode (armWriteRegister p reg value) = armMode p := rfl

@[simp] theorem armWriteRegister_self :
    (armWriteRegister p reg value).registersStorage (registers (armMode p) reg) = value :=
  writeStorage_self p value _

theorem armWriteRegister_storage_other (other : k ≠ registers (armMode p) reg) :
    (armWriteRegister p reg value).registersStorage k = p.registersStorage k :=
  writeStorage_other p value _ _ other

@[simp] theorem pcAhead_of_ne {reg : Reg} (notPc : reg ≠ Reg.pc) : pcAhead reg value = value :=
  if_neg notPc

theorem armReadRegister_of_ne {p : ArmCore} {reg : Reg} (notPc : reg ≠ Reg.pc) :
    armReadRegister p reg = p.registersStorage (registers (armMode p) reg) :=
  pcAhead_of_ne _ notPc

theorem armReadRegister_pc :
    armReadRegister p Reg.pc = (p.registersStorage 15 + 4#32) &&& 0xFFFFFFFD#32 := by
  rw [armReadRegister, registers_pc]
  rfl

@[simp] theorem armMode_armWriteCpsr : armMode (armWriteCpsr p value) = value.setWidth 5 :=
  armMode_eq _

theorem armReadRegister_armWriteRegister_self (notPc : reg ≠ Reg.pc) :
    armReadRegister (armWriteRegister p reg value) reg = value := by
  rw [armReadRegister_of_ne notPc, armMode_armWriteRegister, armWriteRegister_self]

theorem armReadRegister_armWriteRegister_other (other : reg ≠ reg') :
    armReadRegister (armWriteRegister p reg' value) reg = armReadRegister p reg := by
  rw [armReadRegister, armReadRegister, armMode_armWriteRegister,
    armWriteRegister_storage_other p reg' value _ fun same => other (registers_inj _ _ _ same)]

end Frames

section Flags

variable (p : ArmCore)

theorem getLsbD_updateFlag (cpsr : Word) (i j : Nat) (b : Option Bool) (small : j < 32) :
    (updateFlag cpsr i b).getLsbD j =
      if i = j then b.getD (cpsr.getLsbD j) else cpsr.getLsbD j := by
  cases b with
  | none => simp [updateFlag]
  | some b =>
    cases b <;> by_cases here : i = j <;>
      simp only [updateFlag, getLsbD_setBit, getLsbD_clrBit, here, small, decide_true, decide_false,
        Bool.and_true, Bool.and_false, Bool.or_true, Bool.or_false, Bool.not_true, Bool.not_false,
        if_true, if_false, Option.getD_some]

theorem updateFlag_self {cpsr : Word} {i : Nat} {b : Bool} (same : cpsr.getLsbD i = b) :
    updateFlag cpsr i (some b) = cpsr := by
  apply BitVec.eq_of_getLsbD_eq
  intro j small
  rw [getLsbD_updateFlag _ _ _ _ small]
  split
  · rename_i here
    rw [Option.getD_some, ← same, here]
  · rfl

theorem updateNzcv_getLsbD (n z c v : Option Bool) {j : Nat} (low : j < 28) :
    (updateNzcv p n z c v).cpsr.getLsbD j = p.cpsr.getLsbD j := by
  have small : j < 32 := by omega
  simp only [updateNzcv, armWriteCpsr_cpsr, armReadCpsr_eq, getLsbD_updateFlag _ _ _ _ small]
  rw [if_neg (by simp only [Psr.v]; omega), if_neg (by simp only [Psr.c]; omega),
    if_neg (by simp only [Psr.z]; omega), if_neg (by simp only [Psr.n]; omega)]

section

variable (n z c v : Option Bool)

theorem updateNzcv_n :
    (updateNzcv p n z c v).cpsr.getLsbD Psr.n = n.getD (p.cpsr.getLsbD Psr.n) := by
  have small : Psr.n < 32 := by decide
  simp only [updateNzcv, armWriteCpsr_cpsr, armReadCpsr_eq, getLsbD_updateFlag _ _ _ _ small]
  rfl

theorem updateNzcv_z :
    (updateNzcv p n z c v).cpsr.getLsbD Psr.z = z.getD (p.cpsr.getLsbD Psr.z) := by
  have small : Psr.z < 32 := by decide
  simp only [updateNzcv, armWriteCpsr_cpsr, armReadCpsr_eq, getLsbD_updateFlag _ _ _ _ small]
  rfl

theorem updateNzcv_c :
    (updateNzcv p n z c v).cpsr.getLsbD Psr.c = c.getD (p.cpsr.getLsbD Psr.c) := by
  have small : Psr.c < 32 := by decide
  simp only [updateNzcv, armWriteCpsr_cpsr, armReadCpsr_eq, getLsbD_updateFlag _ _ _ _ small]
  rfl

theorem updateNzcv_v :
    (updateNzcv p n z c v).cpsr.getLsbD Psr.v = v.getD (p.cpsr.getLsbD Psr.v) := by
  have small : Psr.v < 32 := by decide
  simp only [updateNzcv, armWriteCpsr_cpsr, armReadCpsr_eq, getLsbD_updateFlag _ _ _ _ small]
  rfl

end

@[simp] theorem updateNzcv_storage (n z c v : Option Bool) :
    (updateNzcv p n z c v).registersStorage = p.registersStorage := rfl

theorem updateFlagT_getLsbD (t : Option Bool) {j : Nat} (small : j < 32) (other : Psr.t ≠ j) :
    (updateFlagT p t).cpsr.getLsbD j = p.cpsr.getLsbD j := by
  simp only [updateFlagT, armWriteCpsr_cpsr, armReadCpsr_eq, getLsbD_updateFlag _ _ _ _ small,
    if_neg other]

theorem updateFlagT_eq_iff (b : Bool) :
    (updateFlagT p (some b)).cpsr = p.cpsr ↔ b = getBit p.cpsr Psr.t := by
  constructor
  · intro same
    have small : Psr.t < 32 := by decide
    have bit := congrArg (BitVec.getLsbD · Psr.t) same
    simp only [updateFlagT, armWriteCpsr_cpsr, armReadCpsr_eq, getLsbD_updateFlag _ _ _ _ small,
      if_true, Option.getD_some] at bit
    rw [bit, getBit_eq]
  · intro same
    exact updateFlag_self (by rw [same, getBit_eq, armReadCpsr_eq])

theorem armMode_of_bits {p q : ArmCore} (same : ∀ i < 5, q.cpsr.getLsbD i = p.cpsr.getLsbD i) :
    armMode q = armMode p := by
  rw [armMode_eq, armMode_eq]
  apply BitVec.eq_of_getLsbD_eq
  intro i small
  simp only [BitVec.getLsbD_setWidth, same i small]

@[simp] theorem armMode_updateNzcv (n z c v : Option Bool) :
    armMode (updateNzcv p n z c v) = armMode p :=
  armMode_of_bits fun i small => updateNzcv_getLsbD p n z c v (by omega)

@[simp] theorem armMode_updateFlagT (t : Option Bool) : armMode (updateFlagT p t) = armMode p :=
  armMode_of_bits fun i small => updateFlagT_getLsbD p t (by omega) (by simp only [Psr.t]; omega)

end Flags

section Accesses

variable (h : Platform) (p : ArmCore) (address : Word)

def outside (len : Nat) : Bool := outOfBounds h p.mem address len

def ArmCore.wordAt (p : ArmCore) (h : Platform) (address : Word) : Word :=
  p.mem.valueAt h (getBit p.cpsr Psr.e) 32 address

theorem wordAt_congr {q : ArmCore} (mem : q.mem = p.mem)
    (endianness : getBit q.cpsr Psr.e = getBit p.cpsr Psr.e) :
    q.wordAt h address = p.wordAt h address := by
  rw [ArmCore.wordAt, ArmCore.wordAt, mem, endianness]

theorem armReadByte_eq (value : Byte) : armReadByte h p address value =
    if outside h p address 1 then (value, .dataAbort)
    else (p.mem.valueAt h true 8 address, .noException) := by
  cases bounds : outside h p address 1 with
  | false => simp [armReadByte, memoryReadByte, dataResult,
      memoryReadObject_inside h p.mem true address value bounds]
  | true => simp [armReadByte, memoryReadByte, dataResult,
      memoryReadObject_outside h p.mem true address value (by decide) bounds]

theorem armReadHalf_eq (value : Half) : armReadHalf h p address value =
    if outside h p address 2 then (value, .dataAbort)
    else (p.mem.valueAt h (getBit p.cpsr Psr.e) 16 address, .noException) := by
  cases bounds : outside h p address 2 with
  | false => simp [armReadHalf, memoryReadHalf, dataResult,
      memoryReadObject_inside h p.mem _ address value bounds]
  | true => simp [armReadHalf, memoryReadHalf, dataResult,
      memoryReadObject_outside h p.mem _ address value (by decide) bounds]

theorem armReadWord_eq (value : Word) : armReadWord h p address value =
    if outside h p address 4 then (value, .dataAbort)
    else (p.wordAt h address, .noException) := by
  cases bounds : outside h p address 4 with
  | false => simp [armReadWord, ArmCore.wordAt, memoryReadWord, dataResult,
      memoryReadObject_inside h p.mem _ address value bounds]
  | true => simp [armReadWord, memoryReadWord, dataResult,
      memoryReadObject_outside h p.mem _ address value (by decide) bounds]

theorem armReadWord_failed {value : Word}
    (failed : (armReadWord h p address value).2 = .dataAbort) :
    armReadWord h p address value = (value, .dataAbort) := by
  rw [armReadWord_eq] at failed ⊢
  split at failed
  · rename_i bounds
    rw [if_pos bounds]
  · contradiction

theorem armWriteByte_eq (value : Byte) : armWriteByte h p address value =
    if outside h p address 1 then (p, .dataAbort)
    else ({ p with mem := p.mem.put h true address value }, .noException) := by
  cases bounds : outside h p address 1 with
  | false => simp [armWriteByte, memoryWriteByte, dataResult,
      memoryWriteObject_inside h p.mem true address value (by decide) bounds]
  | true => simp [armWriteByte, memoryWriteByte, dataResult,
      memoryWriteObject_outside h p.mem true address value bounds]

theorem armWriteHalf_eq (value : Half) : armWriteHalf h p address value =
    if outside h p address 2 then (p, .dataAbort)
    else ({ p with mem := p.mem.put h (getBit p.cpsr Psr.e) address value }, .noException) := by
  cases bounds : outside h p address 2 with
  | false => simp [armWriteHalf, memoryWriteHalf, dataResult,
      memoryWriteObject_inside h p.mem _ address value (by decide) bounds]
  | true => simp [armWriteHalf, memoryWriteHalf, dataResult,
      memoryWriteObject_outside h p.mem _ address value bounds]

theorem armWriteWord_eq (value : Word) : armWriteWord h p address value =
    if outside h p address 4 then (p, .dataAbort)
    else ({ p with mem := p.mem.put h (getBit p.cpsr Psr.e) address value }, .noException) := by
  cases bounds : outside h p address 4 with
  | false => simp [armWriteWord, memoryWriteWord, dataResult,
      memoryWriteObject_inside h p.mem _ address value (by decide) bounds]
  | true => simp [armWriteWord, memoryWriteWord, dataResult,
      memoryWriteObject_outside h p.mem _ address value bounds]

/-- The address of the next fetch, and the state after it: pc ahead, cycle counted. -/
def fetchAddress : Word := armReadRegister p Reg.pc - 4#32

def fetched : ArmCore :=
  armWriteRegister { p with cycleCount := p.cycleCount + 1#32 } Reg.pc (fetchAddress p + 4#32)

theorem fetched_reads {r : Reg} (notPc : r ≠ Reg.pc) :
    armReadRegister (fetched p) r = armReadRegister p r :=
  armReadRegister_armWriteRegister_other _ _ _ _ notPc

theorem armFetch_eq (value : Word) : armFetch h p value =
    if outside h p (fetchAddress p) 4 then (fetched p, value, .prefetchAbort)
    else (fetched p, p.wordAt h (fetchAddress p), .noException) := by
  have unfolded : armFetch h p value =
      let r := memoryReadObject h p.mem (getBit p.cpsr Psr.e) (fetchAddress p) value
      (fetched p, r.1, if r.2 = 0 then .noException else .prefetchAbort) := rfl
  rw [unfolded]
  cases bounds : outside h p (fetchAddress p) 4 with
  | false =>
    simp [ArmCore.wordAt, memoryReadObject_inside h p.mem _ (fetchAddress p) value bounds]
  | true => simp [memoryReadObject_outside h p.mem _ (fetchAddress p) value (by decide) bounds]

end Accesses

section Alignment

theorem testBit_one (x : Word) : x.getLsbD 1 = decide (2 ≤ x.toNat % 4) := by
  rw [BitVec.getLsbD, Nat.testBit, Nat.shiftRight_eq_div_pow, Nat.one_and_eq_mod_two]
  by_cases high : 2 ≤ x.toNat % 4
  · rw [decide_eq_true high, bne_iff_ne]
    omega
  · rw [decide_eq_false high, bne_eq_false_iff_eq]
    omega

theorem clear_second (x : Word) : (x &&& 0xFFFFFFFD#32).toNat % 4 < 2 := by
  have clear : (x &&& 0xFFFFFFFD#32).getLsbD 1 = false := by
    rw [BitVec.getLsbD_and]
    exact Bool.and_false _
  rw [testBit_one, decide_eq_false_iff_not] at clear
  omega

theorem pcAhead_of_clear {x : Word} (clear : x.toNat % 4 < 2) : pcAhead Reg.pc x = x + 4#32 := by
  have mask : ∀ i < 32, (0xFFFFFFFD#32).getLsbD i = decide (i ≠ 1) := by decide
  rw [pcAhead, if_pos rfl]
  apply BitVec.eq_of_getLsbD_eq
  intro i small
  rw [BitVec.getLsbD_and, mask i small]
  by_cases second : i = 1
  · have low : ¬2 ≤ (x + 4#32).toNat % 4 := by
      have size := x.isLt
      simp only [BitVec.toNat_add, BitVec.toNat_ofNat]
      omega
    rw [second, testBit_one, decide_eq_false low]
    rfl
  · rw [decide_eq_true second, Bool.and_true]

theorem fetchAddress_clear (p : ArmCore) : (fetchAddress p).toNat % 4 < 2 := by
  have clear := clear_second (p.registersStorage 15 + 4#32)
  rw [fetchAddress, armReadRegister_pc]
  generalize (p.registersStorage 15 + 4#32) &&& 0xFFFFFFFD#32 = x at clear
  have size := x.isLt
  simp only [BitVec.toNat_sub, BitVec.toNat_ofNat]
  omega

theorem fetchAddress_of_clear {p : ArmCore} (clear : (p.registersStorage 15).toNat % 4 < 2) :
    fetchAddress p = p.registersStorage 15 := by
  rw [fetchAddress, armReadRegister, registers_pc, pcAhead_of_clear clear, BitVec.add_sub_cancel]

theorem clear_add_four {x : Word} (clear : x.toNat % 4 < 2) : (x + 4#32).toNat % 4 < 2 := by
  have size := x.isLt
  simp only [BitVec.toNat_add, BitVec.toNat_ofNat]
  omega

end Alignment

section Fetched

variable {p : ArmCore}

theorem fetched_storage {k : Fin 31} (notPc : k ≠ 15) :
    (fetched p).registersStorage k = p.registersStorage k := by
  rw [fetched, armWriteRegister_storage_other _ _ _ _ (by rwa [registers_pc])]

theorem fetched_pc : (fetched p).registersStorage 15 = fetchAddress p + 4#32 := by
  rw [← registers_pc (armMode p)]
  exact armWriteRegister_self _ _ _

theorem armReadRegister_afterFetch {q : ArmCore}
    (afterFetch : q.registersStorage 15 = fetchAddress p + 4#32) :
    armReadRegister q Reg.pc = fetchAddress p + 8#32 := by
  have clear := clear_add_four (fetchAddress_clear p)
  rw [armReadRegister, registers_pc, afterFetch, pcAhead_of_clear clear]
  bv_omega

end Fetched

end ArmSimulator
