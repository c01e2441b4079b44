import ArmSimulator.DataProcessing

/-! arm_load_store.c: single, halfword and block transfers. `junk` is the
content an uninitialised local of the C function happens to have; a read that
fails leaves the local as it was. -/
namespace ArmSimulator

/-- How a handler ends: it returns, it calls `exit(0)`, or its `assert` fails. -/
inductive Outcome where
  | returned (result : ArmException)
  | exited
  | assertFailed
deriving DecidableEq, Repr

section SingleTransfers

def writeLoaded (p : ArmCore) (rd : Reg) (value : Word) (result : ArmException) :
    ArmCore × ArmException :=
  if result = .noException then (armWriteRegister p rd value, result) else (p, result)

variable (h : Platform) (junk : Word) (p : ArmCore) (rd : Reg) (address : Word)

def ldr : ArmCore × ArmException :=
  let r := armReadWord h p address junk
  if r.2 = .noException then
    if rd = Reg.pc then
      (armWriteRegister (updateFlagT p (getBit r.1 0)) rd (r.1 &&& 0xFFFFFFFE#32), r.2)
    else (armWriteRegister p rd r.1, r.2)
  else (p, r.2)

def str : ArmCore × ArmException := armWriteWord h p address (armReadRegister p rd)

def ldrb : ArmCore × ArmException :=
  let r := armReadByte h p address (junk.setWidth 8)
  writeLoaded p rd (r.1.setWidth 32) r.2

def strb : ArmCore × ArmException :=
  armWriteByte h p address ((armReadRegister p rd &&& 0xFF#32).setWidth 8)

def ldrt : ArmCore × ArmException :=
  let r := armReadWord h p address junk
  writeLoaded p rd r.1 r.2

def strt : ArmCore × ArmException := armWriteWord h p address (armReadRegister p rd)

def ldrbt : ArmCore × ArmException :=
  let r := armReadByte h p address (junk.setWidth 8)
  writeLoaded p rd (r.1.setWidth 32) r.2

/-- As in the source, a load. -/
def strbt : ArmCore × ArmException :=
  let r := armReadByte h p address (junk.setWidth 8)
  writeLoaded p rd (r.1.setWidth 32) r.2

def ldrh : ArmCore × ArmException :=
  let r := armReadHalf h p address (junk.setWidth 16)
  writeLoaded p rd (r.1.setWidth 32) r.2

def strh : ArmCore × ArmException :=
  armWriteHalf h p address ((armReadRegister p rd &&& 0xFFFF#32).setWidth 16)

/-- The half-word is read through `(uint16_t *)&value`: the low half of the
local on a little-endian host, the high half on a big-endian one. -/
def ldrsh : ArmCore × ArmException :=
  let low : Half := junk.setWidth 16
  let high : Half := (junk >>> 16).setWidth 16
  let r := armReadHalf h p address (if h.isBigEndian then high else low)
  let value : Word := if h.isBigEndian then r.1 ++ low else high ++ r.1
  let value := if getBit value 15 then value ||| 0xFFFF0000#32 else value &&& 0x000FFFFF#32
  writeLoaded p rd value r.2

/-- The masks are applied to a `uint8_t`. -/
def ldrsb : ArmCore × ArmException :=
  let r := armReadByte h p address (junk.setWidth 8)
  let value : Byte :=
    if getBit r.1 7 then (r.1.setWidth 32 ||| 0xFFFFFF00#32).setWidth 8
    else (r.1.setWidth 32 &&& 0x0000F00FF#32).setWidth 8
  writeLoaded p rd (value.setWidth 32) r.2

def ldrd : ArmCore × ArmException :=
  if getBit rd 0 = true ∨ rd = Reg.lr ∨ address &&& 3#32 ≠ 0#32 then (p, .noException)
  else
    let r := armReadWord h p address junk
    if r.2 = .noException then
      let p := armWriteRegister p rd r.1
      let r := armReadWord h p (address + 4#32) r.1
      writeLoaded p (rd + 1#4) r.1 r.2
    else (p, r.2)

def strd : ArmCore × ArmException :=
  if getBit rd 0 = true ∨ rd = Reg.lr ∨ address &&& 3#32 ≠ 0#32 ∨ address &&& 4#32 ≠ 0#32 then
    (p, .noException)
  else
    let r := armWriteWord h p address (armReadRegister p rd)
    if r.2 = .noException then
      armWriteWord h r.1 (address + 4#32) (armReadRegister r.1 (rd + 1#4))
    else r

end SingleTransfers

section BlockTransfers

structure Transfer where
  core : ArmCore
  address : Word
  value : Word
  result : ArmException

variable (h : Platform)

/-- The loop of `ldm1`, `ldm2` and `ldm3` over the registers `is`: `write`
receives the words read. The loop ends at the first failed read. -/
def loadLoop (write : ArmCore → Reg → Word → ArmCore) (rList : Half) :
    List Reg → ArmCore → Word → Word → Transfer
  | [], p, address, value => ⟨p, address, value, .noException⟩
  | i :: is, p, address, value =>
    if getBit rList i.toNat then
      let r := armReadWord h p address value
      if r.2 = .noException then loadLoop write rList is (write p i r.1) (address + 4#32) r.1
      else ⟨p, address + 4#32, r.1, r.2⟩
    else loadLoop write rList is p address value

def storeLoop (read : ArmCore → Reg → Word) (rList : Half) :
    List Reg → ArmCore → Word → Word → Transfer
  | [], p, address, value => ⟨p, address, value, .noException⟩
  | i :: is, p, address, value =>
    if getBit rList i.toNat then
      let value := read p i
      let r := armWriteWord h p address value
      if r.2 = .noException then storeLoop read rList is r.1 (address + 4#32) value
      else ⟨r.1, address + 4#32, value, r.2⟩
    else storeLoop read rList is p address value

def registersTo14 : List Reg := (List.range 15).map (BitVec.ofNat 4)
def registersTo15 : List Reg := (List.range 16).map (BitVec.ofNat 4)

/-- The assertion `e_add == address - 4` and the return after it. -/
def endTransfer (t : Transfer) (eAdd : Word) : ArmCore × Outcome :=
  if eAdd = t.address - 4#32 then (t.core, .returned t.result) else (t.core, .assertFailed)

/-- `ldm1` after its loop: the word for the pc, used even when its read failed. -/
def ldm1Pc (rList : Half) (t : Transfer) : Transfer :=
  if t.result = .noException ∧ getBit rList 15 = true then
    let r := armReadWord h t.core t.address t.value
    let p := updateFlagT t.core (getBit r.1 0)
    let value := r.1 &&& 0xFFFFFFFE#32
    ⟨armWriteRegister p Reg.pc value, t.address + 4#32, value, r.2⟩
  else t

/-- `ldm3` after its loop: the CPSR is restored before the word for the pc is read. -/
def ldm3Pc (t : Transfer) : Transfer :=
  if t.result = .noException then
    let p :=
      if armCurrentModeHasSpsr t.core then armWriteCpsr t.core (armReadSpsr t.core) else t.core
    let r := armReadWord h p t.address t.value
    ⟨if r.2 = .noException then armWriteRegister p Reg.pc r.1 else p, t.address + 4#32, r.1, r.2⟩
  else t

variable (junk : Word) (p : ArmCore) (rList : Half) (sAdd eAdd : Word)

def ldm1 : ArmCore × Outcome :=
  endTransfer (ldm1Pc h rList (loadLoop h armWriteRegister rList registersTo14 p sAdd junk)) eAdd

def stm1 : ArmCore × Outcome :=
  endTransfer (storeLoop h armReadRegister rList registersTo15 p sAdd junk) eAdd

def ldm2 : ArmCore × Outcome :=
  endTransfer (loadLoop h armWriteUsrRegister rList registersTo14 p sAdd junk) eAdd

def stm2 : ArmCore × Outcome :=
  endTransfer (storeLoop h armReadUsrRegister rList registersTo15 p sAdd junk) eAdd

def ldm3 : ArmCore × Outcome :=
  endTransfer (ldm3Pc h (loadLoop h armWriteRegister rList registersTo14 p sAdd junk)) eAdd

end BlockTransfers

section Addressing

def scaledShift (p : ArmCore) (shift : Word) (shiftImm : Nat) (valRm : Word) : Word :=
  match shift with
  | 0#32 => valRm <<< shiftImm
  | 1#32 => if shiftImm ≠ 0 then valRm >>> shiftImm else 0#32
  | 2#32 =>
    if shiftImm ≠ 0 then asr valRm shiftImm
    else if getBit valRm 31 then 0xFFFFFFFF#32
    else 0#32
  | _ =>
    if shiftImm = 0 then (bit 32 (getBit (armReadCpsr p) Psr.c) <<< 31) ||| (valRm >>> 1)
    else ror valRm shiftImm

/-- `(get_bit(ins, 23)) ? val_rn + offset : val_rn - offset` -/
def moved (ins valRn offset : Word) : Word :=
  if getBit ins 23 then valRn + offset else valRn - offset

/-- The three addressing forms, by P and W: offset, pre-indexed, post-indexed.
The state returned has the base written back; P=0, W=1 is no form. -/
def indexed (p : ArmCore) (ins : Word) (rn : Reg) (valRn offset : Word) :
    Option (ArmCore × Word) :=
  if getBit ins 24 && !getBit ins 21 then
    some (p, moved ins valRn offset)
  else if getBit ins 24 && getBit ins 21 then
    some (armWriteRegister p rn (moved ins valRn offset), moved ins valRn offset)
  else if !getBit ins 24 && !getBit ins 21 then
    some (armWriteRegister p rn (moved ins valRn offset), valRn)
  else none

/-- The same forms as `arm_load_store_miscellaneous` distinguishes them. -/
def indexedMiscellaneous (p : ArmCore) (ins : Word) (rn : Reg) (valRn offset : Word) :
    Option (ArmCore × Word) :=
  match codage2Bits ins 24 21 with
  | 0#32 => some (armWriteRegister p rn (moved ins valRn offset), valRn)
  | 3#32 => some (armWriteRegister p rn (moved ins valRn offset), moved ins valRn offset)
  | 2#32 => some (p, moved ins valRn offset)
  | _ => none

end Addressing

section Parsing

variable (h : Platform) (junk : Word) (p : ArmCore) (ins : Word)

def loadStoreSwitch (rd : Reg) (address : Word) : ArmCore × ArmException :=
  match codage4Bits ins 24 22 21 20 with
  | 0#32 => str h p rd address
  | 1#32 => ldr h junk p rd address
  | 2#32 => strt h p rd address
  | 3#32 => ldrt h junk p rd address
  | 4#32 => strb h p rd address
  | 5#32 => ldrb h junk p rd address
  | 6#32 => strbt h junk p rd address
  | 7#32 => ldrbt h junk p rd address
  | 8#32 => str h p rd address
  | 9#32 => ldr h junk p rd address
  | 10#32 => str h p rd address
  | 11#32 => ldr h junk p rd address
  | 12#32 => strb h p rd address
  | 13#32 => ldrb h junk p rd address
  | 14#32 => strb h p rd address
  | 15#32 => ldrb h junk p rd address
  | _ => (p, .noException)

def loadStoreOffset : Word :=
  if !getBit ins 25 then getBits ins 11 0
  else
    let valRm := armReadRegister p (getReg ins 3 0)
    scaledShift p (getBits ins 6 5) (getBits ins 11 7).toNat valRm

def armLoadStore : ArmCore × ArmException :=
  let rd := getReg ins 15 12
  let rn := getReg ins 19 16
  let valRn := armReadRegister p rn
  match indexed p ins rn valRn (loadStoreOffset p ins) with
  | none => (p, .undefinedInstruction)
  | some (p, address) => loadStoreSwitch h junk p ins rd address

def miscellaneousSwitch (rd : Reg) (address : Word) : ArmCore × ArmException :=
  match codage3Bits ins 20 6 5 with
  | 1#32 => strh h p rd address
  | 2#32 => ldrd h junk p rd address
  | 3#32 => strd h p rd address
  | 5#32 => ldrh h junk p rd address
  | 6#32 => ldrsb h junk p rd address
  | 7#32 => ldrsh h junk p rd address
  | _ => (p, .noException)

def miscellaneousOffset : Word :=
  if getBit ins 22 then (getBits ins 11 8 <<< 4) ||| getBits ins 3 0
  else armReadRegister p (getReg ins 3 0)

def armLoadStoreMiscellaneous : ArmCore × ArmException :=
  let rd := getReg ins 15 12
  let rn := getReg ins 19 16
  let valRn := armReadRegister p rn
  match indexedMiscellaneous p ins rn valRn (miscellaneousOffset p ins) with
  | none => (p, .undefinedInstruction)
  | some (p, address) => miscellaneousSwitch h junk p ins rd address

def blockBounds (ins valRn : Word) (n : Nat) : Word × Word :=
  let size := BitVec.ofNat 32 (n * 4)
  if getBit ins 23 then
    if getBit ins 24 then (valRn + 4#32, valRn + size) else (valRn, valRn + size - 4#32)
  else
    if getBit ins 24 then (valRn - size, valRn - 4#32) else (valRn - size + 4#32, valRn)

def blockBase (ins valRn : Word) (n : Nat) : Word :=
  if getBit ins 23 then valRn + BitVec.ofNat 32 (n * 4) else valRn - BitVec.ofNat 32 (n * 4)

def multipleSwitch (rList : Half) (sAdd eAdd : Word) : ArmCore × Outcome :=
  match codage3Bits ins 22 20 15 with
  | 0#32 => stm1 h junk p rList sAdd eAdd
  | 1#32 => stm1 h junk p rList sAdd eAdd
  | 2#32 => ldm1 h junk p rList sAdd eAdd
  | 3#32 => ldm1 h junk p rList sAdd eAdd
  | 4#32 => stm2 h junk p rList sAdd eAdd
  | 6#32 => ldm2 h junk p rList sAdd eAdd
  | 7#32 => ldm3 h junk p rList sAdd eAdd
  | _ => (p, .returned .noException)

def armLoadStoreMultiple : ArmCore × Outcome :=
  let rn := getReg ins 19 16
  let valRn := armReadRegister p rn
  let regList := getBits ins 15 0
  let n := numberOfSetBits regList
  let b := blockBounds ins valRn n
  let p := if getBit ins 21 then armWriteRegister p rn (blockBase ins valRn n) else p
  multipleSwitch h junk p ins (regList.setWidth 16) b.1 b.2

def armCoprocessorLoadStore : ArmCore × ArmException := (p, .undefinedInstruction)

end Parsing

section Shapes

variable (h : Platform) (junk : Word) (p : ArmCore) (ins : Word) (rd : Reg) (address : Word)

/-- The ends of a single or double transfer of `rd` at `address`. Only a double
transfer can fail half way, with its first word stored or loaded. -/
inductive Transferred : ArmCore × ArmException → Prop where
  | skipped : Transferred (p, .noException)
  | aborted : Transferred (p, .dataAbort)
  | stored (mem : Memory) : Transferred ({ p with mem := mem }, .noException)
  | storedFirst (mem : Memory) : Transferred ({ p with mem := mem }, .dataAbort)
  | loaded (value : Word) : Transferred (armWriteRegister p rd value, .noException)
  | loadedPc (t : Option Bool) (value : Word) : rd = Reg.pc →
      Transferred (armWriteRegister (updateFlagT p t) rd value, .noException)
  | loadedFirst : rd ≠ Reg.pc → outside h p address 4 = false →
      Transferred (armWriteRegister p rd (p.wordAt h address), .dataAbort)
  | loadedPair (value value' : Word) : rd ≠ Reg.pc → rd + 1#4 ≠ Reg.pc →
      Transferred (armWriteRegister (armWriteRegister p rd value) (rd + 1#4) value', .noException)

theorem writeLoaded_transferred (value : Word) {result : ArmException}
    (ends : result = .noException ∨ result = .dataAbort) :
    Transferred h p rd address (writeLoaded p rd value result) := by
  rcases ends with rfl | rfl
  · exact .loaded value
  · exact .aborted

theorem ldr_transferred : Transferred h p rd address (ldr h junk p rd address) := by
  rw [ldr, armReadWord_eq]
  split
  · exact .aborted
  · by_cases isPc : rd = Reg.pc
    · simp only [if_true, isPc]
      exact .loadedPc _ _ rfl
    · simp only [if_true, isPc, if_false]
      exact .loaded _

theorem pair_ne_pc :
    ∀ r : Reg, getBit r 0 = false → r ≠ Reg.lr → r ≠ Reg.pc ∧ r + 1#4 ≠ Reg.pc := by
  decide

theorem ldrd_transferred : Transferred h p rd address (ldrd h junk p rd address) := by
  unfold ldrd
  split
  · exact .skipped
  · rename_i valid
    simp only [not_or, Bool.not_eq_true] at valid
    have regs := pair_ne_pc rd valid.1 valid.2.1
    rw [armReadWord_eq]
    cases first : outside h p address 4 with
    | true => exact .aborted
    | false =>
      simp only [Bool.false_eq_true, if_false, if_true, writeLoaded, armReadWord_eq]
      split
      · exact .loadedFirst regs.1 first
      · exact .loadedPair _ _ regs.1 regs.2

theorem strd_transferred : Transferred h p rd address (strd h p rd address) := by
  unfold strd
  split
  · exact .skipped
  · rw [armWriteWord_eq]
    split
    · exact .aborted
    · simp only [if_true, armWriteWord_eq]
      split
      · exact .storedFirst _
      · exact .stored _

theorem store_transferred {r : ArmCore × ArmException} {out : Bool} {mem : Memory}
    (shape : r = if out then (p, .dataAbort) else ({ p with mem := mem }, .noException)) :
    Transferred h p rd address r := by
  rw [shape]
  split
  · exact .aborted
  · exact .stored mem

theorem loadStoreSwitch_transferred :
    Transferred h p rd address (loadStoreSwitch h junk p ins rd address) := by
  have word : Transferred h p rd address (str h p rd address) :=
    store_transferred h p rd address (armWriteWord_eq h p address _)
  have byte : Transferred h p rd address (strb h p rd address) :=
    store_transferred h p rd address (armWriteByte_eq h p address _)
  have loadByte : Transferred h p rd address (ldrb h junk p rd address) := by
    rw [ldrb, armReadByte_eq]
    exact writeLoaded_transferred h p rd address _ (by split <;> simp)
  have loadWord : Transferred h p rd address (ldrt h junk p rd address) := by
    rw [ldrt, armReadWord_eq]
    exact writeLoaded_transferred h p rd address _ (by split <;> simp)
  unfold loadStoreSwitch
  split <;> first
    | exact word | exact byte | exact loadByte | exact loadWord
    | exact ldr_transferred h junk p rd address | exact .skipped

theorem miscellaneousSwitch_transferred :
    Transferred h p rd address (miscellaneousSwitch h junk p ins rd address) := by
  have half : Transferred h p rd address (strh h p rd address) :=
    store_transferred h p rd address (armWriteHalf_eq h p address _)
  have loadHalf : Transferred h p rd address (ldrh h junk p rd address) := by
    rw [ldrh, armReadHalf_eq]
    exact writeLoaded_transferred h p rd address _ (by split <;> simp)
  have loadSignedByte : Transferred h p rd address (ldrsb h junk p rd address) := by
    rw [ldrsb, armReadByte_eq]
    exact writeLoaded_transferred h p rd address _ (by split <;> simp)
  have loadSignedHalf : Transferred h p rd address (ldrsh h junk p rd address) := by
    rw [ldrsh, armReadHalf_eq]
    exact writeLoaded_transferred h p rd address _ (by split <;> simp)
  unfold miscellaneousSwitch
  split <;> first
    | exact half | exact loadHalf | exact loadSignedByte | exact loadSignedHalf
    | exact ldrd_transferred h junk p rd address | exact strd_transferred h p rd address
    | exact .skipped

theorem indexedMiscellaneous_eq (rn : Reg) (valRn offset : Word) :
    indexedMiscellaneous p ins rn valRn offset = indexed p ins rn valRn offset := by
  rw [indexedMiscellaneous, indexed, codage2Bits_eq]
  simp only [getBit_eq]
  cases ins.getLsbD 24 <;> cases ins.getLsbD 21 <;> rfl

theorem indexed_state {rn : Reg} {valRn offset : Word} {q : ArmCore}
    (form : indexed p ins rn valRn offset = some (q, address)) :
    q = if !(getBit ins 24 && !getBit ins 21) then armWriteRegister p rn (moved ins valRn offset)
      else p := by
  unfold indexed at form
  split at form
  · rename_i offsetForm
    rw [offsetForm]
    exact (Prod.mk.inj (Option.some.inj form)).1.symm
  · rename_i writes
    rw [Bool.eq_false_iff.mpr writes]
    split at form
    · exact (Prod.mk.inj (Option.some.inj form)).1.symm
    · split at form
      · exact (Prod.mk.inj (Option.some.inj form)).1.symm
      · contradiction

theorem indexed_cases {rn : Reg} {valRn offset : Word} {q : ArmCore}
    (form : indexed p ins rn valRn offset = some (q, address)) :
    q = p ∨ (getBit ins 24 && !getBit ins 21) = false ∧
      q = armWriteRegister p rn (moved ins valRn offset) := by
  have state := indexed_state p ins address form
  cases offsetForm : getBit ins 24 && !getBit ins 21 with
  | true =>
    rw [offsetForm] at state
    exact .inl state
  | false =>
    rw [offsetForm] at state
    exact .inr ⟨rfl, state⟩

/-- Where the two handlers of single transfers agree: without a form they end as
undefined, else their operation gets the state and the address of the form. -/
def afterForm (p : ArmCore) (form : Option (ArmCore × Word))
    (operation : ArmCore → Word → ArmCore × ArmException) : ArmCore × ArmException :=
  match form with
  | none => (p, .undefinedInstruction)
  | some (q, address) => operation q address

theorem armLoadStore_eq : armLoadStore h junk p ins = afterForm p
    (indexed p ins (getReg ins 19 16) (armReadRegister p (getReg ins 19 16))
    (loadStoreOffset p ins))
    fun q address => loadStoreSwitch h junk q ins (getReg ins 15 12) address := rfl

theorem armLoadStoreMiscellaneous_eq : armLoadStoreMiscellaneous h junk p ins = afterForm p
    (indexed p ins (getReg ins 19 16) (armReadRegister p (getReg ins 19 16))
      (miscellaneousOffset p ins))
    fun q address => miscellaneousSwitch h junk q ins (getReg ins 15 12) address := by
  rw [armLoadStoreMiscellaneous]
  simp only [indexedMiscellaneous_eq]
  rfl

end Shapes

section Blocks

variable (h : Platform) (rList : Half)

@[simp] theorem endTransfer_core (t : Transfer) (eAdd : Word) :
    (endTransfer t eAdd).1 = t.core := by
  unfold endTransfer
  split <;> rfl

section Loops

variable {h : Platform} {rList : Half} {write : ArmCore → Reg → Word → ArmCore}
  {read : ArmCore → Reg → Word} {i : Reg} {p : ArmCore} {address : Word} (is : List Reg)
  (value : Word)

theorem loadLoop_skip (unlisted : getBit rList i.toNat = false) :
    loadLoop h write rList (i :: is) p address value =
      loadLoop h write rList is p address value := by
  rw [loadLoop, if_neg (by simp only [unlisted, Bool.false_eq_true, not_false_eq_true])]

theorem loadLoop_load (listed : getBit rList i.toNat = true)
    (inside : outside h p address 4 = false) :
    loadLoop h write rList (i :: is) p address value =
      loadLoop h write rList is (write p i (p.wordAt h address)) (address + 4#32)
        (p.wordAt h address) := by
  simp only [loadLoop, listed, armReadWord_eq, inside, if_true, Bool.false_eq_true, if_false]

theorem loadLoop_abort (listed : getBit rList i.toNat = true)
    (failed : outside h p address 4 = true) :
    loadLoop h write rList (i :: is) p address value =
      ⟨p, address + 4#32, value, .dataAbort⟩ := by
  simp only [loadLoop, listed, armReadWord_eq, failed, if_true, reduceCtorEq, if_false]

theorem storeLoop_skip (unlisted : getBit rList i.toNat = false) :
    storeLoop h read rList (i :: is) p address value =
      storeLoop h read rList is p address value := by
  rw [storeLoop, if_neg (by simp only [unlisted, Bool.false_eq_true, not_false_eq_true])]

theorem storeLoop_store (listed : getBit rList i.toNat = true)
    (inside : outside h p address 4 = false) :
    storeLoop h read rList (i :: is) p address value =
      storeLoop h read rList is
        { p with mem := p.mem.put h (getBit p.cpsr Psr.e) address (read p i) } (address + 4#32)
        (read p i) := by
  simp only [storeLoop, listed, armWriteWord_eq, inside, if_true, Bool.false_eq_true, if_false]

theorem storeLoop_abort (listed : getBit rList i.toNat = true)
    (failed : outside h p address 4 = true) :
    storeLoop h read rList (i :: is) p address value =
      ⟨p, address + 4#32, read p i, .dataAbort⟩ := by
  simp only [storeLoop, listed, armWriteWord_eq, failed, if_true, reduceCtorEq, if_false]

end Loops

theorem endTransfer_of_end {t : Transfer} {eAdd : Word} (ends : eAdd = t.address - 4#32) :
    endTransfer t eAdd = (t.core, .returned t.result) :=
  if_pos ends

theorem endTransfer_returned {t : Transfer} {eAdd : Word} {e : ArmException}
    (ends : (endTransfer t eAdd).2 = .returned e) : eAdd = t.address - 4#32 ∧ t.result = e := by
  unfold endTransfer at ends
  split at ends
  · rename_i met
    exact ⟨met, Outcome.returned.inj ends⟩
  · contradiction

theorem loadLoop_keeps (keeps : ArmCore → ArmCore → Prop) (refl : ∀ p, keeps p p)
    (trans : ∀ {p q r}, keeps p q → keeps q r → keeps p r)
    {write : ArmCore → Reg → Word → ArmCore} {is : List Reg}
    (step : ∀ i ∈ is, ∀ q value, keeps q (write q i value)) (p : ArmCore) (address value : Word) :
    keeps p (loadLoop h write rList is p address value).core := by
  induction is generalizing p address value with
  | nil => exact refl p
  | cons i is ih =>
    have rest := ih fun j inside => step j (List.mem_cons_of_mem i inside)
    cases listed : getBit rList i.toNat with
    | false => exact loadLoop_skip is value listed ▸ rest p address value
    | true =>
      cases bounds : outside h p address 4 with
      | false =>
        rw [loadLoop_load is value listed bounds]
        exact trans (step i List.mem_cons_self p _) (rest _ _ _)
      | true => exact loadLoop_abort is value listed bounds ▸ refl p

theorem storeLoop_core (read : ArmCore → Reg → Word) (is : List Reg) (p : ArmCore)
    (address value : Word) :
    ∃ mem, (storeLoop h read rList is p address value).core = { p with mem := mem } := by
  induction is generalizing p address value with
  | nil => exact ⟨p.mem, rfl⟩
  | cons i is ih =>
    cases listed : getBit rList i.toNat with
    | false => exact storeLoop_skip is value listed ▸ ih p address value
    | true =>
      cases bounds : outside h p address 4 with
      | false =>
        rw [storeLoop_store is value listed bounds]
        exact ih _ _ _
      | true => exact ⟨p.mem, by rw [storeLoop_abort is value listed bounds]⟩

def Transfer.Ends (t : Transfer) : Prop := t.result = .noException ∨ t.result = .dataAbort

theorem loadLoop_ends (write : ArmCore → Reg → Word → ArmCore) (is : List Reg) (p : ArmCore)
    (address value : Word) : (loadLoop h write rList is p address value).Ends := by
  induction is generalizing p address value with
  | nil => exact .inl rfl
  | cons i is ih =>
    cases listed : getBit rList i.toNat with
    | false => exact loadLoop_skip is value listed ▸ ih p address value
    | true =>
      cases bounds : outside h p address 4 with
      | false => exact loadLoop_load is value listed bounds ▸ ih _ _ _
      | true => exact loadLoop_abort is value listed bounds ▸ .inr rfl

theorem storeLoop_ends (read : ArmCore → Reg → Word) (is : List Reg) (p : ArmCore)
    (address value : Word) : (storeLoop h read rList is p address value).Ends := by
  induction is generalizing p address value with
  | nil => exact .inl rfl
  | cons i is ih =>
    cases listed : getBit rList i.toNat with
    | false => exact storeLoop_skip is value listed ▸ ih p address value
    | true =>
      cases bounds : outside h p address 4 with
      | false => exact storeLoop_store is value listed bounds ▸ ih _ _ _
      | true => exact storeLoop_abort is value listed bounds ▸ .inr rfl

theorem armReadWord_ends (p : ArmCore) (address value : Word) :
    (armReadWord h p address value).2 = .noException ∨
      (armReadWord h p address value).2 = .dataAbort := by
  rw [armReadWord_eq]
  split
  · exact .inr rfl
  · exact .inl rfl

theorem ldm1Pc_ends {t : Transfer} (ends : t.Ends) : (ldm1Pc h rList t).Ends := by
  rw [ldm1Pc]
  split
  · exact armReadWord_ends h _ _ _
  · exact ends

theorem ldm3Pc_ends {t : Transfer} (ends : t.Ends) : (ldm3Pc h t).Ends := by
  rw [ldm3Pc]
  split
  · exact armReadWord_ends h _ _ _
  · exact ends

theorem blockBounds_end (ins valRn : Word) (n : Nat) :
    (blockBounds ins valRn n).2 = (blockBounds ins valRn n).1 + BitVec.ofNat 32 (4 * n) - 4#32 := by
  rw [blockBounds, Nat.mul_comm n 4]
  generalize BitVec.ofNat 32 (4 * n) = size
  split <;> split <;> bv_omega

end Blocks

end ArmSimulator
