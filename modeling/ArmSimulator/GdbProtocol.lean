import ArmSimulator.Library.CString
import ArmSimulator.Instruction

/-! gdb_protocol.c: the packets of a connection, the handlers of the requests and
the dispatch. A pointer into a packet is the rest of the input buffer from there
on, so that what follows a packet is part of what a handler can read. The memory
of the connection is the memory of the processor; the lock and the debug
messages have no effect on what is sent and are left out. -/
namespace ArmSimulator
open CString

def maxPacketSize : Nat := 1024

/-- `char packet[MAX_PACKET_SIZE]`. -/
structure Packet where
  bytes : List Byte
  length_eq : bytes.length = maxPacketSize

/-- How a call fails to return: it writes or reads outside an array, reads
through a null pointer, leaves the program, or does not come to an end. -/
inductive Fault where
  | overflow
  | overread
  | nullPointer
  | exited
  | assertFailed
  | unfinished
deriving DecidableEq, Repr

inductive GdbCall where
  | write (bytes : List Byte)
  | shutdown
deriving DecidableEq

/-- The connection; `calls` are the calls on `fd` so far. -/
structure Gdb where
  arm : ArmCore
  targetException : ArmException
  calls : List GdbCall
  packet : Packet
  len : Nat

/-- The packet array comes uninitialised from malloc. -/
def gdbInitData (arm : ArmCore) (packet : Packet) : Gdb := ⟨arm, .noException, [], packet, 0⟩

/-- What the uninitialised locals of the handlers hold when they are called; `step` is
about the locals of each step of the processor. -/
structure Locals where
  given : Word
  address : Word
  size : Word
  reg : Word
  value : Word
  mem : Word
  instruction : Word
  step : Nat → Word

/-- The index of `gdb->buffer` in the packet. -/
def buffer : Nat := 1

abbrev Answer := Except Fault Gdb

def Gdb.put (g : Gdb) (pos : Nat) (bs : List Byte) : Answer :=
  if inside : pos + bs.length ≤ maxPacketSize then
    .ok { g with packet := ⟨overwrite g.packet.bytes pos bs, by
      rw [length_overwrite (by rw [g.packet.length_eq]; exact inside), g.packet.length_eq]⟩ }
  else .error .overflow

/-- `Rio_writen` while the writing side is open, as every handler finds it behind the
acknowledgement of its request. `Event.exits` is about a write behind a shutdown. -/
def rioWriten (g : Gdb) (bytes : List Byte) : Gdb := { g with calls := g.calls ++ [.write bytes] }

def gdbSendAck (g : Gdb) : Gdb := rioWriten g (text "+")

def gdbRequireRetransmission (g : Gdb) : Gdb := rioWriten g (text "-")

def gdbTransmitPacket (g : Gdb) : Gdb := rioWriten g (g.packet.bytes.take g.len)

/-- `while (gdb->packet[i] != '\0')`, over the chars from `packet[i]` on. -/
def checkLoop : List Byte → Byte → Nat → Option (Byte × Nat)
  | [], _, _ => none
  | b :: rest, check, i => if b = 0#8 then some (check, i) else checkLoop rest (check + b) (i + 1)

def gdbSendBuffer (g : Gdb) : Answer := do
  let g ← g.put 0 [ch '$']
  match checkLoop (g.packet.bytes.drop 1) 0#8 1 with
  | none => .error .overread
  | some (check, i) =>
    let g ← g.put i [ch '#']
    let g ← g.put (i + 1) (hex2 check ++ [0#8])
    let g ← g.put (i + 3) [0#8]
    .ok (gdbTransmitPacket { g with len := i + 3 })

def gdbSendData (g : Gdb) (data : List Byte) : Answer := do
  let g ← g.put buffer (data ++ [0#8])
  gdbSendBuffer g

def stringAt (data : List Byte) : Except Fault (List Byte) :=
  match cString data with
  | some s => .ok s
  | none => .error .overread

section Words

variable (h : Platform)

/-- The values of `i` in `for (; (i<4) && (i>=0); i+=step)`. -/
def wordLoop (step : Word) : Nat → Word → List Nat
  | 0, _ => []
  | fuel + 1, i => if i < 4#32 then i.toNat :: wordLoop step fuel (i + step) else []

def wordIndices : List Nat :=
  if h.isBigEndian = h.bigEndianSimulator then wordLoop 1#32 5 0#32 else wordLoop (-1#32) 5 3#32

def readWordBytes (data : List Byte) (value : Word) (bytes : List Byte) :
    List Nat → Except Fault (List Byte)
  | [] => .ok bytes
  | i :: rest => do
    let s ← stringAt data
    let value := (scanHexField h.sizeTBits 2 s).getD value
    readWordBytes (data.drop 2) value (bytes.set i (value.setWidth 8)) rest

def readUint32 (e : Locals) (data : List Byte) : Except Fault Word := do
  let bytes ← readWordBytes h data e.value (hostBytes h e.mem) (wordIndices h)
  .ok (ofHostBytes h 32 bytes)

def writeWordBytes (g : Gdb) (pos : Nat) (bytes : List Byte) : List Nat → Answer
  | [] => g.put pos [0#8]
  | i :: rest => do
    let g ← g.put pos (hex2 (bytes.getD i 0#8) ++ [0#8])
    writeWordBytes g (pos + 2) bytes rest

def writeUint32 (g : Gdb) (pos : Nat) (value : Word) : Answer :=
  writeWordBytes g pos (hostBytes h value) (wordIndices h)

end Words

def gdbSendStopReason (g : Gdb) : Answer :=
  match g.targetException with
  | .undefinedInstruction => gdbSendData g (text "S04")
  | .prefetchAbort => gdbSendData g (text "S10")
  | .dataAbort => gdbSendData g (text "S10")
  | _ => gdbSendData g (text "S05")

namespace Gdb

variable (h : Platform) (e : Locals) (g : Gdb) (data : List Byte)

/-- `gdb->target_exception = arm_step(gdb->arm)`, in the step number `k` of a handler. -/
def armStepOf (k : Nat) : Answer :=
  match armStep h (e.step k) g.arm with
  | (arm, .returned result) => .ok { g with arm := arm, targetException := result }
  | (_, .exited) => .error .exited
  | (_, .assertFailed) => .error .assertFailed

/-- The loop of `cont`, of which `fuel` rounds are looked at. -/
def contLoop : Nat → Nat → Word → Gdb → Answer
  | 0, _, _, _ => .error .unfinished
  | fuel + 1, k, instruction, g => do
    let r15 := armReadRegister g.arm Reg.pc - 4#32
    let instruction := (armReadWord h g.arm r15 instruction).1
    if instruction &&& 0xFFF000F0#32 = 0xE7F000F0#32 then gdbSendStopReason g
    else
      let g ← armStepOf h e g k
      contLoop fuel (k + 1) instruction g

def cont (fuel : Nat) : Answer := contLoop h e fuel 0 e.instruction g

def killRequest : Answer := .ok { g with calls := g.calls ++ [.shutdown] }

def query : Answer := do
  let s ← stringAt data
  if s = text "Offsets" then gdbSendData g (text "Text=0;Data=0;Bss=0")
  else if s.take 9 = text "Supported" then gdbSendData g (text "PacketSize=400")
  else if s = text "TStatus" then gdbSendData g (text "T0;tnotrun:0")
  else if s = text "Symbol::" then gdbSendData g []
  else gdbSendData g []

def writeWords (pos : Nat) : List Word → Gdb → Answer
  | [], g => .ok g
  | value :: rest, g => do
    let g ← writeUint32 h g pos value
    writeWords (pos + 8) rest g

def writeUnknown (pos : Nat) : Nat → Gdb → Answer
  | 0, g => .ok g
  | n + 1, g => do
    let g ← g.put pos (text "xxxxxxxx" ++ [0#8])
    writeUnknown (pos + 8) n g

def generalRegisters (p : ArmCore) : List Word :=
  (List.range 15).map (fun i => armReadRegister p (BitVec.ofNat 4 i)) ++
    [armReadRegister p Reg.pc - 4#32]

def readGeneralRegisters : Answer := do
  let g ← writeWords h buffer (generalRegisters g.arm) g
  let g ← writeUnknown (buffer + 128) 24 g
  let g ← writeUnknown (buffer + 320) 1 g
  let g ← writeUint32 h g (buffer + 328) (armReadCpsr g.arm)
  gdbSendBuffer g

def readMemoryLoop : Nat → Word → Byte → Nat → Gdb → Answer
  | 0, _, _, _, g => .ok g
  | size + 1, address, value, pos, g =>
    let r := memoryReadByte h g.arm.mem address value
    if r.2 = -1 then .ok g
    else do
      let g ← g.put pos (hex2 r.1 ++ [0#8])
      readMemoryLoop size (address + 1#32) r.1 (pos + 2) g

def readMemory : Answer := do
  let s ← stringAt data
  let fields := scanHexPair h.sizeTBits s
  let g ← g.put buffer [0#8]
  let g ← readMemoryLoop h (fields.2.getD e.size).toNat (fields.1.getD e.address)
    (e.value.setWidth 8) buffer g
  gdbSendBuffer g

def readRegister : Answer := do
  let s ← stringAt data
  let reg := atoi h.sizeTBits s
  if reg < 16#32 then
    let offset := if reg = 15#32 then 4#32 else 0#32
    let g ← writeUint32 h g buffer (armReadRegister g.arm (reg.setWidth 4) - offset)
    gdbSendBuffer g
  else .error .assertFailed

def reason : Answer := gdbSendStopReason g

def setThread : Answer :=
  match data with
  | [] => .error .overread
  | type :: rest => do
    let s ← stringAt rest
    let value := (atoi h.sizeTBits s).toInt
    if (type = ch 'c' ∨ type = ch 'g') ∧ value < 1 ∧ value > -2 then gdbSendData g (text "OK")
    else gdbSendData g (text "E01")

def step : Answer := do
  let g ← armStepOf h e g 0
  gdbSendStopReason g

def writeRegisters (position : List Byte) : List Nat → ArmCore → Except Fault ArmCore
  | [], p => .ok p
  | i :: rest, p => do
    let value ← readUint32 h e position
    writeRegisters (position.drop 8) rest (armWriteRegister p (BitVec.ofNat 4 i) value)

def skipWords (position : List Byte) : Nat → Except Fault Unit
  | 0 => .ok ()
  | n + 1 => do
    let _ ← readUint32 h e position
    skipWords (position.drop 8) n

def writeGeneralRegisters : Answer := do
  let p ← writeRegisters h e data (List.range 16) g.arm
  skipWords h e (data.drop 128) 24
  skipWords h e (data.drop 320) 1
  let value ← readUint32 h e (data.drop 328)
  gdbSendData { g with arm := armWriteCpsr p value } (text "OK")

def decodeByte : Option (List Byte) → Except Fault (Byte × List Byte)
  | none => .error .nullPointer
  | some [] => .error .overread
  | some (c :: rest) =>
    if c = 0x7d#8 then
      match rest with
      | [] => .error .overread
      | c :: rest => .ok (c ^^^ 0x20#8, rest)
    else .ok (c, rest)

def downloadLoop : Nat → Option (List Byte) → Word → Memory → Except Fault (Memory × Bool)
  | 0, _, _, mem => .ok (mem, true)
  | size + 1, content, address, mem => do
    let (value, rest) ← decodeByte content
    let r := memoryWriteByte h mem address value
    if r.2 = 0 then downloadLoop size (some rest) (address + 1#32) r.1 else .ok (r.1, false)

def writeMemoryBinary : Answer := do
  let s ← stringAt data
  let fields := scanHexPair h.sizeTBits s
  let address := fields.1.getD e.address
  let content := (index (ch ':') data).map List.tail
  let r ← if address.toNat < g.arm.mem.size then
      downloadLoop h (fields.2.getD e.size).toNat content address g.arm.mem
    else .ok (g.arm.mem, false)
  let g := { g with arm := { g.arm with mem := r.1 } }
  if r.2 then gdbSendData g (text "OK") else gdbSendData g (text "E02")

def writeRegister : Answer := do
  let s ← stringAt data
  let reg := ((scanHex h.sizeTBits s).map Prod.fst).getD e.reg
  match index (ch '=') data with
  | none => .error .nullPointer
  | some data =>
    let value ← readUint32 h e data.tail
    if reg < 16#32 then
      gdbSendData { g with arm := armWriteRegister g.arm (reg.setWidth 4) value } (text "OK")
    else .error .assertFailed

end Gdb

inductive GdbHandler where
  | cont
  | killRequest
  | query
  | readGeneralRegisters
  | readMemory
  | readRegister
  | reason
  | setThread
  | step
  | writeGeneralRegisters
  | writeMemoryBinary
  | writeRegister
deriving DecidableEq, Repr

def gdbHandlers : List (Byte × GdbHandler) :=
  [(ch 'c', .cont), (ch 'k', .killRequest), (ch 'q', .query), (ch 'g', .readGeneralRegisters),
    (ch 'm', .readMemory), (ch 'p', .readRegister), (ch '?', .reason), (ch 'H', .setThread),
    (ch 's', .step), (ch 'G', .writeGeneralRegisters), (ch 'X', .writeMemoryBinary),
    (ch 'P', .writeRegister)]

section Dispatch

variable (h : Platform) (e : Locals) (fuel : Nat) (g : Gdb)

def GdbHandler.run (handler : GdbHandler) (data : List Byte) : Answer :=
  match handler with
  | .cont => g.cont h e fuel
  | .killRequest => g.killRequest
  | .query => g.query data
  | .readGeneralRegisters => g.readGeneralRegisters h
  | .readMemory => g.readMemory h e data
  | .readRegister => g.readRegister h data
  | .reason => g.reason
  | .setThread => g.setThread h data
  | .step => g.step h e
  | .writeGeneralRegisters => g.writeGeneralRegisters h e data
  | .writeMemoryBinary => g.writeMemoryBinary h e data
  | .writeRegister => g.writeRegister h e data

def gdbDispatch (index : Byte) (data : List Byte) : Answer :=
  match gdbHandlers.lookup index with
  | some handler => handler.run h e fuel g data
  | none => gdbSendData g []

/-- `packet` is the input buffer from the packet on; the packet itself has `length` chars. -/
def gdbPacketAnalysis (packet : List Byte) (length : Nat) : Answer := do
  let i := max 1 (length - 3)
  let check := ((packet.take i).drop 1).foldl (· + ·) 0#8
  let s ← stringAt (packet.drop (i + 1))
  let given := ((scanHex h.sizeTBits s).map Prod.fst).getD e.given
  if check.setWidth 32 = given then
    let packet := packet.set i 0#8
    gdbDispatch h e fuel (gdbSendAck g) (packet.getD 1 0#8) (packet.drop 2)
  else .ok (gdbRequireRetransmission g)

end Dispatch

def sampleGdb : Gdb :=
  gdbInitData (armCreate lp64 (sampleCore 0#32 0#32) (repeatedWord 0#32))
    ⟨List.replicate maxPacketSize 0#8, by simp⟩

def sampleLocals : Locals := ⟨0#32, 0#32, 0#32, 0#32, 0#32, 0#32, 0#32, fun _ => 0#32⟩

end ArmSimulator
