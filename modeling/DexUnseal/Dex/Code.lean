import DexUnseal.Dex.Reader
/-!
Method bodies. Debug information and the list of catch handlers point only into the pools and into
themselves, so they are kept as the bytes they are; to know where they end they are stepped over.
-/

namespace DexUnseal.Dex

structure Try where
  start : UInt32
  count : UInt16
  handler : UInt16
  deriving DecidableEq

structure Code where
  registers : UInt16
  ins : UInt16
  outs : UInt16
  debugInfo : Option Bytes
  instructions : List UInt16
  tries : List Try
  handlers : Bytes
  deriving DecidableEq

open Reader

namespace Try

def read : Reader Try := do
  let start ← u32
  let count ← u16
  let handler ← u16
  return ⟨start, count, handler⟩

def encode (t : Try) : Bytes := Bytes.word32 t.start ++ Bytes.word16 t.count ++ Bytes.word16 t.handler

end Try

namespace DebugInfo

def endSequence : UInt8 := 0x00

def operandCount (opcode : UInt8) : Nat :=
  match opcode.toNat with
  | 0x01 | 0x05 | 0x06 | 0x09 => 1
  | 0x03 => 3
  | 0x04 => 4
  | _ => 0

def advanceLine : UInt8 := 0x02

def skipOperands (opcode : UInt8) : Reader Unit :=
  if opcode = advanceLine then discard sleb128 else discard (repeated uleb128 (operandCount opcode))

def skipOpcodes : (fuel : Nat) → Reader Unit
  | 0 => discard u8
  | fuel + 1 => do
    let opcode ← u8
    if opcode = endSequence then return
    skipOperands opcode
    skipOpcodes fuel

/-- Every opcode takes a byte, so the bytes that are left bound the number of opcodes. -/
def skipSequence : Reader Unit := do
  let c ← cursor
  skipOpcodes (c.rest.length + 1)

def skip : Reader Unit := do
  discard uleb128
  let parameterCount ← uleb128
  discard (repeated uleb128 parameterCount.toNat)
  skipSequence

end DebugInfo

def captured (skip : Reader Unit) : Reader Bytes := do
  let start ← cursor
  skip
  let stop ← cursor
  return start.upTo stop

namespace Handlers

/-- A size, its pairs of type and address, and a catch-all address unless the size is positive. -/
def skipHandler : Reader Unit := do
  let size ← sleb128
  discard (repeated (do discard uleb128; discard uleb128) size.toInt.natAbs)
  if size ≤ 0 then discard uleb128

def skip (codeStart : Nat) : Reader Unit := do
  let count ← uleb128
  discard (counted (fun i => do
    let c ← cursor
    within (.catchHandler (i + 1) count.toNat c.position codeStart) skipHandler) 0 count.toNat)

end Handlers

namespace Code

def readDebugInfo (file : Bytes) : (offset : UInt32) → Except Fault (Option Bytes) :=
  optional fun offset =>
    inContext (.debugInfo offset.toNat) ((captured DebugInfo.skip).readAt file offset.toNat)

def readInstructions (codeStart : Nat) : Reader (List UInt16) := do
  let size ← u32
  let c ← cursor
  refuseIf (c.rest.length < size.toNat * 2) (.instructionsOverrun size codeStart)
  repeated u16 size.toNat

/-- Tries with the handlers that follow them, into which each has to point. -/
def readGuards (codeStart count : Nat) : Reader (List Try × Bytes) := do
  let tries ← repeated Try.read count
  let handlers ← captured (Handlers.skip codeStart)
  match tries.find? fun t => handlers.length ≤ t.handler.toNat with
  | some t => fail (.handlerOutside t.handler codeStart)
  | none => return (tries, handlers)

/-- Tries are aligned to words. -/
def readTries (codeStart : Nat) (count : UInt16) (instructionCount : Nat) : Reader (List Try × Bytes) := do
  if count = 0 then return ([], [])
  if instructionCount % 2 = 1 then discard u16
  readGuards codeStart count.toNat

def read (file : Bytes) : Reader Code := do
  let start ← cursor
  let registers ← u16
  let ins ← u16
  let outs ← u16
  let tryCount ← u16
  let debugOffset ← u32
  let debugInfo ← readDebugInfo file debugOffset
  let instructions ← readInstructions start.position
  let (tries, handlers) ← readTries start.position tryCount instructions.length
  return ⟨registers, ins, outs, debugInfo, instructions, tries, handlers⟩

def encodeTries (code : Code) : Bytes :=
  if code.tries.isEmpty then []
  else (if code.instructions.length % 2 = 1 then Bytes.word16 0 else [])
    ++ code.tries.flatMap Try.encode ++ code.handlers

def encode (code : Code) (debugOffset : UInt32) : Bytes :=
  Bytes.word16 code.registers ++ Bytes.word16 code.ins ++ Bytes.word16 code.outs
    ++ Bytes.word16 (UInt16.ofNat code.tries.length) ++ Bytes.word32 debugOffset
    ++ Bytes.word32 (UInt32.ofNat code.instructions.length) ++ code.instructions.flatMap Bytes.word16
    ++ code.encodeTries

def mostTries : Nat := 65535

end Code

end DexUnseal.Dex
