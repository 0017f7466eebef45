import DexUnseal.Dex.Code
import DexUnseal.Dex.Machine
/-!
Method bodies, read on words.
-/

namespace DexUnseal.Dex.Machine

def guardedBlock : Machine Try := advancing do
  let start ← u32
  let count ← u16
  let handler ← u16
  return ⟨start, count, handler⟩

def skipOperands (opcode : UInt8) : Machine Unit :=
  if opcode = DebugInfo.advanceLine then discard sleb128
  else discard (repeated uleb128 (DebugInfo.operandCount opcode))

def skipOpcode : Machine Bool := do
  let opcode ← u8
  if opcode = DebugInfo.endSequence then return true
  else
    skipOperands opcode
    return false

def skipDebugInfo : Machine Unit := advancing do
  discard uleb128
  let parameterCount ← uleb128
  discard (repeated uleb128 parameterCount.toNat)
  loopUntil skipOpcode (← file).length

def debugInfo (offset : UInt32) : Machine Bytes :=
  within (.debugInfo offset.toNat) (readAt offset.toNat do
    skipDebugInfo
    let stop ← position
    slice (← file) offset.toNat stop)

def skipHandler : Machine Unit := advancing do
  let size ← sleb128
  discard (repeated (do discard uleb128; discard uleb128) size.toInt.natAbs)
  if size ≤ 0 then discard uleb128 else pure ()

def skipHandlers (codeStart : Nat) : Machine Unit := do
  let count ← uleb128
  discard (loop (fun i => do
    let start ← position
    let number ← add 32 i 1
    within (.catchHandler number count.toNat start codeStart) skipHandler) count.toNat)

def instructions (codeStart : Nat) : Machine (List UInt16) := do
  let size ← u32
  let left := (← file).length - (← position)
  refuseIf (left < min (size.toNat * 2) (2 ^ 64 - 1)) (.instructionsOverrun size codeStart)
  repeated u16 size.toNat

def padding : Machine Unit := do
  let value ← u16
  if value = 0 then pure ()
  else
    let _ ← sub (← position) 2
    return

def guards (codeStart count : Nat) : Machine (List Try × Bytes) := do
  let tries ← repeated guardedBlock count
  let start ← position
  skipHandlers codeStart
  let stop ← position
  let length ← sub stop start
  match tries.find? fun t => length ≤ t.handler.toNat with
  | some t => fail (.handlerOutside t.handler codeStart)
  | none => return (tries, ← slice (← file) start stop)

def tries (codeStart : Nat) (count : UInt16) (instructionCount : Nat) : Machine (List Try × Bytes) :=
  if count = 0 then pure ([], [])
  else do
    if instructionCount % 2 = 1 then padding else pure ()
    guards codeStart count.toNat

def code : Machine Code := advancing do
  let start ← position
  let registers ← u16
  let ins ← u16
  let outs ← u16
  let tryCount ← u16
  let debugOffset ← u32
  let debugInfo ← optional debugInfo debugOffset
  let instructions ← instructions start
  let (tries, handlers) ← tries start tryCount instructions.length
  return ⟨registers, ins, outs, debugInfo, instructions, tries, handlers⟩

end DexUnseal.Dex.Machine
