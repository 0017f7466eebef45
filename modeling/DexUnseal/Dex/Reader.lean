import DexUnseal.Dex.Fault
import DexUnseal.Leb128
/-!
Readers of consecutive bytes. A cursor holds the bytes that are left and their position in the
file, which only faults mention, so what a reader returns depends on the bytes it consumes.
-/

namespace DexUnseal.Dex

structure Cursor where
  position : Nat
  rest : Bytes
  deriving DecidableEq

abbrev Reader := StateT Cursor (Except Fault)

namespace Cursor

def ofOffset (file : Bytes) (offset : Nat) : Cursor := ⟨offset, file.drop offset⟩

def take? (n : Nat) (c : Cursor) : Option (Block n × Cursor) :=
  let front := c.rest.take n
  if h : front.length = n then some (⟨front, h⟩, ⟨c.position + n, c.rest.drop n⟩) else none

def upTo (start stop : Cursor) : Bytes := start.rest.take (stop.position - start.position)

end Cursor

namespace Reader

def positionBound : Nat := UInt64.size

def fail (cause : Cause) : Reader α := fun _ => .error (.ofCause cause)

def failHere (cause : Nat → Cause) : Reader α := fun c => .error (.ofCause (cause c.position))

def refuseIf (condition : Prop) [Decidable condition] (cause : Cause) : Reader Unit :=
  if condition then fail cause else pure ()

def cursor : Reader Cursor := get

def number (primitive : Primitive) (width : Nat) : Reader Nat := fun c =>
  match c.take? width with
  | some (front, c) => .ok (Bytes.ofLittleEndian front.val, c)
  | none =>
    if c.position + width < positionBound then .error (.ofCause (.endOfStream primitive c.position))
    else .error (.ofCause .positionOverflow)

def u8 : Reader UInt8 := UInt8.ofNat <$> number .u1 1

def u16 : Reader UInt16 := UInt16.ofNat <$> number .u2 2

def u32 : Reader UInt32 := UInt32.ofNat <$> number .u4 4

def block (n : Nat) : Reader (Block n) := fun c =>
  match c.take? n with
  | some result => .ok result
  | none => .error (.ofCause (.bufferTooShort n c.position))

def uleb128 : Reader UInt32 := fun c =>
  match Leb128.decode c.rest with
  | some (value, number, rest) => .ok (value, ⟨c.position + number.length, rest⟩)
  | none => .error (.ofCause (.endOfStream .uleb128 c.position))

def sleb128 : Reader Int32 := fun c =>
  match Leb128.decodeSigned c.rest with
  | some (value, number, rest) => .ok (value, ⟨c.position + number.length, rest⟩)
  | none => .error (.ofCause (.endOfStream .sleb128 c.position))

def counted (item : Nat → Reader α) : (first : Nat) → (count : Nat) → Reader (List α)
  | _, 0 => pure []
  | first, count + 1 => do
    let x ← item first
    let xs ← counted item (first + 1) count
    return x :: xs

def repeated (item : Reader α) (count : Nat) : Reader (List α) := counted (fun _ => item) 0 count

def within (context : Context) (reader : Reader α) : Reader α := fun c => inContext context (reader c)

def readAt (reader : Reader α) (file : Bytes) (offset : Nat) : Except Fault α :=
  reader.run' (.ofOffset file offset)

def readUnlessZero (reader : Reader α) (default : α) (file : Bytes) (offset : UInt32) : Except Fault α :=
  if offset = 0 then pure default else reader.readAt file offset.toNat

def optional (find : UInt32 → Except Fault α) (offset : UInt32) : Except Fault (Option α) :=
  if offset = 0 then pure none else some <$> find offset

end Reader

end DexUnseal.Dex
