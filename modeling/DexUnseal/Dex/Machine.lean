import DexUnseal.Dex.StringItem
import Mathlib.Algebra.Group.Nat.Defs
/-!
Reading on words of 64 bits. Numbers of a fixed width can overflow, shifts can be too wide, and
there is nothing outside a slice: each such operation is a hazard, not a fault of the file.

Besides, every reader and every loop keeps watch over its progress. A program does not do that; that
the watch never finds anything is what makes its readers advance and its loops end.
-/

namespace DexUnseal.Dex

inductive Hazard where
  | outOfRange
  | lengthMismatch
  | overflow
  | shiftTooWide
  /-- A reader succeeds without having moved forward inside the file. -/
  | stalled
  /-- A loop succeeds more often than the file has bytes, or values nest too deep. -/
  | runaway
  deriving DecidableEq

inductive Halt where
  | fault (f : Fault)
  | hazard (h : Hazard)
  deriving DecidableEq

def Halt.within (context : Context) : Halt → Halt
  | fault f => fault (f.within context)
  | hazard h => hazard h

/-- What a program can hold: no object takes more than half of the addresses. -/
abbrev Image := { bytes : Bytes // bytes.length < 2 ^ 63 }

abbrev Machine := ReaderT Image (StateT Nat (Except Halt))

namespace Machine

def halt (hazard : Hazard) : Machine α := fun _ _ => .error (.hazard hazard)

def failHere (cause : Nat → Cause) : Machine α := fun _ ix => .error (.fault (.ofCause (cause ix)))

def fail (cause : Cause) : Machine α := failHere fun _ => cause

def refuseIf (condition : Prop) [Decidable condition] (cause : Cause) : Machine Unit :=
  if condition then fail cause else pure ()

def haltIf (condition : Prop) [Decidable condition] (hazard : Hazard) : Machine Unit :=
  if condition then halt hazard else pure ()

def given (result : Except Fault α) : Machine α := fun _ ix =>
  match result with
  | .ok x => .ok (x, ix)
  | .error fault => .error (.fault fault)

def file : Machine Bytes := Subtype.val <$> read

def position : Machine Nat := get

def add (bits a b : Nat) : Machine Nat := do
  haltIf (2 ^ bits ≤ a + b) .overflow
  return a + b

def sub (a b : Nat) : Machine Nat := do
  haltIf (a < b) .overflow
  return a - b

def mul (bits a b : Nat) : Machine Nat := do
  haltIf (2 ^ bits ≤ a * b) .overflow
  return a * b

def shiftLeft (bits n count : Nat) : Machine Nat := do
  haltIf (bits ≤ count) .shiftTooWide
  return (n <<< count) % 2 ^ bits

def shiftRight (bits n count : Nat) : Machine Nat := do
  haltIf (bits ≤ count) .shiftTooWide
  return n >>> count

def shiftRightSigned (bits n count : Nat) : Machine Int := do
  haltIf (bits ≤ count) .shiftTooWide
  return (n : Int).bmod (2 ^ bits) >>> count

def index (bytes : Bytes) (i : Nat) : Machine UInt8 :=
  match bytes[i]? with
  | some b => pure b
  | none => halt .outOfRange

def slice (bytes : Bytes) (start stop : Nat) : Machine Bytes := do
  haltIf (stop < start ∨ bytes.length < stop) .outOfRange
  return (bytes.take stop).drop start

def copy (n : Nat) (bytes : Bytes) : Machine (Block n) :=
  if h : bytes.length = n then pure ⟨bytes, h⟩ else halt .lengthMismatch

def advance (n : Nat) : Machine Unit := do
  set (← add 64 (← position) n)

def readAt (offset : Nat) (reader : Machine α) : Machine α := fun image ix =>
  (fun (x, _) => (x, ix)) <$> reader image offset

def unlessZero (reader : Machine α) (default : α) (offset : UInt32) : Machine α :=
  if offset = 0 then pure default else readAt offset.toNat reader

def optional (find : UInt32 → Machine α) (offset : UInt32) : Machine (Option α) :=
  if offset = 0 then pure none else some <$> find offset

def within (context : Context) (reader : Machine α) : Machine α := fun image ix =>
  (reader image ix).mapError (Halt.within context)

def advancing (reader : Machine α) : Machine α := do
  let start ← position
  let x ← reader
  let stop ← position
  haltIf (stop ≤ start ∨ (← file).length < stop) .stalled
  return x

def countIteration (done : Nat) : Machine Unit := do
  haltIf ((← file).length ≤ done) .runaway

def iterations (step : Nat → σ → Machine (α × σ)) : (done left : Nat) → σ → Machine (List α)
  | _, 0, _ => pure []
  | done, left + 1, s => do
    let (x, s) ← advancing (step done s)
    countIteration done
    let xs ← iterations step (done + 1) left s
    return x :: xs

def loop (item : Nat → Machine α) (count : Nat) : Machine (List α) :=
  iterations (fun i () => (·, ()) <$> item i) 0 count ()

def repeated (item : Machine α) (count : Nat) : Machine (List α) := loop (fun _ => item) count

/-- Iterations until one tells that it was the last; `left` more of them may succeed. -/
def loopUntil (step : Machine Bool) : (left : Nat) → Machine Unit
  | 0 => do
    let _ ← advancing step
    halt .runaway
  | left + 1 => do
    if ← advancing step then pure () else loopUntil step left

def bytesFrom (bytes : Bytes) (start : Nat) : (i left : Nat) → Machine Bytes
  | _, 0 => pure []
  | i, left + 1 => do
    let b ← index bytes (← add 64 start i)
    let rest ← bytesFrom bytes start (i + 1) left
    return b :: rest

def number (primitive : Primitive) (width : Nat) : Machine Nat := advancing do
  let start ← position
  let stop ← add 64 start width
  let bytes ← file
  refuseIf (bytes.length < stop) (.endOfStream primitive start)
  let number ← bytesFrom bytes start 0 width
  advance width
  return Bytes.ofLittleEndian number

def u8 : Machine UInt8 := UInt8.ofNat <$> number .u1 1

def u16 : Machine UInt16 := UInt16.ofNat <$> number .u2 2

def u32 : Machine UInt32 := UInt32.ofNat <$> number .u4 4

def rest : Machine Bytes := do
  return (← file).drop (← position)

/-- The groups of a LEB128 number in a word of 32 bits, the last byte, and how many went before it. -/
def groups : (encoded : Bytes) → (count value : Nat) → Machine (Option (Nat × UInt8 × Nat))
  | [], _, _ => pure none
  | byte :: encoded, count, value => do
    let group ← shiftLeft 32 (byte.toNat &&& 0x7f) (← mul 32 7 count)
    let next ← add 64 count 1
    if byte.toNat &&& 0x80 = 0 ∨ next = Leb128.maxLength then return some (value ||| group, byte, count)
    else groups encoded next (value ||| group)

def uleb128 : Machine UInt32 := advancing do
  match ← groups ((← rest).take Leb128.maxLength) 0 0 with
  | some (value, _, count) =>
    advance (← add 64 count 1)
    return UInt32.ofNat value
  | none => failHere (.endOfStream .uleb128)

def extendSign (value : Nat) (last : UInt8) (used : Nat) : Machine Nat :=
  if used < 32 ∧ last.toNat &&& 0x40 ≠ 0 then do
    return value ||| (← shiftLeft 32 (2 ^ 32 - 1) used)
  else pure value

def sleb128 : Machine Int32 := advancing do
  match ← groups ((← rest).take Leb128.maxLength) 0 0 with
  | some (value, last, count) =>
    let value ← extendSign value last (← add 32 (← mul 32 7 count) 7)
    advance (← add 64 count 1)
    return (UInt32.ofNat value).toInt32
  | none => failHere (.endOfStream .sleb128)

def block (n : Nat) : Machine (Block n) := advancing do
  let bytes ← rest
  let start ← position
  refuseIf (bytes.length < n) (.bufferTooShort n start)
  let front ← slice bytes 0 n
  advance n
  copy n front

def terminated : Machine Bytes := do
  let bytes ← rest
  match bytes.findIdx? (· == 0) with
  | some length =>
    let text ← slice bytes 0 length
    advance (← add 64 length 1)
    return text
  | none => failHere .unterminatedString

def text : Machine StringData := advancing do
  let units ← uleb128
  let bytes ← terminated
  return StringData.ofBytes units bytes

end Machine

end DexUnseal.Dex
