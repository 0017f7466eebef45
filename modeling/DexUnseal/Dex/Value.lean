import DexUnseal.Dex.Reader
/-!
Encoded values, the arrays of them, and the annotations they nest with.

A value starts with a byte that holds its type and, for most types, the number of payload bytes
less one. Integers are sign-extended, characters and indices zero-extended, and floating point
numbers extended with zero bytes at the low end. They are kept as bits.
-/

namespace DexUnseal.Dex

inductive IndexKind where
  | methodType
  | methodHandle
  | string
  | type
  | field
  | method
  | enum
  deriving DecidableEq

mutual

inductive Value where
  | byte (v : Int8)
  | short (v : Int16)
  | char (v : UInt16)
  | int (v : Int32)
  | long (v : Int64)
  | float (bits : UInt32)
  | double (bits : UInt64)
  | index (kind : IndexKind) (v : UInt32)
  | array (values : List Value)
  | annotated (a : Annotation)
  | null
  | boolean (v : Bool)

structure Annotation where
  typeIdx : UInt32
  elements : List Element

structure Element where
  nameIdx : UInt32
  value : Value

end

instance : Inhabited Value := ⟨.null⟩

instance : Inhabited Annotation := ⟨⟨0, []⟩⟩

namespace IndexKind

def code : IndexKind → Nat
  | methodType => 0x15
  | methodHandle => 0x16
  | string => 0x17
  | type => 0x18
  | field => 0x19
  | method => 0x1a
  | enum => 0x1b

def ofCode? : Nat → Option IndexKind
  | 0x15 => some methodType
  | 0x16 => some methodHandle
  | 0x17 => some string
  | 0x18 => some type
  | 0x19 => some field
  | 0x1a => some method
  | 0x1b => some enum
  | _ => none

end IndexKind

namespace Value

def FitsSigned (width : Nat) (v : Int) : Prop :=
  -(Bytes.capacity width : Int) ≤ 2 * v ∧ 2 * v < Bytes.capacity width

instance (width : Nat) (v : Int) : Decidable (FitsSigned width v) :=
  inferInstanceAs (Decidable (_ ∧ _))

def leastWidth (fits : Nat → Bool) : Nat := ((List.range' 1 7).find? fits).getD 8

/-- The least width whose sign extension gives `v` back. -/
def signedWidth (v : Int) : Nat := leastWidth fun width => FitsSigned width v

def unsignedWidth (n : Nat) : Nat := leastWidth fun width => n < Bytes.capacity width

def signExtend (width raw : Nat) : Int := (raw : Int).bmod (Bytes.capacity width)

def tagged (code : Nat) (payload : Bytes) : Bytes :=
  UInt8.ofNat ((payload.length - 1) * 32 + code) :: payload

def encodeSigned (code : Nat) (v : Int) : Bytes :=
  let width := signedWidth v
  tagged code (Bytes.littleEndian width (v % Bytes.capacity width).toNat)

def encodeUnsigned (code n : Nat) : Bytes := tagged code (Bytes.littleEndian (unsignedWidth n) n)

/-- Low-order zero bytes are left out, but for one byte. -/
def encodeHigh (code width bits : Nat) : Bytes :=
  let bytes := Bytes.littleEndian width bits
  tagged code (bytes.drop (min (bytes.takeWhile (· == 0)).length (width - 1)))

end Value

mutual

def Value.encode : Value → Bytes
  | .byte v => Value.encodeSigned 0x00 v.toInt
  | .short v => Value.encodeSigned 0x02 v.toInt
  | .char v => Value.encodeUnsigned 0x03 v.toNat
  | .int v => Value.encodeSigned 0x04 v.toInt
  | .long v => Value.encodeSigned 0x06 v.toInt
  | .float bits => Value.encodeHigh 0x10 4 bits.toNat
  | .double bits => Value.encodeHigh 0x11 8 bits.toNat
  | .index kind v => Value.encodeUnsigned kind.code v.toNat
  | .array values => 0x1c :: (Leb128.encode (UInt32.ofNat values.length) ++ Value.encodeEach values)
  | .annotated a => 0x1d :: a.encode
  | .null => [0x1e]
  | .boolean v => [if v then 0x3f else 0x1f]

def Value.encodeEach : List Value → Bytes
  | [] => []
  | v :: values => v.encode ++ Value.encodeEach values

def Annotation.encode : Annotation → Bytes
  | ⟨typeIdx, elements⟩ =>
    Leb128.encode typeIdx ++ Leb128.encode (UInt32.ofNat elements.length) ++ Element.encodeEach elements

def Element.encode : Element → Bytes
  | ⟨nameIdx, value⟩ => Leb128.encode nameIdx ++ value.encode

def Element.encodeEach : List Element → Bytes
  | [] => []
  | e :: elements => e.encode ++ Element.encodeEach elements

end

def Value.encodeArray (values : List Value) : Bytes :=
  Leb128.encode (UInt32.ofNat values.length) ++ Value.encodeEach values

abbrev Writer := StateM Bytes Nat

namespace Writer

def append (bytes : Bytes) : Writer := modifyGet fun buffer => (bytes.length, buffer ++ bytes)

def andThen (first second : Writer) : Writer := do return (← first) + (← second)

end Writer

open Writer

mutual

def Value.write : Value → Writer
  | .array values =>
    andThen (append [0x1c]) (andThen (append (Leb128.encode (UInt32.ofNat values.length))) (Value.writeEach values))
  | .annotated a => andThen (append [0x1d]) a.write
  | scalar => append scalar.encode

def Value.writeEach : List Value → Writer
  | [] => append []
  | v :: values => andThen v.write (Value.writeEach values)

def Annotation.write : Annotation → Writer
  | ⟨typeIdx, elements⟩ =>
    andThen (append (Leb128.encode typeIdx))
      (andThen (append (Leb128.encode (UInt32.ofNat elements.length))) (Element.writeEach elements))

def Element.write : Element → Writer
  | ⟨nameIdx, value⟩ => andThen (append (Leb128.encode nameIdx)) value.write

def Element.writeEach : List Element → Writer
  | [] => append []
  | e :: elements => andThen e.write (Element.writeEach elements)

end

def Value.writeArray (values : List Value) : Writer :=
  andThen (append (Leb128.encode (UInt32.ofNat values.length))) (Value.writeEach values)

namespace Value

open Reader

def payload (width most : Nat) : Reader Nat :=
  if most < width then failHere (.valueTooWide width most)
  else do
    let bytes ← repeated u8 width
    return Bytes.ofLittleEndian bytes

def signed (width most : Nat) : Reader Int := signExtend width <$> payload width most

def high (width most : Nat) : Reader Nat := (· * Bytes.capacity (most - width)) <$> payload width most

def listOf (value : Reader Value) : Reader (List Value) := do
  let count ← uleb128
  repeated value count.toNat

def annotationOf (value : Reader Value) : Reader Annotation := do
  let typeIdx ← uleb128
  let count ← uleb128
  let elements ← repeated (do
    let nameIdx ← uleb128
    let value ← value
    return ⟨nameIdx, value⟩) count.toNat
  return ⟨typeIdx, elements⟩

def ofTag (nested : Reader Value) (argument : Nat) : (code : Nat) → Reader Value
  | 0x00 => return .byte (Int8.ofInt (← signed (argument + 1) 1))
  | 0x02 => return .short (Int16.ofInt (← signed (argument + 1) 2))
  | 0x03 => return .char (UInt16.ofNat (← payload (argument + 1) 2))
  | 0x04 => return .int (Int32.ofInt (← signed (argument + 1) 4))
  | 0x06 => return .long (Int64.ofInt (← signed (argument + 1) 8))
  | 0x10 => return .float (UInt32.ofNat (← high (argument + 1) 4))
  | 0x11 => return .double (UInt64.ofNat (← high (argument + 1) 8))
  | 0x1c => return .array (← listOf nested)
  | 0x1d => return .annotated (← annotationOf nested)
  | 0x1e => return .null
  | 0x1f => return .boolean (argument != 0)
  | code =>
    match IndexKind.ofCode? code with
    | some kind => return .index kind (UInt32.ofNat (← payload (argument + 1) 4))
    | none => failHere fun position => .unknownValueType code (position - 1)

def readWithin : (room : Nat) → Reader Value
  | 0 => failHere .nestingTooDeep
  | room + 1 => do
    let header ← u8
    ofTag (readWithin room) (header.toNat / 32) (header.toNat % 32)

/-- A value counts twice towards the nesting limit for each array or annotation around it: once
for the list and once for its members. -/
def room (depth : Nat) : Nat := (nestingLimit + 2 - depth) / 2

def read : Reader Value := readWithin (room 0)

def readArray : Reader (List Value) := listOf (readWithin (room 1))

end Value

def Annotation.read : Reader Annotation := Value.annotationOf (Value.readWithin (Value.room 1))

def Annotation.element? (nameIdx : UInt32) (a : Annotation) : Option Element :=
  a.elements.find? fun e => e.nameIdx = nameIdx

def Value.int? : Value → Option Int32
  | .int v => some v
  | _ => none

end DexUnseal.Dex
