import DexUnseal.Dex.AnnotationSet
import DexUnseal.Dex.Machine
/-!
Encoded values and annotations, read on words.
-/

namespace DexUnseal.Dex.Machine

def littleEndianFrom : (i left result : Nat) → Machine Nat
  | _, 0, result => pure result
  | i, left + 1, result => do
    let b ← u8
    let group ← shiftLeft 64 b.toNat (← mul 64 8 i)
    littleEndianFrom (i + 1) left (result ||| group)

def payload (width most : Nat) : Machine Nat :=
  if most < width then failHere (.valueTooWide width most) else advancing (littleEndianFrom 0 width 0)

def signed (width most : Nat) : Machine Int := do
  let raw ← payload width most
  let unused ← sub 64 (← mul 32 8 width)
  shiftRightSigned 64 (← shiftLeft 64 raw unused) unused

def high (width most : Nat) : Machine Nat := do
  let raw ← payload width most
  shiftLeft 64 raw (← mul 64 8 (← sub most width))

def listOf (value : Nat → Machine Value) (depth : Nat) : Machine (List Value) := advancing do
  let count ← uleb128
  repeated (do value (← add 64 depth 1)) count.toNat

def annotationOf (value : Nat → Machine Value) (depth : Nat) : Machine Annotation := advancing do
  let typeIdx ← uleb128
  let count ← uleb128
  let elements ← repeated (do
    let nameIdx ← uleb128
    let value ← value (← add 64 depth 1)
    return ⟨nameIdx, value⟩) count.toNat
  return ⟨typeIdx, elements⟩

def ofTag (nested : Nat → Machine Value) (depth argument size : Nat) : (code : Nat) → Machine Value
  | 0x00 => return .byte (Int8.ofInt (← signed size 1))
  | 0x02 => return .short (Int16.ofInt (← signed size 2))
  | 0x03 => return .char (UInt16.ofNat (← payload size 2))
  | 0x04 => return .int (Int32.ofInt (← signed size 4))
  | 0x06 => return .long (Int64.ofInt (← signed size 8))
  | 0x10 => return .float (UInt32.ofNat (← high size 4))
  | 0x11 => return .double (UInt64.ofNat (← high size 8))
  | 0x1c => return .array (← listOf nested (← add 64 depth 1))
  | 0x1d => return .annotated (← annotationOf nested (← add 64 depth 1))
  | 0x1e => return .null
  | 0x1f => return .boolean (argument != 0)
  | code =>
    match IndexKind.ofCode? code with
    | some kind => return .index kind (UInt32.ofNat (← payload size 4))
    | none => do
      let tag ← sub (← position) 1
      fail (.unknownValueType code tag)

/-- A value at a depth of nesting; as many calls as `frames` may be open. -/
def valueWithin : (frames depth : Nat) → Machine Value
  | 0, _ => halt .runaway
  | frames + 1, depth =>
    if nestingLimit < depth then failHere .nestingTooDeep
    else advancing do
      let header ← u8
      let argument ← shiftRight 8 header.toNat 5
      let size ← add 8 argument 1
      ofTag (valueWithin frames) depth argument size (header.toNat &&& 0x1f)

def valueAt : (depth : Nat) → Machine Value := valueWithin (nestingLimit + 2)

def array : Machine (List Value) := listOf valueAt 0

def annotation : Machine Annotation := annotationOf valueAt 0

def annotationItem : Machine AnnotationItem := advancing do
  let visibility ← u8
  let content ← annotation
  return ⟨content, visibility⟩

def offsetList : Machine OffsetList := advancing do
  let count ← u32
  repeated u32 count.toNat

def annotationSet (offset : UInt32) : Machine AnnotationSet := do
  let entries ← readAt offset.toNat offsetList
  (entries.filter (· != 0)).mapM fun entry =>
    within (.annotationItem entry) (readAt entry.toNat annotationItem)

def member (find : UInt32 → Machine τ) : Machine (UInt32 × τ) := do
  let idx ← u32
  let offset ← u32
  return (idx, ← find offset)

def parameterSets (offset : UInt32) : Machine (List (Option AnnotationSet)) := do
  let offsets ← readAt offset.toNat offsetList
  offsets.mapM (optional annotationSet)

def directory : Machine AnnotationDirectory := advancing do
  let classOffset ← u32
  let fieldCount ← u32
  let methodCount ← u32
  let parameterCount ← u32
  let ofClass ← optional annotationSet classOffset
  let ofFields ← repeated (member annotationSet) fieldCount.toNat
  let ofMethods ← repeated (member annotationSet) methodCount.toNat
  let ofParameters ← repeated (member parameterSets) parameterCount.toNat
  return ⟨ofClass, ofFields, ofMethods, ofParameters⟩

end DexUnseal.Dex.Machine
