import DexUnseal.Dex.ClassDef
/-!
The names of the classes in a dex file, without decoding anything else.
-/

namespace DexUnseal.Dex.Scan

open Reader

def classDefSize : Nat := 32

def className (file : Bytes) (h : Header) (number : Nat) : Except Fault String := do
  let classIdx ← u32.readAt file (h.classes.offset.toNat + number * classDefSize)
  if h.types.size ≤ classIdx then throw (.ofCause (.undefinedType classIdx number))
  let stringIdx ← u32.readAt file (h.types.offset.toNat + classIdx.toNat * 4)
  if h.strings.size ≤ stringIdx then throw (.ofCause (.undefinedDescriptor stringIdx classIdx))
  let offset ← u32.readAt file (h.strings.offset.toNat + stringIdx.toNat * 4)
  let descriptor ← StringData.read.readAt file offset.toNat
  match descriptor.text?.bind ClassName.ofDescriptor? with
  | some name => return name.dotted
  | none => throw (.ofCause (.notAClass number descriptor))

def classNamesFrom (file : Bytes) (h : Header) : (first count : Nat) → Except Fault (List String)
  | _, 0 => pure []
  | first, count + 1 => do
    let name ← className file h first
    let names ← classNamesFrom file h (first + 1) count
    return name :: names

def classNames (file : Bytes) : Except Fault (List String) := do
  let header ← (Header.read file).readAt file 0
  classNamesFrom file header 0 header.classes.size.toNat

end DexUnseal.Dex.Scan
