import DexUnseal.AccessFlags
import DexUnseal.ClassName
import DexUnseal.Dex.AnnotationSet
import DexUnseal.Dex.Code
import DexUnseal.Dex.Pools
/-!
Class definitions with all that they point at.
-/

namespace DexUnseal.Dex

structure FieldDef where
  fieldIdx : UInt32
  flags : AccessFlags
  deriving DecidableEq

structure MethodDef where
  methodIdx : UInt32
  flags : AccessFlags
  code : Option Code
  deriving DecidableEq

structure ClassData where
  staticFields : List FieldDef
  instanceFields : List FieldDef
  directMethods : List MethodDef
  virtualMethods : List MethodDef
  deriving DecidableEq

structure ClassDef extends ClassData where
  classIdx : UInt32
  descriptor : String
  flags : AccessFlags
  superclassIdx : UInt32
  interfaces : TypeList
  sourceFileIdx : UInt32
  annotations : AnnotationDirectory
  staticValues : List Value

namespace ClassDef

/-- The dotted name, or the descriptor itself if it is not that of a class. -/
def dottedName (c : ClassDef) : String :=
  ((ClassName.ofDescriptor? c.descriptor).map ClassName.dotted).getD c.descriptor

def methods (c : ClassDef) : List MethodDef := c.directMethods ++ c.virtualMethods

def hasData (c : ClassDef) : Bool :=
  !(c.staticFields.isEmpty && c.instanceFields.isEmpty && c.directMethods.isEmpty
    && c.virtualMethods.isEmpty)

def innerClassType : String := "Ldalvik/annotation/InnerClass;"

def innerClassAnnotation? (c : ClassDef) (pools : Pools) : Option AnnotationItem := do
  let typeIdx ← pools.typeIdx? innerClassType
  let set ← c.annotations.ofClass
  set.find? fun item => item.typeIdx = typeIdx

open Reader

def nextIndex (last difference : UInt32) : Except Fault UInt32 :=
  if last.toNat + difference.toNat < UInt32.size then pure (last + difference)
  else throw (.ofCause (.memberIndexOverflow last difference))

def readMembers (member : UInt32 → Reader α) : (last : UInt32) → (count : Nat) → Reader (List α)
  | _, 0 => pure []
  | last, count + 1 => do
    let difference ← uleb128
    let index ← nextIndex last difference
    let x ← member index
    let xs ← readMembers member index count
    return x :: xs

def readField (index : UInt32) : Reader FieldDef := do
  let flags ← uleb128
  return ⟨index, ⟨flags⟩⟩

def readMethod (file : Bytes) (index : UInt32) : Reader MethodDef := do
  let flags ← uleb128
  let codeOffset ← uleb128
  let code ← optional (fun offset => inContext (.method index) ((Code.read file).readAt file offset.toNat))
    codeOffset
  return ⟨index, ⟨flags⟩, code⟩

def readData (file : Bytes) : Reader ClassData := do
  let staticFieldCount ← uleb128
  let instanceFieldCount ← uleb128
  let directMethodCount ← uleb128
  let virtualMethodCount ← uleb128
  let staticFields ← readMembers readField 0 staticFieldCount.toNat
  let instanceFields ← readMembers readField 0 instanceFieldCount.toNat
  let directMethods ← readMembers (readMethod file) 0 directMethodCount.toNat
  let virtualMethods ← readMembers (readMethod file) 0 virtualMethodCount.toNat
  return ⟨staticFields, instanceFields, directMethods, virtualMethods⟩

def typeDescriptor (pools : Pools) (classIdx : UInt32) : Reader String :=
  match pools.typeDescriptor? classIdx with
  | some descriptor => pure descriptor
  | none => fail (.invalidClassIdx classIdx)

def read (file : Bytes) (pools : Pools) : Reader ClassDef := do
  let classIdx ← u32
  let descriptor ← typeDescriptor pools classIdx
  let flags ← u32
  let superclassIdx ← u32
  let interfacesOffset ← u32
  let sourceFileIdx ← u32
  let annotationsOffset ← u32
  let dataOffset ← u32
  let staticValuesOffset ← u32
  let interfaces ← TypeList.readAt file interfacesOffset
  let annotations ← readUnlessZero (AnnotationDirectory.read file) .empty file annotationsOffset
  let data ← readUnlessZero (readData file) ⟨[], [], [], []⟩ file dataOffset
  let staticValues ← readUnlessZero Value.readArray [] file staticValuesOffset
  return { data with
    classIdx, descriptor, flags := ⟨flags⟩, superclassIdx, interfaces, sourceFileIdx, annotations
    staticValues }

def disorder? : List UInt32 → Option (UInt32 × UInt32)
  | a :: b :: rest => if b ≤ a then some (b, a) else disorder? (b :: rest)
  | _ => none

def memberIndices (c : ClassDef) : List (List UInt32) :=
  [c.staticFields.map (·.fieldIdx), c.instanceFields.map (·.fieldIdx),
    c.directMethods.map (·.methodIdx), c.virtualMethods.map (·.methodIdx)]

def checkOrder (c : ClassDef) : Except Fault Unit :=
  match c.memberIndices.findSome? disorder? with
  | some (index, previous) =>
    throw ((Fault.ofCause (.membersOutOfOrder index previous)).within (.classData c.descriptor))
  | none => pure ()

def encodeMembers (index : α → UInt32) (item : α → Bytes) : (last : UInt32) → List α → Bytes
  | _, [] => []
  | last, x :: xs => Leb128.encode (index x - last) ++ item x ++ encodeMembers index item (index x) xs

def encodeFields : (last : UInt32) → List FieldDef → Bytes :=
  encodeMembers (·.fieldIdx) fun f => Leb128.encode f.flags.bits

def encodeMethods : (last : UInt32) → List (MethodDef × UInt32) → Bytes :=
  encodeMembers (·.1.methodIdx) fun (m, codeOffset) => Leb128.encode m.flags.bits ++ Leb128.encode codeOffset

def encodeData (c : ClassDef) (codeOffsets : List UInt32) : Bytes :=
  let count (n : Nat) := Leb128.encode (UInt32.ofNat n)
  let directCount := c.directMethods.length
  count c.staticFields.length ++ count c.instanceFields.length
    ++ count directCount ++ count c.virtualMethods.length
    ++ encodeFields 0 c.staticFields ++ encodeFields 0 c.instanceFields
    ++ encodeMethods 0 (c.directMethods.zip (codeOffsets.take directCount))
    ++ encodeMethods 0 (c.virtualMethods.zip (codeOffsets.drop directCount))

def dataItem? (c : ClassDef) (codeOffsets : List UInt32) : Option Bytes :=
  if c.hasData then some (c.encodeData codeOffsets) else none

def staticValuesItem? (c : ClassDef) : Option Bytes :=
  if c.staticValues.isEmpty then none else some (Value.encodeArray c.staticValues)

end ClassDef

end DexUnseal.Dex
