import DexUnseal.Dex.Header
import DexUnseal.Dex.ItemKind
import DexUnseal.Dex.StringItem
import DexUnseal.Dex.Value
/-!
The id sections of a dex file. Instructions, annotations and class data point into them by index,
so every container made from one file shares them unchanged.
-/

namespace DexUnseal.Dex

/-- The size is a word, the entries are half-words. -/
abbrev TypeList := List UInt32

namespace TypeList

def read : Reader TypeList := do
  let count ← Reader.u32
  Reader.repeated (UInt16.toUInt32 <$> Reader.u16) count.toNat

def encode (types : TypeList) : Bytes :=
  Bytes.word32 (UInt32.ofNat types.length) ++ types.flatMap fun t => Bytes.word16 t.toUInt16

def readAt : (file : Bytes) → (offset : UInt32) → Except Fault TypeList := Reader.readUnlessZero read []

end TypeList

structure Proto where
  shortyIdx : UInt32
  returnTypeIdx : UInt32
  parameters : TypeList
  deriving DecidableEq

structure FieldId where
  classIdx : UInt32
  typeIdx : UInt32
  nameIdx : UInt32
  deriving DecidableEq

structure MethodId where
  classIdx : UInt32
  protoIdx : UInt32
  nameIdx : UInt32
  deriving DecidableEq

structure MethodHandle where
  kind : UInt16
  memberIdx : UInt16
  deriving DecidableEq

structure Pools where
  strings : List StringData
  /-- The string index of each type descriptor. -/
  types : List UInt32
  protos : List Proto
  fields : List FieldId
  methods : List MethodId
  handles : List MethodHandle
  callSites : List (List Value)

open Reader

def Proto.read (file : Bytes) : Reader Proto := do
  let shortyIdx ← u32
  let returnTypeIdx ← u32
  let offset ← u32
  return ⟨shortyIdx, returnTypeIdx, ← TypeList.readAt file offset⟩

def Proto.encode (p : Proto) (parametersOffset : UInt32) : Bytes :=
  Bytes.word32 p.shortyIdx ++ Bytes.word32 p.returnTypeIdx ++ Bytes.word32 parametersOffset

def FieldId.read : Reader FieldId := do
  let classIdx ← u16
  let typeIdx ← u16
  let nameIdx ← u32
  return ⟨classIdx.toUInt32, typeIdx.toUInt32, nameIdx⟩

def FieldId.encode (f : FieldId) : Bytes :=
  Bytes.word16 f.classIdx.toUInt16 ++ Bytes.word16 f.typeIdx.toUInt16 ++ Bytes.word32 f.nameIdx

def MethodId.read : Reader MethodId := do
  let classIdx ← u16
  let protoIdx ← u16
  let nameIdx ← u32
  return ⟨classIdx.toUInt32, protoIdx.toUInt32, nameIdx⟩

def MethodId.encode (m : MethodId) : Bytes :=
  Bytes.word16 m.classIdx.toUInt16 ++ Bytes.word16 m.protoIdx.toUInt16 ++ Bytes.word32 m.nameIdx

def MethodHandle.read : Reader MethodHandle := do
  let kind ← u16
  let _ ← u16
  let memberIdx ← u16
  let _ ← u16
  return ⟨kind, memberIdx⟩

def MethodHandle.encode (h : MethodHandle) : Bytes :=
  Bytes.word16 h.kind ++ Bytes.word16 0 ++ Bytes.word16 h.memberIdx ++ Bytes.word16 0

namespace Pools

def empty : Pools := ⟨[], [], [], [], [], [], []⟩

def text? (strings : List StringData) (idx : UInt32) : Option String :=
  strings[idx.toNat]?.bind StringData.text?

def string? (p : Pools) (idx : UInt32) : Option String := text? p.strings idx

def typeDescriptor? (p : Pools) (typeIdx : UInt32) : Option String :=
  p.types[typeIdx.toNat]?.bind p.string?

/-- The first place of a text in the string pool. -/
def stringIdx? (p : Pools) (text : String) : Option UInt32 :=
  (p.strings.findIdx? fun s => s.text? == some text).map UInt32.ofNat

def typeIdx? (p : Pools) (descriptor : String) : Option UInt32 :=
  (p.stringIdx? descriptor).bind fun stringIdx =>
    (p.types.findIdx? (· == stringIdx)).map UInt32.ofNat

def methodName? (p : Pools) (methodIdx : UInt32) : Option String :=
  p.methods[methodIdx.toNat]?.bind fun m => p.string? m.nameIdx

def fieldName? (p : Pools) (fieldIdx : UInt32) : Option String :=
  p.fields[fieldIdx.toNat]?.bind fun f => p.string? f.nameIdx

/-- Parameter types in parentheses and the return type, such as `(ILjava/lang/String;)V`. -/
def methodDescriptor? (p : Pools) (methodIdx : UInt32) : Option String := do
  let method ← p.methods[methodIdx.toNat]?
  let proto ← p.protos[method.protoIdx.toNat]?
  let parameters ← proto.parameters.mapM p.typeDescriptor?
  let returned ← p.typeDescriptor? proto.returnTypeIdx
  return "(" ++ String.join parameters ++ ")" ++ returned

def readString (file : Bytes) (number : Nat) : Reader StringData := do
  let offset ← u32
  inContext (.string number) (StringData.read.readAt file offset.toNat)

def readType (strings : List StringData) : Reader UInt32 := do
  let idx ← u32
  refuseIf ((text? strings idx).isNone) (.invalidTypeDescriptor idx)
  return idx

def readCallSite (file : Bytes) : Reader (List Value) := do
  let offset ← u32
  Value.readArray.readAt file offset.toNat

/-- Call sites and method handles are listed in the map alone; other entries yield nothing. -/
def readMapEntry (file : Bytes) : Reader (List (List Value) × List MethodHandle) := do
  let code ← u16
  let _ ← u16
  let count ← u32
  let offset ← u32
  if code = ItemKind.callSiteId.typeCode then
    return (← (repeated (readCallSite file) count.toNat).readAt file offset.toNat, [])
  else if code = ItemKind.methodHandle.typeCode then
    return ([], ← (repeated MethodHandle.read count.toNat).readAt file offset.toNat)
  else
    return ([], [])

def readMap (file : Bytes) : Reader (List (List Value) × List MethodHandle) := do
  let count ← u32
  let entries ← repeated (readMapEntry file) count.toNat
  return (entries.flatMap (·.1), entries.flatMap (·.2))

def readSection (file : Bytes) (s : Section) (item : Reader α) : Except Fault (List α) :=
  (repeated item s.size.toNat).readAt file s.offset.toNat

def read (file : Bytes) (h : Header) : Except Fault Pools := do
  let strings ← (counted (readString file) 0 h.strings.size.toNat).readAt file h.strings.offset.toNat
  let types ← readSection file h.types (readType strings)
  let protos ← readSection file h.protos (Proto.read file)
  let fields ← readSection file h.fields FieldId.read
  let methods ← readSection file h.methods MethodId.read
  let (callSites, handles) ← readUnlessZero (readMap file) ([], []) file h.mapOffset
  return ⟨strings, types, protos, fields, methods, handles, callSites⟩

end Pools

end DexUnseal.Dex
