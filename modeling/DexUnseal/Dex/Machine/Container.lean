import DexUnseal.Dex.Container
import DexUnseal.Dex.Machine.Code
import DexUnseal.Dex.Machine.Values
import DexUnseal.Dex.Scan
/-!
Containers and the names of their classes, read on words.
-/

namespace DexUnseal.Dex.Machine

def tableSection : Machine Section := do
  let size ← u32
  let offset ← u32
  return ⟨size, offset⟩

def header : Machine Header := advancing do
  let length := (← file).length
  refuseIf (length < Header.size) (.headerTooShort length)
  let magic ← block 8
  refuseIf (magic.val.take 4 ≠ Header.magicStart) (.invalidMagic magic.val)
  let checksum ← u32
  let signature ← block 20
  let fileSize ← u32
  let headerSize ← u32
  let endianTag ← u32
  let link ← tableSection
  let mapOffset ← u32
  let strings ← tableSection
  let types ← tableSection
  let protos ← tableSection
  let fields ← tableSection
  let methods ← tableSection
  let classes ← tableSection
  let data ← tableSection
  refuseIf (endianTag = Header.bigEndianTag) .byteSwapped
  refuseIf (endianTag ≠ Header.littleEndianTag) (.invalidEndianTag endianTag)
  return ⟨magic, checksum, signature, fileSize, headerSize, endianTag, link, mapOffset, strings, types,
    protos, fields, methods, classes, data⟩

def typeList : Machine TypeList := advancing do
  let count ← u32
  repeated (UInt16.toUInt32 <$> u16) count.toNat

def string (number : Nat) : Machine StringData := do
  let offset ← u32
  within (.string number) (readAt offset.toNat text)

def typeId (strings : List StringData) : Machine UInt32 := do
  let idx ← u32
  refuseIf ((Pools.text? strings idx).isNone) (.invalidTypeDescriptor idx)
  return idx

def proto : Machine Proto := do
  let shortyIdx ← u32
  let returnTypeIdx ← u32
  let offset ← u32
  return ⟨shortyIdx, returnTypeIdx, ← unlessZero typeList [] offset⟩

def fieldId : Machine FieldId := advancing do
  let classIdx ← u16
  let typeIdx ← u16
  let nameIdx ← u32
  return ⟨classIdx.toUInt32, typeIdx.toUInt32, nameIdx⟩

def methodId : Machine MethodId := advancing do
  let classIdx ← u16
  let protoIdx ← u16
  let nameIdx ← u32
  return ⟨classIdx.toUInt32, protoIdx.toUInt32, nameIdx⟩

def methodHandle : Machine MethodHandle := advancing do
  let kind ← u16
  let _ ← u16
  let memberIdx ← u16
  let _ ← u16
  return ⟨kind, memberIdx⟩

def callSite : Machine (List Value) := do
  let offset ← u32
  readAt offset.toNat array

def mapEntry : Machine (List (List Value) × List MethodHandle) := do
  let code ← u16
  let _ ← u16
  let count ← u32
  let offset ← u32
  if code = ItemKind.callSiteId.typeCode then
    return (← readAt offset.toNat (repeated callSite count.toNat), [])
  else if code = ItemKind.methodHandle.typeCode then
    return ([], ← readAt offset.toNat (repeated methodHandle count.toNat))
  else
    return ([], [])

def map : Machine (List (List Value) × List MethodHandle) := do
  let count ← u32
  let entries ← repeated mapEntry count.toNat
  return (entries.flatMap (·.1), entries.flatMap (·.2))

def entries (s : Section) (item : Nat → Machine α) : Machine (List α) :=
  readAt s.offset.toNat (loop item s.size.toNat)

def pools (h : Header) : Machine Pools := do
  let strings ← entries h.strings string
  let types ← entries h.types fun _ => typeId strings
  let protos ← entries h.protos fun _ => proto
  let fields ← entries h.fields fun _ => fieldId
  let methods ← entries h.methods fun _ => methodId
  let (callSites, handles) ← unlessZero map ([], []) h.mapOffset
  return ⟨strings, types, protos, fields, methods, handles, callSites⟩

def members (member : UInt32 → Machine α) (count : UInt32) : Machine (List α) :=
  iterations (fun _ last => do
    let difference ← uleb128
    let index ← given (ClassDef.nextIndex last difference)
    let x ← member index
    return (x, index)) 0 count.toNat 0

def field (index : UInt32) : Machine FieldDef := do
  let flags ← uleb128
  return ⟨index, ⟨flags⟩⟩

def method (index : UInt32) : Machine MethodDef := do
  let flags ← uleb128
  let codeOffset ← uleb128
  let code ← optional (fun offset => within (.method index) (readAt offset.toNat code)) codeOffset
  return ⟨index, ⟨flags⟩, code⟩

def classData : Machine ClassData := do
  let staticFieldCount ← uleb128
  let instanceFieldCount ← uleb128
  let directMethodCount ← uleb128
  let virtualMethodCount ← uleb128
  let staticFields ← members field staticFieldCount
  let instanceFields ← members field instanceFieldCount
  let directMethods ← members method directMethodCount
  let virtualMethods ← members method virtualMethodCount
  return ⟨staticFields, instanceFields, directMethods, virtualMethods⟩

def typeDescriptor (pools : Pools) (classIdx : UInt32) : Machine String :=
  match pools.typeDescriptor? classIdx with
  | some descriptor => pure descriptor
  | none => fail (.invalidClassIdx classIdx)

def classDef (pools : Pools) : Machine ClassDef := advancing do
  let classIdx ← u32
  let descriptor ← typeDescriptor pools classIdx
  let flags ← u32
  let superclassIdx ← u32
  let interfacesOffset ← u32
  let sourceFileIdx ← u32
  let annotationsOffset ← u32
  let dataOffset ← u32
  let staticValuesOffset ← u32
  let interfaces ← unlessZero typeList [] interfacesOffset
  let annotations ← unlessZero directory .empty annotationsOffset
  let data ← unlessZero classData ⟨[], [], [], []⟩ dataOffset
  let staticValues ← unlessZero array [] staticValuesOffset
  return { data with
    classIdx, descriptor, flags := ⟨flags⟩, superclassIdx, interfaces, sourceFileIdx, annotations
    staticValues }

def container : Machine Container := do
  let header ← readAt 0 header
  let pools ← pools header
  let classes ← entries header.classes fun number => within (.classDef number) (classDef pools)
  return ⟨header.magic, pools, classes⟩

def className (h : Header) (number : Nat) : Machine String := do
  let definition ← add 64 h.classes.offset.toNat (← mul 64 number Scan.classDefSize)
  let classIdx ← readAt definition u32
  refuseIf (h.types.size ≤ classIdx) (.undefinedType classIdx number)
  let type ← add 64 h.types.offset.toNat (← mul 64 classIdx.toNat 4)
  let stringIdx ← readAt type u32
  refuseIf (h.strings.size ≤ stringIdx) (.undefinedDescriptor stringIdx classIdx)
  let string ← add 64 h.strings.offset.toNat (← mul 64 stringIdx.toNat 4)
  let offset ← readAt string u32
  let descriptor ← readAt offset.toNat text
  match descriptor.text?.bind ClassName.ofDescriptor? with
  | some name => return name.dotted
  | none => fail (.notAClass number descriptor)

def classNamesFrom (h : Header) : (done left : Nat) → Machine (List String)
  | _, 0 => pure []
  | done, left + 1 => do
    let name ← className h done
    countIteration done
    let names ← classNamesFrom h (done + 1) left
    return name :: names

def classNames : Machine (List String) := do
  let header ← readAt 0 header
  classNamesFrom header 0 header.classes.size.toNat

def run (reader : Machine α) (image : Image) : Except Halt α := Prod.fst <$> reader image 0

end DexUnseal.Dex.Machine
