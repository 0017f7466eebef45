import DexUnseal.Dex.Container
import DexUnseal.Dex.DataSection
import DexUnseal.Digest.Adler32
import DexUnseal.Digest.Sha1
/-!
The file form of a container. The id sections are those of the pools, so that indices stay valid;
the data section is laid out anew for the classes that the container holds, one kind of item after
the other, as the map list needs it.
-/

namespace DexUnseal.Dex

structure IdSections where
  strings : UInt32
  types : UInt32
  protos : UInt32
  fields : UInt32
  methods : UInt32
  classes : UInt32
  callSites : UInt32
  handles : UInt32
  data : UInt32

structure ClassOffsets where
  interfaces : UInt32
  annotations : UInt32
  data : UInt32
  staticValues : UInt32

structure Placement where
  strings : List UInt32
  typeLists : TypeList → UInt32
  callSites : List UInt32
  classes : List ClassOffsets
  map : UInt32

structure Parts where
  ids : IdSections
  placement : Placement
  idBytes : Bytes
  dataBytes : Array UInt8

def IdSections.ofPools (p : Pools) (classCount : Nat) : IdSections :=
  let after (start : UInt32) (count size : Nat) : UInt32 := start + UInt32.ofNat count * UInt32.ofNat size
  let strings := UInt32.ofNat Header.size
  let types := after strings p.strings.length 4
  let protos := after types p.types.length 4
  let fields := after protos p.protos.length 12
  let methods := after fields p.fields.length 8
  let classes := after methods p.methods.length 8
  let callSites := after classes classCount 32
  let handles := after callSites p.callSites.length 4
  let data := after handles p.handles.length 8
  { strings, types, protos, fields, methods, classes, callSites, handles, data }

namespace Placing

/-- Equal type lists share an item, the empty one has none. -/
def placeTypeLists (lists : List TypeList) : Placing (TypeList → UInt32) := do
  let distinct := (lists.filter (· ≠ [])).eraseDups
  let offsets ← distinct.mapM fun types => place .typeList (TypeList.encode types)
  return fun types => ((distinct.zip offsets).lookup types).getD 0

/-- Annotation items, then the sets of them, then the lists of parameter sets, then directories. -/
def placeAnnotations (classes : List ClassDef) : Placing (List UInt32) := do
  let directories := classes.map fun c => if c.annotations.isEmpty then none else some c.annotations
  let items ← directories.mapM (·.mapM (Directory.mapM fun set =>
    set.mapM fun item => place .annotationItem item.encode))
  let sets ← items.mapM (·.mapM (Directory.mapM fun entries =>
    place .annotationSet (OffsetList.encode entries)))
  let setLists ← sets.mapM (·.mapM fun directory => directory.ofParameters.mapM fun (_, sets) =>
    place .annotationSetList (OffsetList.encode (sets.map (·.getD 0))))
  (sets.zip setLists).mapM fun (directory, setLists) =>
    placeIf .annotationDirectory (directory.map (·.encode (setLists.getD [])))

def placeDebugInfo (classes : List ClassDef) : Placing (List (List UInt32)) :=
  classes.mapM fun c => c.methods.mapM fun m => placeIf .debugInfo (m.code.bind (·.debugInfo))

def placeCode (classes : List ClassDef) (debugOffsets : List (List UInt32)) :
    Placing (List (List UInt32)) :=
  (classes.zip debugOffsets).mapM fun (c, debugOffsets) =>
    (c.methods.zip debugOffsets).mapM fun (m, debugOffset) =>
      placeIf .code (m.code.map (·.encode debugOffset))

def idRun (kind : ItemKind) (count : Nat) (offset : UInt32) : List MapItem :=
  if count = 0 then [] else [⟨kind, UInt32.ofNat count, offset⟩]

def idRuns (p : Pools) (classCount : Nat) (ids : IdSections) : List MapItem :=
  ⟨.header, 1, 0⟩ :: idRun .stringId p.strings.length ids.strings ++ idRun .typeId p.types.length ids.types
    ++ idRun .protoId p.protos.length ids.protos ++ idRun .fieldId p.fields.length ids.fields
    ++ idRun .methodId p.methods.length ids.methods ++ idRun .classDef classCount ids.classes
    ++ idRun .callSiteId p.callSites.length ids.callSites ++ idRun .methodHandle p.handles.length ids.handles

def encodeMap (runs : List MapItem) : Bytes :=
  Bytes.word32 (UInt32.ofNat runs.length) ++ runs.flatMap MapItem.encode

/-- The map lists all runs by offset, its own included. -/
def placeMap (idRuns : List MapItem) : Placing UInt32 :=
  placeFrom .mapList fun d =>
    encodeMap ((idRuns ++ d.runs.reverse).mergeSort fun a b => a.offset ≤ b.offset)

def placeItems (c : Container) : Placing (UInt32 → Placement) := do
  let strings ← c.pools.strings.mapM fun s => place .stringData s.encode
  let typeLists ← placeTypeLists (c.pools.protos.map (·.parameters) ++ c.classes.map (·.interfaces))
  let callSites ← c.pools.callSites.mapM fun values => place .encodedArray (Value.encodeArray values)
  let staticValues ← c.classes.mapM fun d => placeIf .encodedArray d.staticValuesItem?
  let annotations ← placeAnnotations c.classes
  let debugOffsets ← placeDebugInfo c.classes
  let codeOffsets ← placeCode c.classes debugOffsets
  let data ← (c.classes.zip codeOffsets).mapM fun (d, codeOffsets) =>
    placeIf .classData (d.dataItem? codeOffsets)
  let interfaces := c.classes.map fun d => typeLists d.interfaces
  let classes := (interfaces.zip (annotations.zip (data.zip staticValues))).map
    fun (interfaces, annotations, data, staticValues) => ⟨interfaces, annotations, data, staticValues⟩
  return fun map => { strings, typeLists, callSites, classes, map }

def placeAll (c : Container) (ids : IdSections) : Placing Placement := do
  let placement ← placeItems c
  let map ← placeMap (idRuns c.pools c.classes.length ids)
  return placement map

end Placing

def ClassDef.encode (c : ClassDef) (o : ClassOffsets) : Bytes :=
  Bytes.word32 c.classIdx ++ Bytes.word32 c.flags.bits ++ Bytes.word32 c.superclassIdx
    ++ Bytes.word32 o.interfaces ++ Bytes.word32 c.sourceFileIdx ++ Bytes.word32 o.annotations
    ++ Bytes.word32 o.data ++ Bytes.word32 o.staticValues

namespace Container

def encodeIds (c : Container) (p : Placement) : Bytes :=
  p.strings.flatMap Bytes.word32 ++ c.pools.types.flatMap Bytes.word32
    ++ c.pools.protos.flatMap (fun proto => proto.encode (p.typeLists proto.parameters))
    ++ c.pools.fields.flatMap FieldId.encode ++ c.pools.methods.flatMap MethodId.encode
    ++ (c.classes.zip p.classes).flatMap (fun (d, offsets) => d.encode offsets)
    ++ p.callSites.flatMap Bytes.word32 ++ c.pools.handles.flatMap MethodHandle.encode

def header (c : Container) (ids : IdSections) (mapOffset : UInt32) (body : Bytes) (dataSize : Nat) :
    Header :=
  let unsigned : Header := {
    magic := c.magic
    checksum := 0
    signature := ⟨List.replicate 20 0, by simp⟩
    fileSize := UInt32.ofNat (Header.size + body.length)
    headerSize := UInt32.ofNat Header.size
    endianTag := Header.littleEndianTag
    link := ⟨0, 0⟩
    mapOffset
    strings := .ofCount c.pools.strings.length ids.strings
    types := .ofCount c.pools.types.length ids.types
    protos := .ofCount c.pools.protos.length ids.protos
    fields := .ofCount c.pools.fields.length ids.fields
    methods := .ofCount c.pools.methods.length ids.methods
    classes := .ofCount c.classes.length ids.classes
    data := ⟨UInt32.ofNat dataSize, ids.data⟩ }
  let signature := Digest.Sha1.digest (unsigned.encodeSigned ++ body)
  let checksum := Digest.Adler32.checksum (signature.val ++ (unsigned.encodeSigned ++ body))
  { unsigned with signature, checksum }

def checkTries (c : Container) : Except Fault Unit :=
  let tryCounts := c.classes.flatMap fun d => d.methods.filterMap fun m => m.code.map (·.tries.length)
  match tryCounts.find? (Code.mostTries < ·) with
  | some count => throw (.ofCause (.tooManyTries count))
  | none => pure ()

def parts (c : Container) : Parts :=
  let ids := IdSections.ofPools c.pools c.classes.length
  let (placement, data) := (Placing.placeAll c ids).run (.empty ids.data)
  { ids, placement, idBytes := c.encodeIds placement, dataBytes := data.bytes }

def assemble (c : Container) (p : Parts) : Bytes :=
  let body := p.idBytes ++ p.dataBytes.toList
  (c.header p.ids p.placement.map body p.dataBytes.size).encode ++ body

/-- The file of a container as it is laid out, be it one that can be read back or not. -/
def file (c : Container) : Bytes := c.assemble c.parts

def encode (c : Container) : Except Fault Bytes := do
  c.checkTries
  c.classes.forM ClassDef.checkOrder
  let parts := c.parts
  if Header.size + parts.idBytes.length ≠ parts.ids.data.toNat then
    throw (.ofCause (.idSectionsMisplaced (Header.size + parts.idBytes.length) parts.ids.data.toNat))
  return c.assemble parts

end Container

end DexUnseal.Dex
