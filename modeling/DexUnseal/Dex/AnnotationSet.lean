import DexUnseal.Dex.Value
/-!
Annotation items, the sets of them, and the directory that gives a class, its fields, its methods
and the parameters of its methods their sets.

On file a set is a list of offsets of its items, and a directory holds offsets of sets.
-/

namespace DexUnseal.Dex

structure AnnotationItem extends Annotation where
  visibility : UInt8

namespace AnnotationItem

def read : Reader AnnotationItem := do
  let visibility ← Reader.u8
  let content ← Annotation.read
  return ⟨content, visibility⟩

def encode (item : AnnotationItem) : Bytes := item.visibility :: item.toAnnotation.encode

end AnnotationItem

abbrev AnnotationSet := List AnnotationItem

abbrev OffsetList := List UInt32

namespace OffsetList

def read : Reader OffsetList := do
  let count ← Reader.u32
  Reader.repeated Reader.u32 count.toNat

def encode (offsets : OffsetList) : Bytes :=
  Bytes.word32 (UInt32.ofNat offsets.length) ++ offsets.flatMap Bytes.word32

end OffsetList

def AnnotationSet.readAt (file : Bytes) (offset : UInt32) : Except Fault AnnotationSet := do
  let entries ← OffsetList.read.readAt file offset.toNat
  (entries.filter (· != 0)).mapM fun entry =>
    inContext (.annotationItem entry) (AnnotationItem.read.readAt file entry.toNat)

structure Directory (σ : Type) where
  ofClass : Option σ
  ofFields : List (UInt32 × σ)
  ofMethods : List (UInt32 × σ)
  /-- A parameter without annotations has no set. -/
  ofParameters : List (UInt32 × List (Option σ))

abbrev AnnotationDirectory := Directory AnnotationSet

namespace Directory

def empty : Directory σ := ⟨none, [], [], []⟩

def isEmpty (d : Directory σ) : Bool :=
  d.ofClass.isNone && d.ofFields.isEmpty && d.ofMethods.isEmpty && d.ofParameters.isEmpty

/-- Visits the sets of the class, the fields, the methods and the parameters, in this order. -/
def mapM [Monad m] (f : σ → m τ) (d : Directory σ) : m (Directory τ) := do
  let ofClass ← d.ofClass.mapM f
  let ofFields ← d.ofFields.mapM fun (idx, set) => return (idx, ← f set)
  let ofMethods ← d.ofMethods.mapM fun (idx, set) => return (idx, ← f set)
  let ofParameters ← d.ofParameters.mapM fun (idx, sets) => return (idx, ← sets.mapM (·.mapM f))
  return ⟨ofClass, ofFields, ofMethods, ofParameters⟩

open Reader

def readMember (find : UInt32 → Except Fault τ) : Reader (UInt32 × τ) := do
  let idx ← u32
  let offset ← u32
  return (idx, ← find offset)

def readSets (file : Bytes) (set : UInt32 → Except Fault σ) (offset : UInt32) :
    Except Fault (List (Option σ)) := do
  let offsets ← OffsetList.read.readAt file offset.toNat
  offsets.mapM (optional set)

def read (file : Bytes) (set : UInt32 → Except Fault σ) : Reader (Directory σ) := do
  let classOffset ← u32
  let fieldCount ← u32
  let methodCount ← u32
  let parameterCount ← u32
  let ofClass ← optional set classOffset
  let ofFields ← repeated (readMember set) fieldCount.toNat
  let ofMethods ← repeated (readMember set) methodCount.toNat
  let ofParameters ← repeated (readMember (readSets file set)) parameterCount.toNat
  return ⟨ofClass, ofFields, ofMethods, ofParameters⟩

def encode (d : Directory UInt32) (setLists : List UInt32) : Bytes :=
  Bytes.word32 (d.ofClass.getD 0) ++ Bytes.word32 (UInt32.ofNat d.ofFields.length)
    ++ Bytes.word32 (UInt32.ofNat d.ofMethods.length) ++ Bytes.word32 (UInt32.ofNat d.ofParameters.length)
    ++ (d.ofFields ++ d.ofMethods ++ (d.ofParameters.map (·.1)).zip setLists).flatMap
      fun (idx, offset) => Bytes.word32 idx ++ Bytes.word32 offset

end Directory

def AnnotationDirectory.read (file : Bytes) : Reader AnnotationDirectory :=
  Directory.read file (AnnotationSet.readAt file)

end DexUnseal.Dex
