import DexUnseal.Archive.Image
import DexUnseal.Archive.Layout
/-!
Where the central directory of an archive file is. The end record tells it, or, if numbers do not
fit its fields, a second one before it. Both count from the start of the archive, which need not be
the start of the file.
-/

namespace DexUnseal.Archive

structure EndRecord where
  disk : Nat
  directoryDisk : Nat
  entriesOnDisk : Nat
  entries : Nat
  directorySize : Nat
  directoryOffset : Nat

structure DirectoryPlace where
  shift : Nat
  start : Nat
  count : Nat

namespace EndRecord

def size : Nat := 22

def commentLimit : Nat := 65535

def mayOverflow (r : EndRecord) : Bool :=
  r.disk = 0xffff || r.directoryDisk = 0xffff || r.entriesOnDisk = 0xffff || r.entries = 0xffff
    || r.directorySize = 0xffffffff || r.directoryOffset = 0xffffffff

def find (f : Image) : Except Fault Nat :=
  if f.size < size then throw (.zip .tooShort)
  else
    let first := f.size - (size + commentLimit)
    let candidates := (List.range' first (f.size - size + 1 - first)).reverse
    match candidates.find? (f.hasSignature endSignature) with
    | some offset => pure offset
    | none => throw (.zip .noEndRecord)

def readAt (f : Image) (offset : Nat) : Except Fault (EndRecord × Nat) := do
  let disk ← f.number 2 (offset + 4)
  let directoryDisk ← f.number 2 (offset + 6)
  let entriesOnDisk ← f.number 2 (offset + 8)
  let entries ← f.number 2 (offset + 10)
  let directorySize ← f.number 4 (offset + 12)
  let directoryOffset ← f.number 4 (offset + 16)
  let commentLength ← f.number 2 (offset + 20)
  let _ ← f.block (offset + size) commentLength
  return (⟨disk, directoryDisk, entriesOnDisk, entries, directorySize, directoryOffset⟩, commentLength)

end EndRecord

namespace Zip64

def locatorSignature : UInt32 := 0x07064b50

def endSignature : UInt32 := 0x06064b50

def locatorSize : Nat := 20

def reserve : Nat := 60

def locator? (f : Image) (commentLength : Nat) : Except Fault (Option (Nat × Nat)) :=
  let distance := locatorSize + EndRecord.size + commentLength
  let offset := f.size - distance
  if distance ≤ f.size ∧ f.hasSignature locatorSignature offset then do
    return some (← f.number 4 (offset + 4), ← f.number 8 (offset + 8))
  else
    pure none

def readAt (f : Image) (offset : Nat) : Except Fault EndRecord := do
  let disk ← f.number 4 (offset + 16)
  let directoryDisk ← f.number 4 (offset + 20)
  let entriesOnDisk ← f.number 8 (offset + 24)
  let entries ← f.number 8 (offset + 32)
  let directorySize ← f.number 8 (offset + 40)
  let directoryOffset ← f.number 8 (offset + 48)
  return ⟨disk, directoryDisk, entriesOnDisk, entries, directorySize, directoryOffset⟩

def place (f : Image) (announced endOffset : Nat) : Except Fault DirectoryPlace := do
  if endOffset < reserve then throw (.zip .noRoomForZip64)
  let last := endOffset - reserve
  match (List.range' announced (last + 1 - announced)).find? (f.hasSignature endSignature) with
  | none => throw (.zip .noZip64EndRecord)
  | some offset =>
    let record ← readAt f offset
    if record.disk ≠ record.directoryDisk then throw (.zip .severalDisks)
    let shift := offset - announced
    if UInt64.size ≤ record.directoryOffset + shift then throw (.zip .misplacedDirectory)
    return ⟨shift, record.directoryOffset + shift, record.entries⟩

end Zip64

namespace DirectoryPlace

def ofImage (f : Image) : Except Fault DirectoryPlace := do
  let offset ← EndRecord.find f
  let (record, commentLength) ← EndRecord.readAt f offset
  if ¬ record.mayOverflow ∧ record.disk ≠ record.directoryDisk then throw (.zip .severalDisks)
  match ← Zip64.locator? f commentLength with
  | some (disk, announced) =>
    if ¬ record.mayOverflow ∧ record.disk ≠ disk then throw (.zip .severalDisks)
    Zip64.place f announced offset
  | none =>
    if offset < record.directorySize + record.directoryOffset then throw (.zip .misplacedDirectory)
    let shift := offset - record.directorySize - record.directoryOffset
    return ⟨shift, record.directoryOffset + shift, record.entriesOnDisk⟩

end DirectoryPlace

end DexUnseal.Archive
