import DexUnseal.Archive.Listing
import DexUnseal.Stop
/-!
The entries of an archive file. Directories are left out, and so are names that lead out of the
archive.
-/

namespace DexUnseal.Archive

def depth? : (depth : Nat) → List Path.Component → Option Nat
  | depth, [] => some depth
  | _, .root :: _ => none
  | 0, .parent :: _ => none
  | depth + 1, .parent :: rest => depth? depth rest
  | depth, .current :: rest => depth? depth rest
  | depth, .name _ :: rest => depth? (depth + 1) rest

namespace Listing

def isDirectory (l : Listing) : Bool :=
  match l.name.toList.getLast? with
  | some c => c = '/' || c = '\\'
  | none => false

def enclosed? (l : Listing) : Option Path :=
  let path : Path := ⟨l.name⟩
  if l.name.toList.contains '\x00' then none
  else (depth? 0 path.components).map fun _ => path

def payloadStart (f : Image) (l : Listing) : Except Fault Nat := do
  if l.isEncrypted then throw (.zip .passwordRequired)
  if ¬ isReachable l.offset then throw (.zipIo (.ofSystem .invalidInput))
  if (← f.block l.offset 4) ≠ Bytes.word32 localSignature then throw (.zip .localSignature)
  let nameLength ← f.number 2 (l.offset + 26)
  let extraLength ← f.number 2 (l.offset + 28)
  if (Compression.ofCode? l.method).isNone then throw (.zip .unsupportedMethod)
  return l.offset + Archive.headerSize + nameLength + extraLength

/-- Where a password is missed for an entry that is not marked as encrypted. -/
def passwordCrash : String := "called `Result::unwrap()` on an `Err` value: InvalidPassword"

/-- The start of an entry's payload. An entry has to be one that can be read, though it need not be
wanted. -/
def payloadOffset (f : Image) (l : Listing) : Except (Stop Fault) Nat := do
  let offset ← (l.payloadStart f).mapError .fault
  if l.hasAes then throw (.crash passwordCrash)
  return offset

def streamFault : Deflate.Fault → IoFault
  | .incomplete => .described .unexpectedEof "incomplete deflate stream"
  | .malformed => .described .invalidInput "corrupt deflate stream"

def data (f : Image) (l : Listing) (offset : Nat) : Except Fault Bytes := do
  let payload := f.slice offset (min l.compressedSize f.size)
  let data ←
    if l.method = Compression.deflated.code.toNat then
      (Deflate.decode payload).mapError fun fault => .io (streamFault fault)
    else pure payload
  if (Digest.Crc32.checksum data).toNat ≠ l.checksum then
    throw (.io (.described .other "Invalid checksum"))
  return data

def entry? (f : Image) (wanted : String → Bool) (l : Listing) :
    Except (Stop Fault) (Option (String × Entry)) := do
  let offset ← l.payloadOffset f
  if l.isDirectory then return none
  match l.enclosed? with
  | none => return none
  | some path =>
    match EntryName.ofPath path with
    | .error fault => throw (.fault (.input (.name fault)))
    | .ok name =>
      if wanted name then
        let data ← (l.data f offset).mapError .fault
        return some (name, ⟨data, Compression.ofCode? l.method⟩)
      else return none

end Listing

/-- Of several entries with one name the last. -/
def collect (f : Image) (wanted : String → Bool) : List Listing → Archive → Except (Stop Fault) Archive
  | [], a => pure a
  | l :: rest, a => do
    match ← l.entry? f wanted with
    | some (name, entry) => collect f wanted rest (a.insert name entry)
    | none => collect f wanted rest a

def decodeOnly (wanted : String → Bool) (bytes : Bytes) : Except (Stop Fault) Archive := do
  let f := Image.ofBytes bytes
  let listings ← (Listing.ofImage f).mapError .fault
  collect f wanted listings empty

def decode (bytes : Bytes) : Except (Stop Fault) Archive := decodeOnly (fun _ => true) bytes

def decodeDexEntries (bytes : Bytes) : Except (Stop Fault) Archive :=
  decodeOnly (fun name => (DexEntry.index? name).isSome) bytes

end DexUnseal.Archive
