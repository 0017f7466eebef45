import DexUnseal.Archive.EndRecord
import DexUnseal.Text.CodePage437
/-!
What the central directory of an archive file says about its entries.
-/

namespace DexUnseal.Archive

structure Listing where
  isEncrypted : Bool
  method : Nat
  checksum : Nat
  compressedSize : Nat
  size : Nat
  name : String
  offset : Nat
  hasAes : Bool

namespace Listing

/-- The method code of encrypted entries, which give the actual method among their AES parameters. -/
def aesMethod : Nat := 99

def escape : Nat := 0xffffffff

def extraNumber? (width : Nat) (extra : Bytes) : Option (Nat × Bytes) :=
  let front := extra.take width
  if front.length = width then some (Bytes.ofLittleEndian front, extra.drop width) else none

def unescape? (n : Nat) (extra : Bytes) : Option (Nat × Bytes) :=
  if n = escape then extraNumber? 8 extra else some (n, extra)

def withZip64 (l : Listing) (extra : Bytes) : Listing × Option Bytes :=
  match unescape? l.size extra with
  | none => (l, none)
  | some (size, extra) =>
    let l := { l with size }
    match unescape? l.compressedSize extra with
    | none => (l, none)
    | some (compressedSize, extra) =>
      let l := { l with compressedSize }
      match unescape? l.offset extra with
      | none => (l, none)
      | some (offset, extra) => ({ l with offset }, some extra)

def withAes (l : Listing) (extra : Bytes) : Except ZipFault Listing :=
  if extra.length < 7 then pure l
  else
    let version := Bytes.ofLittleEndian (extra.take 2)
    let vendor := Bytes.ofLittleEndian ((extra.drop 2).take 2)
    let strength := Bytes.ofLittleEndian ((extra.drop 4).take 1)
    let method := Bytes.ofLittleEndian ((extra.drop 5).take 2)
    if vendor ≠ 0x4541 then throw .aesVendor
    else if version ≠ 1 ∧ version ≠ 2 then throw .aesVendorVersion
    else if strength = 0 ∨ 3 < strength then throw .aesStrength
    else pure { l with method, hasAes := true }

/-- Goes through the extra fields; the first that is cut off ends them. -/
def withExtra : (fuel : Nat) → (extra : Bytes) → Listing → Except ZipFault Listing
  | 0, _, l => pure l
  | fuel + 1, extra, l =>
    match extraNumber? 2 extra with
    | none => pure l
    | some (kind, extra) =>
      match extraNumber? 2 extra with
      | none => pure l
      | some (length, extra) =>
        if kind = 0x0001 then
          match l.withZip64 extra with
          | (l, none) => pure l
          | (l, some rest) => withExtra fuel (rest.drop (length - (extra.length - rest.length))) l
        else if kind = 0x9901 then
          if length ≠ 7 then throw .aesFieldLength
          else do
            let l ← l.withAes extra
            withExtra fuel (extra.drop (2 * length)) l
        else
          withExtra fuel (extra.drop length) l

def headerSize : Nat := 46

def utf8Flag : Nat := 11

def readAt (f : Image) (shift offset : Nat) : Except Fault (Listing × Nat) := do
  if (← f.block offset 4) ≠ Bytes.word32 centralSignature then throw (.zip .directorySignature)
  let flags ← f.number 2 (offset + 8)
  let method ← f.number 2 (offset + 10)
  let checksum ← f.number 4 (offset + 16)
  let compressedSize ← f.number 4 (offset + 20)
  let size ← f.number 4 (offset + 24)
  let nameLength ← f.number 2 (offset + 28)
  let extraLength ← f.number 2 (offset + 30)
  let commentLength ← f.number 2 (offset + 32)
  let localOffset ← f.number 4 (offset + 42)
  let nameBytes ← f.block (offset + headerSize) nameLength
  let extra ← f.block (offset + headerSize + nameLength) extraLength
  let _ ← f.block (offset + headerSize + nameLength + extraLength) commentLength
  let name :=
    if flags.testBit utf8Flag then Text.Utf8.decodeLenient nameBytes else Text.CodePage437.decode nameBytes
  let plain : Listing :=
    { isEncrypted := flags.testBit 0, method, checksum, compressedSize, size, name, offset := localOffset
      hasAes := false }
  match plain.withExtra extra.length extra with
  | .error fault => throw (.zip fault)
  | .ok l =>
    if l.method = aesMethod ∧ ¬ l.hasAes then throw (.zip .missingAesField)
    if UInt64.size ≤ l.offset + shift then throw (.zip .offsetOverflow)
    return ({ l with offset := l.offset + shift },
      offset + headerSize + nameLength + extraLength + commentLength)

def readEach (f : Image) (shift : Nat) : (count offset : Nat) → Except Fault (List Listing)
  | 0, _ => pure []
  | count + 1, offset => do
    let (l, next) ← readAt f shift offset
    let more ← readEach f shift count next
    return l :: more

def ofImage (f : Image) : Except Fault (List Listing) := do
  let place ← DirectoryPlace.ofImage f
  if ¬ isReachable place.start then throw (.zip .directoryOutOfReach)
  readEach f place.shift place.count place.start

end Listing

end DexUnseal.Archive
