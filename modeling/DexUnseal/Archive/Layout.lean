import DexUnseal.Archive.Basic
import DexUnseal.Deflate.Stream
import DexUnseal.Digest.Crc32
import DexUnseal.Text.Utf8
/-!
The zip form of an archive: the local entries back to back, the central directory with one record
for each, and the end record. Stored data starts at a multiple of four, so that dex files can be
mapped into memory.
-/

namespace DexUnseal.Archive

def localSignature : UInt32 := 0x04034b50

def centralSignature : UInt32 := 0x02014b50

def endSignature : UInt32 := 0x06054b50

namespace Compression

def code : Compression → UInt16
  | stored => 0
  | deflated => 8

def ofCode? (code : Nat) : Option Compression :=
  if code = 0 then some stored else if code = 8 then some deflated else none

end Compression

def lowerAscii (c : Char) : Char :=
  if 'A' ≤ c ∧ c ≤ 'Z' then Char.ofNat (c.toNat + 32) else c

/-- Dex files are stored, everything else is deflated, unless the entry says so. -/
def Entry.compressionAs (e : Entry) (name : String) : Compression :=
  e.compression.getD
    (if DexEntry.suffix.toList.isSuffixOf (name.toList.map lowerAscii) then .stored else .deflated)

structure Placed where
  name : String
  nameBytes : Bytes
  compression : Compression
  checksum : UInt32
  size : Nat
  payload : Bytes
  offset : Nat
  padding : Nat

def headerSize : Nat := 30

def alignment : Nat := 4

namespace Placed

/-- Deflated data is whatever stream the compressor makes of it. -/
def ofEntry (deflate : Bytes → Bytes) (offset : Nat) (name : String) (e : Entry) : Placed :=
  let nameBytes := Text.Utf8.encode name
  let compression := e.compressionAs name
  { name, nameBytes, compression, checksum := Digest.Crc32.checksum e.data, size := e.data.length
    payload := match compression with
      | .stored => e.data
      | .deflated => deflate e.data
    offset
    padding := match compression with
      | .stored => (alignment - (offset + headerSize + nameBytes.length) % alignment) % alignment
      | .deflated => 0 }

def stop (p : Placed) : Nat := p.offset + headerSize + p.nameBytes.length + p.padding + p.payload.length

def isTooLarge (p : Placed) : Bool := p.size ≥ UInt32.size || p.nameBytes.length ≥ UInt16.size

def word16 (n : Nat) : Bytes := Bytes.word16 (UInt16.ofNat n)

def word32 (n : Nat) : Bytes := Bytes.word32 (UInt32.ofNat n)

def summary (p : Placed) : Bytes :=
  Bytes.word16 p.compression.code ++ word32 0 ++ Bytes.word32 p.checksum ++ word32 p.payload.length
    ++ word32 p.size ++ word16 p.nameBytes.length

def localEntry (p : Placed) : Bytes :=
  Bytes.word32 localSignature ++ word16 20 ++ word16 0 ++ p.summary ++ word16 p.padding
    ++ p.nameBytes ++ List.replicate p.padding 0 ++ p.payload

def fileMode : Nat := 0o644

def centralRecord (p : Placed) : Bytes :=
  Bytes.word32 centralSignature ++ word16 0x031e ++ word16 20 ++ word16 0 ++ p.summary ++ word16 0
    ++ word16 0 ++ word16 0 ++ word16 0 ++ word32 (fileMode * 65536) ++ word32 p.offset ++ p.nameBytes

def endRecord (count directorySize directoryOffset : Nat) : Bytes :=
  Bytes.word32 endSignature ++ word16 0 ++ word16 0 ++ word16 count ++ word16 count
    ++ word32 directorySize ++ word32 directoryOffset ++ word16 0

end Placed

def place (deflate : Bytes → Bytes) : (offset : Nat) → List (String × Entry) → List Placed
  | _, [] => []
  | offset, (name, entry) :: rest =>
    let placed := Placed.ofEntry deflate offset name entry
    placed :: place deflate placed.stop rest

def encodeWith (deflate : Bytes → Bytes) (a : Archive) : Except InputFault Bytes :=
  let placed := place deflate 0 a.toList
  match placed.find? Placed.isTooLarge with
  | some p => throw (.tooLarge p.name)
  | none =>
    if placed.length ≥ UInt16.size then throw (.tooManyEntries placed.length)
    else
      let entries := placed.flatMap Placed.localEntry
      let directory := placed.flatMap Placed.centralRecord
      pure (entries ++ directory ++ Placed.endRecord placed.length directory.length entries.length)

def encode (a : Archive) : Except InputFault Bytes := a.encodeWith Deflate.encode

end DexUnseal.Archive
