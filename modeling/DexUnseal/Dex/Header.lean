import DexUnseal.Dex.Reader
/-!
The header of a dex file.
-/

namespace DexUnseal.Dex

structure Section where
  size : UInt32
  offset : UInt32
  deriving DecidableEq

structure Header where
  magic : Block 8
  checksum : UInt32
  signature : Block 20
  fileSize : UInt32
  headerSize : UInt32
  endianTag : UInt32
  link : Section
  mapOffset : UInt32
  strings : Section
  types : Section
  protos : Section
  fields : Section
  methods : Section
  classes : Section
  data : Section
  deriving DecidableEq

/-- Empty sections have offset zero. -/
def Section.ofCount (count : Nat) (offset : UInt32) : Section :=
  ⟨UInt32.ofNat count, if count = 0 then 0 else offset⟩

def Section.read : Reader Section := do
  let size ← Reader.u32
  let offset ← Reader.u32
  return ⟨size, offset⟩

def Section.encode (s : Section) : Bytes := Bytes.word32 s.size ++ Bytes.word32 s.offset

namespace Header

def size : Nat := 0x70

def littleEndianTag : UInt32 := 0x12345678

def bigEndianTag : UInt32 := 0x78563412

def magicStart : Bytes := [0x64, 0x65, 0x78, 0x0a]

open Reader in
def read (file : Bytes) : Reader Header := do
  refuseIf (file.length < size) (.headerTooShort file.length)
  let magic ← block 8
  refuseIf (magic.val.take 4 ≠ magicStart) (.invalidMagic magic.val)
  let checksum ← u32
  let signature ← block 20
  let fileSize ← u32
  let headerSize ← u32
  let endianTag ← u32
  let link ← Section.read
  let mapOffset ← u32
  let strings ← Section.read
  let types ← Section.read
  let protos ← Section.read
  let fields ← Section.read
  let methods ← Section.read
  let classes ← Section.read
  let data ← Section.read
  refuseIf (endianTag = bigEndianTag) .byteSwapped
  refuseIf (endianTag ≠ littleEndianTag) (.invalidEndianTag endianTag)
  return ⟨magic, checksum, signature, fileSize, headerSize, endianTag, link, mapOffset, strings, types,
    protos, fields, methods, classes, data⟩

def encodeSigned (h : Header) : Bytes :=
  Bytes.word32 h.fileSize ++ Bytes.word32 h.headerSize ++ Bytes.word32 h.endianTag ++ h.link.encode
    ++ Bytes.word32 h.mapOffset ++ h.strings.encode ++ h.types.encode ++ h.protos.encode
    ++ h.fields.encode ++ h.methods.encode ++ h.classes.encode ++ h.data.encode

def encode (h : Header) : Bytes :=
  h.magic.val ++ Bytes.word32 h.checksum ++ h.signature.val ++ h.encodeSigned

end Header

end DexUnseal.Dex
