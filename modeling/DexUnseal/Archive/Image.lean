import DexUnseal.Archive.Fault
import DexUnseal.Bytes
/-!
The bytes of an archive file, read at any offset.
-/

namespace DexUnseal.Archive

structure Image where
  bytes : Array UInt8

/-- Offsets in files are signed numbers of 64 bits. There need not be anything at an offset. -/
def isReachable (offset : Nat) : Bool := 2 * offset < UInt64.size

namespace Image

def ofBytes (bytes : Bytes) : Image := ⟨bytes.toArray⟩

def size (f : Image) : Nat := f.bytes.size

def slice (f : Image) (offset n : Nat) : Bytes := (f.bytes.extract offset (offset + n)).toList

def endOfFile : Fault := .zipIo (.described .unexpectedEof "failed to fill whole buffer")

def block (f : Image) (offset n : Nat) : Except Fault Bytes :=
  let bytes := f.slice offset n
  if bytes.length = n then pure bytes else throw endOfFile

def number (f : Image) (width offset : Nat) : Except Fault Nat :=
  Bytes.ofLittleEndian <$> f.block offset width

def hasSignature (f : Image) (signature : UInt32) (offset : Nat) : Bool :=
  f.slice offset 4 = Bytes.word32 signature

end Image

end DexUnseal.Archive
