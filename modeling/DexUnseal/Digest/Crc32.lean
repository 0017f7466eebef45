import DexUnseal.Bytes
/-!
The CRC-32 checksum of zip archives (reflected, polynomial 0xedb88320).
-/

namespace DexUnseal.Digest.Crc32

def polynomial : UInt32 := 0xedb88320

def shift (register : UInt32) : UInt32 :=
  if register &&& 1 = 1 then (register >>> 1) ^^^ polynomial else register >>> 1

def step (register : UInt32) (b : UInt8) : UInt32 :=
  let r := register ^^^ b.toUInt32
  shift (shift (shift (shift (shift (shift (shift (shift r)))))))

def checksum (bytes : Bytes) : UInt32 :=
  bytes.foldl step 0xffffffff ^^^ 0xffffffff

end DexUnseal.Digest.Crc32
