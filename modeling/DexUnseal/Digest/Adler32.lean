import DexUnseal.Bytes
/-!
The Adler-32 checksum.
-/

namespace DexUnseal.Digest.Adler32

def modulus : Nat := 65521

def step (sums : Nat × Nat) (b : UInt8) : Nat × Nat :=
  let a := (sums.1 + b.toNat) % modulus
  (a, (sums.2 + a) % modulus)

def checksum (bytes : Bytes) : UInt32 :=
  let (a, b) := bytes.foldl step (1, 0)
  UInt32.ofNat (b * 65536 + a)

end DexUnseal.Digest.Adler32
