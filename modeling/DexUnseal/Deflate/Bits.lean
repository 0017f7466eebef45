import DexUnseal.Bytes
/-!
Bit strings, in the order in which a deflate stream packs them into bytes: the least significant
bit of a byte comes first.
-/

namespace DexUnseal.Deflate

abbrev Bits := List Bool

namespace Bits

def capacity (width : Nat) : Nat := Nat.pow 2 width

/-- The low `width` bits of `n`, least significant first. -/
def ofNat : (width : Nat) → (n : Nat) → Bits
  | 0, _ => []
  | width + 1, n => (n % 2 == 1) :: ofNat width (n / 2)

def toNat : Bits → Nat
  | [] => 0
  | b :: rest => b.toNat + 2 * toNat rest

def ofBytes (bytes : Bytes) : Bits := bytes.flatMap fun b => ofNat 8 b.toNat

/-- The last byte is filled up with zeros. -/
def toBytes : Bits → Bytes
  | [] => []
  | b0 :: b1 :: b2 :: b3 :: b4 :: b5 :: b6 :: b7 :: rest =>
    UInt8.ofNat (toNat [b0, b1, b2, b3, b4, b5, b6, b7]) :: toBytes rest
  | short => [UInt8.ofNat (toNat short)]

end Bits

end DexUnseal.Deflate
