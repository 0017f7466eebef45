import DexUnseal.Bytes
/-!
LEB128 numbers of at most five bytes: seven bits a byte, lowest first, the high bit set on every
byte but the last.
-/

namespace DexUnseal.Leb128

def maxLength : Nat := 5

def capacity (length : Nat) : Nat := Nat.pow 128 length

def encodeGroups : (room : Nat) → (n : Nat) → Bytes
  | 0, _ => []
  | room + 1, n =>
    if n < 128 then [UInt8.ofNat n] else UInt8.ofNat (n % 128 + 128) :: encodeGroups room (n / 128)

def encode (v : UInt32) : Bytes := encodeGroups maxLength v.toNat

def cut : (room : Nat) → Bytes → Option (Bytes × Bytes)
  | 0, _ => none
  | _ + 1, [] => none
  | room + 1, b :: rest =>
    if b < 128 ∨ room = 0 then some ([b], rest)
    else (cut room rest).map fun (number, rest) => (b :: number, rest)

def unsigned : Bytes → Nat
  | [] => 0
  | b :: rest => b.toNat % 128 + 128 * unsigned rest

/-- Bit 6 of the last group is the sign, unless the groups fill a word. -/
def signed (number : Bytes) : Int :=
  if number.length < maxLength ∧ (number.getLastD 0).toNat % 128 ≥ 64 then
    (unsigned number : Int) - capacity number.length
  else
    unsigned number

def decode (input : Bytes) : Option (UInt32 × Bytes × Bytes) :=
  (cut maxLength input).map fun (number, rest) => (UInt32.ofNat (unsigned number), number, rest)

def decodeSigned (input : Bytes) : Option (Int32 × Bytes × Bytes) :=
  (cut maxLength input).map fun (number, rest) => (Int32.ofInt (signed number), number, rest)

end DexUnseal.Leb128
