import DexUnseal.Bytes
/-!
UTF-8 over byte lists: an encoder, a strict decoder, and a lenient one that replaces what the
strict one refuses.
-/

namespace DexUnseal.Text

def decodeAll (next : Bytes → Option (Char × Bytes)) : (fuel : Nat) → Bytes → Option (List Char)
  | _, [] => some []
  | 0, _ :: _ => none
  | fuel + 1, bytes =>
    match next bytes with
    | none => none
    | some (c, rest) => (decodeAll next fuel rest).map (c :: ·)

def continued : (n : Nat) → (bits : Nat) → Bytes → Option (Nat × Bytes)
  | 0, bits, rest => some (bits, rest)
  | _ + 1, _, [] => none
  | n + 1, bits, b :: rest =>
    if 0x80 ≤ b ∧ b < 0xc0 then continued n (bits * 64 + (b.toNat - 0x80)) rest else none

def lead (b : UInt8) : Option (Nat × Nat) :=
  if b < 0x80 then some (0, b.toNat)
  else if b < 0xc0 then none
  else if b < 0xe0 then some (1, b.toNat - 0xc0)
  else if b < 0xf0 then some (2, b.toNat - 0xe0)
  else if b < 0xf8 then some (3, b.toNat - 0xf0)
  else none

def leastWith : (continuations : Nat) → Nat
  | 0 => 0
  | 1 => 0x80
  | 2 => 0x800
  | _ => 0x10000

namespace Utf8

def encodeChar (c : Char) : Bytes :=
  let n := c.toNat
  if n < 0x80 then [UInt8.ofNat n]
  else if n < 0x800 then [UInt8.ofNat (0xc0 + n / 64), UInt8.ofNat (0x80 + n % 64)]
  else if n < 0x10000 then
    [UInt8.ofNat (0xe0 + n / 4096), UInt8.ofNat (0x80 + n / 64 % 64), UInt8.ofNat (0x80 + n % 64)]
  else
    [UInt8.ofNat (0xf0 + n / 262144), UInt8.ofNat (0x80 + n / 4096 % 64),
      UInt8.ofNat (0x80 + n / 64 % 64), UInt8.ofNat (0x80 + n % 64)]

def encode (s : String) : Bytes := s.toList.flatMap encodeChar

/-- One character in its shortest form; surrogates and numbers past U+10FFFF are refused. -/
def next : Bytes → Option (Char × Bytes)
  | [] => none
  | b :: rest =>
    match lead b with
    | none => none
    | some (n, bits) =>
      match continued n bits rest with
      | none => none
      | some (value, rest) =>
        if leastWith n ≤ value ∧ value.isValidChar then some (Char.ofNat value, rest) else none

def decode (bytes : Bytes) : Option String :=
  (decodeAll next bytes.length bytes).map String.ofList

def secondRange (b : UInt8) : UInt8 × UInt8 :=
  if b = 0xe0 then (0xa0, 0xbf)
  else if b = 0xed then (0x80, 0x9f)
  else if b = 0xf0 then (0x90, 0xbf)
  else if b = 0xf4 then (0x80, 0x8f)
  else (0x80, 0xbf)

/-- Length of the longest start of a well-formed character at the front of the input, at least 1. -/
def brokenLength : Bytes → Nat
  | [] => 1
  | b :: rest =>
    let more := if 0xc2 ≤ b ∧ b < 0xe0 then 1 else if 0xe0 ≤ b ∧ b < 0xf0 then 2
      else if 0xf0 ≤ b ∧ b < 0xf5 then 3 else 0
    match rest.take more with
    | [] => 1
    | second :: others =>
      let (low, high) := secondRange b
      if low ≤ second ∧ second ≤ high then
        2 + (others.takeWhile fun c => 0x80 ≤ c ∧ c < 0xc0).length
      else 1

def decodeLenientFrom : (fuel : Nat) → Bytes → List Char
  | 0, _ => []
  | _ + 1, [] => []
  | fuel + 1, bytes@(_ :: _) =>
    match next bytes with
    | some (c, rest) => c :: decodeLenientFrom fuel rest
    | none => '\ufffd' :: decodeLenientFrom fuel (bytes.drop (brokenLength bytes))

/-- Each ill-formed start of a character becomes U+FFFD. -/
def decodeLenient (bytes : Bytes) : String :=
  String.ofList (decodeLenientFrom bytes.length bytes)

end Utf8

end DexUnseal.Text
