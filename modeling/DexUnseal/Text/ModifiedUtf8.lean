import DexUnseal.Text.Utf8
/-!
Modified UTF-8: UTF-16 code units written one by one in at most three bytes each, NUL in two, so
that no written text holds a zero byte.
-/

namespace DexUnseal.Text.ModifiedUtf8

def encodeUnit (u : Nat) : Bytes :=
  if u ≠ 0 ∧ u < 0x80 then [UInt8.ofNat u]
  else if u < 0x800 then [UInt8.ofNat (0xc0 + u / 64), UInt8.ofNat (0x80 + u % 64)]
  else [UInt8.ofNat (0xe0 + u / 4096), UInt8.ofNat (0x80 + u / 64 % 64), UInt8.ofNat (0x80 + u % 64)]

def units (c : Char) : List Nat :=
  if c.toNat < 0x10000 then [c.toNat]
  else [0xd800 + (c.toNat - 0x10000) / 0x400, 0xdc00 + (c.toNat - 0x10000) % 0x400]

def encodeChar (c : Char) : Bytes := (units c).flatMap encodeUnit

def encode (s : String) : Bytes := s.toList.flatMap encodeChar

def unitCount (s : String) : Nat := (s.toList.flatMap units).length

/-- One code unit in its shortest form, NUL in its two-byte form. -/
def unit : Bytes → Option (Nat × Bytes)
  | [] => none
  | b :: rest =>
    match lead b with
    | none => none
    | some (n, bits) =>
      match continued n bits rest with
      | none => none
      | some (value, rest) =>
        if n < 3 ∧ (if value = 0 then n = 1 else leastWith n ≤ value) then some (value, rest) else none

def isHigh (u : Nat) : Bool := 0xd800 ≤ u ∧ u < 0xdc00

def isLow (u : Nat) : Bool := 0xdc00 ≤ u ∧ u < 0xe000

def next (bytes : Bytes) : Option (Char × Bytes) :=
  match unit bytes with
  | none => none
  | some (u, rest) =>
    if isHigh u then
      match unit rest with
      | none => none
      | some (v, rest) =>
        if isLow v then some (Char.ofNat (0x10000 + (u - 0xd800) * 0x400 + (v - 0xdc00)), rest) else none
    else if isLow u then none
    else some (Char.ofNat u, rest)

def decodeStrict (bytes : Bytes) : Option String :=
  (decodeAll next bytes.length bytes).map String.ofList

/-- Bytes that are plain UTF-8 are taken as they are, all others have to be modified UTF-8. -/
def decode (bytes : Bytes) : Option String :=
  (Utf8.decode bytes).or (decodeStrict bytes)

end DexUnseal.Text.ModifiedUtf8
