import DexUnseal.Deflate.PrefixCode
/-!
Deflate streams. All block types are read; writing uses one block of literals in the fixed code.
-/

namespace DexUnseal.Deflate

def fixedLengths : List Nat :=
  List.replicate 144 8 ++ List.replicate 112 9 ++ List.replicate 24 7 ++ List.replicate 8 8

def fixedDistanceLengths : List Nat := List.replicate 32 5

def endOfBlock : Nat := 256

def codeWord (width n : Nat) : Bits := (Bits.ofNat width n).reverse

def literalWord (b : UInt8) : Bits :=
  if b < 144 then codeWord 8 (0x30 + b.toNat) else codeWord 9 (0x190 + (b.toNat - 144))

def fixedBlockHeader : Bits := [true, true, false]

def encode (data : Bytes) : Bytes :=
  Bits.toBytes (fixedBlockHeader ++ data.flatMap literalWord ++ codeWord 7 0)

def lengthRanges : List (Nat × Nat) :=
  [(3, 0), (4, 0), (5, 0), (6, 0), (7, 0), (8, 0), (9, 0), (10, 0), (11, 1), (13, 1), (15, 1), (17, 1),
    (19, 2), (23, 2), (27, 2), (31, 2), (35, 3), (43, 3), (51, 3), (59, 3), (67, 4), (83, 4), (99, 4),
    (115, 4), (131, 5), (163, 5), (195, 5), (227, 5), (258, 0)]

def distanceRanges : List (Nat × Nat) :=
  [(1, 0), (2, 0), (3, 0), (4, 0), (5, 1), (7, 1), (9, 2), (13, 2), (17, 3), (25, 3), (33, 4), (49, 4),
    (65, 5), (97, 5), (129, 6), (193, 6), (257, 7), (385, 7), (513, 8), (769, 8), (1025, 9), (1537, 9),
    (2049, 10), (3073, 10), (4097, 11), (6145, 11), (8193, 12), (12289, 12), (16385, 13), (24577, 13)]

open BitReader

def ranged (ranges : List (Nat × Nat)) (symbol : Nat) : BitReader Nat := do
  let (least, extra) ← required ranges[symbol]?
  return least + (← number extra)

/-- Repeats what stands `distance` bytes back; before the start there are zeros. -/
def copyBack (distance : Nat) : (length : Nat) → (out : Array UInt8) → Array UInt8
  | 0, out => out
  | length + 1, out =>
    let b := if distance ≤ out.size then out.getD (out.size - distance) 0 else 0
    copyBack distance length (out.push b)

def symbols (literals distances : PrefixCode) : (fuel : Nat) → (out : Array UInt8) → BitReader (Array UInt8)
  | 0, _ => fail .incomplete
  | fuel + 1, out => do
    let symbol ← literals.symbol
    if symbol < endOfBlock then
      symbols literals distances fuel (out.push (UInt8.ofNat symbol))
    else if symbol = endOfBlock then
      return out
    else
      let length ← ranged lengthRanges (symbol - endOfBlock - 1)
      let symbol ← distances.symbol
      let distance ← ranged distanceRanges symbol
      symbols literals distances fuel (copyBack distance length out)

/-- The symbols of a block; each takes a bit, so the bits that are left bound their number. -/
def codedBlock (literals distances : PrefixCode) (out : Array UInt8) : BitReader (Array UInt8) := do
  symbols literals distances ((← remaining) + 1) out

def lengthOrder : List Nat := [16, 17, 18, 0, 8, 7, 9, 6, 10, 5, 11, 4, 12, 3, 13, 2, 14, 1, 15]

/-- Code lengths with their repetitions; `known` are those so far, the latest first. -/
def codeLengths (code : PrefixCode) (total : Nat) : (fuel : Nat) → (known : List Nat) → BitReader (List Nat)
  | 0, _ => fail .incomplete
  | fuel + 1, known => do
    if known.length = total then return known.reverse
    if total < known.length then fail .malformed
    let again (length least width : Nat) : BitReader (List Nat) := do
      let count := least + (← number width)
      codeLengths code total fuel (List.replicate count length ++ known)
    match ← code.symbol with
    | 16 => again (← required known.head?) 3 2
    | 17 => again 0 3 3
    | 18 => again 0 11 7
    | length => codeLengths code total fuel (length :: known)

def literalLimit : Nat := 286

def distanceLimit : Nat := 30

def ownCodes : BitReader (PrefixCode × PrefixCode) := do
  let literalCount := 257 + (← number 5)
  let distanceCount := 1 + (← number 5)
  let lengthCount := 4 + (← number 4)
  if literalLimit < literalCount ∨ distanceLimit < distanceCount then fail .malformed
  let given ← repeated (number 3) lengthCount
  let ofSymbol (symbol : Nat) := ((lengthOrder.zip given).lookup symbol).getD 0
  let code ← required (PrefixCode.complete? ((List.range lengthOrder.length).map ofSymbol))
  let lengths ← codeLengths code (literalCount + distanceCount) ((← remaining) + 1) []
  let literals ← required (PrefixCode.completeOrTrivial? (lengths.take literalCount))
  let distances ← required (PrefixCode.completeOrTrivial? (lengths.drop literalCount))
  return (literals, distances)

def plainBlock (out : Array UInt8) : BitReader (Array UInt8) := do
  alignToByte
  let size ← number 16
  let complement ← number 16
  if size + complement ≠ 0xffff then fail .malformed
  let data ← take (8 * size)
  return out ++ (Bits.toBytes data).toArray

def block (type : Nat) (out : Array UInt8) : BitReader (Array UInt8) :=
  match type with
  | 0 => plainBlock out
  | 1 => codedBlock (.ofLengths fixedLengths) (.ofLengths fixedDistanceLengths) out
  | 2 => do
    let (literals, distances) ← ownCodes
    codedBlock literals distances out
  | _ => fail .malformed

def blocks : (fuel : Nat) → (out : Array UInt8) → BitReader (Array UInt8)
  | 0, _ => fail .incomplete
  | fuel + 1, out => do
    let isLast ← number 1
    let type ← number 2
    let out ← block type out
    if isLast = 1 then return out else blocks fuel out

/-- What follows the last block is not read. -/
def decode (stream : Bytes) : Except Fault Bytes := do
  let bits := Bits.ofBytes stream
  let out ← (blocks (bits.length + 1) #[]).run' bits
  return out.toList

end DexUnseal.Deflate
