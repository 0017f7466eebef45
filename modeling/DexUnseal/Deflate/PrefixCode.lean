import DexUnseal.Deflate.BitReader
/-!
Canonical prefix codes: given by the lengths of their code words. Words of one length are
consecutive numbers in the order of their symbols, and shorter words come first.
-/

namespace DexUnseal.Deflate

/-- The symbols with code words of length 1, 2, 3 and so on, up to the longest. Even a code without
words has the first level. -/
abbrev PrefixCode := List (List Nat)

namespace PrefixCode

def maxLength : Nat := 15

def share (length : Nat) : Nat := if length = 0 then 0 else Bits.capacity (maxLength - length)

/-- Every word of the greatest length starts with a code word. -/
def isComplete (lengths : List Nat) : Bool :=
  lengths.foldl (fun total length => total + share length) 0 = Bits.capacity maxLength

def isTrivial (lengths : List Nat) : Bool :=
  match lengths.filter (· ≠ 0) with
  | [] => true
  | [length] => length = 1
  | _ => false

def ofLengths (lengths : List Nat) : PrefixCode :=
  (List.range' 1 (Nat.max 1 (lengths.foldl Nat.max 0))).map fun length =>
    lengths.zipIdx.filterMap fun (l, symbol) => if l = length then some symbol else none

def complete? (lengths : List Nat) : Option PrefixCode :=
  if isComplete lengths then some (ofLengths lengths) else none

def completeOrTrivial? (lengths : List Nat) : Option PrefixCode :=
  if isComplete lengths ∨ isTrivial lengths then some (ofLengths lengths) else none

/-- Reads one symbol; `passed` counts from the first word of the current length. The stream is
malformed if no word starts with the bits read. -/
def next : (passed : Nat) → PrefixCode → BitReader Nat
  | _, [] => BitReader.fail .malformed
  | passed, level :: deeper => do
    let place := 2 * passed + (← BitReader.number 1)
    match level[place]? with
    | some symbol => return symbol
    | none => next (place - level.length) deeper

def symbol (code : PrefixCode) : BitReader Nat := next 0 code

end PrefixCode

end DexUnseal.Deflate
