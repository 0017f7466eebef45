/-!
The numbering of the dex files in an application archive: `classes.dex`, `classes2.dex`,
`classes3.dex` and so on.
-/

namespace DexUnseal.Archive.DexEntry

def digitValue (c : Char) : Nat := c.toNat - '0'.toNat

def decimalValue (digits : List Char) : Nat := digits.foldl (fun n c => 10 * n + digitValue c) 0

def stem : String := "classes"

def suffix : String := ".dex"

def numeral? (name : List Char) : Option (List Char) :=
  if stem.toList.isPrefixOf name then
    let rest := name.drop stem.length
    if suffix.toList.isSuffixOf rest then some (rest.take (rest.length - suffix.length)) else none
  else none

/-- The first file has no number, the others have one from 2 on without leading zeros. -/
def index? (name : String) : Option UInt32 :=
  match numeral? name.toList with
  | none => none
  | some [] => some 1
  | some digits =>
    let n := decimalValue digits
    if digits.head? ≠ some '0' ∧ digits.all Char.isDigit ∧ 2 ≤ n ∧ n < UInt32.size then
      some (UInt32.ofNat n)
    else none

end DexUnseal.Archive.DexEntry
