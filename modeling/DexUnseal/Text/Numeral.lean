/-!
Numerals as they appear in messages and file names.
-/

namespace DexUnseal.Text

def hex (n : Nat) : String := String.ofList (Nat.toDigits 16 n)

def hexPadded (width n : Nat) : String :=
  let digits := Nat.toDigits 16 n
  String.ofList (List.replicate (width - digits.length) '0' ++ digits)

def decimal (n : Nat) : String := String.ofList (Nat.toDigits 10 n)

end DexUnseal.Text
