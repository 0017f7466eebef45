import DexUnseal.Text.ModifiedUtf8
import DexUnseal.Text.Quoted
/-!
The contents of the string pool.
-/

namespace DexUnseal.Dex

/-- A pool string, or bytes that are no modified UTF-8, kept with the length declared for them. -/
inductive StringData where
  | decoded (text : String)
  | raw (units : UInt32) (bytes : Bytes)
  deriving DecidableEq

namespace StringData

def text? : StringData → Option String
  | decoded text => some text
  | raw _ _ => none

def describe : StringData → String
  | decoded text => "Decoded(" ++ Text.quoted text ++ ")"
  | raw units bytes =>
    let numbers := bytes.map fun b => Text.decimal b.toNat
    "Raw(" ++ Text.decimal units.toNat ++ ", [" ++ String.intercalate ", " numbers ++ "])"

end StringData

end DexUnseal.Dex
