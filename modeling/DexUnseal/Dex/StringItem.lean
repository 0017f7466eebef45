import DexUnseal.Dex.Reader
/-!
The file form of pool strings: the number of UTF-16 units, the bytes, and a zero byte.
-/

namespace DexUnseal.Dex.StringData

def ofBytes (units : UInt32) (bytes : Bytes) : StringData :=
  match Text.ModifiedUtf8.decode bytes with
  | some text => decoded text
  | none => raw units bytes

def terminated : Reader Bytes := fun c =>
  match c.rest.dropWhile (· != 0) with
  | [] => .error (.ofCause (.unterminatedString c.position))
  | _ :: rest =>
    let bytes := c.rest.takeWhile (· != 0)
    .ok (bytes, ⟨c.position + bytes.length + 1, rest⟩)

def read : Reader StringData := do
  let units ← Reader.uleb128
  let bytes ← terminated
  return ofBytes units bytes

def encode : StringData → Bytes
  | raw units bytes => Leb128.encode units ++ bytes ++ [0]
  | decoded text =>
    Leb128.encode (UInt32.ofNat (Text.ModifiedUtf8.unitCount text)) ++ Text.ModifiedUtf8.encode text ++ [0]

end DexUnseal.Dex.StringData
