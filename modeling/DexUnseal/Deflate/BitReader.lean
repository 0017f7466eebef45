import DexUnseal.Deflate.Bits
/-!
Readers of consecutive bits.
-/

namespace DexUnseal.Deflate

inductive Fault where
  | incomplete
  | malformed
  deriving DecidableEq

abbrev BitReader := StateT Bits (Except Fault)

namespace BitReader

def fail (fault : Fault) : BitReader α := fun _ => .error fault

def required (x : Option α) : BitReader α :=
  match x with
  | some a => pure a
  | none => fail .malformed

def take (n : Nat) : BitReader Bits := fun bits =>
  let front := bits.take n
  if front.length = n then .ok (front, bits.drop n) else .error .incomplete

def number (width : Nat) : BitReader Nat := Bits.toNat <$> take width

def repeated (item : BitReader α) : (count : Nat) → BitReader (List α)
  | 0 => pure []
  | count + 1 => do
    let x ← item
    let xs ← repeated item count
    return x :: xs

def alignToByte : BitReader Unit := fun bits => .ok ((), bits.drop (bits.length % 8))

def remaining : BitReader Nat := fun bits => .ok (bits.length, bits)

end BitReader

end DexUnseal.Deflate
