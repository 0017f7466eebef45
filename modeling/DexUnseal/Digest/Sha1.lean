import DexUnseal.Bytes
/-!
The SHA-1 digest.
-/

namespace DexUnseal.Digest.Sha1

structure State where
  a : UInt32
  b : UInt32
  c : UInt32
  d : UInt32
  e : UInt32

def initial : State := ⟨0x67452301, 0xefcdab89, 0x98badcfe, 0x10325476, 0xc3d2e1f0⟩

def rotate (n : UInt32) (x : UInt32) : UInt32 := (x <<< n) ||| (x >>> (32 - n))

def pad (message : Bytes) : Bytes :=
  let length := message.length
  message ++ 0x80 :: List.replicate ((119 - length % 64) % 64) 0
    ++ (Bytes.littleEndian 8 (8 * length)).reverse

def bigEndianWords : Bytes → List UInt32
  | a :: b :: c :: d :: rest =>
    (a.toUInt32 <<< 24 ||| b.toUInt32 <<< 16 ||| c.toUInt32 <<< 8 ||| d.toUInt32) :: bigEndianWords rest
  | _ => []

def roundFunction (t : Nat) (b c d : UInt32) : UInt32 :=
  if t < 20 then (b &&& c) ||| (~~~b &&& d)
  else if t < 40 then b ^^^ c ^^^ d
  else if t < 60 then (b &&& c) ||| (b &&& d) ||| (c &&& d)
  else b ^^^ c ^^^ d

def roundConstant (t : Nat) : UInt32 :=
  if t < 20 then 0x5a827999
  else if t < 40 then 0x6ed9eba1
  else if t < 60 then 0x8f1bbcdc
  else 0xca62c1d6

def round (t : Nat) (w : UInt32) (s : State) : State :=
  ⟨rotate 5 s.a + roundFunction t s.b s.c s.d + s.e + roundConstant t + w, s.a, rotate 30 s.b, s.c, s.d⟩

def nextWord (window : List UInt32) : UInt32 :=
  rotate 1 (window.getD 13 0 ^^^ window.getD 8 0 ^^^ window.getD 2 0 ^^^ window.getD 0 0)

def compressFrom : (rounds : Nat) → (t : Nat) → (window : List UInt32) → State → State
  | 0, _, _, s => s
  | rounds + 1, t, window, s =>
    compressFrom rounds (t + 1) (window.drop 1 ++ [nextWord window]) (round t (window.getD 0 0) s)

def compress (s : State) (block : List UInt32) : State :=
  let r := compressFrom 80 0 block s
  ⟨s.a + r.a, s.b + r.b, s.c + r.c, s.d + r.d, s.e + r.e⟩

def absorb : (blocks : Nat) → List UInt32 → State → State
  | 0, _, s => s
  | blocks + 1, words, s => absorb blocks (words.drop 16) (compress s (words.take 16))

def bigEndianBytes (w : UInt32) : Bytes := (Bytes.word32 w).reverse

def State.bytes (s : State) : Block 20 :=
  ⟨bigEndianBytes s.a ++ bigEndianBytes s.b ++ bigEndianBytes s.c ++ bigEndianBytes s.d ++ bigEndianBytes s.e,
    by simp [bigEndianBytes, Bytes.word32, Bytes.length_littleEndian]⟩

def digest (message : Bytes) : Block 20 :=
  let words := bigEndianWords (pad message)
  (absorb (words.length / 16) words initial).bytes

end DexUnseal.Digest.Sha1
