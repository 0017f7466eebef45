/-!
Byte strings and the little-endian numbers in them.
-/

namespace DexUnseal

abbrev Bytes := List UInt8

abbrev Block (n : Nat) := { bytes : Bytes // bytes.length = n }

namespace Bytes

def capacity (width : Nat) : Nat := Nat.pow 256 width

def littleEndian : (width : Nat) → (n : Nat) → Bytes
  | 0, _ => []
  | width + 1, n => UInt8.ofNat n :: littleEndian width (n / 256)

def ofLittleEndian : Bytes → Nat
  | [] => 0
  | b :: rest => b.toNat + 256 * ofLittleEndian rest

def word16 (v : UInt16) : Bytes := littleEndian 2 v.toNat

def word32 (v : UInt32) : Bytes := littleEndian 4 v.toNat

theorem capacity_succ (width : Nat) : capacity (width + 1) = 256 * capacity width := by
  rw [Nat.mul_comm]; rfl

theorem length_littleEndian (width n : Nat) : (littleEndian width n).length = width := by
  induction width generalizing n with
  | zero => rfl
  | succ width ih => simp [littleEndian, ih]

theorem ofLittleEndian_littleEndian (width n : Nat) :
    ofLittleEndian (littleEndian width n) = n % capacity width := by
  induction width generalizing n with
  | zero => exact (Nat.mod_one n).symm
  | succ width ih =>
    simp only [littleEndian, ofLittleEndian, ih, UInt8.toNat_ofNat', capacity_succ]
    exact Nat.mod_mul.symm

end Bytes

end DexUnseal
