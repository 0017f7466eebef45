import DexUnseal.Bytes
import Mathlib.Tactic.Lemma

/-! Little-endian numbers and the lengths of their fields, and bytes in the middle of others. -/

namespace DexUnseal.Bytes

lemma capacity_pos (width : Nat) : 0 < capacity width := Nat.pow_pos (by decide)

lemma capacity_add (m n : Nat) : capacity (m + n) = capacity m * capacity n := Nat.pow_add 256 m n

lemma ofLittleEndian_append (xs ys : Bytes) :
    ofLittleEndian (xs ++ ys) = ofLittleEndian xs + capacity xs.length * ofLittleEndian ys := by
  induction xs with
  | nil => simp [ofLittleEndian, capacity]
  | cons x xs ih =>
    simp only [List.cons_append, ofLittleEndian, ih, List.length_cons, capacity_succ, Nat.mul_add,
      Nat.mul_assoc, Nat.add_assoc]

lemma ofLittleEndian_lt (bytes : Bytes) : ofLittleEndian bytes < capacity bytes.length := by
  induction bytes with
  | nil => decide
  | cons b bytes ih =>
    have hb := b.toNat_lt
    rw [ofLittleEndian, List.length_cons, capacity_succ]
    omega

lemma ofLittleEndian_zeros {xs : Bytes} (h : ∀ b ∈ xs, b = 0) : ofLittleEndian xs = 0 := by
  induction xs with
  | nil => rfl
  | cons x xs ih =>
    rw [ofLittleEndian, h x List.mem_cons_self, ih fun b hb => h b (List.mem_cons_of_mem _ hb)]
    rfl

lemma ofLittleEndian_ones (n : Nat) : ofLittleEndian (List.replicate n 0xff) + 1 = capacity n := by
  induction n with
  | zero => rfl
  | succ n ih =>
    have hbyte : (0xff : UInt8).toNat = 255 := rfl
    rw [List.replicate_succ, ofLittleEndian, capacity_succ, ← ih, hbyte]
    omega

lemma capacity_le {xs : Bytes} (hn : xs ≠ []) (h : ∀ b ∈ xs, b ≠ 0) : capacity xs.length ≤ 256 * ofLittleEndian xs := by
  induction xs with
  | nil => exact absurd rfl hn
  | cons x xs ih =>
    obtain ⟨hx, hxs⟩ := List.forall_mem_cons.mp h
    rw [List.length_cons, capacity_succ, ofLittleEndian]
    refine Nat.mul_le_mul_left 256 ?_
    cases xs with
    | nil =>
      have hpos : x.toNat ≠ 0 := fun he => hx (UInt8.toNat_inj.mp he)
      exact Nat.le_add_right_of_le (Nat.one_le_iff_ne_zero.mpr hpos)
    | cons y ys => exact Nat.le_add_left_of_le (ih (List.cons_ne_nil y ys) hxs)

lemma littleEndian_ofLittleEndian (bytes : Bytes) : littleEndian bytes.length (ofLittleEndian bytes) = bytes := by
  induction bytes with
  | nil => rfl
  | cons b bytes ih =>
    have hb := b.toNat_lt
    have hlow : UInt8.ofNat (b.toNat + 256 * ofLittleEndian bytes) = b := by
      rw [← UInt8.toNat_inj, UInt8.toNat_ofNat']
      omega
    have hhigh : (b.toNat + 256 * ofLittleEndian bytes) / 256 = ofLittleEndian bytes := by omega
    rw [List.length_cons, ofLittleEndian, littleEndian, hlow, hhigh, ih]

lemma ofLittleEndian_word16 (v : UInt16) : ofLittleEndian (word16 v) = v.toNat := by
  rw [word16, ofLittleEndian_littleEndian]
  exact Nat.mod_eq_of_lt v.toNat_lt

lemma ofLittleEndian_word32 (v : UInt32) : ofLittleEndian (word32 v) = v.toNat := by
  rw [word32, ofLittleEndian_littleEndian]
  exact Nat.mod_eq_of_lt v.toNat_lt

@[simp] lemma length_word16 (v : UInt16) : (word16 v).length = 2 := length_littleEndian _ _

@[simp] lemma length_word32 (v : UInt32) : (word32 v).length = 4 := length_littleEndian _ _

end DexUnseal.Bytes

namespace DexUnseal

def StandsAt (file : Bytes) (offset : Nat) (bytes : Bytes) : Prop := bytes <+: file.drop offset

instance (file : Bytes) (offset : Nat) (bytes : Bytes) : Decidable (StandsAt file offset bytes) :=
  inferInstanceAs (Decidable (bytes <+: file.drop offset))

variable {bytes more : Bytes}

lemma standsAt_append (before item after : Bytes) : StandsAt (before ++ (item ++ after)) before.length item := by
  rw [StandsAt, List.drop_left]
  exact List.prefix_append item after

lemma StandsAt.left {file : Bytes} {offset : Nat} (h : StandsAt file offset (bytes ++ more)) :
    StandsAt file offset bytes :=
  (List.prefix_append bytes more).trans h

lemma StandsAt.behind {item : Bytes} {offset : Nat} (h : StandsAt bytes offset item) (before after : Bytes) :
    StandsAt (before ++ (bytes ++ after)) (before.length + offset) item := by
  rw [StandsAt, ← List.drop_drop, List.drop_left, List.drop_append]
  exact h.trans (List.prefix_append _ _)

lemma StandsAt.next {file : Bytes} {offset offset' n : Nat} (h : StandsAt file offset (bytes ++ more))
    (hn : bytes.length = n) (ho : offset' = offset + n) : StandsAt file offset' more := by
  obtain ⟨rest, hr⟩ := h
  subst ho hn
  rw [StandsAt, ← List.drop_drop, ← hr, List.append_assoc, List.drop_left]
  exact List.prefix_append more rest

lemma StandsAt.getElem?_eq {file : Bytes} {offset i : Nat} (h : StandsAt file offset bytes) (hi : i < bytes.length) :
    file[offset + i]? = bytes[i]? := by
  rw [← List.getElem?_drop]
  obtain ⟨rest, hr⟩ := h
  rw [← hr, List.getElem?_append_left hi]

lemma StandsAt.length_le {file : Bytes} {offset : Nat} (h : StandsAt file offset bytes) :
    bytes.length ≤ file.length := by
  have hl := List.IsPrefix.length_le h
  rw [List.length_drop] at hl
  omega

end DexUnseal
