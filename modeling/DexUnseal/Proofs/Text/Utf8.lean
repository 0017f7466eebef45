import DexUnseal.Text.Utf8
import Mathlib.Data.List.Lex
import Mathlib.Data.String.Basic

/-! Texts in UTF-8 come in the order of their bytes. -/

namespace DexUnseal.Text

lemma toNat_charOfNat {n : Nat} (h : n.isValidChar) : (Char.ofNat n).toNat = n := by
  rw [Char.ofNat, dif_pos h]
  rfl

def fill (n : Nat) : String := String.ofList (List.replicate n 'a')

lemma toList_fill (n : Nat) : (fill n).toList = List.replicate n 'a' := String.toList_ofList

lemma toNat_of_mem_fill {n : Nat} {c : Char} (h : c ∈ (fill n).toList) : c.toNat < 0x80 := by
  rw [toList_fill] at h
  rw [List.eq_of_mem_replicate h]
  decide

namespace Utf8

variable {c d : Char} {s t : String} {m n : Nat} {x y : Bytes}

def tail : (k : Nat) → (n : Nat) → Bytes
  | 0, _ => []
  | k + 1, n => UInt8.ofNat (0x80 + n / 64 ^ k % 64) :: tail k n

lemma encodeChar_eq (c : Char) : encodeChar c =
    if c.toNat < 0x80 then UInt8.ofNat (c.toNat / 64 ^ 0) :: tail 0 c.toNat
    else if c.toNat < 0x800 then UInt8.ofNat (0xc0 + c.toNat / 64 ^ 1) :: tail 1 c.toNat
    else if c.toNat < 0x10000 then UInt8.ofNat (0xe0 + c.toNat / 64 ^ 2) :: tail 2 c.toNat
    else UInt8.ofNat (0xf0 + c.toNat / 64 ^ 3) :: tail 3 c.toNat := by
  simp [encodeChar, tail]

lemma lex_cons {a b : Nat} (hb : b < 256) (h : a < b ∨ a = b ∧ List.Lex (· < ·) x y) :
    List.Lex (· < ·) (UInt8.ofNat a :: x) (UInt8.ofNat b :: y) := by
  rcases h with h | ⟨rfl, h⟩
  · refine .rel ?_
    rw [UInt8.lt_iff_toNat_lt, UInt8.toNat_ofNat_of_lt' (Nat.lt_trans h hb), UInt8.toNat_ofNat_of_lt' hb]
    exact h
  · exact .cons h

lemma tail_lex (k : Nat) (h : m < n) (hq : m / 64 ^ k = n / 64 ^ k) (x y : Bytes) :
    List.Lex (· < ·) (tail k m ++ x) (tail k n ++ y) := by
  induction k with
  | zero =>
    rw [Nat.pow_zero, Nat.div_one, Nat.div_one] at hq
    exact absurd hq (Nat.ne_of_lt h)
  | succ k ih =>
    rw [Nat.pow_succ, ← Nat.div_div_eq_div_mul, ← Nat.div_div_eq_div_mul] at hq
    have hle : m / 64 ^ k ≤ n / 64 ^ k := Nat.div_le_div_right (Nat.le_of_lt h)
    refine lex_cons (by omega) ?_
    rcases Nat.lt_or_eq_of_le hle with hlt | heq
    · exact .inl (by omega)
    · exact .inr ⟨by rw [heq], ih heq⟩

lemma lead_lex (k p : Nat) (h : m < n) (hn : p + n / 64 ^ k < 256) (x y : Bytes) :
    List.Lex (· < ·) (UInt8.ofNat (p + m / 64 ^ k) :: tail k m ++ x)
      (UInt8.ofNat (p + n / 64 ^ k) :: tail k n ++ y) := by
  have hle : m / 64 ^ k ≤ n / 64 ^ k := Nat.div_le_div_right (Nat.le_of_lt h)
  refine lex_cons hn ?_
  rcases Nat.lt_or_eq_of_le hle with hlt | heq
  · exact .inl (by omega)
  · exact .inr ⟨by rw [heq], tail_lex k h heq x y⟩

lemma toNat_lt (c : Char) : c.toNat < 0x110000 := by
  have h := c.valid
  rw [UInt32.isValidChar, Nat.isValidChar] at h
  change c.val.toNat < 0x110000
  omega

@[simp] lemma length_tail (k n : Nat) : (tail k n).length = k := by
  induction k with
  | zero => rfl
  | succ k ih => rw [tail, List.length_cons, ih]

lemma le_of_mem_tail {b : UInt8} {k : Nat} (h : b ∈ tail k n) : 0x80 ≤ b.toNat := by
  induction k with
  | zero => cases h
  | succ k ih =>
    rcases List.mem_cons.mp h with rfl | h
    · have hlt : 0x80 + n / 64 ^ k % 64 < UInt8.size := by
        rw [UInt8.size]
        omega
      rw [UInt8.toNat_ofNat_of_lt' hlt]
      exact Nat.le_add_right _ _
    · exact ih h

lemma encodeChar_other (h : 0x80 ≤ c.toNat) : ∃ p k, 0 < k ∧ 0x80 ≤ p ∧ p < 256 ∧
    encodeChar c = UInt8.ofNat p :: tail k c.toNat := by
  have hc := toNat_lt c
  rw [encodeChar_eq, if_neg (Nat.not_lt.mpr h)]
  split_ifs
  · exact ⟨_, 1, by decide, by omega, by omega, rfl⟩
  · exact ⟨_, 2, by decide, by omega, by omega, rfl⟩
  · exact ⟨_, 3, by decide, by omega, by omega, rfl⟩

lemma encodeChar_lex (h : c < d) (x y : Bytes) :
    List.Lex (· < ·) (encodeChar c ++ x) (encodeChar d ++ y) := by
  have hlt : c.toNat < d.toNat := UInt32.lt_iff_toNat_lt.mp h
  have hd := toNat_lt d
  rw [encodeChar_eq, encodeChar_eq]
  split_ifs
  · rw [← Nat.zero_add (c.toNat / _), ← Nat.zero_add (d.toNat / _)]
    exact lead_lex 0 0 hlt (by omega) x y
  · exact lex_cons (by omega) (.inl (by omega))
  · exact lex_cons (by omega) (.inl (by omega))
  · exact lex_cons (by omega) (.inl (by omega))
  · omega
  · exact lead_lex 1 0xc0 hlt (by omega) x y
  · exact lex_cons (by omega) (.inl (by omega))
  · exact lex_cons (by omega) (.inl (by omega))
  · omega
  · omega
  · exact lead_lex 2 0xe0 hlt (by omega) x y
  · exact lex_cons (by omega) (.inl (by omega))
  · omega
  · omega
  · omega
  · exact lead_lex 3 0xf0 hlt (by omega) x y

lemma ne_zero_of_mem_encode {b : UInt8} (h : '\x00' ∉ s.toList) (hb : b ∈ encode s) : b ≠ 0 := by
  obtain ⟨c, hc, hb⟩ := List.mem_flatMap.mp hb
  rcases Nat.lt_or_ge c.toNat 0x80 with hlt | hge
  · rw [encodeChar, if_pos hlt, List.mem_singleton] at hb
    rintro rfl
    have hz := congrArg UInt8.toNat hb
    rw [UInt8.toNat_ofNat_of_lt' (Nat.lt_trans hlt (by decide))] at hz
    have hnul : c = '\x00' := by
      rw [← Char.ofNat_toNat c, ← hz]
      rfl
    exact h (hnul ▸ hc)
  · obtain ⟨p, k, -, hp, hlt, he⟩ := encodeChar_other hge
    rw [he] at hb
    rintro rfl
    rcases List.mem_cons.mp hb with hz | hb
    · have hz := congrArg UInt8.toNat hz
      rw [UInt8.toNat_ofNat_of_lt' hlt] at hz
      exact absurd (hz ▸ hp) (by decide)
    · exact absurd (le_of_mem_tail hb) (by decide)

lemma encodeChar_ne_nil (c : Char) : encodeChar c ≠ [] := by
  rw [encodeChar]
  split_ifs <;> exact List.cons_ne_nil _ _

lemma length_encode_of_ascii (h : ∀ c ∈ s.toList, c.toNat < 0x80) : (encode s).length = s.toList.length := by
  have hone : s.toList.map (fun c => (encodeChar c).length) = s.toList.map fun _ => 1 :=
    List.map_congr_left fun c hc => by rw [encodeChar, if_pos (h c hc), List.length_singleton]
  rw [encode, List.length_flatMap, hone]
  simp

/-- The order of texts is that of their bytes. -/
theorem encode_lt_encode (h : s < t) : encode s < encode t := by
  have hlex : List.Lex (· < ·) s.toList t.toList := (List.lt_iff_lex_lt _ _).mp (String.lt_iff_toList_lt.mp h)
  refine (List.lt_iff_lex_lt _ _).mpr ?_
  rw [encode, encode]
  generalize s.toList = cs at hlex
  generalize t.toList = ds at hlex
  induction hlex with
  | nil =>
    rename_i d ds
    obtain ⟨b, bytes, hb⟩ := List.exists_cons_of_ne_nil (encodeChar_ne_nil d)
    rw [List.flatMap_nil, List.flatMap_cons, hb]
    exact .nil
  | rel hcd => exact encodeChar_lex hcd _ _
  | cons _ ih => exact ih.append_left _ _

end Utf8

end DexUnseal.Text
