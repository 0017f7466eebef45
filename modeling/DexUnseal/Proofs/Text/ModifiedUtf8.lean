import DexUnseal.Text.ModifiedUtf8
import Mathlib.Tactic.Lemma

/-! Text written in modified UTF-8 reads back, also where plain UTF-8 is tried first: a written text
that is plain UTF-8 holds neither NUL nor surrogates and means the same both ways. -/

namespace DexUnseal.Text

lemma le_iff_toNat (a b : UInt8) : a ≤ b ↔ a.toNat ≤ b.toNat := Iff.rfl

lemma lt_iff_toNat (a b : UInt8) : a < b ↔ a.toNat < b.toNat := Iff.rfl

lemma lead_ofNat (n : Nat) (h : n < 256) :
    lead (UInt8.ofNat n) =
      if n < 0x80 then some (0, n) else if n < 0xc0 then none else if n < 0xe0 then some (1, n - 0xc0)
      else if n < 0xf0 then some (2, n - 0xe0) else if n < 0xf8 then some (3, n - 0xf0) else none := by
  have hn : (UInt8.ofNat n).toNat = n := by rw [UInt8.toNat_ofNat', Nat.mod_eq_of_lt h]
  simp only [lead, lt_iff_toNat, hn]
  rfl

lemma continued_cons (n bits m : Nat) (rest : Bytes) (h : m < 64) :
    continued (n + 1) bits (UInt8.ofNat (0x80 + m) :: rest) = continued n (bits * 64 + m) rest := by
  have hm : (UInt8.ofNat (0x80 + m)).toNat = 0x80 + m := by rw [UInt8.toNat_ofNat']; omega
  have hc : (0x80 : UInt8) ≤ UInt8.ofNat (0x80 + m) ∧ UInt8.ofNat (0x80 + m) < 0xc0 := by
    rw [le_iff_toNat, lt_iff_toNat, hm]
    exact ⟨Nat.le_add_right _ _, by change 0x80 + m < 0xc0; omega⟩
  rw [continued, if_pos hc, hm, Nat.add_sub_cancel_left]

lemma continued_zero (bits : Nat) (rest : Bytes) : continued 0 bits rest = some (bits, rest) := by
  rw [continued]

lemma decodeAll_flatMap {next : Bytes → Option (Char × Bytes)} {encode : Char → Bytes}
    (hpos : ∀ c, encode c ≠ []) (hnext : ∀ c rest, next (encode c ++ rest) = some (c, rest))
    (cs : List Char) (fuel : Nat) (h : cs.length ≤ fuel) :
    decodeAll next fuel (cs.flatMap encode) = some cs := by
  induction cs generalizing fuel with
  | nil => cases fuel <;> rfl
  | cons c cs ih =>
    obtain ⟨fuel, rfl⟩ := Nat.exists_eq_add_of_le' (Nat.lt_of_lt_of_le (Nat.succ_pos _) h)
    obtain ⟨b, bs, hb⟩ := List.exists_cons_of_ne_nil (hpos c)
    have hn := hnext c (cs.flatMap encode)
    rw [hb, List.cons_append] at hn
    rw [List.flatMap_cons, hb, List.cons_append]
    simp only [decodeAll, hn, ih fuel (by simpa using h), Option.map_some]

lemma length_le_flatMap {encode : Char → Bytes} (hpos : ∀ c, encode c ≠ []) (cs : List Char) :
    cs.length ≤ (cs.flatMap encode).length := by
  induction cs with
  | nil => simp
  | cons c cs ih =>
    have hc := List.length_pos_iff.mpr (hpos c)
    simp only [List.flatMap_cons, List.length_append, List.length_cons]
    omega

lemma decodeAll_flatMap_or {next : Bytes → Option (Char × Bytes)} {encode : Char → Bytes}
    (hpos : ∀ c, encode c ≠ [])
    (hnext : ∀ c rest, next (encode c ++ rest) = some (c, rest) ∨ next (encode c ++ rest) = none)
    (cs : List Char) (fuel : Nat) :
    decodeAll next fuel (cs.flatMap encode) = some cs ∨ decodeAll next fuel (cs.flatMap encode) = none := by
  induction cs generalizing fuel with
  | nil => exact Or.inl (by cases fuel <;> rfl)
  | cons c cs ih =>
    obtain ⟨b, bs, hb⟩ := List.exists_cons_of_ne_nil (hpos c)
    have hn := hnext c (cs.flatMap encode)
    rw [hb, List.cons_append] at hn
    rw [List.flatMap_cons, hb, List.cons_append]
    cases fuel with
    | zero => exact Or.inr (by rw [decodeAll])
    | succ fuel =>
      rcases hn with hn | hn
      · rcases ih fuel with h | h <;> simp [decodeAll, hn, h]
      · exact Or.inr (by simp [decodeAll, hn])

lemma toNat_range (c : Char) : c.toNat < 0xd800 ∨ 0xdfff < c.toNat ∧ c.toNat < 0x110000 := c.valid

namespace ModifiedUtf8

lemma encodeUnit_ne_nil (u : Nat) : encodeUnit u ≠ [] := by
  rw [encodeUnit]
  split
  · simp
  · split <;> simp

lemma encodeChar_ne_nil (c : Char) : encodeChar c ≠ [] := by
  rw [encodeChar, units]
  split <;> simp [encodeUnit_ne_nil]

lemma encodeUnit_form (u : Nat) (h : u < 0x10000) :
    ∃ b bs n bits, encodeUnit u = b :: bs ∧ lead b = some (n, bits) ∧
      (∀ rest, continued n bits (bs ++ rest) = some (u, rest)) ∧
      n < 3 ∧ (if u = 0 then n = 1 else leastWith n ≤ u) := by
  rw [encodeUnit]
  by_cases h₁ : u ≠ 0 ∧ u < 0x80
  · have hl := lead_ofNat u (by omega)
    rw [if_pos h₁.2] at hl
    rw [if_pos h₁]
    exact ⟨_, _, 0, u, rfl, hl, fun rest => continued_zero u rest, by decide, by simp [h₁.1, leastWith]⟩
  · rw [if_neg h₁]
    by_cases h₂ : u < 0x800
    · have hl := lead_ofNat (0xc0 + u / 64) (by omega)
      rw [if_neg (by omega), if_neg (by omega), if_pos (by omega), Nat.add_sub_cancel_left] at hl
      rw [if_pos h₂]
      refine ⟨_, _, 1, u / 64, rfl, hl, fun rest => ?_, by decide, ?_⟩
      · rw [List.cons_append, List.nil_append, continued_cons 0 _ (u % 64) _ (by omega), continued_zero,
          Nat.div_add_mod']
      · split
        · trivial
        · simp only [leastWith]
          omega
    · have hl := lead_ofNat (0xe0 + u / 4096) (by omega)
      rw [if_neg (by omega), if_neg (by omega), if_neg (by omega), if_pos (by omega),
        Nat.add_sub_cancel_left] at hl
      rw [if_neg h₂]
      refine ⟨_, _, 2, u / 4096, rfl, hl, fun rest => ?_, by decide, ?_⟩
      · have hu : (u / 4096 * 64 + u / 64 % 64) * 64 + u % 64 = u := by omega
        rw [List.cons_append, List.cons_append, List.nil_append,
          continued_cons 1 _ (u / 64 % 64) _ (by omega), continued_cons 0 _ (u % 64) _ (by omega),
          continued_zero, hu]
      · rw [if_neg (by omega)]
        simp only [leastWith]
        omega

lemma unit_encodeUnit (u : Nat) (rest : Bytes) (h : u < 0x10000) :
    unit (encodeUnit u ++ rest) = some (u, rest) := by
  obtain ⟨b, bs, n, bits, he, hl, hc, hn⟩ := encodeUnit_form u h
  simp only [he, List.cons_append, unit, hl, hc rest, hn, and_self, if_true]

lemma next_basic {u : Nat} (rest : Bytes) (h : u < 0xd800 ∨ 0xdfff < u ∧ u < 0x10000) :
    next (encodeUnit u ++ rest) = some (Char.ofNat u, rest) := by
  have hh : isHigh u = false := by simp only [isHigh, decide_eq_false_iff_not]; omega
  have hl : isLow u = false := by simp only [isLow, decide_eq_false_iff_not]; omega
  simp only [next, unit_encodeUnit u rest (by omega), hh, hl, Bool.false_eq_true, if_false]

lemma next_pair {a b : Nat} (rest : Bytes) (ha : a < 0x400) (hb : b < 0x400) :
    next (encodeUnit (0xd800 + a) ++ (encodeUnit (0xdc00 + b) ++ rest)) =
      some (Char.ofNat (0x10000 + a * 0x400 + b), rest) := by
  have hh : isHigh (0xd800 + a) = true := by simp only [isHigh, decide_eq_true_eq]; omega
  have hl : isLow (0xdc00 + b) = true := by simp only [isLow, decide_eq_true_eq]; omega
  simp only [next, unit_encodeUnit (0xd800 + a) _ (by omega), unit_encodeUnit (0xdc00 + b) _ (by omega), hh,
    hl, if_true, Nat.add_sub_cancel_left]

lemma next_encodeChar (c : Char) (rest : Bytes) : next (encodeChar c ++ rest) = some (c, rest) := by
  have hc := toNat_range c
  rw [encodeChar, units]
  by_cases h : c.toNat < 0x10000
  · rw [if_pos h, List.flatMap_singleton, next_basic rest (by omega), Char.ofNat_toNat]
  · obtain ⟨n, hn⟩ := Nat.exists_eq_add_of_le (Nat.le_of_not_lt h)
    rw [if_neg h, List.flatMap_cons, List.flatMap_singleton, List.append_assoc,
      next_pair rest (by omega) (Nat.mod_lt _ (by decide)), hn, Nat.add_sub_cancel_left, Nat.add_assoc,
      Nat.div_add_mod', ← hn, Char.ofNat_toNat]

theorem decodeStrict_encode (s : String) : decodeStrict (encode s) = some s := by
  have h := decodeAll_flatMap encodeChar_ne_nil next_encodeChar s.toList _
    (length_le_flatMap encodeChar_ne_nil s.toList)
  rw [decodeStrict, encode, h, Option.map_some, String.ofList_toList]

lemma utf8_next_encodeUnit (u : Nat) (rest : Bytes) (h : u < 0x10000) :
    Utf8.next (encodeUnit u ++ rest) =
      if u ≠ 0 ∧ u.isValidChar then some (Char.ofNat u, rest) else none := by
  obtain ⟨b, bs, n, bits, he, hl, hc, -, hn⟩ := encodeUnit_form u h
  simp only [he, List.cons_append, Utf8.next, hl, hc rest]
  by_cases h₀ : u = 0
  · subst h₀
    rw [if_pos rfl] at hn
    subst hn
    simp [leastWith]
  · rw [if_neg h₀] at hn
    simp only [hn, true_and, ne_eq, h₀, not_false_eq_true]

lemma utf8_next_encodeChar (c : Char) (rest : Bytes) :
    Utf8.next (encodeChar c ++ rest) = some (c, rest) ∨ Utf8.next (encodeChar c ++ rest) = none := by
  have hc := toNat_range c
  rw [encodeChar, units]
  by_cases h : c.toNat < 0x10000
  · rw [if_pos h, List.flatMap_singleton, utf8_next_encodeUnit _ _ h, Char.ofNat_toNat]
    split
    · exact Or.inl rfl
    · exact Or.inr rfl
  · rw [if_neg h, List.flatMap_cons, List.append_assoc, utf8_next_encodeUnit _ _ (by omega), if_neg]
    · exact Or.inr rfl
    · rintro ⟨-, hv⟩
      rcases hv with hv | hv <;> omega

theorem decode_encode (s : String) : decode (encode s) = some s := by
  have hu : Utf8.decode (encode s) = some s ∨ Utf8.decode (encode s) = none := by
    rw [Utf8.decode, encode]
    rcases decodeAll_flatMap_or encodeChar_ne_nil utf8_next_encodeChar s.toList
      (s.toList.flatMap encodeChar).length with h | h
    · exact Or.inl (by rw [h, Option.map_some, String.ofList_toList])
    · exact Or.inr (by rw [h, Option.map_none])
  rcases hu with h | h <;> simp [decode, h, decodeStrict_encode]

lemma ofNat_ne_zero {n : Nat} (h₀ : 0 < n) (h : n < 256) : UInt8.ofNat n ≠ 0 := by
  intro he
  have ht := congrArg UInt8.toNat he
  rw [UInt8.toNat_ofNat', Nat.mod_eq_of_lt h] at ht
  exact Nat.ne_of_gt h₀ ht

lemma zero_notMem_encodeUnit (u : Nat) (h : u < 0x10000) : 0 ∉ encodeUnit u := by
  rw [encodeUnit]
  split
  · rename_i h₁
    simpa using (ofNat_ne_zero (by omega) (by omega) : UInt8.ofNat u ≠ 0).symm
  · split
    · have h₁ := (ofNat_ne_zero (by omega) (by omega) : UInt8.ofNat (0xc0 + u / 64) ≠ 0).symm
      have h₂ := (ofNat_ne_zero (by omega) (by omega) : UInt8.ofNat (0x80 + u % 64) ≠ 0).symm
      simp only [List.mem_cons, h₁, h₂, List.not_mem_nil, or_self, not_false_eq_true]
    · have h₁ := (ofNat_ne_zero (by omega) (by omega) : UInt8.ofNat (0xe0 + u / 4096) ≠ 0).symm
      have h₂ := (ofNat_ne_zero (by omega) (by omega) : UInt8.ofNat (0x80 + u / 64 % 64) ≠ 0).symm
      have h₃ := (ofNat_ne_zero (by omega) (by omega) : UInt8.ofNat (0x80 + u % 64) ≠ 0).symm
      simp only [List.mem_cons, h₁, h₂, h₃, List.not_mem_nil, or_self, not_false_eq_true]

theorem zero_notMem_encode (s : String) : 0 ∉ encode s := by
  simp only [encode, encodeChar, List.mem_flatMap, not_exists, not_and]
  intro c _ u hu
  apply zero_notMem_encodeUnit
  have hc := toNat_range c
  rw [units] at hu
  split at hu
  · obtain rfl : u = c.toNat := by simpa using hu
    omega
  · have hu' : u = 0xd800 + (c.toNat - 0x10000) / 0x400 ∨ u = 0xdc00 + (c.toNat - 0x10000) % 0x400 := by
      simpa using hu
    omega

lemma unitCount_eq (s : String) : unitCount s = s.toList.length + s.toList.countP (0x10000 ≤ ·.toNat) := by
  rw [unitCount]
  induction s.toList with
  | nil => rfl
  | cons c cs ih =>
    rw [List.flatMap_cons, List.length_append, ih, List.countP_cons, List.length_cons, units]
    split
    · rename_i hc
      rw [if_neg (by simpa using hc), List.length_singleton]
      omega
    · rename_i hc
      rw [if_pos (by simpa using hc), List.length_cons, List.length_singleton]
      omega

end ModifiedUtf8

end DexUnseal.Text
