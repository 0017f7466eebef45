import DexUnseal.Proofs.Text.Utf8
import DexUnseal.Text.CodePage437
import Mathlib.Data.List.GetD

/-! How texts in UTF-8 look in code page 437: other characters than those of ASCII become several. -/

namespace DexUnseal.Text.CodePage437

variable {c d : Char} {b : UInt8} {s : String}

def seen (c : Char) : List Char := (Utf8.encodeChar c).map decodeByte

lemma toList_decode_encode (s : String) : (decode (Utf8.encode s)).toList = s.toList.flatMap seen := by
  rw [decode, Utf8.encode, String.toList_ofList, List.map_flatMap]
  rfl

lemma seen_ascii (h : c.toNat < 0x80) : seen c = [c] := by
  have hb : UInt8.ofNat c.toNat < 0x80 := by
    rw [UInt8.lt_iff_toNat_lt, UInt8.toNat_ofNat_of_lt' (Nat.lt_trans h (by decide))]
    exact h
  rw [seen, Utf8.encodeChar, if_pos h, List.map_singleton, decodeByte, if_pos hb,
    UInt8.toNat_ofNat_of_lt' (Nat.lt_trans h (by decide)), Char.ofNat_toNat]

lemma upperHalf_other {d : Char} (h : d ∈ upperHalf) : 0x80 ≤ d.toNat := by
  have hall : (upperHalf.all fun d => decide (0x80 ≤ d.toNat)) = true := by decide +kernel
  exact of_decide_eq_true (List.all_eq_true.mp hall d h)

lemma decodeByte_other (h : 0x80 ≤ b.toNat) : 0x80 ≤ (decodeByte b).toNat := by
  have hb : ¬ b < 0x80 := by
    rw [UInt8.lt_iff_toNat_lt]
    exact Nat.not_lt.mpr h
  rw [decodeByte, if_neg hb]
  rcases Nat.lt_or_ge (b.toNat - 0x80) upperHalf.length with hlt | hge
  · rw [List.getD_eq_getElem _ _ hlt]
    exact upperHalf_other (List.getElem_mem hlt)
  · rw [List.getD_eq_default _ _ hge]
    decide

lemma seen_other (h : 0x80 ≤ c.toNat) : 1 < (seen c).length ∧ ∀ d ∈ seen c, 0x80 ≤ d.toNat := by
  obtain ⟨p, k, hk, hp, hlt, he⟩ := Utf8.encodeChar_other h
  refine ⟨?_, fun d hd => ?_⟩
  · rw [seen, he, List.length_map, List.length_cons, Utf8.length_tail]
    omega
  · obtain ⟨b, hb, rfl⟩ := List.mem_map.mp hd
    rw [he] at hb
    rcases List.mem_cons.mp hb with rfl | hb
    · exact decodeByte_other (by rwa [UInt8.toNat_ofNat_of_lt' hlt])
    · exact decodeByte_other (Utf8.le_of_mem_tail hb)

lemma mem_seen_iff (hd : d.toNat < 0x80) : d ∈ seen c ↔ d = c := by
  rcases Nat.lt_or_ge c.toNat 0x80 with h | h
  · rw [seen_ascii h, List.mem_singleton]
  · refine ⟨fun hm => absurd ((seen_other h).2 d hm) (Nat.not_le.mpr hd), ?_⟩
    rintro rfl
    exact absurd hd (Nat.not_lt.mpr h)

lemma mem_flatMap_seen_iff {cs : List Char} (hd : d.toNat < 0x80) : d ∈ cs.flatMap seen ↔ d ∈ cs := by
  simp only [List.mem_flatMap, mem_seen_iff hd, exists_eq_right']

lemma flatMap_seen_ascii {cs : List Char} (h : ∀ c ∈ cs, c.toNat < 0x80) : cs.flatMap seen = cs := by
  rw [List.flatMap_congr fun c hc => seen_ascii (h c hc), List.flatMap_singleton']

lemma length_le_length_flatMap_seen (cs : List Char) : cs.length ≤ (cs.flatMap seen).length := by
  induction cs with
  | nil => exact Nat.le_refl 0
  | cons c cs ih =>
    rw [List.flatMap_cons, List.length_append, List.length_cons]
    rcases Nat.lt_or_ge c.toNat 0x80 with h | h
    · rw [seen_ascii h, List.length_singleton]
      omega
    · have hl := (seen_other h).1
      omega

/-- A text with other characters becomes longer, and does not get rid of them. -/
lemma flatMap_seen_other {cs : List Char} (h : ∃ c ∈ cs, 0x80 ≤ c.toNat) :
    cs.length < (cs.flatMap seen).length ∧ ∃ c ∈ cs.flatMap seen, 0x80 ≤ c.toNat := by
  obtain ⟨c, hc, h⟩ := h
  obtain ⟨before, after, rfl⟩ := List.append_of_mem hc
  have hb := length_le_length_flatMap_seen before
  have ha := length_le_length_flatMap_seen after
  obtain ⟨hl, hm⟩ := seen_other h
  obtain ⟨d, hd⟩ := List.exists_mem_of_length_pos (Nat.lt_trans Nat.zero_lt_one hl)
  rw [List.flatMap_append, List.flatMap_cons]
  refine ⟨?_, d, List.mem_append_right _ (List.mem_append_left _ hd), hm d hd⟩
  simp only [List.length_append, List.length_cons]
  omega

end DexUnseal.Text.CodePage437
