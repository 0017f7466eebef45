import DexUnseal.Cache.Claims
import DexUnseal.Proofs.Path
import DexUnseal.Proofs.Text.Numeral
import Mathlib.Data.List.Nodup
import Mathlib.Order.Bounds.Basic

/-! Which directory a call gets: of any number of claims, there is always one left that is free. -/

namespace DexUnseal

namespace Cache.Claims

variable {c : Claims} {base dir d : Path}

lemma contains_iff : c.contains d = true ↔ ∃ claim ∈ c.claims, claim.dir.same d = true := List.any_eq_true

lemma contains_retain : (c.retain dir).contains d = c.contains d := by
  rw [contains, retain, List.any_map, contains]
  congr 1
  funext claim
  rw [Function.comp_apply]
  split <;> rfl

lemma contains_lower : (c.lower dir).contains d = c.contains d := by
  rw [contains, lower, List.any_map, contains]
  congr 1
  funext claim
  rw [Function.comp_apply]
  split <;> rfl

lemma exists_of_mem_retain {claim : Claim} (h : claim ∈ (c.retain dir).claims) : ∃ old ∈ c.claims,
    claim.dir = old.dir ∧ claim.holders = old.holders + if dir.same old.dir then 1 else 0 := by
  obtain ⟨old, ho, rfl⟩ := List.mem_map.mp h
  refine ⟨old, ho, ?_⟩
  rw [Path.same_comm dir]
  split <;> exact ⟨rfl, rfl⟩

lemma exists_of_mem_lower {claim : Claim} (h : claim ∈ (c.lower dir).claims) : ∃ old ∈ c.claims,
    claim.dir = old.dir ∧ claim.holders = old.holders - if dir.same old.dir then 1 else 0 := by
  obtain ⟨old, ho, rfl⟩ := List.mem_map.mp h
  refine ⟨old, ho, ?_⟩
  rw [Path.same_comm dir]
  split <;> exact ⟨rfl, rfl⟩

lemma isHeld_iff {count : Path → Nat} (hc : ∀ claim ∈ c.claims, claim.holders = count claim.dir)
    (hs : ∀ p, p.same dir = true → count p = count dir) (hd : c.contains dir = true) :
    c.isHeld dir = true ↔ count dir ≠ 0 := by
  simp only [isHeld, List.any_eq_true, Bool.and_eq_true, bne_iff_ne]
  constructor
  · rintro ⟨claim, hm, he, hh⟩
    rwa [hc claim hm, hs _ he] at hh
  · intro hn
    obtain ⟨claim, hm, he⟩ := contains_iff.mp hd
    exact ⟨claim, hm, he, by rwa [hc claim hm, hs _ he]⟩

lemma contains_free : (c.free dir).contains d = true ↔ c.contains d = true ∧ dir.same d = false := by
  rw [contains_iff, contains_iff]
  constructor
  · rintro ⟨claim, hc, hd⟩
    obtain ⟨hc, hf⟩ := List.mem_filter.mp hc
    rw [Path.same_congr hd, Path.same_comm, Bool.not_eq_true'] at hf
    exact ⟨⟨claim, hc, hd⟩, hf⟩
  · rintro ⟨⟨claim, hc, hd⟩, hf⟩
    refine ⟨claim, List.mem_filter.mpr ⟨hc, ?_⟩, hd⟩
    rw [Path.same_congr hd, Path.same_comm, hf, Bool.not_false]

lemma contains_acquire :
    (c.acquire base).2.contains d = true ↔ (c.firstFree base).same d = true ∨ c.contains d = true := by
  rw [contains, acquire, List.any_cons, Bool.or_eq_true]
  rfl

lemma text_numbered (base : Path) (k : Nat) :
    (numbered base k).text.toList = base.text.toList ++ '-' :: Nat.toDigits 10 k := by
  simp [numbered, Text.decimal]

lemma slash_notMem (k : Nat) : '/' ∉ '-' :: Nat.toDigits 10 k := by
  intro h
  rcases List.mem_cons.mp h with h | h
  · cases h
  · exact absurd (Nat.isDigit_of_mem_toDigits (by decide) (by decide) h) (by decide)

lemma isName_numbered (last : List Char) (k : Nat) : Path.IsName (last ++ '-' :: Nat.toDigits 10 k) := by
  have hm : '-' ∈ last ++ '-' :: Nat.toDigits 10 k := List.mem_append_right _ List.mem_cons_self
  refine ⟨?_, ?_, ?_⟩ <;> intro he <;> rw [he] at hm <;> simp at hm

lemma nodup_candidates (base : Path) (count : Nat) :
    ((base :: (List.range' 2 count).map (numbered base)).map Path.components).Nodup := by
  obtain ⟨front, last, hbase, happend⟩ := Path.exists_pieces_append base.text.toList
  have hpieces (k : Nat) : Path.pieces (numbered base k).text.toList = front ++ [last ++ '-' :: Nat.toDigits 10 k] := by
    rw [text_numbered, happend _ (slash_notMem k)]
  rw [List.map_cons, List.map_map, List.nodup_cons]
  constructor
  · intro h
    obtain ⟨k, -, hk⟩ := List.mem_map.mp h
    have he := Path.eq_of_components hbase (hpieces k) (isName_numbered last k) hk.symm
    exact absurd (List.self_eq_append_right.mp he) (List.cons_ne_nil _ _)
  · refine List.Nodup.map_on (fun j _ k _ h => ?_) List.nodup_range'
    have he := Path.eq_of_components (hpieces j) (hpieces k) (isName_numbered last k) h
    apply Text.decimal_injective
    rw [Text.decimal, Text.decimal, (List.cons.inj (List.append_cancel_left he)).2]

lemma exists_free (c : Claims) (base : Path) :
    ∃ dir ∈ base :: (List.range' 2 c.claims.length).map (numbered base), c.contains dir = false := by
  by_contra h
  push Not at h
  -- Otherwise there would be more directories, all of them different, than there are claims.
  have hsub : (base :: (List.range' 2 c.claims.length).map (numbered base)).map Path.components ⊆
      c.claims.map fun claim => claim.dir.components := by
    intro components hm
    obtain ⟨dir, hd, rfl⟩ := List.mem_map.mp hm
    obtain ⟨claim, hc, hs⟩ := contains_iff.mp (Bool.eq_true_of_not_eq_false (h dir hd))
    exact List.mem_map.mpr ⟨claim, hc, Path.same_iff.mp hs⟩
  have hle := ((nodup_candidates base _).subperm hsub).length_le
  simp at hle

/-- A call gets the directory that it asks for, or the first numbered one that is free. -/
theorem firstFree_spec (c : Claims) (base : Path) :
    if c.contains base then
      ∃ k, IsLeast {k | 2 ≤ k ∧ c.contains (numbered base k) = false} k ∧ c.firstFree base = numbered base k
    else c.firstFree base = base := by
  rw [firstFree, List.find?_cons]
  split
  · rename_i hb
    obtain ⟨dir, hd, hf⟩ := exists_free c base
    have hs : ((List.range' 2 c.claims.length).find? fun k => !c.contains (numbered base k)).isSome = true := by
      rw [List.find?_isSome]
      rcases List.mem_cons.mp hd with rfl | hd
      · rw [hb] at hf
        cases hf
      · obtain ⟨k, hk, rfl⟩ := List.mem_map.mp hd
        exact ⟨k, hk, by rw [hf, Bool.not_false]⟩
    obtain ⟨k, hk⟩ := Option.isSome_iff_exists.mp hs
    obtain ⟨hfree, hm, hleast⟩ := List.find?_range'_eq_some.mp hk
    refine ⟨k, ⟨⟨(List.mem_range'_1.mp hm).1, by simpa using hfree⟩, fun j ⟨hj, hjf⟩ => ?_⟩, ?_⟩
    · by_contra hlt
      have hn := hleast j hj (Nat.lt_of_not_le hlt)
      rw [hjf] at hn
      cases hn
    · simp only [hb, Bool.not_true, List.find?_map, Function.comp_def, hk, Option.map_some, Option.getD_some]
  · rename_i hb
    simp [hb]

lemma contains_firstFree (c : Claims) (base : Path) : c.contains (c.firstFree base) = false := by
  have h := firstFree_spec c base
  split at h
  · obtain ⟨k, hk, he⟩ := h
    rw [he]
    exact hk.1.2
  · rename_i hb
    rw [h]
    exact Bool.eq_false_of_not_eq_true hb

end Cache.Claims

end DexUnseal
