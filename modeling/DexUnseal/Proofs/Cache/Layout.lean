import DexUnseal.Cache.Layout
import DexUnseal.Proofs.Cache.Claims
import DexUnseal.Proofs.FileTree

/-! The files of different batches are different. -/

namespace DexUnseal

namespace Cache

def Entry.paths (e : Entry) : List Path := [e.source, e.optimized]

namespace Layout

def suffixes : List String := [".zip", ".zip.dex"]

lemma isName_classes (index : Nat) (suffix : String) (hs : '/' ∉ suffix.toList) :
    '/' ∉ ("classes" ++ Text.decimal index ++ suffix).toList ∧
      Path.IsName ("classes" ++ Text.decimal index ++ suffix).toList := by
  have htext : ("classes" ++ Text.decimal index ++ suffix).toList =
      "classes".toList ++ (Nat.toDigits 10 index ++ suffix.toList) := by
    simp [Text.decimal]
  rw [htext]
  constructor
  · rw [List.mem_append, List.mem_append, not_or, not_or]
    exact ⟨by decide, fun hm => Claims.slash_notMem index (List.mem_cons_of_mem _ hm), hs⟩
  · simp [Path.IsName]

lemma entry_eq (l : Layout) (index : Nat) : l.entry index =
    ⟨l.dir.join ⟨"classes" ++ Text.decimal index ++ ".zip"⟩,
      l.dir.join ⟨"classes" ++ Text.decimal index ++ ".zip.dex"⟩⟩ := by
  have he : "classes" ++ Text.decimal index ++ ".zip" ++ ".dex" = "classes" ++ Text.decimal index ++ ".zip.dex" := by
    rw [String.append_assoc]
    rfl
  rw [entry, he]

lemma exists_of_mem_paths {l : Layout} {index : Nat} {p : Path} (h : p ∈ (l.entry index).paths) :
    ∃ suffix ∈ suffixes, p.fileName? = some ("classes" ++ Text.decimal index ++ suffix) := by
  rw [entry_eq] at h
  rcases List.mem_pair.mp h with rfl | rfl
  · obtain ⟨hs, hn⟩ := isName_classes index ".zip" (by decide)
    exact ⟨".zip", by decide, Path.fileName?_join l.dir hs hn⟩
  · obtain ⟨hs, hn⟩ := isName_classes index ".zip.dex" (by decide)
    exact ⟨".zip.dex", by decide, Path.fileName?_join l.dir hs hn⟩

/-- The files of batches with different indices are different, wherever the batches are kept. -/
theorem index_eq_of_same {l l' : Layout} {i j : Nat} {p q : Path} (hp : p ∈ (l.entry i).paths)
    (hq : q ∈ (l'.entry j).paths) (h : p.same q = true) : i = j := by
  obtain ⟨suffix, hs, hf⟩ := exists_of_mem_paths hp
  obtain ⟨suffix', hs', hf'⟩ := exists_of_mem_paths hq
  rw [Path.fileName?_congr h, hf', Option.some_inj, String.append_assoc, String.append_assoc,
    String.append_right_inj] at hf
  have hsuffix : suffix' = suffix := by
    have hlast := congrArg (fun text : String => text.toList.getLast?) hf
    rcases List.mem_pair.mp hs with rfl | rfl <;> rcases List.mem_pair.mp hs' with rfl | rfl
    · rfl
    · simp at hlast
    · simp at hlast
    · rfl
  rw [hsuffix, String.append_left_inj] at hf
  exact (Text.decimal_injective hf).symm

lemma location_entry (l : Layout) (index : Nat) :
    (l.entry index).source.location = l.dir.location ++ ["classes" ++ Text.decimal index ++ ".zip"] ∧
      (l.entry index).optimized.location = l.dir.location ++ ["classes" ++ Text.decimal index ++ ".zip.dex"] := by
  rw [entry_eq]
  obtain ⟨hs, hn⟩ := isName_classes index ".zip" (by decide)
  obtain ⟨hs', hn'⟩ := isName_classes index ".zip.dex" (by decide)
  exact ⟨Path.location_join l.dir hs hn, Path.location_join l.dir hs' hn'⟩

lemma location_source_ne_optimized (l : Layout) (index : Nat) :
    (l.entry index).source.location ≠ (l.entry index).optimized.location := by
  rw [(location_entry l index).1, (location_entry l index).2]
  intro h
  have hsuffix := List.cons.inj (List.append_cancel_left h)
  rw [String.append_right_inj] at hsuffix
  exact absurd hsuffix.1 (by decide)

theorem source_injective {l : Layout} {i j : Nat} (h : (l.entry i).source = (l.entry j).source) : i = j :=
  index_eq_of_same (q := (l.entry j).source) List.mem_cons_self List.mem_cons_self (by rw [h, Path.same_refl])

end Layout

end Cache

end DexUnseal
