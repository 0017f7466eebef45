import DexUnseal.Proofs.Archive.EntryName

/-! Which names an archive takes, and what becomes of them. -/

namespace DexUnseal.Archive

open DexUnseal.Path (IsName pieces)

namespace EntryName

variable {p : Path} {key : String}

structure Normal (key : String) : Prop where
  nonempty : key ≠ ""
  first : key.toList.head? ≠ some '/'
  last : key.toList.getLast? ≠ some '/'
  parts : ∀ part ∈ pieces key.toList, IsName part
  fixed : ofPath ⟨key⟩ = .ok key

lemma normal_iff (hb : '\\' ∉ key.toList) : Normal key ↔ ∀ part ∈ pieces key.toList, IsName part := by
  refine ⟨Normal.parts, fun h => ⟨?_, ?_, fun hl => ?_, h, ofPath_eq h hb⟩⟩
  · rintro rfl
    exact (h [] List.mem_cons_self).1 rfl
  · have hp : ∀ piece ∈ pieces (Path.mk key).text.toList, IsName piece := h
    exact of_decide_eq_false (Path.isAbsolute_of_isName hp)
  · exact (h [] (Path.nil_mem_pieces hl)).1 rfl

lemma isName_of_names (hb : '\\' ∉ p.text.toList) :
    ∀ text ∈ p.names, ∀ part ∈ pieces (slashed text.toList), IsName part := by
  intro text ht part hp
  obtain ⟨piece, hpiece, hname, rfl⟩ := Path.mem_components_name (Path.mem_names.mp ht)
  have hmem {c : Char} (hc : c ∈ piece) := Path.mem_of_mem_pieces hpiece hc
  rw [String.toList_ofList, slashed_eq fun hc => hb (hmem hc).1,
    Path.pieces_of_notMem fun hc => (hmem hc).2 rfl] at hp
  rwa [List.mem_singleton.mp hp]

end EntryName

open EntryName

variable {a : Archive} {name : String} {data : Bytes}

lemma replaceInto_eq (a : Archive) (name : String) (data : Bytes) : replaceInto name data a =
    match EntryName.ofPath ⟨name⟩ with
    | .ok key => (.ok (), a.insert key ⟨data, none⟩)
    | .error fault => (.error fault, a) := by
  cases h : EntryName.ofPath ⟨name⟩ <;> simp only [replaceInto, h] <;> rfl

/-- A path that is absolute, leads to a parent or is empty by its slashes is refused, and the archive is as it was.
Any other is kept under a name that is normal unless the names between the slashes are not so by their backslashes:
these become slashes only after the path has been looked at. -/
theorem replaceInto_normal_iff (a : Archive) (name : String) (data : Bytes) :
    (∀ fault, fault? ⟨name⟩ = some fault → replaceInto name data a = (.error fault, a)) ∧
      (fault? ⟨name⟩ = none → ∃ key, replaceInto name data a = (.ok (), a.insert key ⟨data, none⟩) ∧
        (Normal key ↔ ∀ text ∈ (Path.mk name).names, ∀ part ∈ pieces (slashed text.toList), IsName part) ∧
        ('\\' ∉ name.toList → Normal key)) := by
  refine ⟨fun fault hf => ?_, fun hf => ?_⟩
  · rw [replaceInto_eq, ofPath_of_fault? hf]
  · obtain ⟨hn, hkey⟩ := ofPath_of_no_fault hf
    have hnormal : Normal (String.intercalate "/" ((Path.mk name).names.map withSlashes)) ↔
        ∀ text ∈ (Path.mk name).names, ∀ part ∈ pieces (slashed text.toList), IsName part := by
      rw [normal_iff fun hc => (mem_of_ofPath hkey hc).1 rfl, toList_joined, Path.pieces_joined (by simpa using hn)]
      simp only [List.flatMap_map, List.mem_flatMap, forall_exists_index, and_imp]
      exact ⟨fun h text ht part hp => h part text ht hp, fun h part text ht hp => h text ht part hp⟩
    exact ⟨_, by rw [replaceInto_eq, hkey], hnormal, fun hb => hnormal.mpr (isName_of_names hb)⟩

theorem replaceInto_normal_iff_sample : ∃ key, fault? ⟨"./lib//a\\b.so"⟩ = none ∧
    replaceInto "./lib//a\\b.so" [7] empty = (.ok (), empty.insert key ⟨[7], none⟩) ∧ Normal key ∧
      replaceInto "lib/../b.so" [7] empty = (.error .parent, empty) := by
  have hf : fault? ⟨"./lib//a\\b.so"⟩ = none := by decide
  obtain ⟨key, hk, hn, -⟩ := (replaceInto_normal_iff empty "./lib//a\\b.so" [7]).2 hf
  exact ⟨key, hf, hk, hn.mpr (by decide), (replaceInto_normal_iff empty "lib/../b.so" [7]).1 .parent (by decide)⟩

/-- The name of a place outside is taken, if it has its backslash behind the dots. -/
theorem replaceInto_outside : replaceInto "..\\evil.dex" [0] empty = (.ok (), empty.insert "../evil.dex" ⟨[0], none⟩) ∧
    ¬ Normal "../evil.dex" ∧ EntryName.ofPath ⟨"../evil.dex"⟩ = .error .parent := by
  refine ⟨?_, fun h => ?_, ofPath_of_fault? (by decide)⟩
  · rw [replaceInto_eq]
    rfl
  · exact absurd (h.parts ['.', '.'] (by decide)) (by decide)

end DexUnseal.Archive
