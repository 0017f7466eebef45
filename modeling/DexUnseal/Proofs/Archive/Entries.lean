import DexUnseal.Archive.Basic
import DexUnseal.Proofs.Pairing
import Mathlib.Data.List.Induction
import Mathlib.Data.List.Nodup
import Mathlib.Tactic.Lemma

/-! What is in an archive after entries were put into it. -/

namespace DexUnseal.Archive

variable {a b : Archive} {name : String} {x : String × Entry} {found : List (String × Entry)}

lemma mem_names_iff : name ∈ a.names ↔ ∃ e, a.entry? name = some e := by
  rw [names, Std.TreeMap.mem_keys, Std.TreeMap.mem_iff_isSome_getElem?, Option.isSome_iff_exists]
  rfl

lemma nodup_names (a : Archive) : a.names.Nodup := Std.TreeMap.nodup_keys

lemma mem_toList_iff : x ∈ a.toList ↔ a.entry? x.1 = some x.2 := Std.TreeMap.mem_toList_iff_getElem?_eq_some

lemma map_fst_toList (a : Archive) : a.toList.map (·.1) = a.names := Std.TreeMap.map_fst_toList_eq_keys

lemma fst_mem_names (h : x ∈ a.toList) : x.1 ∈ a.names := map_fst_toList a ▸ List.mem_map_of_mem h

lemma entry?_insert (a : Archive) (name other : String) (e : Entry) :
    Archive.entry? (a.insert name e) other = if name = other then some e else a.entry? other := by
  simp only [Archive.entry?, insert, Std.TreeMap.getElem?_insert, Std.LawfulEqCmp.compare_eq_iff_eq]

lemma entry?_insert_self (a : Archive) (name : String) (e : Entry) :
    Archive.entry? (a.insert name e) name = some e := by
  rw [entry?_insert, if_pos rfl]

def insertAll (a : Archive) (found : List (String × Entry)) : Archive :=
  found.foldl (fun a x => a.insert x.1 x.2) a

lemma insertAll_cons (a : Archive) (x : String × Entry) (found : List (String × Entry)) :
    a.insertAll (x :: found) = (a.insert x.1 x.2).insertAll found := rfl

lemma entry?_insertAll (a : Archive) (found : List (String × Entry)) (name : String) :
    Archive.entry? (a.insertAll found) name =
      ((found.reverse.find? fun x => x.1 = name).map (·.2)).or (a.entry? name) := by
  induction found using List.reverseRecOn with
  | nil => rfl
  | append_singleton found x ih =>
    rw [insertAll, List.foldl_append, List.foldl_cons, List.foldl_nil, ← insertAll, entry?_insert, ih,
      List.reverse_append, List.reverse_singleton, List.singleton_append, List.find?_cons]
    by_cases hx : x.1 = name
    · simp [hx]
    · simp [hx]

lemma mem_names_insertAll : name ∈ (empty.insertAll found).names ↔ ∃ x ∈ found, x.1 = name := by
  have hempty : empty.entry? name = none := Std.TreeMap.getElem?_emptyc
  rw [mem_names_iff, ← Option.isSome_iff_exists, entry?_insertAll, hempty, Option.or_none, Option.isSome_map,
    List.find?_isSome]
  simp only [List.mem_reverse, decide_eq_true_eq]

lemma entry?_insertAll_filter (wanted : String → Bool) (found : List (String × Entry)) (name : String) :
    Archive.entry? (empty.insertAll (found.filter fun x => wanted x.1)) name =
      if wanted name then Archive.entry? (empty.insertAll found) name else none := by
  have hempty : empty.entry? name = none := Std.TreeMap.getElem?_emptyc
  rw [entry?_insertAll, entry?_insertAll, hempty, Option.or_none, Option.or_none, ← List.filter_reverse,
    List.find?_filter]
  split
  · rename_i hw
    congr 2
    funext x
    by_cases hx : x.1 = name
    · simp [hx, hw]
    · simp [hx]
  · rename_i hw
    rw [Option.map_eq_none_iff, List.find?_eq_none]
    intro x _ hx
    rw [decide_eq_true_eq, decide_eq_true_eq] at hx
    exact hw (hx.2 ▸ hx.1)

lemma entry?_insertAll_of_nodup (hn : (found.map (·.1)).Nodup) (hx : x ∈ found) :
    Archive.entry? (a.insertAll found) x.1 = some x.2 := by
  rw [entry?_insertAll]
  cases hf : found.reverse.find? (fun y => y.1 = x.1) with
  | none =>
    have hne := List.find?_eq_none.mp hf x (List.mem_reverse.mpr hx)
    simp at hne
  | some y =>
    have hy : y.1 = x.1 := by simpa using List.find?_some hf
    have hm := List.mem_reverse.mp (List.mem_of_find?_eq_some hf)
    rw [List.inj_on_of_nodup_map hn hm hx hy]
    rfl

def SameContents (b a : Archive) : Prop := ∀ name, (b.entry? name).map (·.data) = (a.entry? name).map (·.data)

lemma SameContents.mem_names_iff (h : b.SameContents a) : name ∈ b.names ↔ name ∈ a.names := by
  have hn := congrArg Option.isSome (h name)
  rw [Option.isSome_map, Option.isSome_map] at hn
  rw [Archive.mem_names_iff, Archive.mem_names_iff, ← Option.isSome_iff_exists, ← Option.isSome_iff_exists, hn]

lemma sameContents_insertAll (h : List.Forall₂ (fun x y => y.1 = x.1 ∧ y.2.data = x.2.data) a.toList found) :
    (empty.insertAll found).SameContents a := by
  have hnames : found.map (·.1) = a.names := by
    rw [← map_fst_toList, ← List.forall₂_eq_eq_eq, List.forall₂_map_left_iff, List.forall₂_map_right_iff]
    exact (forall₂_swap h).imp fun _ _ hxy => hxy.1
  intro name
  cases he : a.entry? name with
  | some e =>
    obtain ⟨y, hy, hname, hdata⟩ := forall₂_exists_right h (mem_toList_iff (x := (name, e)).mpr he)
    have hk := entry?_insertAll_of_nodup (a := empty) (hnames ▸ nodup_names a) hy
    rw [hname] at hk
    rw [hk, Option.map_some, Option.map_some, hdata]
  | none =>
    cases hb : Archive.entry? (empty.insertAll found) name with
    | none => rfl
    | some e =>
      obtain ⟨y, hy, hname⟩ := mem_names_insertAll.mp (mem_names_iff.mpr ⟨e, hb⟩)
      have hmem : name ∈ a.names := hnames ▸ hname ▸ List.mem_map_of_mem hy
      obtain ⟨e', he'⟩ := mem_names_iff.mp hmem
      rw [he] at he'
      cases he'

end DexUnseal.Archive
