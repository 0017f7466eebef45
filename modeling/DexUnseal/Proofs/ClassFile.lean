import DexUnseal.Proofs.BatchTable.Selection
import DexUnseal.Proofs.BatchTask.Preparation
import Mathlib.Data.Set.Subsingleton
import Mathlib.Order.Bounds.Basic

/-!
Looking up classes by their names. An index that is made in one pass over the classes keeps the last place of each
name.
-/

namespace DexUnseal

open Dex

namespace Dex.ClassDef

variable {classes : List ClassDef} {d : ClassDef} {name : String} {i : Nat}

/-- The places of a name; a name that comes once more takes the later place. -/
def index (classes : List ClassDef) : Std.TreeMap String Nat :=
  classes.zipIdx.foldl (fun index (d, i) => index.insert d.dottedName i) ∅

def places (classes : List ClassDef) (name : String) : Set Nat :=
  {i | ∃ d, classes[i]? = some d ∧ d.dottedName = name}

lemma getElem?_index_concat (classes : List ClassDef) (d : ClassDef) (name : String) :
    (index (classes ++ [d]))[name]? = if d.dottedName = name then some classes.length else (index classes)[name]? := by
  rw [index, List.zipIdx_append, List.foldl_append]
  simp only [List.zipIdx_singleton, List.foldl_cons, List.foldl_nil, Std.TreeMap.getElem?_insert,
    Std.LawfulEqCmp.compare_eq_iff_eq, Nat.zero_add]
  rfl

lemma lt_of_mem_places (h : i ∈ places classes name) : i < classes.length := by
  obtain ⟨d, hd, -⟩ := h
  exact (List.getElem?_eq_some_iff.mp hd).1

lemma mem_places_concat : i ∈ places (classes ++ [d]) name ↔
    i ∈ places classes name ∨ i = classes.length ∧ d.dottedName = name := by
  constructor
  · rintro ⟨e, he, hname⟩
    rcases Nat.lt_trichotomy i classes.length with hi | rfl | hi
    · rw [List.getElem?_append_left hi] at he
      exact .inl ⟨e, he, hname⟩
    · rw [List.getElem?_concat_length] at he
      obtain rfl := Option.some.inj he
      exact .inr ⟨rfl, hname⟩
    · rw [List.getElem?_eq_none (by simpa using hi)] at he
      cases he
  · rintro (h | ⟨rfl, hname⟩)
    · have hi := lt_of_mem_places h
      obtain ⟨e, he, hname⟩ := h
      exact ⟨e, by rwa [List.getElem?_append_left hi], hname⟩
    · exact ⟨d, List.getElem?_concat_length, hname⟩

theorem index_eq_some_iff : (index classes)[name]? = some i ↔ IsGreatest (places classes name) i := by
  induction classes using List.reverseRecOn with
  | nil =>
    refine ⟨fun h => (nomatch h), fun h => ?_⟩
    exact absurd (lt_of_mem_places h.1) (Nat.not_lt_zero i)
  | append_singleton classes d ih =>
    rw [getElem?_index_concat]
    split
    · rename_i hname
      have hlast : IsGreatest (places (classes ++ [d]) name) classes.length := by
        refine ⟨mem_places_concat.mpr (.inr ⟨rfl, hname⟩), fun j hj => ?_⟩
        have hlt := lt_of_mem_places hj
        rw [List.length_append, List.length_singleton] at hlt
        exact Nat.le_of_lt_succ hlt
      constructor
      · rintro ⟨⟩
        exact hlast
      · exact fun h => congrArg some (hlast.unique h)
    · rename_i hname
      have hplaces : places (classes ++ [d]) name = places classes name := by
        ext j
        rw [mem_places_concat, or_iff_left fun h => hname h.2]
      rw [hplaces, ih]

lemma findIdx?_eq_some_iff : classes.findIdx? (fun d => d.dottedName = name) = some i ↔
    IsLeast (places classes name) i := by
  rw [List.findIdx?_eq_some_iff_getElem]
  constructor
  · rintro ⟨hi, hname, hfirst⟩
    refine ⟨⟨classes[i], List.getElem?_eq_getElem hi, of_decide_eq_true hname⟩, fun j hj => ?_⟩
    obtain ⟨d, hd, hj⟩ := hj
    obtain ⟨hlt, rfl⟩ := List.getElem?_eq_some_iff.mp hd
    by_contra hij
    exact hfirst j (Nat.lt_of_not_le hij) (decide_eq_true hj)
  · rintro ⟨⟨d, hd, hname⟩, hfirst⟩
    obtain ⟨hlt, rfl⟩ := List.getElem?_eq_some_iff.mp hd
    refine ⟨hlt, decide_eq_true hname, fun j hj hj' => ?_⟩
    have hmem : j ∈ places classes name :=
      ⟨classes[j], List.getElem?_eq_getElem (Nat.lt_trans hj hlt), of_decide_eq_true hj'⟩
    exact Nat.not_le.mpr hj (hfirst hmem)

lemma index_eq_findIdx?_iff : (index classes)[name]? = classes.findIdx? (fun d => d.dottedName = name) ↔
    (places classes name).Subsingleton := by
  constructor
  · rintro he i hi j hj
    obtain ⟨d, hd, hname⟩ := hi
    have hsome : (classes.findIdx? fun d => d.dottedName = name).isSome = true := by
      rw [List.findIdx?_isSome, List.any_eq_true]
      exact ⟨d, List.mem_of_getElem? hd, decide_eq_true hname⟩
    obtain ⟨k, hk⟩ := Option.isSome_iff_exists.mp hsome
    have hleast := findIdx?_eq_some_iff.mp hk
    have hgreatest := index_eq_some_iff.mp (he.trans hk)
    exact (Nat.le_antisymm (hgreatest.2 ⟨d, hd, hname⟩) (hleast.2 ⟨d, hd, hname⟩)).trans
      (Nat.le_antisymm (hgreatest.2 hj) (hleast.2 hj)).symm
  · intro hs
    refine Option.ext fun i => ?_
    rw [index_eq_some_iff, findIdx?_eq_some_iff]
    exact ⟨fun h => ⟨h.1, fun j hj => (hs h.1 hj).le⟩, fun h => ⟨h.1, fun j hj => (hs hj h.1).le⟩⟩

lemma find?_reverse_eq (classes : List ClassDef) (name : String) :
    classes.reverse.find? (fun d => d.dottedName = name) = (index classes)[name]?.bind (classes[·]?) := by
  induction classes using List.reverseRecOn with
  | nil => rfl
  | append_singleton classes d ih =>
    rw [List.reverse_concat, List.find?_cons, getElem?_index_concat]
    by_cases hname : d.dottedName = name
    · rw [if_pos hname, decide_eq_true hname, Option.bind_some, List.getElem?_concat_length]
    · rw [if_neg hname, decide_eq_false hname, ih]
      refine Option.bind_congr fun i hi => ?_
      rw [List.getElem?_append_left (lt_of_mem_places (index_eq_some_iff.mp hi).1)]

lemma dottedName_congr {d e : ClassDef} (h : d.descriptor = e.descriptor) : d.dottedName = e.dottedName := by
  rw [dottedName, dottedName, h]

end Dex.ClassDef

namespace ClassFile

variable {c : Container} {name : String} {f : ClassFile}

lemma resolve?_eq (c : Container) (name : String) :
    resolve? c name = (ClassDef.index c.classes)[name]?.bind (ofIndex? c) := by
  rw [resolve?, ClassDef.find?_reverse_eq, Option.map_bind]
  rfl

lemma exists_place (h : resolve? c name = some f) :
    ∃ i : Nat, c.classes[i]? = some f.definition ∧ f.definition.dottedName = name := by
  rw [resolve?_eq, Option.bind_eq_some_iff] at h
  obtain ⟨i, hi, hf⟩ := h
  obtain ⟨d, hd, rfl⟩ := Option.map_eq_some_iff.mp hf
  obtain ⟨⟨e, he, hname⟩, -⟩ := ClassDef.index_eq_some_iff.mp hi
  obtain rfl := Option.some.inj (hd.symm.trans he)
  exact ⟨i, hd, hname⟩

lemma class?_of_resolve? (hs : (ClassDef.places c.classes name).Subsingleton) (h : resolve? c name = some f) :
    c.class? f.definition.descriptor = some f.definition := by
  obtain ⟨i, hi, hname⟩ := exists_place h
  rw [Container.class?]
  have hsome : (c.classes.find? fun d => d.descriptor = f.definition.descriptor).isSome = true := by
    rw [List.find?_isSome]
    exact ⟨f.definition, List.mem_of_getElem? hi, decide_eq_true rfl⟩
  obtain ⟨d, hd⟩ := Option.isSome_iff_exists.mp hsome
  obtain ⟨j, hj⟩ := List.mem_iff_getElem?.mp (List.mem_of_find?_eq_some hd)
  -- a class of the same descriptor has the same name, so it is at the same place
  have hname' : d.dottedName = name := by
    have hdescriptor : d.descriptor = f.definition.descriptor := by simpa using List.find?_some hd
    rw [ClassDef.dottedName_congr hdescriptor, hname]
  obtain rfl := hs ⟨_, hi, hname⟩ ⟨d, hj, hname'⟩
  rw [hd, ← hj, hi]

/-- A container that has been loaded gives the last class of a name, by an index that holds the last place of each. The
first class is the one that it gives if there is no other, and then it is also the class of its descriptor. -/
theorem resolve_last (c : Container) (name : String) :
    (Loaded.ofContainer c).resolve? name = (ClassDef.index c.classes)[name]?.bind (ofIndex? c) ∧
      (∀ i, (ClassDef.index c.classes)[name]? = some i ↔ IsGreatest (ClassDef.places c.classes name) i) ∧
      (((Loaded.ofContainer c).resolve? name).isSome = true ↔ ∃ d ∈ c.classes, d.dottedName = name) ∧
      ((ClassDef.index c.classes)[name]? = c.classes.findIdx? (fun d => d.dottedName = name) ↔
        (ClassDef.places c.classes name).Subsingleton) ∧
      ((ClassDef.places c.classes name).Subsingleton → ∀ f, (Loaded.ofContainer c).resolve? name = some f →
        c.class? f.definition.descriptor = some f.definition) :=
  ⟨resolve?_eq c name, fun _ => ClassDef.index_eq_some_iff, isSome_resolve?_iff, ClassDef.index_eq_findIdx?_iff,
    fun hs _ => class?_of_resolve? hs⟩

theorem resolve_last_bare : ∃ f, (Loaded.ofContainer (Container.bare ["Lp/A;", "Lp/B;"])).resolve? "p.B" = some f ∧
    f.definition.classIdx = 1 ∧
      (Container.bare ["Lp/A;", "Lp/B;"]).class? f.definition.descriptor = some f.definition := by
  obtain ⟨-, -, -, hfirst, hclass⟩ := resolve_last (Container.bare ["Lp/A;", "Lp/B;"]) "p.B"
  refine ⟨_, rfl, rfl, hclass (hfirst.mp ?_) _ rfl⟩
  decide

def repeatedSample : Container := .bare ["Lp/A;", "Lp/A;"]

lemma decode_repeatedSample : Container.decode repeatedSample.file = .ok repeatedSample := by
  have hlen : repeatedSample.file.length < 1024 := by
    rw [Container.length_file, Container.size_dataSection]
    decide +kernel
  exact Container.decode_file_bare (Nat.lt_trans hlen (by decide))

theorem repeatedSample_resolves_last :
    Container.decode repeatedSample.file = .ok repeatedSample ∧ ∃ first last,
      repeatedSample.classes = [first, last] ∧ first.dottedName = "p.A" ∧ last.dottedName = "p.A" ∧ first ≠ last ∧
      repeatedSample.class? "Lp/A;" = some first ∧
      (Loaded.ofContainer repeatedSample).resolve? "p.A" = some ⟨repeatedSample, last⟩ := by
  refine ⟨decode_repeatedSample, _, _, rfl, by decide, by decide, fun h => ?_, rfl, rfl⟩
  exact absurd (congrArg ClassDef.classIdx h) (by decide)

end ClassFile

end DexUnseal
