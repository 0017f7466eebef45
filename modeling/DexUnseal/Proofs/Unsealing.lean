import DexUnseal.ClassFile
import DexUnseal.Proofs.Dex.Container
import DexUnseal.Unsealing

/-! Opening classes to subclassing clears final flags and leaves everything else as it is, so also what
the file form asks of a class. -/

namespace DexUnseal.Unsealing

open Dex

variable {c : ClassDef} {pools : Pools} (keys : Option InnerClassKeys)

lemma height_element (nameIdx : UInt32) (e : Element) : (element nameIdx e).value.height = e.value.height := by
  rw [element]
  split
  · split
    · simp [Value.height, *]
    · rfl
  · rfl

lemma height_item_le {keys : InnerClassKeys} {i : AnnotationItem} {n : Nat} (h : i.height ≤ n) :
    (item keys i).height ≤ n := by
  rw [item]
  split
  · refine Annotation.height_le_iff.mpr fun e he => ?_
    obtain ⟨e₀, he₀, rfl⟩ := List.mem_map.mp he
    rw [height_element]
    exact Annotation.height_le_iff.mp h e₀ he₀
  · exact h

lemma wellFormed_directory {d : AnnotationDirectory} (h : d.WellFormed) : (directory keys d).WellFormed := by
  cases keys with
  | none => exact h
  | some keys =>
    refine ⟨fun set hs => ?_, h.ofFields, h.ofMethods, h.ofParameters⟩
    obtain ⟨set₀, hs₀, rfl⟩ := Option.mem_map.mp hs
    intro i hi
    obtain ⟨i₀, hi₀, rfl⟩ := List.mem_map.mp hi
    exact height_item_le (h.ofClass set₀ hs₀ i₀ hi₀)

lemma memberIndices_classDef (c : ClassDef) : (classDef keys c).memberIndices = c.memberIndices := by
  simp [ClassDef.memberIndices, classDef, method, Function.comp_def]

lemma methods_classDef (c : ClassDef) : (classDef keys c).methods = c.methods.map method := by
  simp [ClassDef.methods, classDef]

theorem wellFormed_classDef (h : c.WellFormed pools) : (classDef keys c).WellFormed pools where
  descriptor := h.descriptor
  interfaces := h.interfaces
  code := by
    rw [methods_classDef]
    intro m hm
    obtain ⟨m₀, hm₀, rfl⟩ := List.mem_map.mp hm
    exact h.code m₀ hm₀
  annotations := wellFormed_directory keys h.annotations
  staticValues := h.staticValues

theorem sorted_classDef (h : c.Sorted) : (classDef keys c).Sorted := by
  rw [ClassDef.Sorted, memberIndices_classDef]
  exact h

/-- An element of a class annotation before and after: the flags of a member class lose the final one. -/
def ElementOpened (pools : Pools) (typeIdx : UInt32) (e e' : Element) : Prop :=
  e' = e ∨ (pools.typeIdx? ClassDef.innerClassType = some typeIdx ∧
    pools.stringIdx? accessFlagsName = some e.nameIdx ∧ e'.nameIdx = e.nameIdx ∧
    ∃ v, e.value = .int v ∧ e'.value = .int (v &&& ~~~0x10))

structure ItemOpened (pools : Pools) (i i' : AnnotationItem) : Prop where
  typeIdx : i'.typeIdx = i.typeIdx
  visibility : i'.visibility = i.visibility
  elements : List.Forall₂ (ElementOpened pools i.typeIdx) i.elements i'.elements

structure Opened (pools : Pools) (c c' : ClassDef) : Prop where
  flags : c'.flags = c.flags.withoutFinal
  directMethods : c'.directMethods = c.directMethods.map fun m => { m with flags := m.flags.withoutFinal }
  virtualMethods : c'.virtualMethods = c.virtualMethods.map fun m => { m with flags := m.flags.withoutFinal }
  classAnnotations : Option.Rel (List.Forall₂ (ItemOpened pools)) c.annotations.ofClass c'.annotations.ofClass
  memberAnnotations : { c'.annotations with ofClass := c.annotations.ofClass } = c.annotations
  rest : { c' with
    flags := c.flags, annotations := c.annotations, directMethods := c.directMethods
    virtualMethods := c.virtualMethods } = c

lemma isFinal_withoutFinal (f : AccessFlags) : f.withoutFinal.isFinal = false := by
  simp [AccessFlags.isFinal, AccessFlags.withoutFinal, UInt32.and_assoc]

variable {innerKeys : InnerClassKeys}

lemma ofPools?_eq (hk : InnerClassKeys.ofPools? pools = some innerKeys) :
    pools.typeIdx? ClassDef.innerClassType = some innerKeys.typeIdx ∧
      pools.stringIdx? accessFlagsName = some innerKeys.nameIdx := by
  simp only [InnerClassKeys.ofPools?, Option.bind_eq_bind, Option.bind_eq_some_iff] at hk
  obtain ⟨typeIdx, ht, nameIdx, hn, ⟨⟩⟩ := hk
  exact ⟨ht, hn⟩

lemma elementOpened_element (hk : InnerClassKeys.ofPools? pools = some innerKeys) (e : Element) :
    ElementOpened pools innerKeys.typeIdx e (element innerKeys.nameIdx e) := by
  rw [element]
  split
  · rename_i v hv
    split
    · rename_i hn
      exact .inr ⟨(ofPools?_eq hk).1, hn ▸ (ofPools?_eq hk).2, rfl, v, hv, rfl⟩
    · exact .inl rfl
  · exact .inl rfl

lemma itemOpened_item (hk : InnerClassKeys.ofPools? pools = some innerKeys) (i : AnnotationItem) :
    ItemOpened pools i (item innerKeys i) := by
  rw [item]
  split
  · rename_i ht
    refine ⟨rfl, rfl, ?_⟩
    rw [ht]
    exact List.forall₂_map_right_iff.mpr (List.forall₂_same.mpr fun e _ => elementOpened_element hk e)
  · exact ⟨rfl, rfl, List.forall₂_same.mpr fun _ _ => .inl rfl⟩

lemma itemOpened_rfl (pools : Pools) (i : AnnotationItem) : ItemOpened pools i i :=
  ⟨rfl, rfl, List.forall₂_same.mpr fun _ _ => .inl rfl⟩

lemma typeIdx_item (keys : InnerClassKeys) (i : AnnotationItem) : (item keys i).typeIdx = i.typeIdx := by
  rw [item]
  split <;> rfl

lemma nameIdx_element (nameIdx : UInt32) (e : Element) : (element nameIdx e).nameIdx = e.nameIdx := by
  rw [element]
  split
  · split <;> rfl
  · rfl

lemma int_element {nameIdx : UInt32} {e : Element} {v : Int32} (hn : e.nameIdx = nameIdx)
    (hv : (element nameIdx e).value = .int v) : v &&& 0x10 = 0 := by
  rw [element] at hv
  split at hv
  · rw [if_pos hn] at hv
    obtain rfl := Value.int.inj hv
    rw [Int32.and_assoc, Int32.not_and_self, Int32.and_zero]
  · rename_i hne
    exact absurd hv (hne v)

lemma classAnnotations_directory (pools : Pools) (d : AnnotationDirectory) :
    Option.Rel (List.Forall₂ (ItemOpened pools)) d.ofClass
      (directory (InnerClassKeys.ofPools? pools) d).ofClass := by
  cases hk : InnerClassKeys.ofPools? pools with
  | none =>
    have hsame := optionRel_map (R := List.Forall₂ (ItemOpened pools)) (f := id)
      (fun items => List.forall₂_same.mpr fun i _ => itemOpened_rfl pools i) d.ofClass
    rwa [Option.map_id] at hsame
  | some innerKeys =>
    exact optionRel_map (fun items => List.forall₂_map_right_iff.mpr
      (List.forall₂_same.mpr fun i _ => itemOpened_item hk i)) d.ofClass

theorem opened_classDef (pools : Pools) (c : ClassDef) :
    Opened pools c (classDef (InnerClassKeys.ofPools? pools) c) where
  flags := rfl
  directMethods := rfl
  virtualMethods := rfl
  classAnnotations := classAnnotations_directory pools c.annotations
  memberAnnotations := by cases InnerClassKeys.ofPools? pools <;> simp [classDef, directory]
  rest := rfl

theorem innerClassFlags?_opened {f : ClassFile}
    (h : f.definition = classDef (InnerClassKeys.ofPools? f.container.pools) c) {v : Int32}
    (hv : f.innerClassFlags? = some v) : v &&& 0x10 = 0 := by
  simp only [ClassFile.innerClassFlags?, ClassDef.innerClassAnnotation?, Option.bind_eq_bind,
    Option.bind_eq_some_iff] at hv
  obtain ⟨nameIdx, hn, i, ⟨typeIdx, ht, set, hset, hi⟩, e, he, hv⟩ := hv
  have hk : InnerClassKeys.ofPools? f.container.pools = some ⟨typeIdx, nameIdx⟩ := by
    simp [InnerClassKeys.ofPools?, ht, hn]
  rw [h, hk] at hset
  obtain ⟨set₀, -, rfl⟩ := Option.map_eq_some_iff.mp hset
  obtain ⟨i₀, -, rfl⟩ := List.mem_map.mp (List.mem_of_find?_eq_some hi)
  have hti : i₀.typeIdx = typeIdx := by simpa [typeIdx_item] using List.find?_some hi
  rw [item, if_pos hti] at he
  obtain ⟨e₀, -, rfl⟩ := List.mem_map.mp (List.mem_of_find?_eq_some he)
  have hne : e₀.nameIdx = nameIdx := by simpa [nameIdx_element] using List.find?_some he
  apply int_element hne
  cases hvalue : (element nameIdx e₀).value <;> simp_all [Value.int?]

end DexUnseal.Unsealing
