import DexUnseal.Proofs.Unsealing

/-! Opening a container clears its final bits and nothing else, once and for all, class by class. -/

namespace DexUnseal.Unsealing

open Dex

/-- Bit 4, the one of weight `0x10`, is cleared; the others stay. -/
def ClearsFinal (before after : BitVec 32) : Prop :=
  ∀ i, after.getLsbD i = (before.getLsbD i && decide (i ≠ 4))

def RepeatsFlags (pools : Pools) (typeIdx nameIdx : UInt32) : Prop :=
  pools.typeIdx? ClassDef.innerClassType = some typeIdx ∧ pools.stringIdx? "accessFlags" = some nameIdx

structure ElementFrame (pools : Pools) (typeIdx : UInt32) (e e' : Element) : Prop where
  nameIdx : e'.nameIdx = e.nameIdx
  flags : ∀ v, RepeatsFlags pools typeIdx e.nameIdx → e.value = .int v →
    ∃ v', e'.value = .int v' ∧ ClearsFinal v.toBitVec v'.toBitVec
  value : ¬ (RepeatsFlags pools typeIdx e.nameIdx ∧ ∃ v, e.value = .int v) → e'.value = e.value

structure ItemFrame (pools : Pools) (i i' : AnnotationItem) : Prop where
  typeIdx : i'.typeIdx = i.typeIdx
  visibility : i'.visibility = i.visibility
  elements : List.Forall₂ (ElementFrame pools i.typeIdx) i.elements i'.elements

structure MethodFrame (m m' : MethodDef) : Prop where
  methodIdx : m'.methodIdx = m.methodIdx
  flags : ClearsFinal m.flags.bits.toBitVec m'.flags.bits.toBitVec
  code : m'.code = m.code

structure ClassFrame (pools : Pools) (d d' : ClassDef) : Prop where
  flags : ClearsFinal d.flags.bits.toBitVec d'.flags.bits.toBitVec
  directMethods : List.Forall₂ MethodFrame d.directMethods d'.directMethods
  virtualMethods : List.Forall₂ MethodFrame d.virtualMethods d'.virtualMethods
  ofClass : Option.Rel (List.Forall₂ (ItemFrame pools)) d.annotations.ofClass d'.annotations.ofClass
  ofMembers : { d'.annotations with ofClass := d.annotations.ofClass } = d.annotations
  staticFields : d'.staticFields = d.staticFields
  instanceFields : d'.instanceFields = d.instanceFields
  staticValues : d'.staticValues = d.staticValues
  classIdx : d'.classIdx = d.classIdx
  descriptor : d'.descriptor = d.descriptor
  superclassIdx : d'.superclassIdx = d.superclassIdx
  interfaces : d'.interfaces = d.interfaces
  sourceFileIdx : d'.sourceFileIdx = d.sourceFileIdx

variable {pools : Pools} {keys : InnerClassKeys} {typeIdx nameIdx : UInt32}

lemma clearsFinal_and (w : BitVec 32) : ClearsFinal w (w &&& ~~~0x10#32) := by
  intro i
  rw [BitVec.getLsbD_and, BitVec.getLsbD_not]
  by_cases hi : i < 32
  · have hbit : (0x10#32).getLsbD i = decide (i = 4) := by
      revert i
      decide
    rw [hbit, decide_eq_true hi, Bool.true_and, decide_not]
  · simp [BitVec.getLsbD_of_ge w i (Nat.le_of_not_lt hi)]

lemma clearsFinal_withoutFinal (f : AccessFlags) : ClearsFinal f.bits.toBitVec f.withoutFinal.bits.toBitVec :=
  clearsFinal_and _

lemma clearsFinal_int (v : Int32) : ClearsFinal v.toBitVec (v &&& ~~~0x10).toBitVec :=
  clearsFinal_and _

lemma repeatsFlags_iff :
    RepeatsFlags pools typeIdx nameIdx ↔ InnerClassKeys.ofPools? pools = some ⟨typeIdx, nameIdx⟩ := by
  constructor
  · rintro ⟨ht, hn⟩
    simp [InnerClassKeys.ofPools?, ht, accessFlagsName, hn]
  · exact fun hk => ofPools?_eq hk

lemma elementFrame_rfl {e : Element} (h : ¬ (RepeatsFlags pools typeIdx e.nameIdx ∧ ∃ v, e.value = .int v)) :
    ElementFrame pools typeIdx e e :=
  ⟨rfl, fun v hr hv => absurd ⟨hr, v, hv⟩ h, fun _ => rfl⟩

lemma elementFrame_element (hk : InnerClassKeys.ofPools? pools = some keys) (e : Element) :
    ElementFrame pools keys.typeIdx e (element keys.nameIdx e) := by
  have hkeys (h : RepeatsFlags pools keys.typeIdx e.nameIdx) : e.nameIdx = keys.nameIdx := by
    rw [repeatsFlags_iff, hk] at h
    rw [Option.some.inj h]
  rw [element]
  split
  · rename_i v hv
    split
    · rename_i hn
      have hr : RepeatsFlags pools keys.typeIdx e.nameIdx := repeatsFlags_iff.mpr (hn ▸ hk)
      refine ⟨rfl, fun v' _ hv' => ?_, fun hnot => absurd ⟨hr, v, hv⟩ hnot⟩
      obtain rfl := Value.int.inj (hv.symm.trans hv')
      exact ⟨_, rfl, clearsFinal_int v⟩
    · rename_i hn
      exact elementFrame_rfl fun h => hn (hkeys h.1)
  · rename_i hv
    exact elementFrame_rfl fun h => h.2.elim hv

lemma itemFrame_rfl {i : AnnotationItem} (h : ∀ nameIdx, ¬ RepeatsFlags pools i.typeIdx nameIdx) :
    ItemFrame pools i i :=
  ⟨rfl, rfl, List.forall₂_same.mpr fun _ _ => elementFrame_rfl fun he => h _ he.1⟩

lemma itemFrame_item (hk : InnerClassKeys.ofPools? pools = some keys) (i : AnnotationItem) :
    ItemFrame pools i (item keys i) := by
  rw [item]
  split
  · rename_i ht
    refine ⟨rfl, rfl, ?_⟩
    rw [ht]
    exact List.forall₂_map_right_iff.mpr (List.forall₂_same.mpr fun e _ => elementFrame_element hk e)
  · rename_i ht
    refine itemFrame_rfl fun nameIdx hr => ht ?_
    rw [repeatsFlags_iff, hk] at hr
    rw [Option.some.inj hr]

lemma methodFrame_method (m : MethodDef) : MethodFrame m (method m) :=
  ⟨rfl, clearsFinal_withoutFinal m.flags, rfl⟩

lemma methodFrames (ms : List MethodDef) : List.Forall₂ MethodFrame ms (ms.map method) :=
  List.forall₂_map_right_iff.mpr (List.forall₂_same.mpr fun m _ => methodFrame_method m)

lemma itemFrames (pools : Pools) (d : AnnotationDirectory) : Option.Rel (List.Forall₂ (ItemFrame pools)) d.ofClass
    (directory (InnerClassKeys.ofPools? pools) d).ofClass := by
  cases hk : InnerClassKeys.ofPools? pools with
  | none =>
    have hnever (typeIdx nameIdx : UInt32) : ¬ RepeatsFlags pools typeIdx nameIdx := by
      rw [repeatsFlags_iff, hk]
      exact nofun
    have hsame := optionRel_map (R := List.Forall₂ (ItemFrame pools)) (f := id)
      (fun items => List.forall₂_same.mpr fun i _ => itemFrame_rfl (hnever i.typeIdx)) d.ofClass
    rwa [Option.map_id] at hsame
  | some keys =>
    exact optionRel_map (fun items => List.forall₂_map_right_iff.mpr
      (List.forall₂_same.mpr fun i _ => itemFrame_item hk i)) d.ofClass

lemma classFrame_classDef (pools : Pools) (d : ClassDef) :
    ClassFrame pools d (classDef (InnerClassKeys.ofPools? pools) d) where
  flags := clearsFinal_withoutFinal d.flags
  directMethods := methodFrames d.directMethods
  virtualMethods := methodFrames d.virtualMethods
  ofClass := itemFrames pools d.annotations
  ofMembers := by cases InnerClassKeys.ofPools? pools <;> simp [classDef, directory]
  staticFields := rfl
  instanceFields := rfl
  staticValues := rfl
  classIdx := rfl
  descriptor := rfl
  superclassIdx := rfl
  interfaces := rfl
  sourceFileIdx := rfl

lemma withoutFinal_withoutFinal (f : AccessFlags) : f.withoutFinal.withoutFinal = f.withoutFinal := by
  simp [AccessFlags.withoutFinal, UInt32.and_assoc]

lemma method_method (m : MethodDef) : method (method m) = method m := by
  simp [method, withoutFinal_withoutFinal]

lemma element_element (nameIdx : UInt32) (e : Element) :
    element nameIdx (element nameIdx e) = element nameIdx e := by
  obtain ⟨name, value⟩ := e
  cases value with
  | int v =>
    by_cases hn : name = nameIdx
    · simp [element, hn, Int32.and_assoc]
    · simp [element, hn]
  | _ => rfl

lemma item_item (keys : InnerClassKeys) (i : AnnotationItem) : item keys (item keys i) = item keys i := by
  by_cases ht : i.typeIdx = keys.typeIdx
  · simp [item, ht, element_element]
  · simp [item, ht]

lemma directory_directory (keys : Option InnerClassKeys) (d : AnnotationDirectory) :
    directory keys (directory keys d) = directory keys d := by
  cases keys with
  | none => rfl
  | some keys => simp [directory, Function.comp_def, item_item]

lemma classDef_classDef (keys : Option InnerClassKeys) (d : ClassDef) :
    classDef keys (classDef keys d) = classDef keys d := by
  simp [classDef, withoutFinal_withoutFinal, directory_directory, Function.comp_def, method_method]

lemma container_container (c : Container) : container (container c) = container c := by
  simp [container, Container.withClasses, Function.comp_def, classDef_classDef]

lemma container_select (c : Container) (descriptors : List String) :
    container (c.select descriptors) = (container c).select descriptors := by
  simp only [container, Container.select, Container.withClasses, List.filter_map]
  rfl

/-- What opening does to a container, be its annotations well formed or not. That it may be done twice, and
before or after a choice of classes, makes the classes independent of the batch they are opened in. -/
theorem container_frame (c : Container) : (container c).magic = c.magic ∧ (container c).pools = c.pools ∧
    List.Forall₂ (ClassFrame c.pools) c.classes (container c).classes ∧ container (container c) = container c ∧
      ∀ descriptors, container (c.select descriptors) = (container c).select descriptors :=
  ⟨rfl, rfl, List.forall₂_map_right_iff.mpr (List.forall₂_same.mpr fun d _ => classFrame_classDef c.pools d),
    container_container c, container_select c⟩

end DexUnseal.Unsealing
