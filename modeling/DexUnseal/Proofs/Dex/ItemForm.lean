import DexUnseal.Proofs.Dex.Laying
import DexUnseal.Proofs.Dex.RoundTrip

/-! What the items of a file are made from, kind by kind, and how many of each kind are placed. -/

namespace DexUnseal.Dex

def Refers (items : List Item) (kind : ItemKind) (offset : UInt32) : Prop :=
  offset ≠ 0 → ∃ i ∈ items, i.kind = kind ∧ i.offset = offset

/-- What the items of each kind are made from. All offsets in them refer to items of the kinds that they are for. -/
inductive Formed (c : Container) (typeLists : TypeList → UInt32) (items : List Item) : ItemKind → Bytes → Prop
  | header : Formed c typeLists items .header c.fileHeader.encode
  | stringId {data : UInt32} (refers : Refers items .stringData data) :
      Formed c typeLists items .stringId (Bytes.word32 data)
  | typeId {idx : UInt32} (mem : idx ∈ c.pools.types) : Formed c typeLists items .typeId (Bytes.word32 idx)
  | protoId {proto : Proto} (mem : proto ∈ c.pools.protos)
      (refers : Refers items .typeList (typeLists proto.parameters)) :
      Formed c typeLists items .protoId (proto.encode (typeLists proto.parameters))
  | fieldId {field : FieldId} (mem : field ∈ c.pools.fields) : Formed c typeLists items .fieldId field.encode
  | methodId {method : MethodId} (mem : method ∈ c.pools.methods) : Formed c typeLists items .methodId method.encode
  | classDef {d : ClassDef} {offsets : ClassOffsets} (mem : d ∈ c.classes)
      (interfaces : offsets.interfaces = typeLists d.interfaces) (lists : Refers items .typeList offsets.interfaces)
      (annotations : Refers items .annotationDirectory offsets.annotations)
      (data : Refers items .classData offsets.data)
      (staticValues : Refers items .encodedArray offsets.staticValues) :
      Formed c typeLists items .classDef (d.encode offsets)
  | callSiteId {values : UInt32} (refers : Refers items .encodedArray values) :
      Formed c typeLists items .callSiteId (Bytes.word32 values)
  | methodHandle {handle : MethodHandle} (mem : handle ∈ c.pools.handles) :
      Formed c typeLists items .methodHandle handle.encode
  | stringData {string : StringData} (mem : string ∈ c.pools.strings) :
      Formed c typeLists items .stringData string.encode
  | typeList {types : TypeList} (ne : types ≠ []) : Formed c typeLists items .typeList (TypeList.encode types)
  | encodedArray (values : List Value) : Formed c typeLists items .encodedArray (Value.encodeArray values)
  | annotationItem (item : AnnotationItem) : Formed c typeLists items .annotationItem item.encode
  | annotationSet {entries : OffsetList} (refers : ∀ o ∈ entries, Refers items .annotationItem o) :
      Formed c typeLists items .annotationSet (OffsetList.encode entries)
  | annotationSetList {sets : OffsetList} (refers : ∀ o ∈ sets, Refers items .annotationSet o) :
      Formed c typeLists items .annotationSetList (OffsetList.encode sets)
  | annotationDirectory {directory : Directory UInt32} {setLists : OffsetList}
      (sets : ∀ o ∈ directory.sets, Refers items .annotationSet o)
      (lists : ∀ o ∈ setLists, Refers items .annotationSetList o) :
      Formed c typeLists items .annotationDirectory (directory.encode setLists)
  | debugInfo {info : Bytes} (ne : info ≠ []) : Formed c typeLists items .debugInfo info
  | code (code : Code) {debugInfo : UInt32} (refers : Refers items .debugInfo debugInfo) :
      Formed c typeLists items .code (code.encode debugInfo)
  | classData {d : ClassDef} {codeOffsets : List UInt32} (mem : d ∈ c.classes)
      (refers : List.Forall₂ (fun _ o => Refers items .code o) d.methods codeOffsets) :
      Formed c typeLists items .classData (d.encodeData codeOffsets)
  | mapList (runs : List MapItem) : Formed c typeLists items .mapList (Placing.encodeMap runs)

namespace Container

def typeLists (c : Container) : List TypeList :=
  c.pools.protos.map (·.parameters) ++ c.classes.map (·.interfaces)

def directories (c : Container) : List AnnotationDirectory :=
  (c.classes.map (·.annotations)).filter (! ·.isEmpty)

def methods (c : Container) : List MethodDef := c.classes.flatMap (·.methods)

def itemCount (c : Container) : ItemKind → Nat
  | .header | .mapList => 1
  | .stringId | .stringData => c.pools.strings.length
  | .typeId => c.pools.types.length
  | .protoId => c.pools.protos.length
  | .fieldId => c.pools.fields.length
  | .methodId => c.pools.methods.length
  | .classDef => c.classes.length
  | .callSiteId => c.pools.callSites.length
  | .methodHandle => c.pools.handles.length
  | .typeList => (c.typeLists.filter (· ≠ [])).eraseDups.length
  | .encodedArray => c.pools.callSites.length + c.classes.countP (! ·.staticValues.isEmpty)
  | .annotationItem => (c.directories.flatMap (·.sets)).flatten.length
  | .annotationSet => (c.directories.flatMap (·.sets)).length
  | .annotationSetList => (c.directories.flatMap (·.ofParameters)).length
  | .annotationDirectory => c.directories.length
  | .debugInfo => c.methods.countP fun m => (m.code.bind (·.debugInfo)).isSome
  | .code => c.methods.countP (·.code.isSome)
  | .classData => c.classes.countP (·.hasData)

end Container

namespace ItemKind

def ofFront : List ItemKind :=
  [header, stringId, typeId, protoId, fieldId, methodId, classDef, callSiteId, methodHandle]

def ofData : List ItemKind := [stringData, typeList, encodedArray, annotationItem, annotationSet, annotationSetList,
  annotationDirectory, debugInfo, code, classData]

def ofBack : List ItemKind := ofData ++ [mapList]

end ItemKind

variable {c : Container} {typeLists : TypeList → UInt32} {items : List Item} {kind : ItemKind}

lemma Formed.alignment_le {bytes : Bytes} (h : Formed c typeLists items kind bytes) :
    kind.alignment.toNat ≤ bytes.length := by
  cases h with
  | header =>
    rw [Header.length_encode]
    decide
  | stringId | typeId | callSiteId => simp [ItemKind.alignment]
  | protoId | fieldId | methodId | classDef | methodHandle =>
    simp [ItemKind.alignment, Proto.encode, FieldId.encode, MethodId.encode, ClassDef.encode, MethodHandle.encode]
  | @stringData string =>
    cases string <;>
    · simp [ItemKind.alignment, StringData.encode]
      omega
  | typeList | annotationSet | annotationSetList | annotationDirectory | mapList =>
    simp [ItemKind.alignment, TypeList.encode, OffsetList.encode, Directory.encode, Placing.encodeMap]
  | code =>
    simp [ItemKind.alignment, Code.encode]
    omega
  | encodedArray values =>
    have hpos := Leb128.encode_length_pos (UInt32.ofNat values.length)
    simp [ItemKind.alignment, Value.encodeArray]
    omega
  | annotationItem => simp [ItemKind.alignment, AnnotationItem.encode]
  | debugInfo ne => exact List.length_pos_iff.mpr ne
  | @classData d =>
    have hpos := Leb128.encode_length_pos (UInt32.ofNat d.staticFields.length)
    simp [ItemKind.alignment, ClassDef.encodeData]
    omega

structure Forms (c : Container) (typeLists : TypeList → UInt32) (items : List Item) (kinds : List ItemKind)
    (contents : List Content) : Prop where
  kinds : contents.map (·.1) = kinds
  formed : ∀ x ∈ contents, Formed c typeLists items x.1 x.2

lemma forms_map {xs : List α} {item : α → Bytes} (h : ∀ x ∈ xs, Formed c typeLists items kind (item x)) {n : Nat}
    (hn : xs.length = n) :
    Forms c typeLists items (List.replicate n kind) (xs.map fun x => (kind, item x)) where
  kinds := by simp [Function.comp_def, List.map_const', hn]
  formed := List.forall_mem_map.mpr h

lemma Forms.append {kinds more : List ItemKind} {front back : List Content} (h : Forms c typeLists items kinds front)
    (h' : Forms c typeLists items more back) : Forms c typeLists items (kinds ++ more) (front ++ back) where
  kinds := by rw [List.map_append, h.kinds, h'.kinds]
  formed := List.forall_mem_append.mpr ⟨h.formed, h'.formed⟩

namespace Placing

variable {α β : Type} {offset : UInt32}

lemma refers_of_mem {bytes : Bytes} (h : ⟨kind, offset, bytes⟩ ∈ items) : Refers items kind offset :=
  fun _ => ⟨_, h, rfl, rfl⟩

lemma Found.refers {item : Option Bytes} (h : Found items kind item offset) : Refers items kind offset := by
  cases item with
  | none => exact fun hz => absurd h hz
  | some bytes => exact refers_of_mem h

lemma emits_pass (kind : ItemKind) (xs : List α) (item : α → Bytes) :
    Emits (xs.mapM fun x => place kind (item x)) fun cs items offsets =>
      cs = xs.map (fun x => (kind, item x)) ∧ List.Forall₂ (fun x o => ⟨kind, o, item x⟩ ∈ items) xs offsets := by
  have h : Emits (xs.mapM fun x => place kind (item x)) fun cs items offsets =>
      cs = xs.flatMap (fun x => [(kind, item x)]) ∧ List.Forall₂ (fun x o => ⟨kind, o, item x⟩ ∈ items) xs offsets :=
    .mapM fun x _ => emits_place kind (item x)
  rwa [← List.map_eq_flatMap] at h

lemma emits_passIf (kind : ItemKind) (xs : List α) (item : α → Option Bytes) :
    Emits (xs.mapM fun x => placeIf kind (item x)) fun cs items offsets =>
      cs = (xs.filterMap item).map (kind, ·) ∧ List.Forall₂ (fun x o => Found items kind (item x) o) xs offsets := by
  rw [List.filterMap_eq_flatMap_toList, List.map_flatMap]
  exact .mapM fun x _ => emits_placeIf kind (item x)

variable (typeLists)

lemma emits_typeLists (c : Container) : Emits (placeTypeLists c.typeLists) fun cs items found =>
    Forms c typeLists items (List.replicate (c.itemCount .typeList) .typeList) cs ∧
      ∀ types ∈ c.typeLists, Found items .typeList types.item? (found types) := by
  refine Emits.bind (emits_pass .typeList _ TypeList.encode) fun offsets _ => .pure ?_
  rintro items ⟨rfl, ho⟩
  rw [List.append_nil]
  refine ⟨forms_map (fun types ht => .typeList ?_) rfl, fun types ht => ?_⟩
  · simp [List.mem_eraseDups] at ht
    exact ht.2
  · rw [TypeList.item?]
    split
    · exact (lookup_typeList ho ht).1 ‹_›
    · exact (lookup_typeList ho ht).2 ‹_›

lemma Emits.present {f : α → Placing β} {R : α → List Item → β → Prop} {b : α → List Content} {xs : List (Option α)}
    (h : ∀ a, Emits (f a) fun cs items y => cs = b a ∧ R a items y) :
    Emits (xs.mapM (·.mapM f)) fun cs items ys =>
      cs = xs.reduceOption.flatMap b ∧ List.Forall₂ (Option.Rel fun a b => R a items b) xs ys := by
  have hp : Emits (xs.mapM (·.mapM f)) fun cs items ys =>
      cs = xs.flatMap (fun x => x.toList.flatMap b) ∧ List.Forall₂ (Option.Rel fun a b => R a items b) xs ys :=
    .mapM fun _ _ => .optionMapM h
  rwa [← List.flatMap_assoc, ← List.filterMap_eq_flatMap_toList] at hp

lemma emits_annotationItems (directories : List (Option AnnotationDirectory)) :
    Emits (directories.mapM (·.mapM (Directory.mapM fun set =>
      set.mapM fun item => place .annotationItem item.encode))) fun cs items found =>
      cs = ((directories.reduceOption.flatMap (·.sets)).flatten.map fun item => (.annotationItem, item.encode)) ∧
        List.Forall₂ (Option.Rel (Directory.Rel (List.Forall₂ fun item o =>
          ⟨.annotationItem, o, item.encode⟩ ∈ items))) directories found := by
  simp only [List.flatten_eq_flatMap, List.map_flatMap, List.flatMap_assoc, id]
  exact .present fun _ => .directoryMapM fun set => emits_pass .annotationItem set AnnotationItem.encode

lemma emits_annotationSets (found : List (Option (Directory OffsetList))) :
    Emits (found.mapM (·.mapM (Directory.mapM fun entries =>
      place .annotationSet (OffsetList.encode entries)))) fun cs items sets =>
      cs = ((found.reduceOption.flatMap (·.sets)).map fun entries => (.annotationSet, OffsetList.encode entries)) ∧
        List.Forall₂ (Option.Rel (Directory.Rel fun entries o =>
          ⟨.annotationSet, o, OffsetList.encode entries⟩ ∈ items)) found sets := by
  simp only [List.map_eq_flatMap, List.flatMap_assoc]
  exact .present fun _ => .directoryMapM fun entries => emits_place .annotationSet (OffsetList.encode entries)

def setList (member : UInt32 × List (Option UInt32)) : Bytes := OffsetList.encode (member.2.map (·.getD 0))

lemma emits_setLists (sets : List (Option (Directory UInt32))) :
    Emits (sets.mapM (·.mapM fun directory => directory.ofParameters.mapM fun member =>
      place .annotationSetList (setList member))) fun cs items setLists =>
      cs = ((sets.reduceOption.flatMap (·.ofParameters)).map fun member => (.annotationSetList, setList member)) ∧
        List.Forall₂ (Option.Rel fun d lists => List.Forall₂ (fun member o =>
          ⟨.annotationSetList, o, setList member⟩ ∈ items) d.ofParameters lists) sets setLists := by
  rw [List.map_flatMap]
  exact .present fun d => emits_pass .annotationSetList d.ofParameters setList

lemma reduceOption_directories (c : Container) : (c.classes.map fun d =>
    if d.annotations.isEmpty then none else some d.annotations).reduceOption = c.directories := by
  rw [Container.directories]
  induction c.classes with
  | nil => rfl
  | cons d classes ih =>
    by_cases he : d.annotations.isEmpty <;> simp [he, ih]

lemma formed_directories {sets : List (Option (Directory UInt32))} {setLists : List (Option (List UInt32))}
    (hs : ∀ o ∈ sets.reduceOption.flatMap (·.sets), Refers items .annotationSet o)
    (hl : List.Forall₂ (Option.Rel fun d lists => List.Forall₂ (fun member o =>
      ⟨.annotationSetList, o, setList member⟩ ∈ items) d.ofParameters lists) sets setLists) :
    ∀ bytes ∈ (sets.zip setLists).filterMap fun p => p.1.map (·.encode (p.2.getD [])),
      Formed c typeLists items .annotationDirectory bytes := by
  intro bytes hb
  obtain ⟨⟨directory, lists⟩, hp, hb⟩ := List.mem_filterMap.mp hb
  obtain ⟨d, rfl, rfl⟩ := Option.map_eq_some_iff.mp hb
  have hd : d ∈ sets.reduceOption := List.reduceOption_mem_iff.mpr (List.of_mem_zip hp).1
  cases (List.forall₂_iff_zip.mp hl).2 hp with
  | some hlists =>
    refine .annotationDirectory (fun o ho => hs o (List.mem_flatMap_of_mem hd ho)) ?_
    exact forall₂_right hlists fun _ _ hm => refers_of_mem hm

lemma formed_setLists {sets : List (Directory UInt32)}
    (hs : ∀ o ∈ sets.flatMap (·.sets), Refers items .annotationSet o) :
    ∀ member ∈ sets.flatMap (·.ofParameters), Formed c typeLists items .annotationSetList (setList member) := by
  intro member hm
  obtain ⟨d, hd, hm⟩ := List.mem_flatMap.mp hm
  refine .annotationSetList fun o ho => ?_
  obtain ⟨set, hset, rfl⟩ := List.mem_map.mp ho
  cases set with
  | none => exact fun hz => absurd rfl hz
  | some o =>
    refine hs o (List.mem_flatMap_of_mem hd ?_)
    exact List.mem_append_right _ (List.mem_flatMap_of_mem hm (List.mem_flatMap_of_mem hset (by simp)))

theorem emits_annotations (c : Container) : Emits (placeAnnotations c.classes) fun cs items offsets =>
    Forms c typeLists items ([.annotationItem, .annotationSet, .annotationSetList, .annotationDirectory].flatMap
      fun kind => List.replicate (c.itemCount kind) kind) cs ∧
    List.Forall₂ (fun _ o => Refers items .annotationDirectory o) c.classes offsets := by
  refine (emits_annotationItems _).bind fun found _ => (emits_annotationSets found).bind fun sets _ => ?_
  refine (emits_setLists sets).bind fun setLists _ => ?_
  refine (emits_passIf .annotationDirectory (sets.zip setLists) fun p => p.1.map (·.encode (p.2.getD []))).mono ?_
  rintro _ items offsets ⟨rfl, ho⟩ ⟨rfl, hl⟩ ⟨rfl, hs⟩ ⟨rfl, hi⟩
  -- Each pass keeps the shape of the directories, so it places as many items as the shape has places for.
  have hdirectories := forall₂_reduceOption hi
  have hshape := forall₂_reduceOption hs
  rw [reduceOption_directories] at hdirectories ⊢
  have hfound := forall₂_flatMap hdirectories fun _ _ hd => hd.sets
  have hsets := forall₂_flatMap hshape fun _ _ hd => hd.sets
  have hkept := forall₂_trans hdirectories hshape fun _ _ _ hd he => hd.trans he fun _ _ _ _ _ => trivial
  have hmembers := forall₂_flatMap hkept fun _ _ hd => hd.ofParameters
  have hentries : ∀ entries ∈ found.reduceOption.flatMap (·.sets), ∀ o ∈ entries, Refers items .annotationItem o :=
    forall₂_right hfound fun _ _ he => forall₂_right he fun _ _ hm => refers_of_mem hm
  have hrefers : ∀ o ∈ sets.reduceOption.flatMap (·.sets), Refers items .annotationSet o :=
    forall₂_right hsets fun _ _ hm => refers_of_mem hm
  have hcount : ((sets.zip setLists).filterMap fun p => p.1.map (·.encode (p.2.getD []))).length =
      c.directories.length := by
    have hpresent : sets.countP (·.isSome) = sets.reduceOption.length := List.length_filterMap_eq_countP.symm
    rw [length_filterMap_zip hl fun x => Option.isSome_map, hpresent, ← hshape.length_eq, hdirectories.length_eq]
  refine ⟨?_, ?_⟩
  · simp only [List.flatMap_cons, List.flatMap_nil, List.append_nil]
    refine .append (forms_map (fun item _ => .annotationItem item) rfl) ?_
    refine .append (forms_map (fun entries he => .annotationSet (hentries entries he)) hfound.length_eq.symm) ?_
    refine .append (forms_map (formed_setLists typeLists hrefers) hmembers.length_eq.symm) ?_
    exact forms_map (formed_directories typeLists hrefers hl) hcount
  · have hall := forall₂_comp (List.forall₂_map_left_iff.mp hi) (forall₂_comp hs (forall₂_of_zip hl ho))
    exact hall.imp fun _ _ ⟨_, _, _, _, _, _, h⟩ => h.refers

def ForMethods (classes : List ClassDef) (items : List Item) (kind : ItemKind) (offsets : List (List UInt32)) : Prop :=
  List.Forall₂ (fun d os => List.Forall₂ (fun _ o => Refers items kind o) d.methods os) classes offsets

lemma emits_debugInfo {c : Container} (h : ∀ m ∈ c.methods, ∀ code ∈ m.code, ∀ info ∈ code.debugInfo, info ≠ []) :
    Emits (placeDebugInfo c.classes) fun cs items offsets =>
      Forms c typeLists items (List.replicate (c.itemCount .debugInfo) .debugInfo) cs ∧
        ForMethods c.classes items .debugInfo offsets := by
  have hp : Emits (placeDebugInfo c.classes) fun cs items offsets =>
      cs = (c.methods.filterMap fun m => m.code.bind (·.debugInfo)).map (.debugInfo, ·) ∧
        List.Forall₂ (fun d os => List.Forall₂ (fun m o => Found items .debugInfo (m.code.bind (·.debugInfo)) o)
          d.methods os) c.classes offsets := by
    rw [Container.methods, List.filterMap_flatMap, List.map_flatMap]
    exact .mapM fun d _ => emits_passIf .debugInfo d.methods fun m => m.code.bind (·.debugInfo)
  apply hp.mono
  rintro _ items offsets ⟨rfl, ho⟩
  refine ⟨forms_map (fun info hi => .debugInfo ?_) List.length_filterMap_eq_countP, ?_⟩
  · obtain ⟨m, hm, hi⟩ := List.mem_filterMap.mp hi
    obtain ⟨code, hcode, hi⟩ := Option.bind_eq_some_iff.mp hi
    exact h m hm code hcode info hi
  · exact ho.imp fun _ _ hd => hd.imp fun _ _ hm => hm.refers

lemma emits_code (c : Container) (debugOffsets : List (List UInt32)) :
    Emits (placeCode c.classes debugOffsets) fun cs items offsets =>
      ForMethods c.classes items .debugInfo debugOffsets →
        Forms c typeLists items (List.replicate (c.itemCount .code) .code) cs ∧
          ForMethods c.classes items .code offsets := by
  have hp : Emits (placeCode c.classes debugOffsets) fun cs items offsets =>
      cs = ((c.classes.zip debugOffsets).flatMap fun p =>
          (p.1.methods.zip p.2).filterMap fun q => q.1.code.map (·.encode q.2)).map (.code, ·) ∧
        List.Forall₂ (fun p os => List.Forall₂ (fun q o => Found items .code (q.1.code.map (·.encode q.2)) o)
          (p.1.methods.zip p.2) os) (c.classes.zip debugOffsets) offsets := by
    rw [List.map_flatMap]
    exact .mapM fun p _ => emits_passIf .code (p.1.methods.zip p.2) fun q => q.1.code.map (·.encode q.2)
  apply hp.mono
  rintro _ items offsets ⟨rfl, ho⟩ hd
  refine ⟨forms_map (fun bytes hb => ?_) ?_, ?_⟩
  · obtain ⟨⟨d, os⟩, hp, hb⟩ := List.mem_flatMap.mp hb
    obtain ⟨⟨m, o⟩, hq, hb⟩ := List.mem_filterMap.mp hb
    obtain ⟨code, -, rfl⟩ := Option.map_eq_some_iff.mp hb
    exact .code code ((List.forall₂_iff_zip.mp ((List.forall₂_iff_zip.mp hd).2 hp)).2 hq)
  · rw [Container.itemCount, Container.methods, List.countP_eq_length_filter, List.filter_flatMap]
    refine length_flatMap_zip hd fun d os hm => ?_
    rw [← List.countP_eq_length_filter]
    exact length_filterMap_zip hm fun q => Option.isSome_map
  · refine (forall₂_of_zip hd ho).imp fun d os ⟨dos, hm, hos⟩ => ?_
    exact (forall₂_of_zip hm hos).imp fun m o ⟨_, _, h⟩ => h.refers

lemma emits_classData (c : Container) (codeOffsets : List (List UInt32)) :
    Emits ((c.classes.zip codeOffsets).mapM fun p => placeIf .classData (p.1.dataItem? p.2)) fun cs items offsets =>
      ForMethods c.classes items .code codeOffsets →
        Forms c typeLists items (List.replicate (c.itemCount .classData) .classData) cs ∧
          List.Forall₂ (fun _ o => Refers items .classData o) c.classes offsets := by
  refine (emits_passIf .classData (c.classes.zip codeOffsets) fun p => p.1.dataItem? p.2).mono ?_
  rintro _ items offsets ⟨rfl, ho⟩ hc
  refine ⟨forms_map (fun bytes hb => ?_) (length_filterMap_zip hc fun p => ?_), ?_⟩
  · obtain ⟨⟨d, os⟩, hp, hb⟩ := List.mem_filterMap.mp hb
    obtain ⟨-, hb⟩ := Option.ite_none_right_eq_some.mp hb
    obtain rfl := Option.some.inj hb
    exact .classData (List.of_mem_zip hp).1 ((List.forall₂_iff_zip.mp hc).2 hp)
  · rw [ClassDef.dataItem?]
    split <;> simp [*]
  · apply (forall₂_of_zip hc ho).imp
    rintro _ _ ⟨_, _, h⟩
    exact h.refers

structure Located (c : Container) (items : List Item) (p : Placement) : Prop where
  strings : ∀ o ∈ p.strings, Refers items .stringData o
  typeLists : ∀ types ∈ c.typeLists, Found items .typeList types.item? (p.typeLists types)
  callSites : ∀ o ∈ p.callSites, Refers items .encodedArray o
  classes : List.Forall₂ (fun d o => o.interfaces = p.typeLists d.interfaces ∧
    Refers items .annotationDirectory o.annotations ∧ Refers items .classData o.data ∧
    Refers items .encodedArray o.staticValues) c.classes p.classes

lemma forms_encodedArrays (c : Container) : Forms c typeLists items
    (List.replicate (c.itemCount .encodedArray) .encodedArray)
    (c.pools.callSites.map (fun values => (.encodedArray, Value.encodeArray values)) ++
      (c.classes.filterMap ClassDef.staticValuesItem?).map (.encodedArray, ·)) := by
  rw [Container.itemCount, List.replicate_add]
  apply Forms.append (forms_map (fun values _ => .encodedArray values) rfl)
  refine forms_map (fun bytes hb => ?_) (List.length_filterMap_eq_countP.trans (List.countP_congr fun d _ => ?_))
  · obtain ⟨d, -, hb⟩ := List.mem_filterMap.mp hb
    obtain ⟨-, hb⟩ := Option.ite_none_left_eq_some.mp hb
    obtain rfl := Option.some.inj hb
    exact .encodedArray d.staticValues
  · rw [ClassDef.staticValuesItem?]
    split <;> simp [*]

theorem emits_items {c : Container} (h : ∀ m ∈ c.methods, ∀ code ∈ m.code, ∀ info ∈ code.debugInfo, info ≠ []) :
    Emits (placeItems c) fun cs items p =>
      Forms c typeLists items (ItemKind.ofData.flatMap fun kind => List.replicate (c.itemCount kind) kind) cs ∧
        ∀ map, Located c items (p map) := by
  refine (emits_pass .stringData c.pools.strings StringData.encode).bind fun strings _ => ?_
  refine (emits_typeLists typeLists c).bind fun found _ => ?_
  refine (emits_pass .encodedArray c.pools.callSites Value.encodeArray).bind fun callSites _ => ?_
  refine (emits_passIf .encodedArray c.classes ClassDef.staticValuesItem?).bind fun staticValues _ => ?_
  refine (emits_annotations typeLists c).bind fun annotations _ => ?_
  refine (emits_debugInfo typeLists h).bind fun debugOffsets _ => ?_
  refine (emits_code typeLists c debugOffsets).bind fun codeOffsets _ => ?_
  refine (emits_classData typeLists c codeOffsets).bind fun data _ => .pure ?_
  rintro items hdata hcode ⟨debugForms, debugRefers⟩ ⟨annotationForms, annotationRefers⟩ ⟨rfl, hstatic⟩
    ⟨rfl, hsites⟩ ⟨listForms, hlists⟩ ⟨rfl, hstrings⟩
  obtain ⟨codeForms, codeRefers⟩ := hcode debugRefers
  obtain ⟨dataForms, dataRefers⟩ := hdata codeRefers
  rw [List.append_nil]
  refine ⟨?_, fun map => ⟨?_, hlists, ?_, ?_⟩⟩
  · have hall := Forms.append (forms_map (fun string hs => .stringData hs) rfl) (listForms.append
      ((forms_encodedArrays typeLists c).append (annotationForms.append (debugForms.append
        (codeForms.append dataForms)))))
    rw [List.append_assoc] at hall
    refine ⟨hall.kinds.trans ?_, hall.formed⟩
    simp [ItemKind.ofData, Container.itemCount]
  · exact forall₂_right hstrings fun _ _ hm => refers_of_mem hm
  · exact forall₂_right hsites fun _ _ hm => refers_of_mem hm
  · have hinterfaces : List.Forall₂ (fun d o => o = found d.interfaces) c.classes
        (c.classes.map fun d => found d.interfaces) :=
      List.forall₂_map_right_iff.mpr (List.forall₂_same.mpr fun _ _ => rfl)
    have hall := forall₂_zip_right hinterfaces (forall₂_zip_right annotationRefers
      (forall₂_zip_right dataRefers hstatic))
    exact List.forall₂_map_right_iff.mpr (hall.imp fun _ _ ⟨hi, ha, hd, hs⟩ => ⟨hi, ha, hd, hs.refers⟩)

end Placing

end DexUnseal.Dex
