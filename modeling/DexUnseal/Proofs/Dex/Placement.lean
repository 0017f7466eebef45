import DexUnseal.Dex.Layout
import DexUnseal.Proofs.Dex.Container
import DexUnseal.Proofs.Dex.Placing

/-! What is placed for a container can be read back from the offsets that it got. -/

namespace DexUnseal.Dex.Placing

open Reader

variable {final : DataSection} {front : Bytes}

lemma lookup_typeList {R : TypeList → UInt32 → Prop} {lists : List TypeList} {offsets : List UInt32} {types : TypeList}
    (h : List.Forall₂ R (lists.filter (· ≠ [])).eraseDups offsets) (ht : types ∈ lists) :
    (types = [] → (((lists.filter (· ≠ [])).eraseDups.zip offsets).lookup types).getD 0 = 0) ∧
      (types ≠ [] → R types ((((lists.filter (· ≠ [])).eraseDups.zip offsets).lookup types).getD 0)) := by
  refine ⟨fun he => ?_, fun hne => ?_⟩
  · rw [lookup_zip_of_notMem (by simp [List.mem_eraseDups, he])]
    rfl
  · obtain ⟨o, hl, hs⟩ := lookup_zip_of_mem h (x := types) (by simp [List.mem_eraseDups, ht, hne])
    rwa [hl]

theorem ensures_typeLists (hf : final.Follows front) (lists : List TypeList) :
    Ensures final (placeTypeLists lists) fun offsets =>
      ∀ types ∈ lists, Placed (front ++ final.bytes.toList) types.item? (offsets types) := by
  refine Ensures.bind (.mapM fun types _ => ensures_place .typeList (by decide) hf) fun offsets => ?_
  refine .pure fun ho types ht => ?_
  rw [TypeList.item?]
  split
  · exact (lookup_typeList ho ht).1 ‹_›
  · exact (lookup_typeList ho ht).2 ‹_›

def SetListAt (file : Bytes) (sets : UInt32 × List (Option UInt32)) (offset : UInt32) : Prop :=
  offset ≠ 0 ∧ StandsAt file offset.toNat (OffsetList.encode (sets.2.map (·.getD 0)))

def AnnotationsAt (file : Bytes) (d : AnnotationDirectory) (offset : UInt32) : Prop :=
  ∃ items, Option.Rel (Directory.Rel (AnnotationSet.StandAt file)) (if d.isEmpty then none else some d) items ∧
    ∃ sets, Option.Rel (Directory.Rel fun entries o => o ≠ 0 ∧ StandsAt file o.toNat (OffsetList.encode entries))
        items sets ∧
      ∃ setLists, Option.Rel (fun sets lists => List.Forall₂ (SetListAt file) sets.ofParameters lists) sets setLists ∧
        Placed file (sets.map (·.encode (setLists.getD []))) offset

lemma eq_empty_of_isEmpty {d : Directory σ} (h : d.isEmpty) : d = .empty := by
  obtain ⟨ofClass, ofFields, ofMethods, ofParameters⟩ := d
  simp only [Directory.isEmpty, Bool.and_eq_true, Option.isNone_iff_eq_none, List.isEmpty_iff] at h
  obtain ⟨⟨⟨rfl, rfl⟩, rfl⟩, rfl⟩ := h
  rfl

lemma readAnnotations_placed {file : Bytes} {d : AnnotationDirectory} {offset : UInt32} (h : d.WellFormed)
    (hfile : file.length < UInt32.size) (ha : AnnotationsAt file d offset) :
    readUnlessZero (AnnotationDirectory.read file) .empty file offset = .ok d := by
  obtain ⟨items, hi, sets, hs, setLists, hl, hp⟩ := ha
  split at hi
  · cases hi
    cases hs
    refine readUnlessZero_placed hp (fun _ => eq_empty_of_isEmpty ‹_›) (by simp)
  · cases hi with
    | some hi =>
    cases hs with
    | some hs =>
    cases hl with
    | some hl =>
    have hlen := Nat.lt_of_le_of_lt hp.2.length_le hfile
    apply readUnlessZero_placed hp (by simp)
    rintro _ ⟨⟩
    exact AnnotationDirectory.reads_encode h hi hs (hl.imp fun _ _ hx => hx.2) hfile hlen

theorem ensures_annotations (hf : final.Follows front) (classes : List ClassDef) :
    Ensures final (placeAnnotations classes)
      (List.Forall₂ (fun c o => AnnotationsAt (front ++ final.bytes.toList) c.annotations o) classes) := by
  refine Ensures.bind (.mapM fun _ _ => .optionMapM fun _ _ => .directoryMapM fun set => .mapM fun item _ =>
    ensures_place .annotationItem (by decide) hf) fun items => ?_
  refine Ensures.bind (.mapM fun _ _ => .optionMapM fun _ _ => .directoryMapM fun entries =>
    ensures_place .annotationSet (by decide) hf) fun sets => ?_
  refine Ensures.bind (.mapM fun _ _ => .optionMapM fun directory _ => .mapM fun _ _ =>
    ensures_place .annotationSetList (by decide) hf) fun setLists => ?_
  refine (Ensures.mapM fun _ _ => ensures_placeIf .annotationDirectory (by decide) hf).mono ?_
  intro offsets ho hl hs hi
  exact forall₂_comp (List.forall₂_map_left_iff.mp hi) (forall₂_comp hs (forall₂_of_zip hl ho))

lemma readDebugInfo_placed {file : Bytes} {debugInfo : Option Bytes} {offset : UInt32}
    (h : ∀ bytes ∈ debugInfo, Steps DebugInfo.skip bytes) (hp : Placed file debugInfo offset) :
    Code.readDebugInfo file offset = .ok debugInfo := by
  cases debugInfo with
  | none =>
    obtain rfl : offset = 0 := hp
    rfl
  | some bytes =>
    have hr := (reads_captured ((h bytes rfl).reads DebugInfo.confined_skip)).readAt hp.2
    exact optional_some hp.1 (inContext_ok.mpr hr)

lemma codeAt_placed {file : Bytes} {m : MethodDef} {debugOffset offset : UInt32}
    (h : ∀ code ∈ m.code, code.WellFormed) (hfile : file.length < UInt32.size)
    (hd : Placed file (m.code.bind (·.debugInfo)) debugOffset)
    (hp : Placed file (m.code.map (·.encode debugOffset)) offset) : ClassDef.CodeAt file m offset := by
  rw [ClassDef.CodeAt]
  cases hm : m.code with
  | none =>
    rw [hm] at hp
    obtain rfl : offset = 0 := hp
    rfl
  | some code =>
    rw [hm] at hd hp
    have hc := h code hm
    have hlen := Nat.lt_of_le_of_lt hp.2.length_le hfile
    have hr := (Code.reads_encode hc (readDebugInfo_placed hc.debugInfo hd) hlen).readAt hp.2
    exact optional_some hp.1 (inContext_ok.mpr hr)

def MethodAt (file : Bytes) (m : MethodDef) (offset : UInt32) : Prop :=
  ∃ debugOffset, Placed file (m.code.bind (·.debugInfo)) debugOffset ∧
    Placed file (m.code.map (·.encode debugOffset)) offset

lemma ensures_debugInfo (hf : final.Follows front) (classes : List ClassDef) :
    Ensures final (placeDebugInfo classes) (List.Forall₂ (fun c offsets =>
      List.Forall₂ (fun m o => Placed (front ++ final.bytes.toList) (m.code.bind (·.debugInfo)) o)
        c.methods offsets) classes) :=
  .mapM fun _ _ => .mapM fun _ _ => ensures_placeIf .debugInfo (by decide) hf

theorem ensures_code (hf : final.Follows front) (classes : List ClassDef) (debugOffsets : List (List UInt32)) :
    Ensures final (placeCode classes debugOffsets) fun codeOffsets =>
      List.Forall₂ (fun c offsets =>
        List.Forall₂ (fun m o => Placed (front ++ final.bytes.toList) (m.code.bind (·.debugInfo)) o)
          c.methods offsets) classes debugOffsets →
      List.Forall₂ (fun c offsets => List.Forall₂ (MethodAt (front ++ final.bytes.toList)) c.methods offsets)
        classes codeOffsets := by
  refine (Ensures.mapM fun _ _ => .mapM fun _ _ => ensures_placeIf .code (by decide) hf).mono ?_
  intro codeOffsets hc hd
  apply (forall₂_of_zip hd hc).imp
  rintro c offsets ⟨debugOffsets, hd, hc⟩
  exact forall₂_of_zip hd hc

def MapAt (file : Bytes) (idRuns : List MapItem) (offset : UInt32) : Prop :=
  offset ≠ 0 ∧ ∃ runs dataRuns, StandsAt file offset.toNat (encodeMap runs) ∧
    runs.Perm (idRuns ++ dataRuns) ∧ ∀ run ∈ dataRuns, ¬ run.kind.MapOnly

theorem ensures_map (hf : final.Follows front) (idRuns : List MapItem) :
    Ensures final (placeMap idRuns) (MapAt (front ++ final.bytes.toList) idRuns) := by
  apply (ensures_placeFrom .mapList (by decide) hf).mono
  rintro offset ⟨d, hd, hz, hs⟩
  exact ⟨hz, _, _, hs, List.mergeSort_perm _ _, fun run hr => hd run (List.mem_reverse.mp hr)⟩

structure ClassAt (file : Bytes) (d : ClassDef) (o : ClassOffsets) : Prop where
  interfaces : Placed file d.interfaces.item? o.interfaces
  annotations : AnnotationsAt file d.annotations o.annotations
  data : ∃ codeOffsets, List.Forall₂ (MethodAt file) d.methods codeOffsets ∧
    Placed file (d.dataItem? codeOffsets) o.data
  staticValues : Placed file d.staticValuesItem? o.staticValues

/-- All that the id sections and the header point at is where it was placed, be it something that can be read or not. -/
structure ItemsAt (file : Bytes) (c : Container) (ids : IdSections) (p : Placement) : Prop where
  strings : List.Forall₂ (fun s o => StandsAt file o.toNat s.encode) c.pools.strings p.strings
  typeLists : ∀ proto ∈ c.pools.protos, Placed file proto.parameters.item? (p.typeLists proto.parameters)
  callSites : List.Forall₂ (fun values o => StandsAt file o.toNat (Value.encodeArray values))
    c.pools.callSites p.callSites
  classes : List.Forall₂ (ClassAt file) c.classes p.classes
  map : MapAt file (idRuns c.pools c.classes.length ids) p.map

lemma ensures_items (hf : final.Follows front) (c : Container) (ids : IdSections) :
    Ensures final (placeItems c) fun p => ∀ map,
      MapAt (front ++ final.bytes.toList) (idRuns c.pools c.classes.length ids) map →
        ItemsAt (front ++ final.bytes.toList) c ids (p map) := by
  refine Ensures.bind (.mapM fun s _ => ensures_place .stringData (by decide) hf) fun strings => ?_
  refine (ensures_typeLists hf _).bind fun typeLists => ?_
  refine Ensures.bind (.mapM fun values _ => ensures_place .encodedArray (by decide) hf) fun callSites => ?_
  refine Ensures.bind (.mapM fun d _ => ensures_placeIf .encodedArray (by decide) hf) fun staticValues => ?_
  refine (ensures_annotations hf c.classes).bind fun annotations => ?_
  refine (ensures_debugInfo hf c.classes).bind fun debugOffsets => ?_
  refine (ensures_code hf c.classes debugOffsets).bind fun codeOffsets => ?_
  refine Ensures.bind (.mapM fun _ _ => ensures_placeIf .classData (by decide) hf) fun data => ?_
  refine .pure fun hdata hcode hdebug hann hstatic hsites htypes hstrings map hmap => ?_
  refine ⟨hstrings.imp fun _ _ hs => hs.2, fun proto hp => htypes _ ?_, hsites.imp fun _ _ hs => hs.2, ?_, hmap⟩
  · exact List.mem_append_left _ (List.mem_map_of_mem hp)
  · have hinterfaces : List.Forall₂ (fun d o => Placed (front ++ final.bytes.toList) d.interfaces.item? o) c.classes
        (c.classes.map fun d => typeLists d.interfaces) :=
      List.forall₂_map_right_iff.mpr (List.forall₂_same.mpr fun d hd =>
        htypes _ (List.mem_append_right _ (List.mem_map_of_mem hd)))
    have hall := forall₂_zip_right hinterfaces (forall₂_zip_right hann (forall₂_zip_right
      (forall₂_of_zip (hcode hdebug) hdata) hstatic))
    exact List.forall₂_map_right_iff.mpr (hall.imp fun _ _ ⟨hi, ha, hd, hs⟩ => ⟨hi, ha, hd, hs⟩)

theorem ensures_all (hf : final.Follows front) (c : Container) (ids : IdSections) :
    Ensures final (placeAll c ids) (ItemsAt (front ++ final.bytes.toList) c ids) :=
  (ensures_items hf c ids).bind fun _ => (ensures_map hf _).bind fun map => .pure fun hmap hp => hp map hmap

/-- That the section only grows has nothing to do with what it grows into. -/
lemma grows_items (c : Container) {d : DataSection} (hd : d.Plain) : d.Grows ((placeItems c).run d).2 := by
  have hf : (DataSection.empty 1).Follows [0] := ⟨rfl, by decide, by decide⟩
  exact (ensures_items hf c (.ofPools c.pools c.classes.length) d hd).2.1

lemma grows_all (c : Container) (ids : IdSections) {d : DataSection} (hd : d.Plain) :
    d.Grows ((placeAll c ids).run d).2 := by
  have hf : (DataSection.empty 1).Follows [0] := ⟨rfl, by decide, by decide⟩
  exact (ensures_all hf c ids d hd).2.1

structure Correct (file : Bytes) (c : Container) (ids : IdSections) (p : Placement) : Prop where
  strings : List.Forall₂ (fun s o => StandsAt file o.toNat s.encode) c.pools.strings p.strings
  typeLists : ∀ proto ∈ c.pools.protos, Placed file proto.parameters.item? (p.typeLists proto.parameters)
  callSites : List.Forall₂ (fun values o => StandsAt file o.toNat (Value.encodeArray values))
    c.pools.callSites p.callSites
  classes : List.Forall₂ (fun d o => Reads (ClassDef.read file c.pools) (d.encode o) d) c.classes p.classes
  map : MapAt file (idRuns c.pools c.classes.length ids) p.map

lemma ClassAt.reads {file : Bytes} {pools : Pools} {d : ClassDef} {o : ClassOffsets} (h : ClassAt file d o)
    (hw : d.WellFormed pools) (ho : d.Sorted) (hfile : file.length < UInt32.size) :
    Reads (ClassDef.read file pools) (d.encode o) d := by
  obtain ⟨codeOffsets, hc, hp⟩ := h.data
  have hcode : List.Forall₂ (ClassDef.CodeAt file) d.methods codeOffsets :=
    forall₂_imp_mem hc hw.code fun m o hm ⟨_, hd, hp⟩ => codeAt_placed hm hfile hd hp
  exact ClassDef.reads_encode hw.descriptor (TypeList.readAt_placed hw.interfaces hfile h.interfaces)
    (readAnnotations_placed hw.annotations hfile h.annotations) (ClassDef.readData_placed ho hfile hcode hp)
    (ClassDef.readStaticValues_placed hw.staticValues hfile h.staticValues)

theorem ItemsAt.correct {file : Bytes} {c : Container} {ids : IdSections} {p : Placement} (h : ItemsAt file c ids p)
    (hw : c.WellFormed) (ho : c.Sorted) (hfile : file.length < UInt32.size) : Correct file c ids p := by
  refine ⟨h.strings, h.typeLists, h.callSites, ?_, h.map⟩
  have hmem : ∀ d ∈ c.classes, d.WellFormed c.pools ∧ d.Sorted := fun d hd => ⟨hw.classes d hd, ho d hd⟩
  exact forall₂_imp_mem h.classes hmem fun d o hd hc => hc.reads hd.1 hd.2 hfile

end DexUnseal.Dex.Placing
