import DexUnseal.Proofs.Dex.Layout
import DexUnseal.Proofs.Dex.MapList

/-! Decoding undoes encoding. -/

namespace DexUnseal.Dex.Container

open Reader

variable {c : Container}

def codes (c : Container) : List Code := c.classes.flatMap fun d => d.methods.filterMap (·.code)

lemma checkTries_eq_forM (c : Container) : c.checkTries = c.codes.forM Code.checkTries := by
  have hcounts : (c.classes.flatMap fun d => d.methods.filterMap fun m => m.code.map (·.tries.length)) =
      c.codes.map (·.tries.length) := by
    simp only [codes, List.map_flatMap, List.map_filterMap]
  rw [checkTries, hcounts]
  induction c.codes with
  | nil => rfl
  | cons code codes ih =>
    rw [List.forM, Code.checkTries, List.map_cons, List.find?_cons, ← ih]
    by_cases hm : Code.mostTries < code.tries.length
    · simp only [hm, decide_true, if_true]
      rfl
    · simp only [hm, decide_false, if_false]
      rfl

lemma checkTries_eq_ok_iff : c.checkTries = .ok () ↔ ∀ code ∈ c.codes, code.tries.length ≤ Code.mostTries := by
  simp only [checkTries_eq_forM, forM_ok, Code.checkTries_eq_ok_iff]

lemma WellFormed.length_tries_le (h : c.WellFormed) : ∀ code ∈ c.codes, code.tries.length ≤ Code.mostTries := by
  intro code hcode
  obtain ⟨d, hd, hcode⟩ := List.mem_flatMap.mp hcode
  obtain ⟨m, hm, hcode⟩ := List.mem_filterMap.mp hcode
  exact ((h.classes d hd).code m hm code hcode).length_tries_le

lemma checkOrder_eq_ok_iff : c.classes.forM ClassDef.checkOrder = .ok () ↔ c.Ordered := by
  simp only [forM_ok, ClassDef.checkOrder_eq_ok_iff, Ordered]

def dataSection (c : Container) : DataSection := ((Placing.placeAll c c.parts.ids).run (.empty c.parts.ids.data)).2

def fileHeader (c : Container) : Header :=
  c.header c.parts.ids c.parts.placement.map (c.parts.idBytes ++ c.parts.dataBytes.toList) c.parts.dataBytes.size

lemma file_eq (c : Container) :
    c.file = c.fileHeader.encode ++ (c.encodeIds c.parts.placement ++ c.dataSection.bytes.toList) := rfl

lemma standsAt_fileHeader (c : Container) : StandsAt c.file 0 c.fileHeader.encode := by
  rw [file_eq]
  exact List.prefix_append _ _

lemma length_idBytes (c : Container) :
    (c.encodeIds c.parts.placement).length = IdSections.size c.pools c.classes.length := by
  obtain ⟨hs, hc, hd⟩ := Placing.returns_all c c.parts.ids (.empty c.parts.ids.data)
  exact length_encodeIds hs hc hd

lemma length_file (c : Container) :
    c.file.length = Header.size + IdSections.size c.pools c.classes.length + c.dataSection.bytes.size := by
  rw [file_eq, List.length_append, List.length_append, Header.length_encode, length_idBytes, Array.length_toList,
    Nat.add_assoc]

lemma idBytes_end (hids : Header.size + IdSections.size c.pools c.classes.length < UInt32.size) :
    Header.size + c.parts.idBytes.length = c.parts.ids.data.toNat :=
  (congrArg (Header.size + ·) (length_idBytes c)).trans (IdSections.inPlace_ofPools hids).toNat_data.symm

def items (c : Container) : DataSection :=
  ((Placing.placeItems c).run (.empty c.parts.ids.data)).2.align ItemKind.mapList.alignment

lemma length_encodeMap (runs : List MapItem) : (Placing.encodeMap runs).length = 4 + 12 * runs.length := by
  simp [Placing.encodeMap, MapItem.encode, List.length_flatMap, Nat.mul_comm]

/-- How long the map is does not depend on its order. -/
lemma size_dataSection (c : Container) : c.dataSection.bytes.size = c.items.bytes.size + (4 +
    12 * ((Placing.idRuns c.pools c.classes.length c.parts.ids).length +
      (c.items.countItem .mapList).runs.length)) := by
  have hd : c.dataSection = (c.items.countItem .mapList).append (Placing.encodeMap
      ((Placing.idRuns c.pools c.classes.length c.parts.ids ++ (c.items.countItem .mapList).runs.reverse).mergeSort
        fun a b => a.offset ≤ b.offset)) := rfl
  rw [hd, ← Array.length_toList]
  simp [DataSection.append, DataSection.bytes_countItem, length_encodeMap]

lemma idSize_lt (hlen : c.file.length < UInt32.size) :
    Header.size + IdSections.size c.pools c.classes.length < UInt32.size := by
  rw [length_file] at hlen
  omega

lemma inPlace (hlen : c.file.length < UInt32.size) : c.parts.ids.InPlace c.pools c.classes.length :=
  IdSections.inPlace_ofPools (idSize_lt hlen)

lemma toNat_data (hlen : c.file.length < UInt32.size) :
    c.parts.ids.data.toNat = Header.size + IdSections.size c.pools c.classes.length :=
  (inPlace hlen).toNat_data

lemma sections (hlen : c.file.length < UInt32.size) : SectionsAt c.file c c.parts.ids c.parts.placement := by
  obtain ⟨hs, hc, hd⟩ := Placing.returns_all c c.parts.ids (.empty c.parts.ids.data)
  exact sectionsAt (inPlace hlen) (Header.length_encode _) hs hc hd

lemma plain_empty (base : UInt32) : (DataSection.empty base).Plain := by
  simp [DataSection.Plain, DataSection.empty]

lemma base_dataSection (c : Container) : c.dataSection.base = c.parts.ids.data :=
  (Placing.grows_all c _ (plain_empty _)).base

lemma follows (hlen : c.file.length < UInt32.size) :
    c.dataSection.Follows (c.fileHeader.encode ++ c.encodeIds c.parts.placement) := by
  have hl : (c.fileHeader.encode ++ c.encodeIds c.parts.placement).length =
      Header.size + IdSections.size c.pools c.classes.length := by
    rw [List.length_append, Header.length_encode, length_idBytes]
  refine ⟨?_, ?_, ?_⟩
  · rw [base_dataSection, hl, toNat_data hlen]
  · rw [hl, Header.size]
    omega
  · rwa [hl, ← length_file]

theorem itemsAt (hlen : c.file.length < UInt32.size) : Placing.ItemsAt c.file c c.parts.ids c.parts.placement := by
  have hall := (Placing.ensures_all (follows hlen) c c.parts.ids _ (plain_empty _)).2.2 (.refl _)
  rwa [List.append_assoc, ← file_eq] at hall

lemma correct (h : c.WellFormed) (ho : c.Sorted) (hlen : c.file.length < UInt32.size) :
    Placing.Correct c.file c c.parts.ids c.parts.placement :=
  (itemsAt hlen).correct h ho hlen

/-- How many items an id section holds is no more than how many bytes all of them take. -/
lemma count_lt (h : Header.size + IdSections.size c.pools c.classes.length < UInt32.size) :
    c.pools.strings.length < UInt32.size ∧ c.pools.types.length < UInt32.size ∧
      c.pools.protos.length < UInt32.size ∧ c.pools.fields.length < UInt32.size ∧
      c.pools.methods.length < UInt32.size ∧ c.classes.length < UInt32.size ∧
      c.pools.callSites.length < UInt32.size ∧ c.pools.handles.length < UInt32.size := by
  rw [IdSections.size] at h
  omega

section Decode

variable {file body : Bytes} {ids : IdSections} {p : Placement} {dataSize : Nat}

lemma readHeader_eq (h : c.WellFormed) (hs : StandsAt file 0 (c.header ids p.map body dataSize).encode) :
    (Header.read file).readAt file 0 = .ok (c.header ids p.map body dataSize) := by
  have hl := hs.length_le
  rw [Header.length_encode] at hl
  exact (Header.reads_encode hl h.magic rfl).readAt hs

lemma readCallSites_eq (h : c.WellFormed) (hs : SectionsAt file c ids p) (hc : Placing.Correct file c ids p)
    (hn : c.pools.callSites.length < UInt32.size) (hlen : file.length < UInt32.size) :
    (repeated (Pools.readCallSite file) (UInt32.ofNat c.pools.callSites.length).toNat).readAt file
      ids.callSites.toNat = .ok c.pools.callSites := by
  have hsites := hs.callSites
  rw [List.flatMap_def] at hsites
  rw [UInt32.toNat_ofNat_of_lt' hn]
  refine (reads_repeated (List.forall₂_map_left_iff.mpr (forall₂_swap ?_))).readAt hsites
  exact forall₂_imp_mem hc.callSites h.pools.callSites fun _ _ hw hv => Pools.reads_callSite hw hlen hv

lemma readHandles_eq (hs : SectionsAt file c ids p) (hn : c.pools.handles.length < UInt32.size) :
    (repeated MethodHandle.read (UInt32.ofNat c.pools.handles.length).toNat).readAt file
      ids.handles.toNat = .ok c.pools.handles := by
  rw [UInt32.toNat_ofNat_of_lt' hn]
  exact (reads_repeated_flatMap MethodHandle.encode fun handle _ => handle.reads_encode).readAt hs.handles

lemma readPools_eq (h : c.WellFormed) (hids : Header.size + IdSections.size c.pools c.classes.length < UInt32.size)
    (hs : SectionsAt file c ids p) (hc : Placing.Correct file c ids p) (hlen : file.length < UInt32.size) :
    Pools.read file (c.header ids p.map body dataSize) = .ok c.pools := by
  obtain ⟨nstrings, ntypes, nprotos, nfields, nmethods, -, nsites, nhandles⟩ := count_lt hids
  have hstrings : (counted (Pools.readString file) 0 (c.header ids p.map body dataSize).strings.size.toNat).readAt file
      (c.header ids p.map body dataSize).strings.offset.toNat = .ok c.pools.strings := by
    have hoffsets := hs.strings
    rw [List.flatMap_def] at hoffsets
    refine Section.readAt_ofCount (List.forall₂_map_left_iff.mpr (forall₂_swap ?_)) hoffsets nstrings
    exact forall₂_imp_mem hc.strings h.pools.strings fun _ _ hw hs number => Pools.reads_string hw hs number
  have htypes := Pools.readSection_ofCount (fun t ht => Pools.reads_type (h.pools.types t ht)) hs.types ntypes
  have hprotos := Pools.readSection_ofCount (fun proto hm => Proto.reads_encode
    (TypeList.readAt_placed (h.pools.protos proto hm) hlen (hc.typeLists proto hm))) hs.protos nprotos
  have hfields := Pools.readSection_ofCount (fun f hf => FieldId.reads_encode (h.pools.fields f hf)) hs.fields nfields
  have hmethods := Pools.readSection_ofCount (fun m hm => MethodId.reads_encode (h.pools.methods m hm))
    hs.methods nmethods
  have hmap := Pools.readMap_eq hlen hc.map (readCallSites_eq h hs hc nsites hlen) (readHandles_eq hs nhandles)
  refine except_bind_ok.mpr ⟨_, hstrings, except_bind_ok.mpr ⟨_, htypes, except_bind_ok.mpr ⟨_, hprotos, ?_⟩⟩⟩
  exact except_bind_ok.mpr ⟨_, hfields, except_bind_ok.mpr ⟨_, hmethods, except_bind_ok.mpr ⟨_, hmap, rfl⟩⟩⟩

lemma readClasses_eq (hs : SectionsAt file c ids p) (hc : Placing.Correct file c ids p)
    (hn : c.classes.length < UInt32.size) :
    (counted (fun number => within (.classDef number) (ClassDef.read file c.pools)) 0
      (c.header ids p.map body dataSize).classes.size.toNat).readAt file
        (c.header ids p.map body dataSize).classes.offset.toNat = .ok c.classes := by
  have hclasses := hs.classes
  rw [List.flatMap_def] at hclasses
  refine Section.readAt_ofCount (List.forall₂_map_left_iff.mpr ?_) hclasses hn
  apply (forall₂_zip_left hc.classes).imp
  rintro ⟨d, offsets⟩ _ ⟨rfl, hd⟩ number
  exact hd.within _

theorem decode_of_correct (h : c.WellFormed)
    (hids : Header.size + IdSections.size c.pools c.classes.length < UInt32.size)
    (hheader : StandsAt file 0 (c.header ids p.map body dataSize).encode) (hs : SectionsAt file c ids p)
    (hc : Placing.Correct file c ids p) (hlen : file.length < UInt32.size) : decode file = .ok c :=
  except_bind_ok.mpr ⟨_, readHeader_eq h hheader, except_bind_ok.mpr ⟨_, readPools_eq h hids hs hc hlen,
    except_bind_ok.mpr ⟨_, readClasses_eq hs hc (count_lt hids).2.2.2.2.2.1, rfl⟩⟩⟩

end Decode

/-- A member index may also repeat here, which writing refuses. -/
theorem decode_file (h : c.WellFormed) (ho : c.Sorted) (hlen : c.file.length < UInt32.size) :
    decode c.file = .ok c :=
  decode_of_correct h (idSize_lt hlen) (standsAt_fileHeader c) (sections hlen) (correct h ho hlen) hlen

lemma encode_eq_ok_iff {file : Bytes} : c.encode = .ok file ↔ ((∀ code ∈ c.codes, code.tries.length ≤ 65535) ∧
    c.Ordered ∧ Header.size + IdSections.size c.pools c.classes.length < UInt32.size) ∧ file = c.file := by
  constructor
  · intro h
    obtain ⟨_, ht, h⟩ := except_bind_ok.mp h
    obtain ⟨_, ho, h⟩ := except_bind_ok.mp h
    obtain ⟨hend, hfile⟩ := except_guard_ok.mp h
    have hlt := c.parts.ids.data.toNat_lt
    rw [← not_not.mp hend, show c.parts.idBytes.length = _ from length_idBytes c] at hlt
    exact ⟨⟨checkTries_eq_ok_iff.mp ht, checkOrder_eq_ok_iff.mp ho, hlt⟩, (Except.ok.inj hfile).symm⟩
  · rintro ⟨⟨ht, ho, hids⟩, rfl⟩
    refine except_bind_ok.mpr ⟨(), checkTries_eq_ok_iff.mpr ht, ?_⟩
    refine except_bind_ok.mpr ⟨(), checkOrder_eq_ok_iff.mpr ho, ?_⟩
    rw [if_neg (not_not.mpr (idBytes_end hids))]
    rfl

theorem encode_eq_file (h : c.WellFormed) (ho : c.Ordered) (hlen : c.file.length < UInt32.size) :
    c.encode = .ok c.file :=
  encode_eq_ok_iff.mpr ⟨⟨h.length_tries_le, ho, idSize_lt hlen⟩, rfl⟩

lemma encode_ok {file : Bytes} (h : c.encode = .ok file) : c.Ordered ∧ file = c.file :=
  have ⟨⟨_, ho, _⟩, hfile⟩ := encode_eq_ok_iff.mp h
  ⟨ho, hfile⟩

/-- Decoding undoes encoding, be it for any container that the file form can hold. -/
theorem encode_roundTrip (h : c.WellFormed) (ho : c.Ordered) (hlen : c.file.length < UInt32.size) :
    ∃ file, c.encode = .ok file ∧ decode file = .ok c :=
  ⟨c.file, encode_eq_file h ho hlen, decode_file h ho.sorted hlen⟩

def sample : Container where
  magic := ⟨[0x64, 0x65, 0x78, 0x0a, 0x30, 0x33, 0x35, 0x00], rfl⟩
  pools :=
    { strings := [.decoded "Ldalvik/annotation/InnerClass;", .decoded "Lp/A;", .decoded "V", .decoded "accessFlags",
        .decoded "run", .raw 1 [0xff]]
      types := [0, 1, 2]
      protos := [⟨2, 2, [1]⟩]
      fields := [⟨1, 1, 4⟩]
      methods := [⟨1, 0, 4⟩]
      handles := [⟨4, 0⟩]
      callSites := [[.int 5, .array [.null, .boolean true]]] }
  classes := [
    { classIdx := 1, descriptor := "Lp/A;", flags := ⟨0x11⟩, superclassIdx := 0xffffffff, interfaces := [2]
      sourceFileIdx := 0xffffffff
      annotations := { Directory.empty with ofClass := some [⟨⟨0, [⟨3, .int 0x19⟩]⟩, 2⟩] }
      staticValues := [.null]
      staticFields := [⟨0, ⟨0x18⟩⟩]
      instanceFields := []
      directMethods := []
      virtualMethods := [⟨0, ⟨0x11⟩, some ⟨1, 1, 0, some [1, 0, 0], [0x000e], [⟨0, 1, 1⟩], [1, 0, 0]⟩⟩] }]

lemma wellFormed_sample : sample.WellFormed where
  magic := rfl
  pools :=
    { strings := by simp [sample, StringData.WellFormed, show Text.ModifiedUtf8.decode [0xff] = none from rfl]
      types := by simp [sample, Pools.text?, StringData.text?]
      protos := by simp [sample, Proto.WellFormed, TypeList.WellFormed, FitsHalfWord, UInt16.size]
      fields := by simp [sample, FieldId.WellFormed, FitsHalfWord, UInt16.size]
      methods := by simp [sample, MethodId.WellFormed, FitsHalfWord, UInt16.size]
      callSites := by simp [sample, Value.Shallow, Value.height, Value.heightEach, Value.room, nestingLimit] }
  classes := by
    intro d hd
    obtain rfl := List.mem_singleton.mp hd
    refine ⟨rfl, by simp [TypeList.WellFormed, FitsHalfWord, UInt16.size], fun m hm code hcode => ?_, ?_, ?_⟩
    · obtain rfl := List.mem_singleton.mp hm
      obtain rfl := Option.some.inj hcode
      refine ⟨fun bytes hb => ?_, .inr ⟨by decide, by decide, rfl, by decide⟩⟩
      obtain rfl := Option.some.inj hb
      rfl
    · refine ⟨?_, by simp [Directory.empty], by simp [Directory.empty], by simp [Directory.empty]⟩
      simp [AnnotationSet.WellFormed, Annotation.height, Element.heightEach, Element.height, Value.height, Value.room,
        nestingLimit]
    · simp [Value.Shallow, Value.height, Value.room, nestingLimit]

lemma ordered_sample : sample.Ordered := by
  simp [Ordered, ClassDef.Ordered, sample, ClassDef.memberIndices]

lemma length_file_sample : sample.file.length < 1024 := by
  rw [length_file, size_dataSection]
  decide +kernel

lemma decode_file_sample : decode sample.file = .ok sample :=
  decode_file wellFormed_sample ordered_sample.sorted (Nat.lt_trans length_file_sample (by decide))

theorem encode_roundTrip_sample : sample.WellFormed ∧ sample.Ordered ∧ sample.file.length < UInt32.size ∧
    ∃ file, sample.encode = .ok file ∧ decode file = .ok sample :=
  ⟨wellFormed_sample, ordered_sample, Nat.lt_trans length_file_sample (by decide),
    encode_roundTrip wellFormed_sample ordered_sample (Nat.lt_trans length_file_sample (by decide))⟩

end DexUnseal.Dex.Container
