import DexUnseal.Proofs.Dex.ItemForm

/-! The items of a file: the header and the id sections, then what is placed in the data section. -/

namespace DexUnseal.Dex

structure Mapped (place stop : Nat) (runs : List MapItem) (items : List Item) (bytes : Bytes) : Prop where
  described : ∃ parts, List.Forall₂ Describes runs parts ∧ parts.flatten = items
  tiles : Tiles place items bytes
  stop : stop = place + bytes.length

lemma Mapped.append {place middle stop : Nat} {runs moreRuns : List MapItem} {items more : List Item}
    {bytes moreBytes : Bytes} (h : Mapped place middle runs items bytes)
    (h' : Mapped middle stop moreRuns more moreBytes) :
    Mapped place stop (runs ++ moreRuns) (items ++ more) (bytes ++ moreBytes) := by
  obtain ⟨⟨parts, hp, rfl⟩, ht, rfl⟩ := h
  obtain ⟨⟨moreParts, hm, rfl⟩, ht', rfl⟩ := h'
  refine ⟨⟨parts ++ moreParts, List.rel_append hp hm, List.flatten_append⟩, ht.append ht', ?_⟩
  rw [List.length_append, Nat.add_assoc]

def sectionItems (kind : ItemKind) : (start : UInt32) → List Bytes → List Item
  | _, [] => []
  | start, bytes :: rest => ⟨kind, start, bytes⟩ :: sectionItems kind (start + UInt32.ofNat bytes.length) rest

variable {kind : ItemKind} {start : UInt32} {parts : List Bytes}

lemma kinds_sectionItems (kind : ItemKind) (start : UInt32) (parts : List Bytes) :
    (sectionItems kind start parts).map (·.kind) = List.replicate parts.length kind := by
  induction parts generalizing start with
  | nil => rfl
  | cons bytes rest ih => rw [sectionItems, List.map_cons, ih, List.length_cons, List.replicate_succ]

lemma mem_sectionItems {i : Item} (h : i ∈ sectionItems kind start parts) : i.kind = kind ∧ i.bytes ∈ parts := by
  induction parts generalizing start with
  | nil => cases h
  | cons bytes rest ih =>
    rcases List.mem_cons.mp h with rfl | h
    · exact ⟨rfl, List.mem_cons_self⟩
    · exact ⟨(ih h).1, List.mem_cons_of_mem _ (ih h).2⟩

lemma tiles_section (hs : kind.alignment.toNat ∣ start.toNat)
    (hp : ∀ bytes ∈ parts, kind.alignment.toNat ∣ bytes.length)
    (hlen : start.toNat + parts.flatten.length < UInt32.size) :
    Tiles start.toNat (sectionItems kind start parts) parts.flatten := by
  induction parts generalizing start with
  | nil => exact .nil _
  | cons bytes rest ih =>
    obtain ⟨hb, hrest⟩ := List.forall_mem_cons.mp hp
    rw [List.flatten_cons, List.length_append] at hlen
    have hnext : (start + UInt32.ofNat bytes.length).toNat = start.toNat + bytes.length := toNat_add_ofNat (by omega)
    have htail := ih (hnext ▸ Nat.dvd_add hs hb) hrest (by omega)
    rw [hnext] at htail
    have hplace : start.toNat = start.toNat + 0 := rfl
    exact Tiles.cons (i := ⟨kind, start, bytes⟩) hplace kind.alignment_pos hs htail

lemma described_section (kind : ItemKind) (start : UInt32) (parts : List Bytes) : ∃ items,
    List.Forall₂ Describes (Placing.idRun kind parts.length start) items ∧
      items.flatten = sectionItems kind start parts := by
  cases parts with
  | nil => exact ⟨[], .nil, rfl⟩
  | cons bytes rest =>
    have hlength : (sectionItems kind start (bytes :: rest)).length = (bytes :: rest).length := by
      rw [← List.length_map (f := (·.kind)), kinds_sectionItems, List.length_replicate]
    refine ⟨[sectionItems kind start (bytes :: rest)], .cons ⟨fun i hi => (mem_sectionItems hi).1, ?_, rfl⟩ .nil,
      List.flatten_singleton⟩
    rw [hlength]

lemma mapped_section (kind : ItemKind) (start : UInt32) (xs : List α) (item : α → Bytes) {count size stop : Nat}
    (hk : kind.alignment = 4) (hcount : xs.length = count) (hitem : ∀ x, (item x).length = size) (hsize : 4 ∣ size)
    (hs : 4 ∣ start.toNat) (hstop : stop = start.toNat + count * size) (hlen : stop < UInt32.size) :
    Mapped start.toNat stop (Placing.idRun kind count start) (sectionItems kind start (xs.map item))
      (xs.flatMap item) := by
  subst hcount
  have hfour : kind.alignment.toNat = 4 := by rw [hk]; rfl
  have hbytes : (xs.map item).flatten.length = xs.length * size := by
    simp [List.length_flatten, Function.comp_def, hitem]
  have hdescribed := described_section kind start (xs.map item)
  rw [List.length_map] at hdescribed
  rw [List.flatMap_def]
  refine ⟨hdescribed, tiles_section (hfour ▸ hs) (List.forall_mem_map.mpr fun x _ => ?_) ?_, hbytes ▸ hstop⟩
  · rwa [hitem, hfour]
  · rwa [hbytes, ← hstop]

namespace Container

open Placing

def frontItems (c : Container) : List Item :=
  sectionItems .header 0 ([c.fileHeader].map Header.encode)
    ++ sectionItems .stringId c.parts.ids.strings (c.parts.placement.strings.map Bytes.word32)
    ++ sectionItems .typeId c.parts.ids.types (c.pools.types.map Bytes.word32)
    ++ sectionItems .protoId c.parts.ids.protos
      (c.pools.protos.map fun proto => proto.encode (c.parts.placement.typeLists proto.parameters))
    ++ sectionItems .fieldId c.parts.ids.fields (c.pools.fields.map FieldId.encode)
    ++ sectionItems .methodId c.parts.ids.methods (c.pools.methods.map MethodId.encode)
    ++ sectionItems .classDef c.parts.ids.classes
      ((c.classes.zip c.parts.placement.classes).map fun (d, offsets) => d.encode offsets)
    ++ sectionItems .callSiteId c.parts.ids.callSites (c.parts.placement.callSites.map Bytes.word32)
    ++ sectionItems .methodHandle c.parts.ids.handles (c.pools.handles.map MethodHandle.encode)

variable {c : Container}

lemma length_placement (c : Container) : c.parts.placement.strings.length = c.pools.strings.length ∧
    c.parts.placement.callSites.length = c.pools.callSites.length ∧
      (c.classes.zip c.parts.placement.classes).length = c.classes.length := by
  obtain ⟨hs, hc, hd⟩ := returns_all c c.parts.ids (.empty c.parts.ids.data)
  have hclasses : c.parts.placement.classes.length = c.classes.length := hd
  exact ⟨hs, hc, by rw [List.length_zip, hclasses, Nat.min_self]⟩

lemma mapped_front (hlen : c.file.length < UInt32.size) :
    Mapped 0 c.parts.ids.data.toNat (idRuns c.pools c.classes.length c.parts.ids) c.frontItems
      (c.fileHeader.encode ++ c.encodeIds c.parts.placement) := by
  obtain ⟨hs, hc, hd⟩ := length_placement c
  obtain ⟨istrings, itypes, iprotos, ifields, imethods, iclasses, isites, ihandles, idata⟩ := inPlace hlen
  have hdata := toNat_data hlen
  rw [length_file] at hlen
  have hsize : Header.size = 112 := rfl
  have header := mapped_section .header 0 [c.fileHeader] Header.encode rfl rfl Header.length_encode (by decide)
    (by decide) istrings (by omega)
  have strings := mapped_section .stringId c.parts.ids.strings c.parts.placement.strings Bytes.word32 rfl hs
    Bytes.length_word32 (by decide) (by omega) itypes (by omega)
  have types := mapped_section .typeId c.parts.ids.types c.pools.types Bytes.word32 rfl rfl
    Bytes.length_word32 (by decide) (by omega) iprotos (by omega)
  have protos := mapped_section .protoId c.parts.ids.protos c.pools.protos
    (fun proto => proto.encode (c.parts.placement.typeLists proto.parameters)) rfl rfl
    (fun _ => by simp [Proto.encode]) (by decide) (by omega) ifields (by omega)
  have fields := mapped_section .fieldId c.parts.ids.fields c.pools.fields FieldId.encode rfl rfl
    (fun _ => by simp [FieldId.encode]) (by decide) (by omega) imethods (by omega)
  have methods := mapped_section .methodId c.parts.ids.methods c.pools.methods MethodId.encode rfl rfl
    (fun _ => by simp [MethodId.encode]) (by decide) (by omega) iclasses (by omega)
  have classes := mapped_section .classDef c.parts.ids.classes (c.classes.zip c.parts.placement.classes)
    (fun (d, offsets) => d.encode offsets) rfl hd
    (fun _ => by simp [ClassDef.encode]) (by decide) (by omega) isites (by omega)
  have callSites := mapped_section .callSiteId c.parts.ids.callSites c.parts.placement.callSites Bytes.word32 rfl hc
    Bytes.length_word32 (by decide) (by omega) ihandles (by omega)
  have handles := mapped_section .methodHandle c.parts.ids.handles c.pools.handles MethodHandle.encode rfl rfl
    (fun _ => by simp [MethodHandle.encode]) (by decide) (by omega) idata (by omega)
  have hall := (((((((header.append strings).append types).append protos).append fields).append methods).append
    classes).append callSites).append handles
  rw [List.flatMap_singleton] at hall
  simp only [encodeIds, ← List.append_assoc]
  exact hall

lemma kinds_front (c : Container) : c.frontItems.map (·.kind) =
    ItemKind.ofFront.flatMap fun kind => List.replicate (c.itemCount kind) kind := by
  obtain ⟨hs, hc, hd⟩ := length_placement c
  simp only [frontItems, List.map_append, kinds_sectionItems, List.length_map, hs, hc, hd, ItemKind.ofFront,
    List.flatMap_cons, List.flatMap_nil, List.append_nil, itemCount, List.append_assoc]
  rfl

lemma formed_section {typeLists : TypeList → UInt32} {items : List Item} {xs : List α} {item : α → Bytes}
    (h : ∀ x ∈ xs, Formed c typeLists items kind (item x)) (start : UInt32) :
    ∀ i ∈ sectionItems kind start (xs.map item), Formed c typeLists items i.kind i.bytes := by
  intro i hi
  obtain ⟨hk, hb⟩ := mem_sectionItems hi
  obtain ⟨x, hx, hb⟩ := List.mem_map.mp hb
  rw [hk, ← hb]
  exact h x hx

lemma formed_front {items : List Item} (h : Located c items c.parts.placement) :
    ∀ i ∈ c.frontItems, Formed c c.parts.placement.typeLists items i.kind i.bytes := by
  simp only [frontItems, List.forall_mem_append]
  refine ⟨⟨⟨⟨⟨⟨⟨⟨?_, ?_⟩, ?_⟩, ?_⟩, ?_⟩, ?_⟩, ?_⟩, ?_⟩, ?_⟩
  · exact formed_section (fun header hm => List.mem_singleton.mp hm ▸ .header) _
  · exact formed_section (fun o ho => .stringId (h.strings o ho)) _
  · exact formed_section (fun idx hm => .typeId hm) _
  · refine formed_section (fun proto hm => .protoId hm (h.typeLists _ ?_).refers) _
    exact List.mem_append_left _ (List.mem_map_of_mem hm)
  · exact formed_section (fun field hm => .fieldId hm) _
  · exact formed_section (fun method hm => .methodId hm) _
  · refine formed_section (fun p hp => ?_) _
    have hd := (List.of_mem_zip hp).1
    obtain ⟨hi, ha, hdata, hs⟩ := (List.forall₂_iff_zip.mp h.classes).2 hp
    refine .classDef hd hi ?_ ha hdata hs
    rw [hi]
    exact (h.typeLists _ (List.mem_append_right _ (List.mem_map_of_mem hd))).refers
  · exact formed_section (fun o ho => .callSiteId (h.callSites o ho)) _
  · exact formed_section (fun handle hm => .methodHandle hm) _

def mapRuns (c : Container) : List MapItem := idRuns c.pools c.classes.length c.parts.ids ++ c.dataSection.runs.reverse

def mapItem (c : Container) : Item :=
  ⟨.mapList, c.parts.placement.map, encodeMap (c.mapRuns.mergeSort fun a b => a.offset ≤ b.offset)⟩

def fileItems (c : Container) (data : List Item) : List Item := c.frontItems ++ (data ++ [c.mapItem])

structure Laid (c : Container) (data : List Item) : Prop where
  lays : (DataSection.empty c.parts.ids.data).Lays data ((placeItems c).run (.empty c.parts.ids.data)).2
  kinds : data.map (·.kind) = ItemKind.ofData.flatMap fun kind => List.replicate (c.itemCount kind) kind
  formed : ∀ i ∈ c.fileItems data, Formed c c.parts.placement.typeLists (c.fileItems data) i.kind i.bytes
  located : Located c (c.fileItems data) c.parts.placement

lemma exists_laid (h : ∀ m ∈ c.methods, ∀ code ∈ m.code, ∀ info ∈ code.debugInfo, info ≠ []) :
    ∃ data, c.Laid data := by
  obtain ⟨data, hlays, hdata⟩ := emits_items c.parts.placement.typeLists h (.empty c.parts.ids.data)
  have hsub : data ⊆ c.fileItems data :=
    fun i hi => List.mem_append_right _ (List.mem_append_left _ hi)
  obtain ⟨hforms, hlocated⟩ := hdata (c.fileItems data) hsub
  have hl : Located c (c.fileItems data) c.parts.placement := hlocated c.parts.placement.map
  have hkinds := hforms.kinds
  rw [List.map_map] at hkinds
  refine ⟨data, hlays, hkinds, ?_, hl⟩
  refine List.forall_mem_append.mpr ⟨formed_front hl, List.forall_mem_append.mpr ⟨?_, ?_⟩⟩
  · exact fun i hi => hforms.formed i.content (List.mem_map_of_mem hi)
  · exact fun i hi => List.mem_singleton.mp hi ▸ .mapList _

namespace Laid

variable {data : List Item}

lemma lays_map (h : c.Laid data) :
    (DataSection.empty c.parts.ids.data).Lays (data ++ [c.mapItem]) c.dataSection :=
  h.lays.append (.cons rfl (.nil _))

lemma kinds_all (h : c.Laid data) : (c.fileItems data).map (·.kind) =
    (ItemKind.ofFront ++ ItemKind.ofBack).flatMap fun kind => List.replicate (c.itemCount kind) kind := by
  rw [fileItems, List.map_append, List.map_append, kinds_front, h.kinds, List.flatMap_append, ItemKind.ofBack,
    List.flatMap_append]
  rfl

lemma mapped (h : c.Laid data) (hlen : c.file.length < UInt32.size) :
    Mapped 0 c.file.length c.mapRuns (c.fileItems data) c.file := by
  have hdata := toNat_data hlen
  have hfile := length_file c
  have hsize : c.dataSection.bytes.toList.length = c.dataSection.bytes.size := Array.length_toList
  have hbase : (DataSection.empty c.parts.ids.data).base = c.parts.ids.data := rfl
  obtain ⟨bytes, hbytes, htiles⟩ := h.lays_map.tiles (by rw [hbase]; omega)
    fun i hi => (h.formed i (List.mem_append_right _ hi)).alignment_le
  obtain ⟨⟨parts, hparts, hflat⟩, -⟩ := h.lays_map.tells (DataSection.tells_empty _)
  have hback : Mapped c.parts.ids.data.toNat c.file.length c.dataSection.runs.reverse (data ++ [c.mapItem])
      c.dataSection.bytes.toList :=
    ⟨⟨parts.reverse, List.rel_reverse hparts, hflat⟩, hbytes ▸ htiles, by omega⟩
  have hall := (mapped_front hlen).append hback
  rwa [List.append_assoc, ← file_eq] at hall

end Laid

end Container

end DexUnseal.Dex
