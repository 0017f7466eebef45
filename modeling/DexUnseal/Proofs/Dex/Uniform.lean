import DexUnseal.Proofs.Dex.FileHeader
import DexUnseal.Proofs.Dex.MapDescription
import Mathlib.Algebra.Order.Ring.Nat
import Mathlib.Data.List.Perm.Subperm

/-! Containers of one text. In a file that such a container is read from, one item may be enough for all of its strings,
while each of them gets an item of its own when it is written. -/

namespace DexUnseal.Dex

def ClassDef.bare (descriptor : String) : ClassDef where
  classIdx := 0
  descriptor
  flags := ⟨1⟩
  superclassIdx := 0xffffffff
  interfaces := []
  sourceFileIdx := 0xffffffff
  annotations := .empty
  staticValues := []
  staticFields := []
  instanceFields := []
  directMethods := []
  virtualMethods := []

namespace DataSection

variable {d e : DataSection} {items : List Item}

lemma Lays.size_eq (h : d.Lays items e) (ha : ∀ i ∈ items, i.kind.alignment = 1) :
    e.bytes.size = d.bytes.size + (items.map (·.bytes.length)).sum := by
  induction h with
  | nil d => rfl
  | @cons d e i items _ _ ih =>
    obtain ⟨hi, hitems⟩ := List.forall_mem_cons.mp ha
    have hbytes := congrArg List.length (bytes_run_place i.kind i.bytes d)
    rw [hi, padding_one, List.replicate_zero, List.nil_append, List.length_append, Array.length_toList,
      Array.length_toList] at hbytes
    rw [ih hitems, hbytes, List.map_cons, List.sum_cons, Nat.add_assoc]

end DataSection

namespace Container

structure Uniform (c : Container) (text : String) : Prop where
  strings : ∀ s ∈ c.pools.strings, s = .decoded text
  protos : c.pools.protos = []
  callSites : c.pools.callSites = []
  classes : ∀ d ∈ c.classes, d = .bare text

variable {c : Container} {text : String} {data : List Item}

namespace Uniform

lemma ordered (h : c.Uniform text) : c.Ordered := by
  intro d hd
  rw [h.classes d hd]
  simp [ClassDef.Ordered, ClassDef.memberIndices, ClassDef.bare]

lemma methods (h : c.Uniform text) : c.methods = [] := by
  refine List.flatMap_eq_nil_iff.mpr fun d hd => ?_
  rw [h.classes d hd]
  rfl

lemma directories (h : c.Uniform text) : c.directories = [] := by
  refine List.filter_eq_nil_iff.mpr (List.forall_mem_map.mpr fun d hd => ?_)
  rw [h.classes d hd]
  exact Bool.false_ne_true

lemma typeLists (h : c.Uniform text) : ∀ types ∈ c.typeLists, types = [] := by
  rw [Container.typeLists, h.protos, List.map_nil, List.nil_append]
  exact List.forall_mem_map.mpr fun d hd => by rw [h.classes d hd, ClassDef.bare]

lemma itemCount (h : c.Uniform text) : ∀ kind ∈ ItemKind.ofData.tail, c.itemCount kind = 0 := by
  have hvalues : c.classes.countP (! ·.staticValues.isEmpty) = 0 :=
    List.countP_eq_zero.mpr fun d hd => by rw [h.classes d hd]; exact Bool.false_ne_true
  have hdata : c.classes.countP (·.hasData) = 0 :=
    List.countP_eq_zero.mpr fun d hd => by rw [h.classes d hd]; exact Bool.false_ne_true
  have hlists : c.typeLists.filter (· ≠ []) = [] :=
    List.filter_eq_nil_iff.mpr fun types ht => by simp [h.typeLists types ht]
  simp only [ItemKind.ofData, List.tail_cons, List.forall_mem_cons, Container.itemCount, hlists, h.callSites, h.methods,
    h.directories, hvalues, hdata]
  simp

lemma kinds (h : c.Uniform text) (hl : c.Laid data) :
    data.map (·.kind) = List.replicate c.pools.strings.length .stringData := by
  have hrest : ItemKind.ofData.tail.flatMap (fun kind => List.replicate (c.itemCount kind) kind) = [] :=
    List.flatMap_eq_nil_iff.mpr fun kind hk => by rw [h.itemCount kind hk, List.replicate_zero]
  have hall : ItemKind.ofData = .stringData :: ItemKind.ofData.tail := rfl
  rw [hl.kinds, hall, List.flatMap_cons, hrest, List.append_nil]
  rfl

lemma mem_laid (h : c.Uniform text) (hl : c.Laid data) {i : Item} (hi : i ∈ data) :
    i.kind = .stringData ∧ i.bytes = (StringData.decoded text).encode := by
  have hkind : i.kind = .stringData := by
    have hm : i.kind ∈ data.map (·.kind) := List.mem_map_of_mem hi
    rw [h.kinds hl] at hm
    exact List.eq_of_mem_replicate hm
  have hformed := hl.formed i (List.mem_append_right _ (List.mem_append_left _ hi))
  rw [hkind] at hformed
  generalize i.bytes = bytes at hformed ⊢
  cases hformed with
  | stringData hs => exact ⟨hkind, by rw [h.strings _ hs]⟩

lemma size_items (h : c.Uniform text) : ∃ padding ≤ 3,
    c.items.bytes.size = c.pools.strings.length * (StringData.decoded text).encode.length + padding := by
  obtain ⟨data, hl⟩ := exists_laid (c := c) (by simp [h.methods])
  refine ⟨_, DataSection.padding_four_le ((Placing.placeItems c).run (.empty c.parts.ids.data)).2.position, ?_⟩
  have hsize := hl.lays.size_eq fun i hi => by rw [(h.mem_laid hl hi).1]; rfl
  have hbytes : data.map (·.bytes.length) =
      List.replicate c.pools.strings.length (StringData.decoded text).encode.length := by
    refine List.eq_replicate_iff.mpr ⟨?_, List.forall_mem_map.mpr fun i hi => by rw [(h.mem_laid hl hi).2]⟩
    rw [List.length_map, ← List.length_map (·.kind), h.kinds hl, List.length_replicate]
  rw [hbytes, List.sum_replicate_nat] at hsize
  have hempty : (DataSection.empty c.parts.ids.data).bytes.size = 0 := rfl
  rw [hempty, Nat.zero_add] at hsize
  rw [items, ← Array.length_toList, DataSection.align, ← hsize]
  simp
  rfl

lemma length_runs_le (h : c.Uniform text) : c.dataSection.runs.length ≤ 2 := by
  obtain ⟨data, hl⟩ := exists_laid (c := c) (by simp [h.methods])
  obtain ⟨hranked, -⟩ := hl.ranked_data
  have hnodup : (c.dataSection.runs.reverse.map (·.kind)).Nodup :=
    List.nodup_iff_pairwise_ne.mpr (hranked.imp fun hlt he => Nat.ne_of_lt hlt (congrArg ItemKind.rank he))
  have hkinds : ∀ kind ∈ c.dataSection.runs.reverse.map (·.kind), kind ∈ [ItemKind.stringData, .mapList] := by
    refine List.forall_mem_map.mpr fun run hr => ?_
    obtain ⟨⟨parts, hparts, hflat⟩, -⟩ := hl.tells
    obtain ⟨i, hi, he, -⟩ := exists_item hparts (List.mem_reverse.mp hr)
    rw [← (List.reverse_perm parts).flatten.mem_iff, hflat, List.mem_append, List.mem_singleton] at hi
    rw [← he]
    rcases hi with hi | rfl
    · rw [(h.mem_laid hl hi).1]
      exact List.mem_cons_self
    · exact List.mem_cons_of_mem _ List.mem_cons_self
  have hlength := (List.subperm_of_subset hnodup hkinds).length_le
  rwa [List.length_map, List.length_reverse] at hlength

lemma length_file (h : c.Uniform text) : ∃ padding ≤ 3, ∃ runs ≤ 2, c.file.length =
    Header.size + IdSections.size c.pools c.classes.length +
      (c.pools.strings.length * (StringData.decoded text).encode.length + padding +
        (4 + 12 * ((Placing.idRuns c.pools c.classes.length c.parts.ids).length + runs))) := by
  obtain ⟨padding, hpadding, hitems⟩ := h.size_items
  refine ⟨padding, hpadding, _, h.length_runs_le, ?_⟩
  rw [Container.length_file, size_dataSection, hitems]
  rfl

end Uniform

/-- The offsets in a file where all strings share one item. -/
def compactPlacement (c : Container) (text : String) : Placement where
  strings := List.replicate c.pools.strings.length (IdSections.ofPools c.pools c.classes.length).data
  typeLists _ := 0
  callSites := []
  classes := List.replicate c.classes.length ⟨0, 0, 0, 0⟩
  map := (IdSections.ofPools c.pools c.classes.length).data + UInt32.ofNat (StringData.decoded text).encode.length

def compactMap (c : Container) (text : String) : Bytes :=
  Placing.encodeMap (Placing.idRuns c.pools c.classes.length (.ofPools c.pools c.classes.length) ++
    [⟨.stringData, 1, (IdSections.ofPools c.pools c.classes.length).data⟩,
      ⟨.mapList, 1, (c.compactPlacement text).map⟩])

def compactFile (c : Container) (text : String) : Bytes :=
  c.assemble
    { ids := .ofPools c.pools c.classes.length
      placement := c.compactPlacement text
      idBytes := c.encodeIds (c.compactPlacement text)
      dataBytes := ((StringData.decoded text).encode ++ c.compactMap text).toArray }

def compactHeader (c : Container) (text : String) : Header :=
  c.header (.ofPools c.pools c.classes.length) (c.compactPlacement text).map
    (c.encodeIds (c.compactPlacement text) ++ ((StringData.decoded text).encode ++ c.compactMap text))
    ((StringData.decoded text).encode ++ c.compactMap text).length

lemma compactFile_eq (c : Container) (text : String) : c.compactFile text = (c.compactHeader text).encode ++
    (c.encodeIds (c.compactPlacement text) ++ ((StringData.decoded text).encode ++ c.compactMap text)) := rfl

namespace Uniform

lemma length_compactFront (h : c.Uniform text) : ((c.compactHeader text).encode ++
    c.encodeIds (c.compactPlacement text)).length = Header.size + IdSections.size c.pools c.classes.length := by
  rw [List.length_append, Header.length_encode, length_encodeIds List.length_replicate (by rw [h.callSites]; rfl)
    List.length_replicate]

lemma length_compactFile (h : c.Uniform text) : (c.compactFile text).length =
    Header.size + IdSections.size c.pools c.classes.length +
      ((StringData.decoded text).encode.length + (c.compactMap text).length) := by
  rw [compactFile_eq, ← List.append_assoc, List.length_append, h.length_compactFront, List.length_append]

lemma length_compactFile_le (h : c.Uniform text) : (c.compactFile text).length ≤
    Header.size + IdSections.size c.pools c.classes.length + ((StringData.decoded text).encode.length + 136) := by
  have hruns := (sublist_idRuns c.pools c.classes.length (.ofPools c.pools c.classes.length)).length_le
  have hfront : ItemKind.ofFront.length = 9 := rfl
  rw [List.length_map, hfront] at hruns
  rw [h.length_compactFile, compactMap, length_encodeMap, List.length_append, List.length_cons, List.length_singleton]
  omega

lemma idSize_lt (h : c.Uniform text) (hlen : (c.compactFile text).length < UInt32.size) :
    Header.size + IdSections.size c.pools c.classes.length < UInt32.size := by
  rw [h.length_compactFile] at hlen
  omega

lemma inPlace (h : c.Uniform text) (hlen : (c.compactFile text).length < UInt32.size) :
    (IdSections.ofPools c.pools c.classes.length).InPlace c.pools c.classes.length :=
  IdSections.inPlace_ofPools (h.idSize_lt hlen)

lemma standsAt_item (h : c.Uniform text) (hlen : (c.compactFile text).length < UInt32.size) :
    StandsAt (c.compactFile text) (IdSections.ofPools c.pools c.classes.length).data.toNat
      ((StringData.decoded text).encode ++ c.compactMap text) := by
  have hs := standsAt_append ((c.compactHeader text).encode ++ c.encodeIds (c.compactPlacement text))
    ((StringData.decoded text).encode ++ c.compactMap text) []
  rwa [h.length_compactFront, ← (h.inPlace hlen).toNat_data, List.append_nil, List.append_assoc, ← compactFile_eq] at hs

lemma mapAt (h : c.Uniform text) (hlen : (c.compactFile text).length < UInt32.size) :
    Placing.MapAt (c.compactFile text)
      (Placing.idRuns c.pools c.classes.length (.ofPools c.pools c.classes.length)) (c.compactPlacement text).map := by
  have hdata := (h.inPlace hlen).toNat_data
  have hmap : (c.compactPlacement text).map.toNat =
      (IdSections.ofPools c.pools c.classes.length).data.toNat + (StringData.decoded text).encode.length := by
    have hlength := h.length_compactFile
    exact toNat_add_ofNat (by omega)
  refine ⟨fun hz => ?_, _, _, (h.standsAt_item hlen).next rfl hmap, .refl _, by simp [ItemKind.MapOnly]⟩
  rw [hz, hdata, Header.size, UInt32.toNat_zero] at hmap
  omega

lemma classAt {file : Bytes} {d : ClassDef} (h : c.Uniform text) (hd : d ∈ c.classes) :
    Placing.ClassAt file d ⟨0, 0, 0, 0⟩ := by
  rw [h.classes d hd]
  exact ⟨rfl, ⟨none, .none, none, .none, none, .none, rfl⟩, ⟨[], .nil, rfl⟩, rfl⟩

lemma itemsAt (h : c.Uniform text) (hlen : (c.compactFile text).length < UInt32.size) : Placing.ItemsAt
    (c.compactFile text) c (.ofPools c.pools c.classes.length) (c.compactPlacement text) where
  strings := by
    refine List.forall₂_iff_zip.mpr ⟨List.length_replicate.symm, fun {s o} hm => ?_⟩
    obtain ⟨hs, ho⟩ := List.of_mem_zip hm
    rw [h.strings s hs, List.eq_of_mem_replicate ho]
    exact (h.standsAt_item hlen).left
  typeLists proto hp := by
    rw [h.protos] at hp
    cases hp
  callSites := by
    rw [h.callSites]
    exact .nil
  classes := by
    refine List.forall₂_iff_zip.mpr ⟨List.length_replicate.symm, fun {d o} hm => ?_⟩
    obtain ⟨hd, ho⟩ := List.of_mem_zip hm
    rw [List.eq_of_mem_replicate ho]
    exact h.classAt hd
  map := h.mapAt hlen

/-- What is read from such a file are the strings, each for itself. -/
theorem decode_compactFile (h : c.Uniform text) (hw : c.WellFormed)
    (hlen : (c.compactFile text).length < UInt32.size) : decode (c.compactFile text) = .ok c :=
  decode_of_correct hw (h.idSize_lt hlen) (List.prefix_append _ _)
    (sectionsAt (h.inPlace hlen) (Header.length_encode _) List.length_replicate (by rw [h.callSites]; rfl)
      List.length_replicate)
    ((h.itemsAt hlen).correct hw h.ordered.sorted hlen) hlen

end Uniform

end Container

end DexUnseal.Dex
