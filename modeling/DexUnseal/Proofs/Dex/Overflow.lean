import DexUnseal.Proofs.Dex.Uniform
import DexUnseal.Proofs.Text.Utf8

/-! Files that are too long for words. Of all places only the end of the id sections is checked before a file is
written, so the offsets into the data section of a longer one wrap. -/

namespace DexUnseal.Dex

namespace DataSection

variable {d e : DataSection} {items : List Item} {start : Nat}

/-- Wherever an item stands, its offset is that place as a word. -/
lemma Lays.places (h : d.Lays items e) (hd : d.base = UInt32.ofNat start) : ∀ i ∈ items, ∃ place,
    StandsAt e.bytes.toList place i.bytes ∧ i.offset = UInt32.ofNat (start + place) := by
  induction h with
  | nil d => simp
  | @cons d e i items offset tail ih =>
    refine List.forall_mem_cons.mpr ⟨⟨(d.align i.kind.alignment).bytes.size, ?_, ?_⟩, ih ?_⟩
    · obtain ⟨rest, hrest⟩ := tail.grows.bytes
      have hs := standsAt_append (d.align i.kind.alignment).bytes.toList i.bytes rest
      rw [Array.length_toList] at hs
      rw [← hrest, bytes_run_place]
      simpa [align] using hs
    · rw [offset, run_place, position, base_align, hd, ← UInt32.ofNat_add]
    · rw [base_run_place, hd]

end DataSection

lemma IdSections.data_ofPools (p : Pools) (classCount : Nat) :
    (ofPools p classCount).data = UInt32.ofNat (Header.size + size p classCount) := by
  simp [ofPools, size, UInt32.ofNat_add, UInt32.ofNat_mul, UInt32.add_assoc]

namespace Container

variable {c : Container} {data : List Item}

structure Exact (c : Container) (file : Bytes) (header : Header) (ids : IdSections) (p : Placement) : Prop where
  trueOf : header.TrueOf (.ofCount c.pools.callSites.length ids.callSites) (.ofCount c.pools.handles.length ids.handles)
    c file
  map : header.mapOffset = p.map
  sections : SectionsAt file c ids p
  items : Placing.ItemsAt file c ids p
  described : (∀ m ∈ c.methods, ∀ code ∈ m.code, ∀ info ∈ code.debugInfo, info ≠ []) →
    ∃ parts runs, Described c file parts runs p.map p.typeLists

/-- A file tells where everything in it is, short of whole wraps of the words that tell it. -/
structure Wrapped (c : Container) (file : Bytes) (header : Header) : Prop where
  written : StandsAt file 0 header.encode
  fileSize : header.fileSize = UInt32.ofNat file.length
  dataOffset : header.data.offset.toNat = Header.size + IdSections.size c.pools c.classes.length
  dataSize : header.data.size = UInt32.ofNat (file.length - header.data.offset.toNat)
  items : (∀ m ∈ c.methods, ∀ code ∈ m.code, ∀ info ∈ code.debugInfo, info ≠ []) →
    ∃ data, c.Laid data ∧ ∀ i ∈ data ++ [c.mapItem], ∃ place,
      StandsAt file place i.bytes ∧ i.offset = UInt32.ofNat place

lemma exact_file (hlen : c.file.length < UInt32.size) :
    c.Exact c.file c.fileHeader c.parts.ids c.parts.placement where
  trueOf := trueOf_fileHeader hlen
  map := rfl
  sections := sections hlen
  items := itemsAt hlen
  described hd := by
    obtain ⟨data, hdata⟩ := exists_laid hd
    obtain ⟨parts, hparts⟩ := hdata.described hlen
    exact ⟨parts, _, hparts⟩

lemma Laid.places (h : c.Laid data) : ∀ i ∈ data ++ [c.mapItem], ∃ place,
    StandsAt c.file place i.bytes ∧ i.offset = UInt32.ofNat place := by
  intro i hi
  have hbase : c.parts.ids.data = UInt32.ofNat (c.fileHeader.encode ++ c.encodeIds c.parts.placement).length := by
    rw [List.length_append, Header.length_encode, length_idBytes]
    exact IdSections.data_ofPools c.pools c.classes.length
  obtain ⟨place, hs, ho⟩ := h.lays_map.places hbase i hi
  refine ⟨_, ?_, ho⟩
  have hfile := hs.behind (c.fileHeader.encode ++ c.encodeIds c.parts.placement) []
  rwa [List.append_nil, List.append_assoc, ← file_eq] at hfile

lemma wrapped_file (hids : Header.size + IdSections.size c.pools c.classes.length < UInt32.size) :
    c.Wrapped c.file c.fileHeader where
  written := standsAt_fileHeader c
  fileSize := by
    have hsize : c.fileHeader.fileSize = UInt32.ofNat (Header.size + c.body.length) := rfl
    rw [hsize, file_eq, List.length_append, Header.length_encode]
    rfl
  dataOffset := (IdSections.inPlace_ofPools hids).toNat_data
  dataSize := by
    have hoffset : c.fileHeader.data.offset.toNat = Header.size + IdSections.size c.pools c.classes.length :=
      (IdSections.inPlace_ofPools hids).toNat_data
    rw [hoffset, length_file, Nat.add_sub_cancel_left]
    rfl
  items hd := by
    obtain ⟨data, hdata⟩ := exists_laid hd
    exact ⟨data, hdata, hdata.places⟩

/-- A container that is in order is written as soon as its id sections end before 2^32, but the file tells where
everything in it is if and only if it ends before 2^32 itself. In any other file the words have wrapped. -/
theorem encode_exact_iff (c : Container) :
    ((∃ file, c.encode = .ok file) ↔ (∀ code ∈ c.codes, code.tries.length ≤ 65535) ∧ c.Ordered ∧
        Header.size + IdSections.size c.pools c.classes.length < UInt32.size) ∧
      ∀ file, c.encode = .ok file →
        ((∃ header ids p, c.Exact file header ids p) ↔ file.length < UInt32.size) ∧
        ∃ header, c.Wrapped file header := by
  simp only [encode_eq_ok_iff]
  refine ⟨⟨fun ⟨_, h, _⟩ => h, fun h => ⟨_, h, rfl⟩⟩, ?_⟩
  rintro _ ⟨⟨-, -, hids⟩, rfl⟩
  refine ⟨⟨fun ⟨header, _, _, h⟩ => ?_, fun hlen => ⟨_, _, _, exact_file hlen⟩⟩, _, wrapped_file hids⟩
  rw [← h.trueOf.fileSize]
  exact header.fileSize.toNat_lt

theorem encode_exact_iff_sample : sample.encode = .ok sample.file ∧
    (∃ header ids p, sample.Exact sample.file header ids p) ∧ ∃ header, sample.Wrapped sample.file header := by
  have hlen : sample.file.length < UInt32.size := Nat.lt_trans length_file_sample (by decide)
  have hok := encode_eq_file wellFormed_sample ordered_sample hlen
  obtain ⟨hexact, hwrapped⟩ := (encode_exact_iff sample).2 _ hok
  exact ⟨hok, hexact.mpr hlen, hwrapped⟩

def repeating (text : String) (count : Nat) : Container where
  magic := sample.magic
  pools :=
    { strings := List.replicate count (.decoded text)
      types := [], protos := [], fields := [], methods := [], handles := [], callSites := [] }
  classes := []

lemma wellFormed_repeating (text : String) (count : Nat) : (repeating text count).WellFormed where
  magic := rfl
  pools :=
    { strings := fun s hs => by
        rw [List.eq_of_mem_replicate hs]
        trivial
      types := nofun, protos := nofun, fields := nofun, methods := nofun, callSites := nofun }
  classes := nofun

lemma size_repeating (text : String) (count : Nat) :
    IdSections.size (repeating text count).pools (repeating text count).classes.length = count * 4 := by
  simp [IdSections.size, repeating]

lemma uniform_repeating (text : String) (count : Nat) : (repeating text count).Uniform text where
  strings _ hs := List.eq_of_mem_replicate hs
  protos := rfl
  callSites := rfl
  classes := nofun

lemma length_file_repeating (text : String) (count : Nat) :
    count * text.toList.length ≤ (repeating text count).file.length := by
  obtain ⟨padding, -, runs, -, hlength⟩ := (uniform_repeating text count).length_file
  have hcount : (repeating text count).pools.strings.length = count := List.length_replicate
  have htext := Text.length_le_flatMap Text.ModifiedUtf8.encodeChar_ne_nil text.toList
  have hitem : text.toList.length ≤ (StringData.decoded text).encode.length := by
    rw [StringData.encode, List.length_append, List.length_append]
    exact htext.trans ((Nat.le_add_left _ _).trans (Nat.le_add_right _ _))
  have hitems := Nat.mul_le_mul_left count hitem
  rw [hcount] at hlength
  omega

def sharedFile (text : String) (count : Nat) : Bytes := (repeating text count).compactFile text

lemma length_encode_fill_le (n : Nat) : (StringData.decoded (Text.fill n)).encode.length ≤ n + 6 := by
  have hunits := Leb128.length_encode_le (UInt32.ofNat (Text.ModifiedUtf8.unitCount (Text.fill n)))
  have hletter : (Text.ModifiedUtf8.encodeChar 'a').length = 1 := by decide
  have htext : (Text.ModifiedUtf8.encode (Text.fill n)).length = n := by
    rw [Text.ModifiedUtf8.encode, Text.toList_fill, List.length_flatMap, List.map_replicate, hletter]
    simp
  rw [Leb128.maxLength] at hunits
  rw [StringData.encode, List.length_append, List.length_append, htext, List.length_singleton]
  omega

lemma length_sharedFile_fill_le (n count : Nat) : (sharedFile (Text.fill n) count).length ≤ n + count * 4 + 254 := by
  have hitem := length_encode_fill_le n
  have hfile := (uniform_repeating (Text.fill n) count).length_compactFile_le
  rw [size_repeating, Header.size] at hfile
  rw [sharedFile]
  omega

/-- A short file that holds one long string many times is read, and what was read is written as a file that is too long
to tell where everything in it is. -/
theorem sharedFile_wraps : (sharedFile (Text.fill 0x20000) 0x8000).length < 0x80000 ∧ ∃ c file,
    decode (sharedFile (Text.fill 0x20000) 0x8000) = .ok c ∧ c.encode = .ok file ∧ UInt32.size ≤ file.length ∧
      ¬ ∃ header ids p, c.Exact file header ids p := by
  have hshort := length_sharedFile_fill_le 0x20000 0x8000
  have hlong := length_file_repeating (Text.fill 0x20000) 0x8000
  have hids := size_repeating (Text.fill 0x20000) 0x8000
  rw [Text.toList_fill, List.length_replicate] at hlong
  have hok : (repeating (Text.fill 0x20000) 0x8000).encode = .ok (repeating (Text.fill 0x20000) 0x8000).file := by
    refine encode_eq_ok_iff.mpr ⟨⟨nofun, nofun, ?_⟩, rfl⟩
    rw [hids]
    decide
  have hdecode := (uniform_repeating (Text.fill 0x20000) 0x8000).decode_compactFile (wellFormed_repeating _ _)
    (Nat.lt_of_le_of_lt hshort (by decide))
  refine ⟨Nat.lt_of_le_of_lt hshort (by decide), _, _, hdecode, hok, hlong, ?_⟩
  rintro ⟨header, ids, p, h⟩
  have hsize := h.trueOf.fileSize
  have hlt := header.fileSize.toNat_lt
  omega

end Container

end DexUnseal.Dex
