import DexUnseal.Proofs.Dex.Laying
import DexUnseal.Proofs.Dex.RoundTrip

/-! The header of a file is true of the bytes that follow it: its digests cover them, and the sections that it lists,
with the two that only the map lists, take up the file as far as the data section. -/

namespace DexUnseal.Dex

/-- Sections of a file with their items, from one place to another without a gap. Empty ones are nowhere. -/
inductive Abut (file : Bytes) : (place : Nat) → List (Section × List Bytes) → (stop : Nat) → Prop
  | nil (place : Nat) : Abut file place [] place
  | empty {place stop : Nat} {rest : List (Section × List Bytes)} (tail : Abut file place rest stop) :
      Abut file place ((⟨0, 0⟩, []) :: rest) stop
  | filled {place stop : Nat} {s : Section} {items : List Bytes} {rest : List (Section × List Bytes)}
      (ne : items ≠ []) (size : s.size.toNat = items.length) (offset : s.offset.toNat = place)
      (stands : StandsAt file place items.flatten) (tail : Abut file (place + items.flatten.length) rest stop) :
      Abut file place ((s, items) :: rest) stop

variable {file : Bytes} {place stop : Nat} {sections : List (Section × List Bytes)}

lemma Abut.offset_eq_zero_iff (h : Abut file place sections stop) (hp : 0 < place) :
    ∀ s ∈ sections, s.1.offset = 0 ↔ s.1.size = 0 := by
  induction h with
  | nil => simp
  | empty _ ih => exact List.forall_mem_cons.mpr ⟨Iff.rfl, ih hp⟩
  | filled ne size offset _ _ ih =>
    refine List.forall_mem_cons.mpr ⟨?_, ih (Nat.add_pos_left hp _)⟩
    have hlen := List.length_pos_iff.mpr ne
    rw [← UInt32.toNat_inj, ← UInt32.toNat_inj, size, offset]
    exact iff_of_false (Nat.ne_of_gt hp) (Nat.ne_of_gt hlen)

lemma Abut.section {xs : List α} {item : α → Bytes} {start : UInt32} {count size next : Nat}
    (hcount : xs.length = count) (hlt : count < UInt32.size) (hs : StandsAt file start.toNat (xs.flatMap item))
    (hnext : next = start.toNat + count * size) (hitem : ∀ x, (item x).length = size)
    (tail : Abut file next sections stop) :
    Abut file start.toNat ((.ofCount count start, xs.map item) :: sections) stop := by
  subst hcount hnext
  cases xs with
  | nil =>
    rw [List.length_nil, Nat.zero_mul] at tail
    exact .empty tail
  | cons x xs =>
    have hbytes : ((x :: xs).map item).flatten.length = (x :: xs).length * size := by
      simp [List.length_flatten, Function.comp_def, hitem, Nat.add_mul, Nat.add_comm]
    refine .filled (List.cons_ne_nil _ _) ?_ rfl ?_ ?_
    · rw [Section.ofCount, UInt32.toNat_ofNat_of_lt' hlt, List.length_map]
    · rwa [← List.flatMap_def]
    · rwa [hbytes]

def Section.mapEntries (s : Section) (kind : ItemKind) : List MapItem :=
  if s.size = 0 then [] else [⟨kind, s.size, s.offset⟩]

lemma perm_idRun {kind : ItemKind} {count : Nat} {offset : UInt32} {runs : List MapItem}
    (h : runs.Perm (Placing.idRun kind count offset)) : runs = Placing.idRun kind count offset := by
  rw [Placing.idRun] at h ⊢
  split at h
  · rw [if_pos ‹_›]
    exact List.perm_nil.mp h
  · rw [if_neg ‹_›]
    exact List.perm_singleton.mp h

lemma Section.mapEntries_ofCount {count : Nat} (h : count < UInt32.size) (kind : ItemKind) (offset : UInt32) :
    (ofCount count offset).mapEntries kind = Placing.idRun kind count offset := by
  have hz : UInt32.ofNat count = 0 ↔ count = 0 := by
    rw [← UInt32.toNat_inj, UInt32.toNat_ofNat_of_lt' h]
    rfl
  simp only [mapEntries, ofCount, Placing.idRun, hz]
  split <;> rfl

def Header.idSections (h : Header) (callSites handles : Section) : List Section :=
  [h.strings, h.types, h.protos, h.fields, h.methods, h.classes, callSites, handles]

namespace Container

def idItems (c : Container) (p : Placement) : List (List Bytes) :=
  [p.strings.map Bytes.word32, c.pools.types.map Bytes.word32,
    c.pools.protos.map fun proto => proto.encode (p.typeLists proto.parameters), c.pools.fields.map FieldId.encode,
    c.pools.methods.map MethodId.encode, (c.classes.zip p.classes).map fun (d, offsets) => d.encode offsets,
    p.callSites.map Bytes.word32, c.pools.handles.map MethodHandle.encode]

def idCounts (c : Container) : List Nat :=
  [c.pools.strings.length, c.pools.types.length, c.pools.protos.length, c.pools.fields.length,
    c.pools.methods.length, c.classes.length, c.pools.callSites.length, c.pools.handles.length]

end Container

/-- What a header, with the sections that are listed in the map alone, tells of the file that it starts. -/
structure Header.TrueOf (h : Header) (callSites handles : Section) (c : Container) (file : Bytes) : Prop where
  written : StandsAt file 0 h.encode
  magic : StandsAt file 0 c.magic.val
  checksum : StandsAt file 8 (Bytes.word32 (Digest.Adler32.checksum (file.drop 12)))
  signature : StandsAt file 12 (Digest.Sha1.digest (file.drop 32)).val
  fileSize : h.fileSize.toNat = file.length
  headerSize : h.headerSize = 0x70
  endianTag : h.endianTag = 0x12345678
  dataStop : h.data.offset.toNat + h.data.size.toNat = file.length
  dataAligned : 4 ∣ h.data.offset.toNat ∧ 4 ∣ h.data.size.toNat
  counts : (h.idSections callSites handles).map (·.size.toNat) = c.idCounts
  absent : ∀ s ∈ h.idSections callSites handles, s.offset = 0 ↔ s.size = 0
  abut : ∃ p, Abut file 0x70 ((h.idSections callSites handles).zip (c.idItems p)) h.data.offset.toNat
  map : h.mapOffset ≠ 0 ∧ ∃ runs, StandsAt file h.mapOffset.toNat (Placing.encodeMap runs) ∧
    runs.filter (·.kind = .callSiteId) = callSites.mapEntries .callSiteId ∧
    runs.filter (·.kind = .methodHandle) = handles.mapEntries .methodHandle

namespace Container

variable {c : Container}

-- Not by `rfl`, which would compare the headers with and without digests and so evaluate a digest.
lemma signature_header (c : Container) (ids : IdSections) (map : UInt32) (body : Bytes) (dataSize : Nat) :
    (c.header ids map body dataSize).signature =
      Digest.Sha1.digest ((c.header ids map body dataSize).encodeSigned ++ body) := by
  simp only [header, Header.encodeSigned]

lemma checksum_header (c : Container) (ids : IdSections) (map : UInt32) (body : Bytes) (dataSize : Nat) :
    (c.header ids map body dataSize).checksum = Digest.Adler32.checksum
      ((c.header ids map body dataSize).signature.val ++ ((c.header ids map body dataSize).encodeSigned ++ body)) := by
  simp only [header, Header.encodeSigned]

def body (c : Container) : Bytes := c.parts.idBytes ++ c.parts.dataBytes.toList

lemma file_eq_append (c : Container) : c.file = c.fileHeader.magic.val ++ (Bytes.word32 c.fileHeader.checksum ++
    (c.fileHeader.signature.val ++ (c.fileHeader.encodeSigned ++ c.body))) := by
  have hf : c.file = c.fileHeader.encode ++ c.body := rfl
  simp only [hf, Header.encode, List.append_assoc]

lemma signature_fileHeader (c : Container) : c.fileHeader.signature = Digest.Sha1.digest (c.file.drop 32) := by
  have hl :
      (c.fileHeader.magic.val ++ Bytes.word32 c.fileHeader.checksum ++ c.fileHeader.signature.val).length = 32 := by
    simp [c.fileHeader.magic.property, c.fileHeader.signature.property]
  have hdrop : c.file.drop 32 = c.fileHeader.encodeSigned ++ c.body := by
    rw [file_eq_append, ← List.append_assoc, ← List.append_assoc, List.drop_left' hl]
  rw [hdrop]
  exact signature_header _ _ _ _ _

lemma checksum_fileHeader (c : Container) : c.fileHeader.checksum = Digest.Adler32.checksum (c.file.drop 12) := by
  have hl : (c.fileHeader.magic.val ++ Bytes.word32 c.fileHeader.checksum).length = 12 := by
    simp [c.fileHeader.magic.property]
  have hdrop : c.file.drop 12 = c.fileHeader.signature.val ++ (c.fileHeader.encodeSigned ++ c.body) := by
    rw [file_eq_append, ← List.append_assoc, List.drop_left' hl]
  rw [hdrop]
  exact checksum_header _ _ _ _ _

lemma standsAt_checksum (c : Container) :
    StandsAt c.file 8 (Bytes.word32 (Digest.Adler32.checksum (c.file.drop 12))) := by
  have hs := standsAt_append c.fileHeader.magic.val (Bytes.word32 c.fileHeader.checksum)
    (c.fileHeader.signature.val ++ (c.fileHeader.encodeSigned ++ c.body))
  rwa [c.fileHeader.magic.property, ← file_eq_append, checksum_fileHeader] at hs

lemma standsAt_signature (c : Container) : StandsAt c.file 12 (Digest.Sha1.digest (c.file.drop 32)).val := by
  have hs := standsAt_append (c.fileHeader.magic.val ++ Bytes.word32 c.fileHeader.checksum) c.fileHeader.signature.val
    (c.fileHeader.encodeSigned ++ c.body)
  rwa [List.length_append, c.fileHeader.magic.property, List.append_assoc, ← file_eq_append,
    signature_fileHeader] at hs

lemma dvd_data (hlen : c.file.length < UInt32.size) : 4 ∣ c.parts.ids.data.toNat := by
  rw [toNat_data hlen, Header.size, IdSections.size]
  omega

lemma dvd_dataSection (hlen : c.file.length < UInt32.size) : 4 ∣ c.dataSection.bytes.size := by
  have hfour : ItemKind.mapList.alignment.toNat = 4 := rfl
  have hdata := toNat_data hlen
  have hwords := dvd_data hlen
  have hsize := size_dataSection c
  rw [length_file, hsize] at hlen
  set d := ((Placing.placeItems c).run (.empty c.parts.ids.data)).2
  have hbase : d.base = c.parts.ids.data := (Placing.grows_items c (plain_empty _)).base
  have hitems : c.items.bytes.size = d.bytes.size + DataSection.padding ItemKind.mapList.alignment d.position := by
    rw [← Array.length_toList]
    simp [items, DataSection.align, d]
  have hposition : d.position.toNat = c.parts.ids.data.toNat + d.bytes.size := by
    rw [DataSection.position, hbase]
    exact toNat_add_ofNat (by omega)
  -- The map is the last item, so what follows its alignment is made of words.
  have haligned := (@DataSection.padding_spec .mapList d.position (by omega)).2
  rw [hfour, hposition, Nat.add_assoc, ← hitems, Nat.dvd_add_right hwords] at haligned
  rw [hsize]
  omega

lemma toNat_fileSize (hlen : c.file.length < UInt32.size) : c.fileHeader.fileSize.toNat = c.file.length := by
  have hf : c.fileHeader.fileSize = UInt32.ofNat (c.fileHeader.encode ++ c.body).length := by
    rw [List.length_append, Header.length_encode]
    rfl
  rw [hf]
  exact UInt32.toNat_ofNat_of_lt' hlen

lemma toNat_dataSize (hlen : c.file.length < UInt32.size) :
    c.fileHeader.data.size.toNat = c.dataSection.bytes.size := by
  rw [length_file] at hlen
  exact UInt32.toNat_ofNat_of_lt' (Nat.lt_of_le_of_lt (Nat.le_add_left _ _) hlen)

def callSiteSection (c : Container) : Section := .ofCount c.pools.callSites.length c.parts.ids.callSites

def handleSection (c : Container) : Section := .ofCount c.pools.handles.length c.parts.ids.handles

lemma abut_file (hlen : c.file.length < UInt32.size) :
    Abut c.file 0x70 ((c.fileHeader.idSections c.callSiteSection c.handleSection).zip (c.idItems c.parts.placement))
      c.parts.ids.data.toNat := by
  obtain ⟨hs, hc, hd⟩ := Placing.returns_all c c.parts.ids (.empty c.parts.ids.data)
  have hstands := sections hlen
  obtain ⟨istrings, itypes, iprotos, ifields, imethods, iclasses, isites, ihandles, idata⟩ := inPlace hlen
  obtain ⟨nstrings, ntypes, nprotos, nfields, nmethods, nclasses, nsites, nhandles⟩ := count_lt (idSize_lt hlen)
  have hzip : (c.classes.zip c.parts.placement.classes).length = c.classes.length := by
    rw [List.length_zip]
    exact Nat.min_eq_left (Nat.le_of_eq hd.symm)
  -- From the last section to the first, each before those that follow it.
  have hhandles := Abut.section rfl nhandles hstands.handles idata (fun _ => rfl) (.nil _)
  have hsites := Abut.section hc nsites hstands.callSites ihandles (fun _ => rfl) hhandles
  have hclasses := Abut.section hzip nclasses hstands.classes isites (fun _ => rfl) hsites
  have hmethods := Abut.section rfl nmethods hstands.methods iclasses (fun _ => rfl) hclasses
  have hfields := Abut.section rfl nfields hstands.fields imethods (fun _ => rfl) hmethods
  have hprotos := Abut.section rfl nprotos hstands.protos ifields (fun _ => rfl) hfields
  have htypes := Abut.section rfl ntypes hstands.types iprotos (fun _ => rfl) hprotos
  have hstrings := Abut.section hs nstrings hstands.strings itypes (fun _ => rfl) htypes
  rwa [istrings] at hstrings

lemma idCounts_file (hlen : c.file.length < UInt32.size) :
    (c.fileHeader.idSections c.callSiteSection c.handleSection).map (·.size.toNat) = c.idCounts := by
  obtain ⟨nstrings, ntypes, nprotos, nfields, nmethods, nclasses, nsites, nhandles⟩ := count_lt (idSize_lt hlen)
  have hcount : ∀ {count : Nat} {offset : UInt32}, count < UInt32.size →
      (Section.ofCount count offset).size.toNat = count := fun h => UInt32.toNat_ofNat_of_lt' h
  simp [Header.idSections, idCounts, fileHeader, header, callSiteSection, handleSection, *]

lemma map_file (hlen : c.file.length < UInt32.size) : c.fileHeader.mapOffset ≠ 0 ∧
    ∃ runs, StandsAt c.file c.fileHeader.mapOffset.toNat (Placing.encodeMap runs) ∧
      runs.filter (·.kind = .callSiteId) = c.callSiteSection.mapEntries .callSiteId ∧
      runs.filter (·.kind = .methodHandle) = c.handleSection.mapEntries .methodHandle := by
  obtain ⟨-, -, -, -, -, -, nsites, nhandles⟩ := count_lt (idSize_lt hlen)
  obtain ⟨hz, runs, dataRuns, hs, hp, hd⟩ := (itemsAt hlen).map
  have hsites := hp.filter (·.kind = .callSiteId)
  have hhandles := hp.filter (·.kind = .methodHandle)
  rw [Pools.filter_callSites _ _ _ hd] at hsites
  rw [Pools.filter_handles _ _ _ hd] at hhandles
  refine ⟨hz, runs, hs, ?_, ?_⟩
  · rw [callSiteSection, Section.mapEntries_ofCount nsites]
    exact perm_idRun hsites
  · rw [handleSection, Section.mapEntries_ofCount nhandles]
    exact perm_idRun hhandles

lemma trueOf_fileHeader (hlen : c.file.length < UInt32.size) :
    c.fileHeader.TrueOf c.callSiteSection c.handleSection c c.file := by
  have habut := abut_file hlen
  have hzip : ((c.fileHeader.idSections c.callSiteSection c.handleSection).zip (c.idItems c.parts.placement)).map
      (·.1) = c.fileHeader.idSections c.callSiteSection c.handleSection := List.map_fst_zip (Nat.le_refl 8)
  refine ⟨standsAt_fileHeader c, ?_, standsAt_checksum c, standsAt_signature c, toNat_fileSize hlen, rfl, rfl, ?_, ?_,
    idCounts_file hlen, ?_, ⟨_, habut⟩, map_file hlen⟩
  · rw [file_eq_append]
    exact List.prefix_append _ _
  · rw [toNat_dataSize hlen, length_file, ← toNat_data hlen]
    rfl
  · rw [toNat_dataSize hlen]
    exact ⟨dvd_data hlen, dvd_dataSection hlen⟩
  · rw [← hzip]
    exact List.forall_mem_map.mpr (habut.offset_eq_zero_iff (by decide))

end Container

end DexUnseal.Dex
