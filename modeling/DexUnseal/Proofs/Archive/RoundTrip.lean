import DexUnseal.Proofs.Archive.EntryName
import DexUnseal.Proofs.Archive.Locator
import Mathlib.Data.Finset.Max

/-! Which archives read back as they were written. -/

namespace DexUnseal.Archive

variable {f : Image} {wanted : String → Bool} {a b : Archive} {name : String} {listings : List Listing}
  {deflate : Bytes → Bytes} {bytes : Bytes} {p : Placed} {x : String × Entry} {start stop : Nat} {all : List Placed}

lemma collect_ok : collect f wanted listings a = .ok b ↔
    ∃ found, List.Forall₂ (fun l r => l.entry? f wanted = .ok r) listings found ∧
      b = a.insertAll found.reduceOption := by
  induction listings generalizing a with
  | nil => simp [collect, insertAll, Pure.pure, Except.pure, eq_comm]
  | cons l listings ih =>
    constructor
    · intro h
      obtain ⟨r, hr, h⟩ := except_bind_ok.mp h
      cases r with
      | none =>
        obtain ⟨found, hf, rfl⟩ := ih.mp h
        exact ⟨none :: found, .cons hr hf, by rw [List.reduceOption_cons_of_none]⟩
      | some x =>
        obtain ⟨found, hf, rfl⟩ := ih.mp h
        exact ⟨some x :: found, .cons hr hf, by rw [List.reduceOption_cons_of_some, insertAll_cons]⟩
    · rintro ⟨found, hf, rfl⟩
      obtain ⟨r, found, hr, hrest, rfl⟩ := List.forall₂_cons_left_iff.mp hf
      refine except_bind_ok.mpr ⟨r, hr, ?_⟩
      cases r with
      | none =>
        rw [List.reduceOption_cons_of_none]
        exact ih.mpr ⟨found, hrest, rfl⟩
      | some x =>
        rw [List.reduceOption_cons_of_some, insertAll_cons]
        exact ih.mpr ⟨found, hrest, rfl⟩

lemma mem_names_of_collect (h : collect f wanted listings empty = .ok b) :
    name ∈ b.names ↔ ∃ l ∈ listings, ∃ e, l.entry? f wanted = .ok (some (name, e)) := by
  obtain ⟨found, hfound, rfl⟩ := collect_ok.mp h
  rw [mem_names_insertAll]
  constructor
  · rintro ⟨x, hx, rfl⟩
    obtain ⟨l, hl, he⟩ := forall₂_exists_right (forall₂_swap hfound) (List.reduceOption_mem_iff.mp hx)
    exact ⟨l, hl, x.2, he⟩
  · rintro ⟨l, hl, e, he⟩
    obtain ⟨r, hr, hread⟩ := forall₂_exists_right hfound hl
    rw [he] at hread
    obtain rfl := Except.ok.inj hread
    exact ⟨(name, e), List.reduceOption_mem_iff.mpr hr, rfl⟩

lemma readEach_eq (h : Chain (fun p start stop => StandsAt bytes start p.centralRecord ∧
    stop = start + p.centralRecord.length) start all stop) (hf : ∀ p ∈ all, p.Fits) :
    Listing.readEach (.ofBytes bytes) 0 all.length start = .ok (all.map fun p => p.listing 0) := by
  induction h with
  | nil => rfl
  | @cons p all start next stop head tail ih =>
    obtain ⟨hp, hall⟩ := List.forall_mem_cons.mp hf
    have hoffset : p.offset + 0 < UInt64.size := Nat.lt_trans hp.offset (by decide)
    have hnext : next = start + Listing.headerSize + p.nameBytes.length := by
      rw [head.2, Placed.length_centralRecord, Nat.add_assoc]
    rw [List.length_cons, Listing.readEach, Placed.readAt_centralRecord head.1 hp hoffset, except_ok_bind, ← hnext]
    simp only [ih hall, except_ok_bind]
    rfl

lemma isReachable_of_lt {offset : Nat} (h : offset < UInt32.size) : isReachable offset = true := by
  rw [UInt32.size] at h
  rw [isReachable, decide_eq_true_iff, UInt64.size]
  omega

lemma Parts.listings_eq {directory : Nat} (h : Parts bytes all directory stop) (hl : bytes.length < UInt32.size)
    (hz : ¬ StandsAt bytes (bytes.length - 42) (Bytes.word32 Zip64.locatorSignature)) :
    Listing.ofImage (.ofBytes bytes) = .ok (all.map fun p => p.listing 0) := by
  obtain ⟨size, rfl, hend⟩ := h.size
  have hlast := h.last
  rw [EndRecord.size] at hlast
  have hmod : directory % UInt32.size = directory := Nat.mod_eq_of_lt (by omega)
  have hlocator : bytes.length - 42 = directory + size - Zip64.locatorSize := by
    rw [Zip64.locatorSize]
    omega
  rw [hlocator] at hz
  have hplace := DirectoryPlace.ofImage_eq hend h.last h.count (by omega) (by omega)
    (Bool.eq_false_iff.mpr fun hs => hz (Image.hasSignature_iff.mp hs))
  rw [hmod, Nat.add_sub_cancel, Nat.sub_self] at hplace
  have hreach : isReachable directory = true := isReachable_of_lt (by omega)
  simp only [Listing.ofImage, hplace, except_ok_bind, hreach, not_true_eq_false, if_false]
  exact readEach_eq h.records h.fits

lemma Parts.readable {directory : Nat} (h : Parts bytes all directory stop) (hp : p ∈ all)
    (hx : Placed.Presents deflate x p) (hd : Deflate.decode (deflate x.2.data) = .ok x.2.data) :
    ∃ offset, (p.listing 0).payloadOffset (.ofBytes bytes) = .ok offset ∧
      (p.listing 0).data (.ofBytes bytes) offset = .ok x.2.data := by
  obtain ⟨start, _, rfl, hlocal, -⟩ := h.locals.exists_of_mem hp
  have hf := h.fits p hp
  have hstands : StandsAt bytes (p.offset + 0) p.localEntry := hlocal
  obtain ⟨ho, hpayload⟩ := Placed.payloadOffset_listing hstands hf (isReachable_of_lt hf.offset)
  refine ⟨_, ho, ?_⟩
  cases hc : p.compression with
  | stored =>
    obtain ⟨hs, -⟩ := hx.stored hc
    rw [← hs]
    exact Placed.data_listing hpayload hc (hs ▸ hx.checksum)
  | deflated =>
    obtain ⟨hs, -⟩ := hx.deflated hc
    exact Placed.data_deflated hpayload hc (hs ▸ hd) hx.checksum

lemma Parts.entry?_eq {directory : Nat} (h : Parts bytes all directory stop) (hp : p ∈ all)
    (hx : Placed.Presents deflate x p) (hd : Deflate.decode (deflate x.2.data) = .ok x.2.data)
    (ht : EntryName.Tidy (Text.CodePage437.decode (Text.Utf8.encode x.1))) :
    Listing.entry? (.ofBytes bytes) (fun _ => true) (p.listing 0) =
      .ok (some (Text.CodePage437.decode (Text.Utf8.encode x.1), ⟨x.2.data, some p.compression⟩)) := by
  obtain ⟨offset, ho, hdata⟩ := h.readable hp hx hd
  have hname : (p.listing 0).name = Text.CodePage437.decode (Text.Utf8.encode x.1) := by rw [Placed.listing, hx.name]
  rw [← hname] at ht ⊢
  refine (Listing.entry?_ok ht rfl).mpr ⟨offset, _, ho, hdata, ?_⟩
  rw [← Placed.ofCode?_code]
  rfl

lemma decode_of_plain (h : a.encodeWith deflate = .ok bytes) (hl : bytes.length < UInt32.size)
    (hd : ∀ x ∈ a.toList, Deflate.decode (deflate x.2.data) = .ok x.2.data)
    (hn : ∀ name ∈ a.names, EntryName.Plain name)
    (hz : ¬ StandsAt bytes (bytes.length - 42) (Bytes.word32 Zip64.locatorSignature)) :
    ∃ b, decode bytes = .ok b ∧ b.SameContents a := by
  have hparts := parts_of_encodeWith h hl
  have hread (x : String × Entry) (hx : x ∈ a.toList) (p : Placed) (hp : p ∈ a.placed deflate)
      (hpresents : Placed.Presents deflate x p) : ∃ y : String × Entry,
      Listing.entry? (.ofBytes bytes) (fun _ => true) (p.listing 0) = .ok (some y) ∧
        y.1 = x.1 ∧ y.2.data = x.2.data := by
    have hplain := hn x.1 (fst_mem_names hx)
    have he := hparts.entry?_eq hp hpresents (hd x hx) (hplain.seen_eq.symm ▸ hplain.toTidy)
    exact ⟨_, he, hplain.seen_eq, rfl⟩
  obtain ⟨found, hfound, hsame⟩ := exists_forall₂ (presents_place deflate 0 a.toList) hread
  refine ⟨_, ?_, sameContents_insertAll hsame⟩
  refine decodeOnly_ok.mpr ⟨_, hparts.listings_eq hl hz, collect_ok.mpr ⟨found.map some, ?_, ?_⟩⟩
  · rw [List.forall₂_map_left_iff, List.forall₂_map_right_iff]
    exact hfound
  · rw [List.reduceOption, List.filterMap_map, Function.id_comp, List.filterMap_some]

lemma mem_name_of_decode (h : decode bytes = .ok b) (hn : name ∈ b.names) :
    '\x00' ∉ name.toList ∧ '\\' ∉ name.toList := by
  obtain ⟨listings, -, hcollect⟩ := decodeOnly_ok.mp h
  obtain ⟨l, -, e, he⟩ := (mem_names_of_collect hcollect).mp hn
  obtain ⟨hzero, hpath⟩ := Listing.name_of_entry? he
  refine ⟨fun hc => ?_, fun hc => (EntryName.mem_of_ofPath hpath hc).1 rfl⟩
  rcases (EntryName.mem_of_ofPath hpath hc).2 with hslash | hmem
  · exact absurd hslash (by decide)
  · exact hzero hmem

lemma tidy_of_collect (hc : collect f wanted ((a.placed deflate).map fun p => p.listing 0) empty = .ok b)
    (hnames : ∀ name, name ∈ b.names ↔ name ∈ a.names)
    (hfree : ∀ name ∈ a.names, '\x00' ∉ name.toList ∧ '\\' ∉ name.toList) (hn : name ∈ a.names) :
    EntryName.Tidy name := by
  obtain ⟨l, hl, e, he⟩ := (mem_names_of_collect hc).mp ((hnames name).mpr hn)
  obtain ⟨p, hp, rfl⟩ := List.mem_map.mp hl
  obtain ⟨x, hx, o, rfl⟩ := exists_of_mem_place hp
  have hbackslash : '\\' ∉ (Text.CodePage437.decode (Text.Utf8.encode x.1)).toList := by
    rw [Text.CodePage437.toList_decode_encode, Text.CodePage437.mem_flatMap_seen_iff (by decide)]
    exact (hfree x.1 (fst_mem_names hx)).2
  exact ⟨EntryName.isName_of_ofPath (Listing.name_of_entry? he).2 hbackslash, (hfree name hn).2, (hfree name hn).1⟩

lemma ascii_of_seen (hseen : ∀ name ∈ a.names, Text.CodePage437.decode (Text.Utf8.encode name) ∈ a.names)
    (hn : name ∈ a.names) : ∀ c ∈ name.toList, c.toNat < 0x80 := by
  -- every other character is seen as several, so the longest name with one would be seen as a longer one
  by_contra hother
  simp only [not_forall, Nat.not_lt, exists_prop] at hother
  classical
  obtain ⟨longest, hmem, hmax⟩ := Finset.exists_max_image
    (a.names.toFinset.filter fun name => ∃ c ∈ name.toList, 0x80 ≤ c.toNat) (fun name => name.toList.length)
    ⟨name, Finset.mem_filter.mpr ⟨List.mem_toFinset.mpr hn, hother⟩⟩
  obtain ⟨hmem, hother⟩ := Finset.mem_filter.mp hmem
  obtain ⟨hlonger, hother⟩ := Text.CodePage437.flatMap_seen_other hother
  rw [← Text.CodePage437.toList_decode_encode] at hlonger hother
  have hle := hmax _ (Finset.mem_filter.mpr
    ⟨List.mem_toFinset.mpr (hseen longest (List.mem_toFinset.mp hmem)), hother⟩)
  exact absurd hlonger (Nat.not_lt.mpr hle)

lemma plain_of_decode (h : a.encodeWith deflate = .ok bytes) (hl : bytes.length < UInt32.size)
    (hd : ∀ x ∈ a.toList, Deflate.decode (deflate x.2.data) = .ok x.2.data) (hb : decode bytes = .ok b)
    (hnames : ∀ name, name ∈ b.names ↔ name ∈ a.names) :
    (∀ name ∈ a.names, EntryName.Plain name) ∧
      ¬ StandsAt bytes (bytes.length - 42) (Bytes.word32 Zip64.locatorSignature) := by
  have hfree (name : String) (hn : name ∈ a.names) := mem_name_of_decode hb ((hnames name).mpr hn)
  obtain ⟨listings, hlistings, hcollect⟩ := decodeOnly_ok.mp hb
  have hz : ¬ StandsAt bytes (bytes.length - 42) (Bytes.word32 Zip64.locatorSignature) := by
    intro hz
    obtain ⟨place, hplace, -⟩ := except_bind_ok.mp hlistings
    exact ofImage_ne_ok_of_locator h hl (fun name hn => (hfree name hn).1) hz place hplace
  have hparts := parts_of_encodeWith h hl
  rw [hparts.listings_eq hl hz] at hlistings
  obtain rfl := Except.ok.inj hlistings
  have htidy (name : String) (hn : name ∈ a.names) := tidy_of_collect hcollect hnames hfree hn
  -- a tidy name is read as it is seen, and then it has to be one of those that were written
  have hseen : ∀ name ∈ a.names, Text.CodePage437.decode (Text.Utf8.encode name) ∈ a.names := by
    intro name hn
    obtain ⟨x, hx, rfl⟩ := List.mem_map.mp (map_fst_toList a ▸ hn)
    obtain ⟨p, hp, hpresents⟩ := forall₂_exists_right (presents_place deflate 0 a.toList) hx
    have he := hparts.entry?_eq hp hpresents (hd x hx) (htidy x.1 hn).seen
    exact (hnames _).mp ((mem_names_of_collect hcollect).mpr ⟨_, List.mem_map_of_mem hp, _, he⟩)
  exact ⟨fun name hn => ⟨htidy name hn, ascii_of_seen hseen hn⟩, hz⟩

/-- An archive that was written, in less than four gigabytes, is read with the same data under the same names if and
only if all names are plain and nothing in front of the end record looks like the locator of a 64-bit one. -/
theorem load_saveWith_iff {p : Path} {files files' : FileTree}
    (hdeflate : ∀ x ∈ a.toList, Deflate.decode (deflate x.2.data) = .ok x.2.data)
    (hsave : a.saveWith deflate p files = (.ok (), files')) (hread : files'.read p = .ok bytes)
    (hl : bytes.length < UInt32.size) :
    (∃ b, load p files' = (.ok b, files') ∧ b.SameContents a) ↔
      (∀ name ∈ a.names, EntryName.Plain name) ∧ ¬ StandsAt bytes (bytes.length - 42) [0x50, 0x4b, 6, 7] := by
  obtain ⟨written, hencode, hwritten⟩ := read_of_saveWith hsave
  obtain rfl : written = bytes := Except.ok.inj (hwritten.symm.trans hread)
  constructor
  · rintro ⟨b, hload, hsame⟩
    obtain ⟨found, hfound, hdecode, -⟩ := readFile_ok.mp hload
    obtain rfl : written = found := Except.ok.inj (hread.symm.trans hfound)
    exact plain_of_decode hencode hl hdeflate hdecode fun name => hsame.mem_names_iff
  · rintro ⟨hplain, hlocator⟩
    obtain ⟨b, hdecode, hsame⟩ := decode_of_plain hencode hl hdeflate hplain hlocator
    exact ⟨b, readFile_ok.mpr ⟨written, hread, hdecode, rfl⟩, hsame⟩

def filesWith (bytes : Bytes) : FileTree := ⟨[(["out.apk"], .file bytes)]⟩

lemma saveWith_empty (h : a.encodeWith deflate = .ok bytes) :
    a.saveWith deflate ⟨"out.apk"⟩ .empty = (.ok (), filesWith bytes) :=
  saveWith_ok.mpr ⟨bytes, .empty, rfl, h, rfl⟩

lemma plain_of_mem_sample : ∀ name ∈ sample.names, EntryName.Plain name := by
  rw [← map_fst_toList, toList_sample]
  decide

lemma encode_sample : ∃ bytes, sample.encodeWith Deflate.encode = .ok bytes ∧ bytes.length < UInt32.size ∧
    ¬ StandsAt bytes (bytes.length - 42) [0x50, 0x4b, 6, 7] :=
  ⟨_, rfl, by decide +kernel, by decide +kernel⟩

theorem load_saveWith_iff_sample : ∃ files bytes,
    (∀ x ∈ sample.toList, Deflate.decode (Deflate.encode x.2.data) = .ok x.2.data) ∧
      sample.saveWith Deflate.encode ⟨"out.apk"⟩ .empty = (.ok (), files) ∧ files.read ⟨"out.apk"⟩ = .ok bytes ∧
      bytes.length < UInt32.size ∧ ∃ b, load ⟨"out.apk"⟩ files = (.ok b, files) ∧ b.SameContents sample := by
  have hdeflate : ∀ x ∈ sample.toList, Deflate.decode (Deflate.encode x.2.data) = .ok x.2.data := by
    rw [toList_sample]
    decide +kernel
  obtain ⟨bytes, hencode, hl, hlocator⟩ := encode_sample
  have hsave := saveWith_empty hencode
  have hread : (filesWith bytes).read ⟨"out.apk"⟩ = .ok bytes := rfl
  exact ⟨_, _, hdeflate, hsave, hread, hl,
    (load_saveWith_iff hdeflate hsave hread hl).mpr ⟨plain_of_mem_sample, hlocator⟩⟩

def accented : Archive := empty.insert "é.dex" ⟨[1, 2, 3], none⟩

/-- The reader takes the two bytes of the accented letter for two characters. -/
theorem load_save_accented : empty.replace "é.dex" [1, 2, 3] = .ok accented ∧ ∃ files b,
    accented.save ⟨"out.apk"⟩ .empty = (.ok (), files) ∧ load ⟨"out.apk"⟩ files = (.ok b, files) ∧
      b.names = ["├⌐.dex"] ∧ ¬ b.SameContents accented := by
  have hnames : ∃ bytes, accented.encode = .ok bytes ∧ (decode bytes).toOption.map names = some ["├⌐.dex"] :=
    ⟨_, rfl, by decide +kernel⟩
  obtain ⟨bytes, hencode, hnames⟩ := hnames
  cases hdecode : decode bytes with
  | error fault =>
    rw [hdecode] at hnames
    cases hnames
  | ok b =>
    rw [hdecode] at hnames
    have hnames : b.names = ["├⌐.dex"] := Option.some.inj hnames
    have hload := readFile_ok.mpr ⟨bytes, (rfl : (filesWith bytes).read ⟨"out.apk"⟩ = .ok bytes), hdecode, rfl⟩
    refine ⟨rfl, _, b, saveWith_empty hencode, hload, hnames, fun hsame => ?_⟩
    have hmem : "é.dex" ∈ b.names := hsame.mem_names_iff.mpr List.mem_cons_self
    rw [hnames] at hmem
    exact absurd hmem (by decide)

end DexUnseal.Archive
