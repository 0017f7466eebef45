import DexUnseal.Cache.Layout
import DexUnseal.Proofs.Archive.EntryName
import DexUnseal.Proofs.Archive.Locator

/-! The archive of one dex file reads back. -/

namespace DexUnseal.Archive

open Cache.Entry (dexName)

def ofDex (dex : Bytes) : Archive := empty.insert dexName ⟨dex, none⟩

def dexPlaced (dex : Bytes) : Placed := .ofEntry Deflate.encode 0 dexName ⟨dex, none⟩

def dexFile (dex : Bytes) : Bytes :=
  (dexPlaced dex).localEntry ++ ((dexPlaced dex).centralRecord ++
    Placed.endRecord 1 (dexPlaced dex).centralRecord.length (dexPlaced dex).localEntry.length)

/-- How far into the file the archive seems to start. -/
def dexShift (dex : Bytes) : Nat :=
  (dexPlaced dex).localEntry.length - (dexPlaced dex).localEntry.length % UInt32.size

variable {dex file data : Bytes} {a : Archive}

lemma replace_dexName (dex : Bytes) : empty.replace dexName dex = .ok (ofDex dex) := rfl

lemma nameBytes_dexPlaced (dex : Bytes) :
    (dexPlaced dex).nameBytes = [99, 108, 97, 115, 115, 101, 115, 46, 100, 101, 120] := rfl

lemma length_localEntry_dexPlaced (dex : Bytes) : (dexPlaced dex).localEntry.length = 44 + dex.length := by
  rw [Placed.length_localEntry]
  rfl

lemma length_centralRecord_dexPlaced (dex : Bytes) : (dexPlaced dex).centralRecord.length = 57 := by
  rw [Placed.length_centralRecord]
  rfl

lemma fits_dexPlaced (h : dex.length < UInt32.size) : (dexPlaced dex).Fits :=
  ⟨h, h, (by decide : 11 < UInt16.size), (by decide : 0 < UInt32.size), (by decide : 3 < UInt16.size)⟩

lemma isTooLarge_dexPlaced (dex : Bytes) : (dexPlaced dex).isTooLarge = decide (UInt32.size ≤ dex.length) := by
  have hname : decide ((dexPlaced dex).nameBytes.length ≥ UInt16.size) = false := by
    rw [nameBytes_dexPlaced]
    decide
  rw [Placed.isTooLarge, hname, Bool.or_false]
  rfl

lemma encode_ofDex : (ofDex dex).encode = .ok file ↔ dex.length < UInt32.size ∧ file = dexFile dex := by
  have hplaced : place Deflate.encode 0 (ofDex dex).toList = [dexPlaced dex] := rfl
  have hcount : ¬ UInt16.size ≤ 1 := by decide
  simp only [encode, encodeWith, hplaced, List.find?_singleton, isTooLarge_dexPlaced]
  by_cases h : UInt32.size ≤ dex.length
  · simp [h, Nat.not_lt.mpr h, throw, throwThe, MonadExceptOf.throw]
  · simp [h, Nat.not_le.mp h, hcount, dexFile, Pure.pure, Except.pure, eq_comm]

lemma standsAt_localEntry (dex : Bytes) : StandsAt (dexFile dex) 0 (dexPlaced dex).localEntry :=
  List.prefix_append _ _

lemma standsAt_centralRecord (dex : Bytes) :
    StandsAt (dexFile dex) (44 + dex.length) (dexPlaced dex).centralRecord := by
  rw [← length_localEntry_dexPlaced]
  exact standsAt_append _ _ _

lemma standsAt_endRecord (dex : Bytes) :
    StandsAt (dexFile dex) (101 + dex.length) (Placed.endRecord 1 57 (44 + dex.length)) := by
  have h := standsAt_append (dexPlaced dex).localEntry ((dexPlaced dex).centralRecord ++
    Placed.endRecord 1 (dexPlaced dex).centralRecord.length (dexPlaced dex).localEntry.length) []
  rw [List.append_nil, ← dexFile, length_centralRecord_dexPlaced, length_localEntry_dexPlaced] at h
  exact h.next (length_centralRecord_dexPlaced dex) (by omega)

lemma length_dexFile (dex : Bytes) : (dexFile dex).length = 101 + dex.length + EndRecord.size := by
  rw [dexFile, List.length_append, List.length_append, Placed.length_endRecord, length_localEntry_dexPlaced,
    length_centralRecord_dexPlaced]
  omega

lemma no_locator (dex : Bytes) : (Image.ofBytes (dexFile dex)).hasSignature Zip64.locatorSignature
    (101 + dex.length - Zip64.locatorSize) = false := by
  refine Bool.eq_false_iff.mpr fun hs => ?_
  have hoffset : 101 + dex.length - Zip64.locatorSize = 44 + dex.length + 26 + (dexPlaced dex).nameBytes.length := by
    rw [nameBytes_dexPlaced, Zip64.locatorSize]
    change _ = _ + 11
    omega
  have hstands := Image.hasSignature_iff.mp hs
  rw [hoffset] at hstands
  obtain ⟨hlong, -⟩ := Placed.announced_in_name (standsAt_centralRecord dex) hstands
  rw [nameBytes_dexPlaced] at hlong
  exact absurd hlong (by decide)

lemma dexShift_eq (dex : Bytes) : dexShift dex = 44 + dex.length - (44 + dex.length) % UInt32.size := by
  rw [dexShift, length_localEntry_dexPlaced]

lemma directory_dexFile (dex : Bytes) :
    DirectoryPlace.ofImage (.ofBytes (dexFile dex)) = .ok ⟨dexShift dex, 44 + dex.length, 1⟩ := by
  have hm := Nat.mod_le (44 + dex.length) UInt32.size
  have hd : 57 + (44 + dex.length) % UInt32.size ≤ 101 + dex.length := by omega
  rw [DirectoryPlace.ofImage_eq (standsAt_endRecord dex) (length_dexFile dex) (by decide) (by decide) hd
    (no_locator dex), dexShift_eq]
  congr 2
  · omega
  · omega

lemma listings_dexFile (h : dex.length < UInt32.size) :
    Listing.ofImage (.ofBytes (dexFile dex)) = .ok [(dexPlaced dex).listing (dexShift dex)] := by
  have hshift : dexShift dex ≤ 44 + dex.length := by
    rw [dexShift_eq]
    exact Nat.sub_le _ _
  have hsize : 44 + dex.length < UInt64.size / 2 := by
    rw [UInt32.size] at h
    rw [UInt64.size]
    omega
  have hreach : isReachable (44 + dex.length) = true := by
    rw [isReachable, decide_eq_true_eq]
    omega
  have hoffset : (dexPlaced dex).offset + dexShift dex < UInt64.size := by
    change 0 + dexShift dex < UInt64.size
    omega
  have hread := Placed.readAt_centralRecord (standsAt_centralRecord dex) (fits_dexPlaced h) hoffset
  simp only [Listing.ofImage, directory_dexFile, except_ok_bind, hreach, Listing.readEach, hread]
  rfl

lemma name_dexPlaced (dex : Bytes) (shift : Nat) : ((dexPlaced dex).listing shift).name = dexName := by
  have hn : Text.CodePage437.decode (dexPlaced dex).nameBytes = dexName := by
    rw [nameBytes_dexPlaced]
    decide
  exact hn

lemma decode_dexFile_ok {wanted : String → Bool} (hw : wanted dexName = true) (h : dex.length < UInt32.size) :
    decodeOnly wanted (dexFile dex) = .ok a ↔ ∃ offset data,
    ((dexPlaced dex).listing (dexShift dex)).payloadOffset (.ofBytes (dexFile dex)) = .ok offset ∧
    ((dexPlaced dex).listing (dexShift dex)).data (.ofBytes (dexFile dex)) offset = .ok data ∧
    a = empty.insert dexName ⟨data, some .stored⟩ := by
  have hname := name_dexPlaced dex (dexShift dex)
  have ht : EntryName.Tidy dexName := by decide
  rw [← hname] at ht hw
  simp only [decodeOnly_ok, listings_dexFile h, Except.ok.injEq, exists_eq_left', collect, except_bind_ok,
    Listing.entry?_ok ht hw, hname]
  constructor
  · rintro ⟨_, ⟨offset, data, ho, hd, rfl⟩, ⟨⟩⟩
    exact ⟨offset, data, ho, hd, rfl⟩
  · rintro ⟨offset, data, ho, hd, rfl⟩
    exact ⟨_, ⟨offset, data, ho, hd, rfl⟩, rfl⟩

lemma decode_dexFile_ne_crash {wanted : String → Bool} {text : String} (h : dex.length < UInt32.size) :
    decodeOnly wanted (dexFile dex) ≠ .error (.crash text) := by
  intro hcrash
  obtain ⟨before, l, after, hl, -, hopen⟩ := decodeOnly_crash.mp hcrash
  rw [listings_dexFile h] at hl
  have hmem : l ∈ [(dexPlaced dex).listing (dexShift dex)] := by
    rw [Except.ok.inj hl]
    exact List.mem_append_right before List.mem_cons_self
  obtain rfl := List.mem_singleton.mp hmem
  cases (Listing.payloadOffset_crash.mp hopen).2.1

theorem decode_dexFile {wanted : String → Bool} (hw : wanted dexName = true) (h : 44 + dex.length < UInt32.size) :
    decodeOnly wanted (dexFile dex) = .ok (empty.insert dexName ⟨dex, some .stored⟩) := by
  have hl : dex.length < UInt32.size := by omega
  have hshift : dexShift dex = 0 := by
    rw [dexShift_eq, Nat.mod_eq_of_lt h, Nat.sub_self]
  have hs : StandsAt (dexFile dex) ((dexPlaced dex).offset + dexShift dex) (dexPlaced dex).localEntry := by
    rw [hshift]
    exact standsAt_localEntry dex
  have hr : isReachable ((dexPlaced dex).offset + dexShift dex) = true := by
    rw [hshift]
    rfl
  obtain ⟨ho, hp⟩ := Placed.payloadOffset_listing hs (fits_dexPlaced hl) hr
  exact (decode_dexFile_ok hw hl).mpr ⟨_, _, ho, Placed.data_listing hp rfl rfl, rfl⟩

/-- Beyond that limit the entry is looked for too far behind, where the file is almost at its end. -/
theorem length_entry?_decode_dexFile {e : Entry} (h : dex.length < UInt32.size) (hl : UInt32.size ≤ 44 + dex.length)
    (hd : decode (dexFile dex) = .ok a) (he : a.entry? dexName = some e) : e.data.length < 93 := by
  obtain ⟨offset, data, ho, hdata, rfl⟩ := (decode_dexFile_ok rfl h).mp hd
  rw [entry?_insert_self, Option.some.injEq] at he
  subst he
  have hle := Listing.le_of_payloadOffset ho
  have hlen := Image.length_slice_le (.ofBytes (dexFile dex)) offset
    (min ((dexPlaced dex).listing (dexShift dex)).compressedSize (Image.ofBytes (dexFile dex)).size)
  rw [← Listing.data_of_stored hdata rfl, Image.size_ofBytes, length_dexFile] at hlen
  have ho : ((dexPlaced dex).listing (dexShift dex)).offset = 0 + dexShift dex := rfl
  rw [ho, dexShift_eq, headerSize] at hle
  rw [EndRecord.size] at hlen
  rw [UInt32.size] at h hl hle
  exact show data.length < 93 by omega

lemma entry?_decode_dexFile {e : Entry} (h : dex.length < UInt32.size) (hd : decode (dexFile dex) = .ok a)
    (he : a.entry? dexName = some e) : e.data = dex ∨ e.data.length < 93 := by
  by_cases hl : 44 + dex.length < UInt32.size
  · rw [decode, decode_dexFile rfl hl] at hd
    obtain rfl := Except.ok.inj hd
    rw [entry?_insert_self, Option.some.injEq] at he
    exact .inl (by rw [← he])
  · exact .inr (length_entry?_decode_dexFile h (Nat.le_of_not_lt hl) hd he)

end DexUnseal.Archive
