import DexUnseal.Proofs.Archive.Layout
import DexUnseal.Proofs.Text.Numeral
import Mathlib.Algebra.Order.BigOperators.Group.List

/-! Which archives are refused, and what the fields of a file say of numbers that they cannot hold. -/

namespace DexUnseal

lemma FileTree.Frame.node?_below {t t' : FileTree} {l : Location} (h : Frame [] l.dropLast t t') :
    t'.node? l = t.node? l := by
  rcases h l List.not_mem_nil with hs | ⟨hp, hn, -⟩
  · exact hs
  · have hle := hp.length_le
    rw [List.length_dropLast] at hle
    obtain rfl : l = [] := List.eq_nil_of_length_eq_zero (by omega)
    cases hn

namespace Archive

lemma Image.length_block {f : Image} {offset n : Nat} {bytes : Bytes} (h : f.block offset n = .ok bytes) :
    bytes.length = n := by
  rw [block] at h
  split at h
  · rwa [← Except.ok.inj h]
  · cases h

lemma Image.number_lt {f : Image} {width offset n : Nat} (h : f.number width offset = .ok n) :
    n < Bytes.capacity width := by
  rw [number] at h
  cases hb : f.block offset width with
  | error fault => simp [hb, Functor.map, Except.map] at h
  | ok bytes =>
    obtain rfl : Bytes.ofLittleEndian bytes = n := by simpa [hb, Functor.map, Except.map] using h
    exact length_block hb ▸ Bytes.ofLittleEndian_lt bytes

variable {deflate : Bytes → Bytes} {a : Archive} {bytes more : Bytes} {shown : Nat → Nat} {offset : Nat}
  {entries : List (String × Entry)} {fault : InputFault}

def Admissible (x : String × Entry) : Prop :=
  x.2.data.length < UInt32.size ∧ (Text.Utf8.encode x.1).length < UInt16.size

instance (x : String × Entry) : Decidable (Admissible x) :=
  inferInstanceAs (Decidable (x.2.data.length < UInt32.size ∧ (Text.Utf8.encode x.1).length < UInt16.size))

/-- Why an archive is refused: the first entry that is not admissible, or too many entries. -/
inductive Refused (a : Archive) : InputFault → Prop
  | tooLarge {before after : List (String × Entry)} {x : String × Entry} (split : a.toList = before ++ x :: after)
      (fit : ∀ y ∈ before, Admissible y) (large : ¬ Admissible x) : Refused a (.tooLarge x.1)
  | tooManyEntries (fit : ∀ x ∈ a.toList, Admissible x) (many : UInt16.size ≤ a.names.length) :
      Refused a (.tooManyEntries a.names.length)

lemma isTooLarge_ofEntry (deflate : Bytes → Bytes) (offset : Nat) (x : String × Entry) :
    (Placed.ofEntry deflate offset x.1 x.2).isTooLarge = decide (¬ Admissible x) := by
  change (decide (UInt32.size ≤ x.2.data.length) || decide (UInt16.size ≤ (Text.Utf8.encode x.1).length)) = _
  rw [Bool.eq_iff_iff, Bool.or_eq_true, decide_eq_true_eq, decide_eq_true_eq, decide_eq_true_eq, Admissible,
    Decidable.not_and_iff_not_or_not, Nat.not_lt, Nat.not_lt]

lemma find?_place (deflate : Bytes → Bytes) (offset : Nat) (entries : List (String × Entry)) :
    ((place deflate offset entries).find? Placed.isTooLarge).map (·.name) =
      (entries.find? fun x => ¬ Admissible x).map (·.1) := by
  induction entries generalizing offset with
  | nil => rfl
  | cons x entries ih =>
    rw [place, List.find?_cons, List.find?_cons, isTooLarge_ofEntry]
    cases decide (¬ Admissible x) with
    | true => rfl
    | false => exact ih _

lemma length_placed (deflate : Bytes → Bytes) (a : Archive) : (a.placed deflate).length = a.names.length := by
  rw [placed, length_place, ← map_fst_toList, List.length_map]

lemma refused_or_admitted (a : Archive) :
    (∃ fault, a.Refused fault) ∨ (∀ x ∈ a.toList, Admissible x) ∧ a.names.length < UInt16.size := by
  cases hf : a.toList.find? fun x => ¬ Admissible x with
  | some x =>
    obtain ⟨hlarge, before, after, hsplit, hbefore⟩ := List.find?_eq_some_iff_append.mp hf
    exact .inl ⟨_, .tooLarge hsplit (fun y hy => by simpa using hbefore y hy) (of_decide_eq_true hlarge)⟩
  | none =>
    have hfit : ∀ x ∈ a.toList, Admissible x := by simpa using hf
    rcases Nat.lt_or_ge a.names.length UInt16.size with hfew | hmany
    · exact .inr ⟨hfit, hfew⟩
    · exact .inl ⟨_, .tooManyEntries hfit hmany⟩

lemma encodeWith_of_refused (deflate : Bytes → Bytes) (h : a.Refused fault) : a.encodeWith deflate = .error fault := by
  have hfind := find?_place deflate 0 a.toList
  simp only [encodeWith]
  cases h with
  | @tooLarge before after x hsplit hfit hlarge =>
    have hx : a.toList.find? (fun x => ¬ Admissible x) = some x :=
      List.find?_eq_some_iff_append.mpr ⟨decide_eq_true hlarge, before, after, hsplit, by simpa using hfit⟩
    rw [hx] at hfind
    obtain ⟨p, hp, hname⟩ := Option.map_eq_some_iff.mp hfind
    rw [hp]
    exact congrArg (fun name => Except.error (InputFault.tooLarge name)) hname
  | tooManyEntries hfit hmany =>
    have hnone : a.toList.find? (fun x => ¬ Admissible x) = none := by simpa using hfit
    rw [hnone] at hfind
    rw [Option.map_eq_none_iff.mp hfind, ← length_placed deflate a, ← placed]
    rw [← length_placed deflate] at hmany
    exact if_pos hmany

lemma encodeWith_of_admitted (deflate : Bytes → Bytes) (hfit : ∀ x ∈ a.toList, Admissible x)
    (hfew : a.names.length < UInt16.size) : ∃ bytes, a.encodeWith deflate = .ok bytes := by
  refine ⟨_, encodeWith_ok.mpr ⟨fun p hp => ?_, by rwa [length_placed], rfl⟩⟩
  obtain ⟨x, hx, o, rfl⟩ := exists_of_mem_place hp
  rw [isTooLarge_ofEntry, decide_eq_false_iff_not, not_not]
  exact hfit x hx

theorem encodeWith_error_iff : a.encodeWith deflate = .error fault ↔ a.Refused fault := by
  refine ⟨fun h => ?_, encodeWith_of_refused deflate⟩
  rcases refused_or_admitted a with ⟨fault', hr⟩ | ⟨hfit, hfew⟩
  · obtain rfl := Except.error.inj (h.symm.trans (encodeWith_of_refused deflate hr))
    exact hr
  · obtain ⟨bytes, hbytes⟩ := encodeWith_of_admitted deflate hfit hfew
    cases h.symm.trans hbytes

namespace Placed

structure Lengths (bytes : Bytes) (shown : Nat → Nat) (p : Placed) (offset : Nat) : Prop where
  compressed : (Image.ofBytes bytes).number 4 (offset + 10) = .ok (shown p.payload.length)
  size : (Image.ofBytes bytes).number 4 (offset + 14) = .ok p.size
  name : (Image.ofBytes bytes).number 2 (offset + 18) = .ok p.nameBytes.length

structure LocalFields (bytes : Bytes) (shown : Nat → Nat) (p : Placed) (start stop : Nat) : Prop where
  offset : p.offset = start
  entry : StandsAt bytes start p.localEntry
  lengths : p.Lengths bytes shown (start + 8)
  extra : (Image.ofBytes bytes).number 2 (start + 28) = .ok p.padding
  stop : stop = start + p.localEntry.length

structure CentralFields (bytes : Bytes) (shown : Nat → Nat) (p : Placed) (start stop : Nat) : Prop where
  record : StandsAt bytes start p.centralRecord
  lengths : p.Lengths bytes shown (start + 10)
  extra : (Image.ofBytes bytes).number 2 (start + 30) = .ok 0
  comment : (Image.ofBytes bytes).number 2 (start + 32) = .ok 0
  offset : (Image.ofBytes bytes).number 4 (start + 42) = .ok (shown p.offset)
  stop : stop = start + p.centralRecord.length

end Placed

structure EndFields (bytes : Bytes) (shown : Nat → Nat) (count directory size stop : Nat) : Prop where
  entriesOnDisk : (Image.ofBytes bytes).number 2 (stop + 8) = .ok count
  entries : (Image.ofBytes bytes).number 2 (stop + 10) = .ok count
  size : (Image.ofBytes bytes).number 4 (stop + 12) = .ok (shown size)
  offset : (Image.ofBytes bytes).number 4 (stop + 16) = .ok (shown directory)
  comment : (Image.ofBytes bytes).number 2 (stop + 20) = .ok 0
  last : bytes.length = stop + 22

/-- What all fields of an archive file hold, if `shown` is what they hold of a length or an offset. -/
structure Fields (deflate : Bytes → Bytes) (shown : Nat → Nat) (a : Archive) (bytes : Bytes) : Prop where
  entries : List.Forall₂ (Placed.Presents deflate) a.toList (a.placed deflate)
  locals : Chain (Placed.LocalFields bytes shown) 0 (a.placed deflate) (a.localPart deflate).length
  records : Chain (Placed.CentralFields bytes shown) (a.localPart deflate).length (a.placed deflate)
    ((a.localPart deflate).length + (a.directoryPart deflate).length)
  final : EndFields bytes shown a.names.length (a.localPart deflate).length (a.directoryPart deflate).length
    ((a.localPart deflate).length + (a.directoryPart deflate).length)

namespace Placed

variable {p : Placed}

lemma lengths (h : StandsAt bytes offset (p.summary ++ more)) (hl : p.isTooLarge = false) :
    p.Lengths bytes (· % UInt32.size) offset ∧ StandsAt bytes (offset + 20) more := by
  rw [isTooLarge, Bool.or_eq_false_iff, decide_eq_false_iff_not, decide_eq_false_iff_not, Nat.not_le, Nat.not_le] at hl
  simp only [summary, List.append_assoc] at h
  obtain ⟨-, h2⟩ := number_code h
  obtain ⟨-, h6⟩ := Image.number32 h2 (by decide)
  obtain ⟨-, h10⟩ := number_checksum h6
  obtain ⟨n10, h14⟩ := Image.number32_mod h10
  obtain ⟨n14, h18⟩ := Image.number32 h14 hl.1
  obtain ⟨n18, h20⟩ := Image.number16 h18 hl.2
  exact ⟨⟨n10, n14, n18⟩, h20⟩

lemma localFields (h : StandsAt bytes p.offset p.localEntry) (hl : p.isTooLarge = false) (hp : p.padding ≤ 3) :
    p.LocalFields bytes (· % UInt32.size) p.offset (p.offset + p.localEntry.length) := by
  have hentry := h
  simp only [localEntry, List.append_assoc] at h
  have h4 := h.next (Bytes.length_word32 _) rfl
  obtain ⟨-, h6⟩ := Image.number16 h4 (by decide)
  obtain ⟨-, h8⟩ := Image.number16 h6 (by decide)
  obtain ⟨hlengths, h28⟩ := lengths h8 hl
  obtain ⟨n28, -⟩ := Image.number16 h28 (Nat.lt_of_le_of_lt hp (by decide))
  exact ⟨rfl, hentry, hlengths, n28, rfl⟩

lemma centralFields (h : StandsAt bytes offset p.centralRecord) (hl : p.isTooLarge = false) :
    p.CentralFields bytes (· % UInt32.size) offset (offset + p.centralRecord.length) := by
  have hrecord := h
  simp only [centralRecord, List.append_assoc] at h
  have h4 := h.next (Bytes.length_word32 _) rfl
  obtain ⟨-, h6⟩ := Image.number16 h4 (by decide)
  obtain ⟨-, h8⟩ := Image.number16 h6 (by decide)
  obtain ⟨-, h10⟩ := Image.number16 h8 (by decide)
  obtain ⟨hlengths, h30⟩ := lengths h10 hl
  obtain ⟨n30, h32⟩ := Image.number16 h30 (by decide)
  obtain ⟨n32, h34⟩ := Image.number16 h32 (by decide)
  obtain ⟨-, h36⟩ := Image.number16 h34 (by decide)
  obtain ⟨-, h38⟩ := Image.number16 h36 (by decide)
  obtain ⟨-, h42⟩ := Image.number32 h38 (by decide)
  obtain ⟨n42, -⟩ := Image.number32_mod h42
  exact ⟨hrecord, hlengths, n30, n32, n42, rfl⟩

end Placed

lemma endFields {count directory size : Nat} (h : StandsAt bytes offset (Placed.endRecord count size directory))
    (hc : count < UInt16.size) (hl : bytes.length = offset + EndRecord.size) :
    EndFields bytes (· % UInt32.size) count directory size offset := by
  simp only [Placed.endRecord, List.append_assoc] at h
  have h4 := h.next (Bytes.length_word32 _) rfl
  obtain ⟨-, h6⟩ := Image.number16 h4 (by decide)
  obtain ⟨-, h8⟩ := Image.number16 h6 (by decide)
  obtain ⟨n8, h10⟩ := Image.number16 h8 hc
  obtain ⟨n10, h12⟩ := Image.number16 h10 hc
  obtain ⟨n12, h16⟩ := Image.number32_mod h12
  obtain ⟨n16, h20⟩ := Image.number32_mod h16
  have n20 := Image.number16_last h20 (by decide)
  exact ⟨n8, n10, n12, n16, n20, hl⟩

/-- Lengths and offsets that are not checked are cut down to their field. -/
theorem fields_of_encodeWith (h : a.encodeWith deflate = .ok bytes) : a.Fields deflate (· % UInt32.size) bytes := by
  obtain ⟨hsmall, hcount, -⟩ := encodeWith_ok.mp h
  obtain ⟨hlocals, hrecords, hend, hlast⟩ := standsAt_of_encodeWith h
  have hchain := chain_place hlocals
  rw [Nat.zero_add] at hchain
  rw [length_placed] at hcount hend
  refine ⟨presents_place deflate 0 a.toList, ?_, ?_, endFields hend hcount hlast⟩
  · refine hchain.mono fun p hp start stop ⟨hoffset, hstands, hstop⟩ => ?_
    subst hoffset hstop
    exact Placed.localFields hstands (hsmall p hp) (stop_le_of_mem_place hp).1
  · refine (chain_flatMap hrecords).mono fun p hp start stop ⟨hstands, hstop⟩ => ?_
    subst hstop
    exact Placed.centralFields hstands (hsmall p hp)

lemma Fields.lt (h : a.Fields deflate id bytes) :
    (a.localPart deflate).length < UInt32.size ∧ (a.directoryPart deflate).length < UInt32.size :=
  ⟨Image.number_lt h.final.offset, Image.number_lt h.final.size⟩

lemma Fields.exact (h : a.Fields deflate (· % UInt32.size) bytes)
    (hlocal : (a.localPart deflate).length < UInt32.size)
    (hdirectory : (a.directoryPart deflate).length < UInt32.size) : a.Fields deflate id bytes := by
  have hfits (p : Placed) (hp : p ∈ a.placed deflate) :
      p.payload.length % UInt32.size = p.payload.length ∧ p.offset % UInt32.size = p.offset := by
    have hle := (stop_le_of_mem_place hp).2
    rw [← placed, ← localPart, Placed.length_localEntry] at hle
    exact ⟨Nat.mod_eq_of_lt (by omega), Nat.mod_eq_of_lt (by omega)⟩
  have hlengths (p : Placed) (hp : p ∈ a.placed deflate) (offset : Nat)
      (hs : p.Lengths bytes (· % UInt32.size) offset) : p.Lengths bytes id offset :=
    ⟨(hfits p hp).1 ▸ hs.compressed, hs.size, hs.name⟩
  refine ⟨h.entries, h.locals.mono fun p hp start stop hs => ?_, h.records.mono fun p hp start stop hs => ?_, ?_⟩
  · exact { hs with lengths := hlengths p hp _ hs.lengths }
  · exact { hs with lengths := hlengths p hp _ hs.lengths, offset := (hfits p hp).2 ▸ hs.offset }
  · have hsize := h.final.size
    have hoffset := h.final.offset
    rw [Nat.mod_eq_of_lt hdirectory] at hsize
    rw [Nat.mod_eq_of_lt hlocal] at hoffset
    exact { h.final with size := hsize, offset := hoffset }

/-- An archive is refused for the first entry with too much data or too long a name, or else for too many entries, and
then a file in its place stays as it is. Any other archive is written, and its fields are right as far as they hold the
numbers: all of them are if and only if the local entries and the directory each take less than four gigabytes. -/
theorem save_limits (deflate : Bytes → Bytes) (a : Archive) :
    (∀ fault, a.encodeWith deflate = .error fault ↔ a.Refused fault) ∧
    (∀ bytes, a.encodeWith deflate = .ok bytes → a.Fields deflate (· % UInt32.size) bytes ∧
      (a.Fields deflate id bytes ↔
        (a.localPart deflate).length < UInt32.size ∧ (a.directoryPart deflate).length < UInt32.size)) ∧
    (∀ p files files', a.saveWith deflate p files = (.ok (), files') →
      ∃ bytes, a.encodeWith deflate = .ok bytes ∧ files'.read p = .ok bytes) ∧
    ∀ fault, a.Refused fault → ∀ p files, ∃ fault' files', a.saveWith deflate p files = (.error fault', files') ∧
      (∀ files₁, files.createDirectories p.location.dropLast = .ok files₁ → fault' = .input fault) ∧
      FileTree.Frame [] p.location.dropLast files files' ∧
      ∀ bytes, files'.read p = .ok bytes ↔ files.read p = .ok bytes := by
  refine ⟨fun fault => encodeWith_error_iff, fun bytes h => ?_, fun p files files' => read_of_saveWith, ?_⟩
  · have hfields := fields_of_encodeWith h
    exact ⟨hfields, Fields.lt, fun ⟨hlocal, hdirectory⟩ => hfields.exact hlocal hdirectory⟩
  · intro fault h p files
    obtain ⟨fault', files', hsave, hframe, hfault⟩ := saveWith_error (encodeWith_of_refused deflate h) p files
    refine ⟨fault', files', hsave, hfault, hframe, fun bytes => ?_⟩
    rw [FileTree.read_ok, FileTree.read_ok, hframe.node?_below]

lemma length_encode_fill (n : Nat) : (Text.Utf8.encode (Text.fill n)).length = n := by
  rw [Text.Utf8.length_encode_of_ascii fun _ => Text.toNat_of_mem_fill, Text.toList_fill, List.length_replicate]

def overlong : Archive := empty.insert (Text.fill 65536) ⟨[1], none⟩

def oldFiles : FileTree := ⟨[(["app.apk"], .file [1, 2, 3])]⟩

lemma refused_overlong : overlong.Refused (.tooLarge (Text.fill 65536)) := by
  have hsplit : overlong.toList = [] ++ (Text.fill 65536, ⟨[1], none⟩) :: [] := rfl
  refine Refused.tooLarge (x := (Text.fill 65536, ⟨[1], none⟩)) hsplit (fun y hy => nomatch hy) fun h => ?_
  have hshort := h.2
  rw [length_encode_fill] at hshort
  exact absurd hshort (by decide)

theorem save_limits_sample : (∃ bytes, sample.encodeWith Deflate.encode = .ok bytes ∧
      sample.Fields Deflate.encode id bytes ∧
      ∃ files', sample.saveWith Deflate.encode ⟨"/app.apk"⟩ oldFiles = (.ok (), files') ∧
        files'.read ⟨"/app.apk"⟩ = .ok bytes) ∧
    overlong.Refused (.tooLarge (Text.fill 65536)) ∧
    ∃ files', overlong.saveWith Deflate.encode ⟨"/app.apk"⟩ oldFiles =
        (.error (.input (.tooLarge (Text.fill 65536))), files') ∧
      files'.read ⟨"/app.apk"⟩ = .ok [1, 2, 3] := by
  have hcreate : oldFiles.createDirectories (Path.mk "/app.apk").location.dropLast = .ok oldFiles := rfl
  constructor
  · obtain ⟨-, hfields, hread, -⟩ := save_limits Deflate.encode sample
    have hfit : ∀ x ∈ sample.toList, Admissible x := by
      rw [toList_sample]
      decide
    have hfew : sample.names.length < UInt16.size := by
      rw [← map_fst_toList, toList_sample]
      decide
    obtain ⟨bytes, hbytes⟩ := encodeWith_of_admitted Deflate.encode hfit hfew
    have hwrite : oldFiles.write ⟨"/app.apk"⟩ bytes = .ok (oldFiles.set ["app.apk"] (.file bytes)) := rfl
    have hsave := saveWith_ok.mpr ⟨bytes, oldFiles, hcreate, hbytes, hwrite⟩
    obtain ⟨bytes', hbytes', hread⟩ := hread _ _ _ hsave
    obtain rfl := Except.ok.inj (hbytes.symm.trans hbytes')
    exact ⟨bytes, hbytes, (hfields bytes hbytes).2.mpr (by decide +kernel), _, hsave, hread⟩
  · obtain ⟨-, -, -, hrefused⟩ := save_limits Deflate.encode overlong
    obtain ⟨fault, files', hsave, hfault, -, hread⟩ := hrefused _ refused_overlong ⟨"/app.apk"⟩ oldFiles
    obtain rfl := hfault oldFiles hcreate
    exact ⟨refused_overlong, files', hsave, (hread _).mpr rfl⟩

def longName (k : Nat) : String := Text.decimal k ++ Text.fill 65530

def longEntries : List (String × Entry) := (List.range 65535).map fun k => (longName k, ⟨[], none⟩)

def longNames : Archive := empty.insertAll longEntries

lemma toList_longName (k : Nat) : (longName k).toList = Nat.toDigits 10 k ++ (Text.fill 65530).toList := by
  rw [longName, String.toList_append, Text.toList_decimal]

lemma longName_injective {k l : Nat} (h : longName k = longName l) : k = l := by
  have hlist := congrArg String.toList h
  rw [toList_longName, toList_longName] at hlist
  exact Text.decimal_injective (congrArg String.ofList (List.append_cancel_right hlist))

lemma length_encode_longName (k : Nat) :
    (Text.Utf8.encode (longName k)).length = (Nat.toDigits 10 k).length + 65530 := by
  rw [Text.Utf8.length_encode_of_ascii fun c hc => ?_, toList_longName, List.length_append, Text.toList_fill,
    List.length_replicate]
  rw [toList_longName] at hc
  rcases List.mem_append.mp hc with hc | hc
  · have hdigit := Text.toNat_of_isDigit (Text.isDigit_of_mem_toDigits hc)
    omega
  · exact Text.toNat_of_mem_fill hc

lemma nodup_longEntries : (longEntries.map (·.1)).Nodup := by
  rw [longEntries, List.map_map]
  exact List.nodup_range.map fun _ _ => longName_injective

lemma length_names_longNames : longNames.names.length = 65535 := by
  have hmem (name : String) : name ∈ longNames.names ↔ name ∈ longEntries.map (·.1) := by
    rw [longNames, mem_names_insertAll, List.mem_map]
  have hperm := (List.perm_ext_iff_of_nodup (nodup_names longNames) nodup_longEntries).mpr hmem
  rw [hperm.length_eq, longEntries, List.length_map, List.length_map, List.length_range]

lemma exists_of_mem_longNames {x : String × Entry} (h : x ∈ longNames.toList) :
    ∃ k < 65535, x = (longName k, ⟨[], none⟩) := by
  obtain ⟨y, hy, hname⟩ := mem_names_insertAll.mp (fst_mem_names h)
  have he := entry?_insertAll_of_nodup (a := empty) nodup_longEntries hy
  rw [hname] at he
  have hentry := Option.some.inj (he.symm.trans (mem_toList_iff.mp h))
  obtain ⟨k, hk, rfl⟩ := List.mem_map.mp hy
  exact ⟨k, List.mem_range.mp hk, Prod.ext hname.symm hentry.symm⟩

lemma admissible_of_mem_longNames {x : String × Entry} (h : x ∈ longNames.toList) : Admissible x := by
  obtain ⟨k, hk, rfl⟩ := exists_of_mem_longNames h
  have hdigits := (Nat.length_toDigits_le_iff (by decide) (by decide)).mpr (show k < 10 ^ 5 by omega)
  have hname := length_encode_longName k
  constructor
  · change 0 < UInt32.size
    decide
  · change (Text.Utf8.encode (longName k)).length < 65536
    omega

lemma length_localPart_longNames (deflate : Bytes → Bytes) : UInt32.size ≤ (longNames.localPart deflate).length := by
  have hle : ∀ n ∈ (longNames.placed deflate).map (·.localEntry.length), 65561 ≤ n := by
    intro n hn
    obtain ⟨p, hp, rfl⟩ := List.mem_map.mp hn
    obtain ⟨x, hx, o, rfl⟩ := exists_of_mem_place hp
    obtain ⟨k, -, rfl⟩ := exists_of_mem_longNames hx
    have hdigits := Nat.length_toDigits_pos (b := 10) (n := k)
    have hname := length_encode_longName k
    rw [Placed.length_localEntry, headerSize]
    change 65561 ≤ 30 + (Text.Utf8.encode (longName k)).length + _ + _
    omega
  have hsum := List.card_nsmul_le_sum _ _ hle
  rw [List.length_map, length_placed, length_names_longNames, Nat.nsmul_eq_mul] at hsum
  rw [localPart, List.length_flatMap, UInt32.size]
  omega

/-- No check sees that the entries together take more than four gigabytes: the archive is written, and its end record
tells a place of the directory where it is not. -/
theorem longNames_misplaced : ∃ bytes files', longNames.save ⟨"/app.apk"⟩ .empty = (.ok (), files') ∧
    files'.read ⟨"/app.apk"⟩ = .ok bytes ∧
    StandsAt bytes (longNames.localPart Deflate.encode).length (longNames.directoryPart Deflate.encode) ∧
    (Image.ofBytes bytes).number 4 ((longNames.localPart Deflate.encode).length +
      (longNames.directoryPart Deflate.encode).length + 16) ≠ .ok (longNames.localPart Deflate.encode).length ∧
    ¬ longNames.Fields Deflate.encode id bytes := by
  have hfew : longNames.names.length < UInt16.size := by
    rw [length_names_longNames]
    decide
  obtain ⟨bytes, hbytes⟩ := encodeWith_of_admitted Deflate.encode (fun x => admissible_of_mem_longNames) hfew
  have hlocal := length_localPart_longNames Deflate.encode
  have hcreate : FileTree.empty.createDirectories (Path.mk "/app.apk").location.dropLast = .ok .empty := rfl
  have hwrite : FileTree.empty.write ⟨"/app.apk"⟩ bytes = .ok ⟨[(["app.apk"], .file bytes)]⟩ := rfl
  have hsave := saveWith_ok.mpr ⟨bytes, .empty, hcreate, hbytes, hwrite⟩
  refine ⟨bytes, _, hsave, FileTree.read_of_write hwrite, (standsAt_of_encodeWith hbytes).2.1, fun h => ?_, fun h => ?_⟩
  · exact absurd (Image.number_lt h) (Nat.not_lt.mpr hlocal)
  · exact absurd h.lt.1 (Nat.not_lt.mpr hlocal)

end Archive

end DexUnseal
