import DexUnseal.Proofs.Archive.Entries
import DexUnseal.Proofs.Archive.File
import DexUnseal.Proofs.Archive.Records
import DexUnseal.Proofs.Text.Utf8

/-! What an archive file consists of: local entries, central records and the end record, without gaps. -/

namespace DexUnseal.Archive

inductive Chain (At : α → (start stop : Nat) → Prop) : (start : Nat) → List α → (stop : Nat) → Prop
  | nil (start : Nat) : Chain At start [] start
  | cons {x : α} {xs : List α} {start next stop : Nat} (head : At x start next) (tail : Chain At next xs stop) :
      Chain At start (x :: xs) stop

namespace Placed

structure LocalAt (bytes : Bytes) (p : Placed) (start stop : Nat) : Prop where
  offset : p.offset = start
  signature : StandsAt bytes start [0x50, 0x4b, 3, 4]
  method : (Image.ofBytes bytes).number 2 (start + 8) = .ok p.compression.code.toNat
  checksum : (Image.ofBytes bytes).number 4 (start + 14) = .ok p.checksum.toNat
  compressedSize : (Image.ofBytes bytes).number 4 (start + 18) = .ok p.payload.length
  size : (Image.ofBytes bytes).number 4 (start + 22) = .ok p.size
  nameLength : (Image.ofBytes bytes).number 2 (start + 26) = .ok p.nameBytes.length
  extraLength : (Image.ofBytes bytes).number 2 (start + 28) = .ok p.padding
  name : StandsAt bytes (start + 30) p.nameBytes
  extra : StandsAt bytes (start + 30 + p.nameBytes.length) (List.replicate p.padding 0)
  payload : StandsAt bytes (start + 30 + p.nameBytes.length + p.padding) p.payload
  stop : stop = start + 30 + p.nameBytes.length + p.padding + p.payload.length

structure CentralAt (bytes : Bytes) (p : Placed) (start stop : Nat) : Prop where
  signature : StandsAt bytes start [0x50, 0x4b, 1, 2]
  method : (Image.ofBytes bytes).number 2 (start + 10) = .ok p.compression.code.toNat
  checksum : (Image.ofBytes bytes).number 4 (start + 16) = .ok p.checksum.toNat
  compressedSize : (Image.ofBytes bytes).number 4 (start + 20) = .ok p.payload.length
  size : (Image.ofBytes bytes).number 4 (start + 24) = .ok p.size
  nameLength : (Image.ofBytes bytes).number 2 (start + 28) = .ok p.nameBytes.length
  extraLength : (Image.ofBytes bytes).number 2 (start + 30) = .ok 0
  commentLength : (Image.ofBytes bytes).number 2 (start + 32) = .ok 0
  offset : (Image.ofBytes bytes).number 4 (start + 42) = .ok p.offset
  name : StandsAt bytes (start + 46) p.nameBytes
  stop : stop = start + 46 + p.nameBytes.length

def IsDexName (name : String) : Prop := ∃ front d e x, name.toList = front ++ ['.', d, e, x] ∧
  (d = 'd' ∨ d = 'D') ∧ (e = 'e' ∨ e = 'E') ∧ (x = 'x' ∨ x = 'X')

structure Presents (deflate : Bytes → Bytes) (x : String × Entry) (p : Placed) : Prop where
  name : p.nameBytes = Text.Utf8.encode x.1
  checksum : p.checksum = Digest.Crc32.checksum x.2.data
  size : p.size = x.2.data.length
  asked : ∀ c, x.2.compression = some c → p.compression = c
  unasked : x.2.compression = none → (p.compression = .stored ↔ IsDexName x.1)
  stored : p.compression = .stored → p.payload = x.2.data ∧ p.padding ≤ 3 ∧
    4 ∣ p.offset + 30 + p.nameBytes.length + p.padding
  deflated : p.compression = .deflated → p.payload = deflate x.2.data ∧ p.padding = 0

end Placed

structure EndAt (bytes : Bytes) (count directory stop : Nat) : Prop where
  signature : StandsAt bytes stop [0x50, 0x4b, 5, 6]
  entriesOnDisk : (Image.ofBytes bytes).number 2 (stop + 8) = .ok count
  entries : (Image.ofBytes bytes).number 2 (stop + 10) = .ok count
  size : ∃ size, directory + size = stop ∧ (Image.ofBytes bytes).number 4 (stop + 12) = .ok size
  offset : (Image.ofBytes bytes).number 4 (stop + 16) = .ok directory
  commentLength : (Image.ofBytes bytes).number 2 (stop + 20) = .ok 0
  last : bytes.length = stop + 22

structure Written (deflate : Bytes → Bytes) (a : Archive) (bytes : Bytes) (placed : List Placed)
    (directory stop : Nat) : Prop where
  entries : List.Forall₂ (Placed.Presents deflate) a.toList placed
  order : placed.Pairwise fun p q => p.nameBytes < q.nameBytes
  locals : Chain (Placed.LocalAt bytes) 0 placed directory
  records : Chain (Placed.CentralAt bytes) directory placed stop
  final : EndAt bytes placed.length directory stop

lemma Chain.mono {At At' : α → Nat → Nat → Prop} {start stop : Nat} {xs : List α} (h : Chain At start xs stop)
    (hm : ∀ x ∈ xs, ∀ start stop, At x start stop → At' x start stop) : Chain At' start xs stop := by
  induction h with
  | nil start => exact .nil start
  | cons head tail ih =>
    obtain ⟨hx, hxs⟩ := List.forall_mem_cons.mp hm
    exact .cons (hx _ _ head) (ih hxs)

lemma Chain.exists_of_mem {At : α → Nat → Nat → Prop} {start stop : Nat} {x : α} {xs : List α}
    (h : Chain At start xs stop) (hx : x ∈ xs) : ∃ start stop, At x start stop := by
  induction h with
  | nil => cases hx
  | @cons y ys start next stop head tail ih =>
    rcases List.mem_cons.mp hx with rfl | hx
    · exact ⟨start, next, head⟩
    · exact ih hx

lemma chain_flatMap {bytes : Bytes} {start : Nat} {f : α → Bytes} {xs : List α}
    (h : StandsAt bytes start (xs.flatMap f)) :
    Chain (fun x start stop => StandsAt bytes start (f x) ∧ stop = start + (f x).length) start xs
      (start + (xs.flatMap f).length) := by
  induction xs generalizing start with
  | nil => exact .nil start
  | cons x xs ih =>
    rw [List.flatMap_cons] at h
    have htail := ih (h.next rfl rfl)
    rw [List.flatMap_cons, List.length_append, ← Nat.add_assoc]
    exact .cons ⟨h.left, rfl⟩ htail

variable {deflate : Bytes → Bytes} {a : Archive} {bytes : Bytes} {p : Placed} {offset : Nat}
  {entries : List (String × Entry)}

namespace Placed

lemma localAt (h : StandsAt bytes p.offset p.localEntry) (hf : p.Fits) :
    p.LocalAt bytes p.offset (p.offset + p.localEntry.length) := by
  have hl := p.length_localEntry
  simp only [localEntry, summary, List.append_assoc] at h
  have h4 := h.next (Bytes.length_word32 _) rfl
  obtain ⟨-, h6⟩ := Image.number16 h4 (by decide)
  obtain ⟨-, h8⟩ := Image.number16 h6 (by decide)
  obtain ⟨n8, h10⟩ := number_code h8
  obtain ⟨-, h14⟩ := Image.number32 h10 (by decide)
  obtain ⟨n14, h18⟩ := number_checksum h14
  obtain ⟨n18, h22⟩ := Image.number32 h18 hf.payload
  obtain ⟨n22, h26⟩ := Image.number32 h22 hf.size
  obtain ⟨n26, h28⟩ := Image.number16 h26 hf.name
  obtain ⟨n28, h30⟩ := Image.number16 h28 hf.padding
  have hextra := h30.next rfl rfl
  have hpayload := hextra.next (List.length_replicate ..) rfl
  rw [headerSize] at hl
  exact ⟨rfl, h.left, n8, n14, n18, n22, n26, n28, h30.left, hextra.left, hpayload, by omega⟩

lemma centralAt (h : StandsAt bytes offset p.centralRecord) (hf : p.Fits) :
    p.CentralAt bytes offset (offset + p.centralRecord.length) := by
  have hl := p.length_centralRecord
  simp only [centralRecord, summary, List.append_assoc] at h
  have h4 := h.next (Bytes.length_word32 _) rfl
  obtain ⟨-, h6⟩ := Image.number16 h4 (by decide)
  obtain ⟨-, h8⟩ := Image.number16 h6 (by decide)
  obtain ⟨-, h10⟩ := Image.number16 h8 (by decide)
  obtain ⟨n10, h12⟩ := number_code h10
  obtain ⟨-, h16⟩ := Image.number32 h12 (by decide)
  obtain ⟨n16, h20⟩ := number_checksum h16
  obtain ⟨n20, h24⟩ := Image.number32 h20 hf.payload
  obtain ⟨n24, h28⟩ := Image.number32 h24 hf.size
  obtain ⟨n28, h30⟩ := Image.number16 h28 hf.name
  obtain ⟨n30, h32⟩ := Image.number16 h30 (by decide)
  obtain ⟨n32, h34⟩ := Image.number16 h32 (by decide)
  obtain ⟨-, h36⟩ := Image.number16 h34 (by decide)
  obtain ⟨-, h38⟩ := Image.number16 h36 (by decide)
  obtain ⟨-, h42⟩ := Image.number32 h38 (by decide)
  obtain ⟨n42, h46⟩ := Image.number32 h42 hf.offset
  rw [Listing.headerSize] at hl
  exact ⟨h.left, n10, n16, n20, n24, n28, n30, n32, n42, h46, by omega⟩

lemma char_le_iff {c d : Char} : c ≤ d ↔ c.toNat ≤ d.toNat := UInt32.le_iff_toNat_le

lemma lowerAscii_eq_iff {c d upper : Char} (hd : d.toNat = upper.toNat + 32) (hl : 'A' ≤ upper) (hu : upper ≤ 'Z') :
    lowerAscii c = d ↔ c = d ∨ c = upper := by
  rw [char_le_iff] at hl hu
  change 65 ≤ _ at hl
  change _ ≤ 90 at hu
  simp only [lowerAscii, char_le_iff]
  change (if 65 ≤ c.toNat ∧ c.toNat ≤ 90 then _ else _) = d ↔ _
  split
  · have hvalid : (c.toNat + 32).isValidChar := .inl (by omega)
    rw [← Char.toNat_inj, ← Char.toNat_inj, ← Char.toNat_inj, Text.toNat_charOfNat hvalid]
    omega
  · rw [← Char.toNat_inj, ← Char.toNat_inj]
    omega

lemma lowerAscii_eq_dot_iff {c : Char} : lowerAscii c = '.' ↔ c = '.' := by
  simp only [lowerAscii, char_le_iff]
  change (if 65 ≤ c.toNat ∧ c.toNat ≤ 90 then _ else _) = _ ↔ _
  split
  · have hvalid : (c.toNat + 32).isValidChar := .inl (by omega)
    have hdot : '.'.toNat = 46 := rfl
    rw [← Char.toNat_inj, ← Char.toNat_inj, Text.toNat_charOfNat hvalid, hdot]
    omega
  · rfl

lemma isDexName_iff (name : String) :
    DexEntry.suffix.toList.isSuffixOf (name.toList.map lowerAscii) = true ↔ IsDexName name := by
  have hsuffix : DexEntry.suffix.toList = ['.', 'd', 'e', 'x'] := rfl
  have hd {c : Char} : lowerAscii c = 'd' ↔ c = 'd' ∨ c = 'D' := lowerAscii_eq_iff rfl (by decide) (by decide)
  have he {c : Char} : lowerAscii c = 'e' ↔ c = 'e' ∨ c = 'E' := lowerAscii_eq_iff rfl (by decide) (by decide)
  have hx {c : Char} : lowerAscii c = 'x' ↔ c = 'x' ∨ c = 'X' := lowerAscii_eq_iff rfl (by decide) (by decide)
  rw [List.isSuffixOf_iff_suffix, hsuffix]
  constructor
  · rintro ⟨before, h⟩
    obtain ⟨front, ending, hname, -, h⟩ := List.map_eq_append_iff.mp h.symm
    obtain ⟨dot, ending, rfl, hdot, h⟩ := List.map_eq_cons_iff.mp h
    obtain ⟨d, ending, rfl, hd', h⟩ := List.map_eq_cons_iff.mp h
    obtain ⟨e, ending, rfl, he', h⟩ := List.map_eq_cons_iff.mp h
    obtain ⟨x, ending, rfl, hx', h⟩ := List.map_eq_cons_iff.mp h
    obtain rfl := List.map_eq_nil_iff.mp h
    obtain rfl := lowerAscii_eq_dot_iff.mp hdot
    exact ⟨front, d, e, x, hname, hd.mp hd', he.mp he', hx.mp hx'⟩
  · rintro ⟨front, d, e, x, hname, hd', he', hx'⟩
    refine ⟨front.map lowerAscii, ?_⟩
    rw [hname, List.map_append, List.map_cons, List.map_cons, List.map_cons, List.map_cons, List.map_nil,
      lowerAscii_eq_dot_iff.mpr rfl, hd.mpr hd', he.mpr he', hx.mpr hx']

lemma presents_ofEntry (deflate : Bytes → Bytes) (offset : Nat) (x : String × Entry) :
    Presents deflate x (ofEntry deflate offset x.1 x.2) where
  name := rfl
  checksum := rfl
  size := rfl
  asked c hc := by simp [ofEntry, Entry.compressionAs, hc]
  unasked hn := by
    rw [← isDexName_iff]
    simp only [ofEntry, Entry.compressionAs, hn, Option.getD_none]
    split <;> simp [*]
  stored hs := by
    have hs' : x.2.compressionAs x.1 = .stored := hs
    simp only [ofEntry, hs', alignment, headerSize, true_and]
    omega
  deflated hd := by
    have hd' : x.2.compressionAs x.1 = .deflated := hd
    simp only [ofEntry, hd', and_self]

lemma stop_ofEntry (deflate : Bytes → Bytes) (offset : Nat) (name : String) (e : Entry) :
    (ofEntry deflate offset name e).stop = offset + (ofEntry deflate offset name e).localEntry.length := by
  rw [length_localEntry, stop]
  change offset + _ + _ + _ + _ = _
  omega

lemma padding_ofEntry_le (deflate : Bytes → Bytes) (offset : Nat) (name : String) (e : Entry) :
    (ofEntry deflate offset name e).padding ≤ 3 := by
  have h := presents_ofEntry deflate offset (name, e)
  cases hc : (ofEntry deflate offset name e).compression with
  | stored => exact (h.stored hc).2.1
  | deflated =>
    rw [(h.deflated hc).2]
    exact Nat.zero_le 3

end Placed

lemma presents_place (deflate : Bytes → Bytes) (offset : Nat) (entries : List (String × Entry)) :
    List.Forall₂ (Placed.Presents deflate) entries (place deflate offset entries) := by
  induction entries generalizing offset with
  | nil => exact .nil
  | cons x entries ih => exact .cons (Placed.presents_ofEntry deflate offset x) (ih _)

lemma chain_place (h : StandsAt bytes offset ((place deflate offset entries).flatMap Placed.localEntry)) :
    Chain (fun p start stop => p.offset = start ∧ StandsAt bytes start p.localEntry ∧
        stop = start + p.localEntry.length) offset (place deflate offset entries)
      (offset + ((place deflate offset entries).flatMap Placed.localEntry).length) := by
  induction entries generalizing offset with
  | nil => exact .nil offset
  | cons x entries ih =>
    have hstop := Placed.stop_ofEntry deflate offset x.1 x.2
    rw [place, List.flatMap_cons] at h
    rw [place, List.flatMap_cons, List.length_append, ← Nat.add_assoc, ← hstop]
    exact .cons ⟨rfl, h.left, hstop⟩ (ih (h.next rfl hstop))

lemma length_place (deflate : Bytes → Bytes) (offset : Nat) (entries : List (String × Entry)) :
    (place deflate offset entries).length = entries.length :=
  (presents_place deflate offset entries).length_eq.symm

lemma stop_le_of_mem_place (h : p ∈ place deflate offset entries) : p.padding ≤ 3 ∧
    p.offset + p.localEntry.length ≤ offset + ((place deflate offset entries).flatMap Placed.localEntry).length := by
  induction entries generalizing offset with
  | nil => cases h
  | cons x entries ih =>
    have hstop := Placed.stop_ofEntry deflate offset x.1 x.2
    rw [place, List.flatMap_cons, List.length_append]
    rcases List.mem_cons.mp h with rfl | h
    · refine ⟨Placed.padding_ofEntry_le deflate offset x.1 x.2, ?_⟩
      change offset + _ ≤ _
      omega
    · obtain ⟨hpadding, hle⟩ := ih h
      exact ⟨hpadding, by omega⟩

lemma exists_of_mem_place (h : p ∈ place deflate offset entries) :
    ∃ x ∈ entries, ∃ offset, p = Placed.ofEntry deflate offset x.1 x.2 := by
  induction entries generalizing offset with
  | nil => cases h
  | cons x entries ih =>
    rcases List.mem_cons.mp h with rfl | h
    · exact ⟨x, List.mem_cons_self, offset, rfl⟩
    · obtain ⟨y, hy, o, rfl⟩ := ih h
      exact ⟨y, List.mem_cons_of_mem x hy, o, rfl⟩

def placed (deflate : Bytes → Bytes) (a : Archive) : List Placed := place deflate 0 a.toList

def localPart (deflate : Bytes → Bytes) (a : Archive) : Bytes := (a.placed deflate).flatMap Placed.localEntry

def directoryPart (deflate : Bytes → Bytes) (a : Archive) : Bytes := (a.placed deflate).flatMap Placed.centralRecord

lemma encodeWith_ok : a.encodeWith deflate = .ok bytes ↔
    (∀ p ∈ a.placed deflate, p.isTooLarge = false) ∧ (a.placed deflate).length < UInt16.size ∧
      bytes = a.localPart deflate ++ (a.directoryPart deflate ++ Placed.endRecord (a.placed deflate).length
        (a.directoryPart deflate).length (a.localPart deflate).length) := by
  simp only [encodeWith]
  rw [← placed, ← localPart, ← directoryPart, List.append_assoc]
  cases hf : (a.placed deflate).find? Placed.isTooLarge with
  | some p =>
    refine ⟨fun h => (nomatch h), fun h => ?_⟩
    rw [List.find?_eq_none.mpr fun p hp => by simp [h.1 p hp]] at hf
    cases hf
  | none =>
    have hsmall : ∀ p ∈ a.placed deflate, p.isTooLarge = false := by simpa using hf
    by_cases hc : (a.placed deflate).length ≥ UInt16.size
    · simp only [if_pos hc]
      exact ⟨fun h => (nomatch h), fun h => absurd h.2.1 (Nat.not_lt.mpr hc)⟩
    · simp only [if_neg hc]
      refine ⟨fun h => ⟨hsmall, Nat.not_le.mp hc, (Except.ok.inj h).symm⟩, fun h => ?_⟩
      rw [h.2.2]
      rfl

lemma encodeWith_total (hcount : a.names.length ≤ 65535)
    (hnames : ∀ name ∈ a.names, (Text.Utf8.encode name).length ≤ 65535) :
    (∃ x ∈ a.toList, UInt32.size ≤ x.2.data.length ∧ a.encodeWith deflate = .error (.tooLarge x.1)) ∨
      ∃ bytes, a.encodeWith deflate = .ok bytes := by
  cases hf : (a.placed deflate).find? Placed.isTooLarge with
  | some p =>
    obtain ⟨x, hx, o, rfl⟩ := exists_of_mem_place (List.mem_of_find?_eq_some hf)
    have hname := hnames x.1 (fst_mem_names hx)
    have hlarge := List.find?_some hf
    refine .inl ⟨x, hx, ?_, ?_⟩
    · rw [Placed.isTooLarge, Bool.or_eq_true, decide_eq_true_eq, decide_eq_true_eq] at hlarge
      rcases hlarge with hsize | hlong
      · exact hsize
      · exact absurd hname (Nat.not_le.mpr hlong)
    · simp only [encodeWith]
      rw [← placed, hf]
      rfl
  | none =>
    have hlength : (a.placed deflate).length = a.names.length := by
      rw [placed, length_place, ← map_fst_toList, List.length_map]
    refine .inr ⟨_, encodeWith_ok.mpr ⟨by simpa using hf, ?_, rfl⟩⟩
    rw [hlength]
    exact Nat.lt_succ_of_le hcount

variable {deflate : Bytes → Bytes}

lemma fits_of_mem_placed (h : a.encodeWith deflate = .ok bytes) (hl : bytes.length < UInt32.size)
    (hp : p ∈ a.placed deflate) : p.Fits := by
  obtain ⟨hsmall, -, rfl⟩ := encodeWith_ok.mp h
  obtain ⟨hpadding, hle⟩ := stop_le_of_mem_place hp
  have hlarge := hsmall p hp
  rw [Placed.isTooLarge, Bool.or_eq_false_iff, decide_eq_false_iff_not, decide_eq_false_iff_not] at hlarge
  rw [Placed.length_localEntry, ← placed, ← localPart] at hle
  rw [List.length_append] at hl
  exact ⟨by omega, by omega, by omega, by omega, Nat.lt_of_le_of_lt hpadding (by decide)⟩

lemma endAt {count directory size : Nat} (h : StandsAt bytes offset (Placed.endRecord count size directory))
    (hl : bytes.length = offset + 22) (ho : directory + size = offset) (hc : count < UInt16.size)
    (hb : bytes.length < UInt32.size) : EndAt bytes count directory offset := by
  simp only [Placed.endRecord, List.append_assoc] at h
  have h4 := h.next (Bytes.length_word32 _) rfl
  obtain ⟨-, h6⟩ := Image.number16 h4 (by decide)
  obtain ⟨-, h8⟩ := Image.number16 h6 (by decide)
  obtain ⟨n8, h10⟩ := Image.number16 h8 hc
  obtain ⟨n10, h12⟩ := Image.number16 h10 hc
  obtain ⟨n12, h16⟩ := Image.number32 h12 (by omega)
  obtain ⟨n16, h20⟩ := Image.number32 h16 (by omega)
  have n20 := Image.number16_last h20 (by decide)
  exact ⟨h.left, n8, n10, ⟨size, ho, n12⟩, n16, n20, hl⟩

lemma compare_lt_iff {s t : String} : compare s t = .lt ↔ s < t := compareOfLessAndEq_eq_lt

lemma pairwise_placed (deflate : Bytes → Bytes) (a : Archive) :
    (a.placed deflate).Pairwise fun p q => p.nameBytes < q.nameBytes := by
  have hnames : (a.placed deflate).map (·.nameBytes) = a.names.map Text.Utf8.encode := by
    have hforall : List.Forall₂ (fun x p => p.nameBytes = Text.Utf8.encode x.1) a.toList (a.placed deflate) :=
      (presents_place deflate 0 a.toList).imp fun _ _ hp => hp.name
    rw [← map_fst_toList, List.map_map, ← List.forall₂_eq_eq_eq, List.forall₂_map_left_iff,
      List.forall₂_map_right_iff]
    exact hforall.flip
  rw [← List.pairwise_map, hnames, List.pairwise_map]
  exact Std.TreeMap.ordered_keys.imp fun h => Text.Utf8.encode_lt_encode (compare_lt_iff.mp h)

structure Parts (bytes : Bytes) (placed : List Placed) (directory stop : Nat) : Prop where
  fits : ∀ p ∈ placed, p.Fits
  count : placed.length < UInt16.size
  locals : Chain (fun p start stop => p.offset = start ∧ StandsAt bytes start p.localEntry ∧
    stop = start + p.localEntry.length) 0 placed directory
  records : Chain (fun p start stop => StandsAt bytes start p.centralRecord ∧
    stop = start + p.centralRecord.length) directory placed stop
  size : ∃ size, directory + size = stop ∧ StandsAt bytes stop (Placed.endRecord placed.length size directory)
  last : bytes.length = stop + EndRecord.size

lemma standsAt_of_encodeWith (h : a.encodeWith deflate = .ok bytes) :
    StandsAt bytes 0 (a.localPart deflate) ∧ StandsAt bytes (a.localPart deflate).length (a.directoryPart deflate) ∧
      StandsAt bytes ((a.localPart deflate).length + (a.directoryPart deflate).length) (Placed.endRecord
        (a.placed deflate).length (a.directoryPart deflate).length (a.localPart deflate).length) ∧
      bytes.length = (a.localPart deflate).length + (a.directoryPart deflate).length + EndRecord.size := by
  obtain ⟨-, -, hbytes⟩ := encodeWith_ok.mp h
  have hrest : StandsAt bytes (a.localPart deflate).length (a.directoryPart deflate ++ Placed.endRecord
      (a.placed deflate).length (a.directoryPart deflate).length (a.localPart deflate).length) := by
    refine ⟨[], ?_⟩
    rw [List.append_nil, hbytes, List.drop_left]
  refine ⟨⟨_, hbytes.symm⟩, hrest.left, hrest.next rfl rfl, ?_⟩
  rw [hbytes, List.length_append, List.length_append, Placed.length_endRecord, Nat.add_assoc]

lemma parts_of_encodeWith (h : a.encodeWith deflate = .ok bytes) (hl : bytes.length < UInt32.size) :
    Parts bytes (a.placed deflate) (a.localPart deflate).length
      ((a.localPart deflate).length + (a.directoryPart deflate).length) := by
  obtain ⟨hlocals, hrecords, hend, hlast⟩ := standsAt_of_encodeWith h
  have hchain := chain_place hlocals
  rw [Nat.zero_add] at hchain
  exact ⟨fun p => fits_of_mem_placed h hl, (encodeWith_ok.mp h).2.1, hchain, chain_flatMap hrecords,
    ⟨_, rfl, hend⟩, hlast⟩

theorem written_of_encodeWith (h : a.encodeWith deflate = .ok bytes) (hl : bytes.length < UInt32.size) :
    Written deflate a bytes (a.placed deflate) (a.localPart deflate).length
      ((a.localPart deflate).length + (a.directoryPart deflate).length) := by
  have hparts := parts_of_encodeWith h hl
  obtain ⟨size, hsize, hend⟩ := hparts.size
  refine ⟨presents_place deflate 0 a.toList, pairwise_placed deflate a, ?_, ?_,
    endAt hend hparts.last hsize hparts.count hl⟩
  · refine hparts.locals.mono fun p hp start stop ⟨hoffset, hstands, hstop⟩ => ?_
    subst hoffset hstop
    exact Placed.localAt hstands (hparts.fits p hp)
  · refine hparts.records.mono fun p hp start stop ⟨hstands, hstop⟩ => ?_
    subst hstop
    exact Placed.centralAt hstands (hparts.fits p hp)

/-- An archive with few entries of short names is written unless some data is too large for its size field. A
file of less than four gigabytes consists of the entries in the order of their names, the directory with a record
for each of them, and the end record. -/
theorem save_layout (deflate : Bytes → Bytes) (a : Archive) (hcount : a.names.length ≤ 65535)
    (hnames : ∀ name ∈ a.names, (Text.Utf8.encode name).length ≤ 65535) :
    (∃ x ∈ a.toList, UInt32.size ≤ x.2.data.length ∧ a.encodeWith deflate = .error (.tooLarge x.1)) ∨
      ∃ bytes, a.encodeWith deflate = .ok bytes ∧
        (∀ p files files', a.saveWith deflate p files = (.ok (), files') → files'.read p = .ok bytes) ∧
        (bytes.length < UInt32.size → ∃ placed directory stop, Written deflate a bytes placed directory stop) := by
  rcases encodeWith_total hcount hnames with hlarge | ⟨bytes, hbytes⟩
  · exact .inl hlarge
  · refine .inr ⟨bytes, hbytes, fun p files files' hsave => ?_, fun hl => ⟨_, _, _, written_of_encodeWith hbytes hl⟩⟩
    obtain ⟨bytes', hbytes', hread⟩ := read_of_saveWith hsave
    obtain rfl := Except.ok.inj (hbytes.symm.trans hbytes')
    exact hread

def sample : Archive :=
  (empty.insert "classes.dex" ⟨[1, 2, 3], none⟩).insert "assets/readme.txt" ⟨[104, 101, 108, 108, 111], none⟩

lemma toList_sample : sample.toList =
    [("assets/readme.txt", ⟨[104, 101, 108, 108, 111], none⟩), ("classes.dex", ⟨[1, 2, 3], none⟩)] := by
  rfl

theorem save_layout_sample : sample.names.length ≤ 65535 ∧
    (∀ name ∈ sample.names, (Text.Utf8.encode name).length ≤ 65535) ∧
    ∃ bytes, sample.encodeWith Deflate.encode = .ok bytes ∧ bytes.length < UInt32.size ∧
      ∃ placed directory stop, Written Deflate.encode sample bytes placed directory stop := by
  have hcount : sample.names.length ≤ 65535 := by
    rw [← map_fst_toList, toList_sample]
    decide
  have hnames : ∀ name ∈ sample.names, (Text.Utf8.encode name).length ≤ 65535 := by
    rw [← map_fst_toList, toList_sample]
    decide
  refine ⟨hcount, hnames, ?_⟩
  rcases save_layout Deflate.encode sample hcount hnames with ⟨x, hx, hlarge, -⟩ | ⟨bytes, hbytes, -, hwritten⟩
  · have hsmall : ∀ x ∈ sample.toList, x.2.data.length < UInt32.size := by
      rw [toList_sample]
      decide
    exact absurd hlarge (Nat.not_le.mpr (hsmall x hx))
  · have hl : bytes.length < UInt32.size := by
      obtain ⟨-, -, rfl⟩ := encodeWith_ok.mp hbytes
      decide +kernel
    exact ⟨bytes, hbytes, hl, hwritten hl⟩

end DexUnseal.Archive
