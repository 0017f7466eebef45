import DexUnseal.Proofs.Archive.Layout

/-! A name at the end of the directory can look like the locator of a 64-bit end record. Such a file cannot be
read, as the locator leads nowhere. -/

namespace DexUnseal.Archive

variable {deflate : Bytes → Bytes} {a : Archive} {bytes : Bytes} {p : Placed} {offset n : Nat} {f : Image}

lemma number_ok {width : Nat} (h : f.number width offset = .ok n) :
    (f.slice offset width).length = width ∧ n = Bytes.ofLittleEndian (f.slice offset width) := by
  rw [Image.number, Image.block] at h
  split at h
  · exact ⟨‹_›, (Except.ok.inj h).symm⟩
  · cases h

namespace Zip64

lemma place_of_lt {announced stop : Nat} (h : stop < announced) (place : DirectoryPlace) :
    Zip64.place f announced stop ≠ .ok place := by
  intro hp
  rw [Zip64.place] at hp
  obtain ⟨-, hp⟩ := except_guard_ok.mp hp
  have hn : stop - reserve + 1 - announced = 0 := by omega
  simp only [hn, List.range'_zero, List.find?_nil] at hp
  cases hp

end Zip64

namespace Placed

def middle (n : Nat) : Bytes := word16 n ++ (List.replicate 8 0 ++ word32 (fileMode * 65536))

lemma centralRecord_middle (p : Placed) : ∃ front,
    p.centralRecord = front ++ (middle p.nameBytes.length ++ (word32 p.offset ++ p.nameBytes)) ∧ front.length = 28 := by
  refine ⟨Bytes.word32 centralSignature ++ word16 0x031e ++ word16 20 ++ word16 0 ++ Bytes.word16 p.compression.code ++
    word32 0 ++ Bytes.word32 p.checksum ++ word32 p.payload.length ++ word32 p.size, ?_, ?_⟩
  · have hzeros : List.replicate 8 (0 : UInt8) = word16 0 ++ (word16 0 ++ (word16 0 ++ word16 0)) := rfl
    simp only [centralRecord, summary, middle, hzeros, List.append_assoc]
  · simp only [List.length_append, Bytes.length_word16, Bytes.length_word32, length_word16, length_word32]

lemma length_middle (n : Nat) : (middle n).length = 14 := by
  simp only [middle, List.length_append, length_word16, length_word32, List.length_replicate]

/-- With a short name the locator would stand across fields that do not look like it. -/
lemma middle_ne_locator : ∀ n < 16, ∃ j < 4, ∃ k < 14, n + j = k + 2 ∧
    (Bytes.word32 Zip64.locatorSignature)[j]? ≠ (middle n)[k]? := by
  decide +kernel

lemma announced_in_name (h : StandsAt bytes offset p.centralRecord)
    (hl : StandsAt bytes (offset + 26 + p.nameBytes.length) (Bytes.word32 Zip64.locatorSignature)) :
    16 ≤ p.nameBytes.length ∧
      StandsAt bytes (offset + 34 + p.nameBytes.length) ((p.nameBytes.drop (p.nameBytes.length - 12)).take 8) := by
  obtain ⟨front, hrecord, hfront⟩ := p.centralRecord_middle
  rw [hrecord] at h
  have hmiddle := h.next hfront rfl
  have hname := (hmiddle.next (length_middle _) rfl).next (length_word32 _) rfl
  have hlong : 16 ≤ p.nameBytes.length := by
    by_contra hshort
    obtain ⟨j, hj, k, hk, hjk, hne⟩ := middle_ne_locator p.nameBytes.length (Nat.not_le.mp hshort)
    rw [← hl.getElem?_eq (by rwa [Bytes.length_word32]),
      ← hmiddle.left.getElem?_eq (by rwa [length_middle])] at hne
    exact hne (congrArg (bytes[·]?) (by omega))
  refine ⟨hlong, ?_⟩
  -- a locator ends with the 8 bytes that it announces and 4 more, which are all in the name
  have hsplit : p.nameBytes = p.nameBytes.take (p.nameBytes.length - 12) ++
      ((p.nameBytes.drop (p.nameBytes.length - 12)).take 8 ++ (p.nameBytes.drop (p.nameBytes.length - 12)).drop 8) := by
    rw [List.take_append_drop, List.take_append_drop]
  rw [hsplit] at hname
  refine (hname.next (List.length_take_of_le (Nat.sub_le _ _)) ?_).left
  omega

end Placed

lemma Chain.last {At : α → Nat → Nat → Prop} {start stop : Nat} {xs : List α} (h : Chain At start xs stop) :
    xs = [] ∧ stop = start ∨ ∃ x ∈ xs, ∃ start, At x start stop := by
  induction h with
  | nil start => exact .inl ⟨rfl, rfl⟩
  | @cons x xs start next stop head tail ih =>
    rcases ih with ⟨rfl, rfl⟩ | ⟨y, hy, s, hs⟩
    · exact .inr ⟨x, List.mem_cons_self, start, head⟩
    · exact .inr ⟨y, List.mem_cons_of_mem x hy, s, hs⟩

lemma Parts.announced {all : List Placed} {directory stop : Nat} (h : Parts bytes all directory stop)
    (hzero : ∀ p ∈ all, ∀ b ∈ p.nameBytes, b ≠ 0)
    (hz : StandsAt bytes (bytes.length - 42) (Bytes.word32 Zip64.locatorSignature)) :
    42 ≤ bytes.length ∧ UInt32.size ≤ Bytes.ofLittleEndian ((Image.ofBytes bytes).slice (bytes.length - 34) 8) := by
  have hlast := h.last
  rw [EndRecord.size] at hlast
  rcases h.records.last with ⟨rfl, rfl⟩ | ⟨p, hp, start, hrecord, hstop⟩
  · -- without entries there is nothing but the end record
    rcases h.locals.last with ⟨-, rfl⟩ | ⟨p, hp, -⟩
    · obtain ⟨size, -, hend⟩ := h.size
      rw [hlast] at hz
      simp only [Placed.endRecord, List.append_assoc] at hend
      have hthird := hz.getElem?_eq (i := 2) (by decide)
      rw [hend.left.getElem?_eq (i := 2) (by decide)] at hthird
      exact absurd hthird (by decide)
    · cases hp
  · rw [Placed.length_centralRecord, Listing.headerSize] at hstop
    have hposition : bytes.length - 42 = start + 26 + p.nameBytes.length := by omega
    have hposition' : bytes.length - 34 = start + 34 + p.nameBytes.length := by omega
    obtain ⟨hlong, hname⟩ := Placed.announced_in_name hrecord (hposition ▸ hz)
    have hlength : ((p.nameBytes.drop (p.nameBytes.length - 12)).take 8).length = 8 := by
      rw [List.length_take, List.length_drop]
      omega
    -- the highest byte of what is announced is part of the name, so it is not zero
    have hcapacity := Bytes.capacity_le (List.ne_nil_of_length_eq_add_one hlength)
      fun b hb => hzero p hp b (List.mem_of_mem_drop (List.mem_of_mem_take hb))
    have height : Bytes.capacity 8 = 256 * 2 ^ 56 := by decide
    rw [hlength, height] at hcapacity
    rw [hposition', Image.slice_eq hname hlength, UInt32.size]
    omega

/-- If no name has a zero in it, what a false locator announces is beyond the file. -/
lemma ofImage_ne_ok_of_locator (h : a.encodeWith deflate = .ok bytes) (hl : bytes.length < UInt32.size)
    (hzero : ∀ name ∈ a.names, '\x00' ∉ name.toList)
    (hz : StandsAt bytes (bytes.length - 42) (Bytes.word32 Zip64.locatorSignature)) (place : DirectoryPlace) :
    DirectoryPlace.ofImage (.ofBytes bytes) ≠ .ok place := by
  intro hp
  have hparts := parts_of_encodeWith h hl
  obtain ⟨size, hsize, hend⟩ := hparts.size
  have hlast := hparts.last
  have hnames : ∀ p ∈ a.placed deflate, ∀ b ∈ p.nameBytes, b ≠ 0 := by
    intro p hp b hb
    obtain ⟨x, hx, o, rfl⟩ := exists_of_mem_place hp
    exact Text.Utf8.ne_zero_of_mem_encode (hzero x.1 (fst_mem_names hx)) hb
  obtain ⟨hsize, hannounced⟩ := hparts.announced hnames hz
  have hlocator : Zip64.locatorSize + EndRecord.size + 0 ≤ (Image.ofBytes bytes).size ∧
      (Image.ofBytes bytes).hasSignature Zip64.locatorSignature
        ((Image.ofBytes bytes).size - (Zip64.locatorSize + EndRecord.size + 0)) = true := by
    rw [Image.size_ofBytes]
    exact ⟨hsize, Image.hasSignature_iff.mpr hz⟩
  obtain ⟨stop, hfind, hp⟩ := except_bind_ok.mp hp
  obtain ⟨⟨record, comment⟩, hread, hp⟩ := except_bind_ok.mp hp
  rw [EndRecord.find_eq hend hlast] at hfind
  obtain rfl := Except.ok.inj hfind
  rw [EndRecord.readAt_eq hend hparts.count (by omega)] at hread
  obtain ⟨rfl, rfl⟩ := Prod.mk.inj (Except.ok.inj hread)
  obtain ⟨-, hp⟩ := except_guard_ok.mp hp
  obtain ⟨found, hfound, hp⟩ := except_bind_ok.mp hp
  simp only [Zip64.locator?] at hfound
  rw [if_pos hlocator] at hfound
  obtain ⟨disk, -, hfound⟩ := except_bind_ok.mp hfound
  obtain ⟨announced, hn, hfound⟩ := except_bind_ok.mp hfound
  obtain rfl := Except.ok.inj hfound
  obtain ⟨-, rfl⟩ := number_ok hn
  obtain ⟨-, hp⟩ := except_guard_ok.mp hp
  refine Zip64.place_of_lt ?_ place hp
  have hoffset : (Image.ofBytes bytes).size - (Zip64.locatorSize + EndRecord.size + 0) + 8 = bytes.length - 34 := by
    rw [Image.size_ofBytes, Zip64.locatorSize, EndRecord.size]
    omega
  rw [hoffset]
  omega

end DexUnseal.Archive
