import DexUnseal.Archive.Contents
import DexUnseal.Proofs.Bytes
import DexUnseal.Proofs.Steps

/-! The records of an archive file tell what was written into them, wherever they stand. -/

namespace DexUnseal.Archive

variable {bytes item more : Bytes} {offset n : Nat}

namespace Image

lemma size_ofBytes (bytes : Bytes) : (ofBytes bytes).size = bytes.length := by
  simp [ofBytes, size]

lemma slice_ofBytes (bytes : Bytes) (offset n : Nat) : (ofBytes bytes).slice offset n = (bytes.drop offset).take n := by
  simp [ofBytes, slice, List.take_drop]

lemma length_slice_le (f : Image) (offset n : Nat) : (f.slice offset n).length ≤ f.size - offset := by
  simp only [slice, size, Array.length_toList, Array.size_extract]
  omega

lemma slice_eq (h : StandsAt bytes offset item) (hn : item.length = n) : (ofBytes bytes).slice offset n = item := by
  subst hn
  rw [slice_ofBytes]
  exact (List.prefix_iff_eq_take.mp h).symm

lemma block_eq (h : StandsAt bytes offset item) (hn : item.length = n) : (ofBytes bytes).block offset n = .ok item := by
  simp [block, slice_eq h hn, hn, Pure.pure, Except.pure]

lemma hasSignature_iff {signature : UInt32} :
    (ofBytes bytes).hasSignature signature offset = true ↔ StandsAt bytes offset (Bytes.word32 signature) := by
  rw [hasSignature, decide_eq_true_iff, slice_ofBytes, StandsAt, List.prefix_iff_eq_take, Bytes.length_word32, eq_comm]

lemma number16 (h : StandsAt bytes offset (Placed.word16 n ++ more)) (hn : n < UInt16.size) :
    (ofBytes bytes).number 2 offset = .ok n ∧ StandsAt bytes (offset + 2) more := by
  refine ⟨?_, h.next (Bytes.length_word16 _) rfl⟩
  rw [number, block_eq h.left (Bytes.length_word16 _), Placed.word16]
  simp [Functor.map, Except.map, Bytes.ofLittleEndian_word16, Nat.mod_eq_of_lt hn]

lemma number32_mod (h : StandsAt bytes offset (Placed.word32 n ++ more)) :
    (ofBytes bytes).number 4 offset = .ok (n % UInt32.size) ∧ StandsAt bytes (offset + 4) more := by
  refine ⟨?_, h.next (Bytes.length_word32 _) rfl⟩
  rw [number, block_eq h.left (Bytes.length_word32 _), Placed.word32]
  simp [Functor.map, Except.map, Bytes.ofLittleEndian_word32]

lemma number32 (h : StandsAt bytes offset (Placed.word32 n ++ more)) (hn : n < UInt32.size) :
    (ofBytes bytes).number 4 offset = .ok n ∧ StandsAt bytes (offset + 4) more := by
  have hm := number32_mod h
  rwa [Nat.mod_eq_of_lt hn] at hm

lemma number16_last (h : StandsAt bytes offset (Placed.word16 n)) (hn : n < UInt16.size) :
    (ofBytes bytes).number 2 offset = .ok n := by
  have hw : StandsAt bytes offset (Placed.word16 n ++ []) := by rwa [List.append_nil]
  exact (number16 hw hn).1

lemma block_zero (f : Image) (offset : Nat) : f.block offset 0 = .ok [] := by
  simp [block, slice, Pure.pure, Except.pure]

end Image

namespace EndRecord

variable {count directorySize directoryOffset : Nat}

lemma readAt_eq (h : StandsAt bytes offset (Placed.endRecord count directorySize directoryOffset))
    (hc : count < UInt16.size) (hs : directorySize < UInt32.size) :
    readAt (.ofBytes bytes) offset =
      .ok (⟨0, 0, count, count, directorySize, directoryOffset % UInt32.size⟩, 0) := by
  simp only [Placed.endRecord, List.append_assoc] at h
  have h4 := h.next (Bytes.length_word32 _) rfl
  obtain ⟨n4, h6⟩ := Image.number16 h4 (by decide)
  obtain ⟨n6, h8⟩ := Image.number16 h6 (by decide)
  obtain ⟨n8, h10⟩ := Image.number16 h8 hc
  obtain ⟨n10, h12⟩ := Image.number16 h10 hc
  obtain ⟨n12, h16⟩ := Image.number32 h12 hs
  obtain ⟨n16, h20⟩ := Image.number32_mod h16
  have n20 := Image.number16_last h20 (by decide)
  simp only [readAt, n4, n6, n8, n10, n12, n16, n20, except_ok_bind, Image.block_zero]
  rfl

lemma find_eq (h : StandsAt bytes offset (Placed.endRecord count directorySize directoryOffset))
    (hl : bytes.length = offset + size) : find (.ofBytes bytes) = .ok offset := by
  simp only [Placed.endRecord, List.append_assoc] at h
  have hsig : (Image.ofBytes bytes).hasSignature endSignature offset = true := Image.hasSignature_iff.mpr h.left
  have hlast : (Image.ofBytes bytes).size - size = offset := by
    rw [Image.size_ofBytes, hl, Nat.add_sub_cancel]
  have hsize : ¬ (Image.ofBytes bytes).size < size := by
    rw [Image.size_ofBytes, hl]
    omega
  have hfirst : (Image.ofBytes bytes).size - (size + commentLimit) ≤ offset := by
    rw [Image.size_ofBytes, hl]
    omega
  have hfind (first : Nat) (hf : first ≤ offset) : (List.range' first (offset + 1 - first)).reverse.find?
      ((Image.ofBytes bytes).hasSignature endSignature) = some offset := by
    rw [Nat.sub_add_comm hf, List.range'_concat, List.reverse_append]
    simp [hf, hsig]
  rw [find, if_neg hsize, hlast]
  simp only [hfind _ hfirst]
  rfl

end EndRecord

namespace DirectoryPlace

lemma ofImage_eq {count directorySize directoryOffset : Nat}
    (h : StandsAt bytes offset (Placed.endRecord count directorySize directoryOffset))
    (hl : bytes.length = offset + EndRecord.size) (hc : count < UInt16.size) (hs : directorySize < UInt32.size)
    (hd : directorySize + directoryOffset % UInt32.size ≤ offset)
    (hz : (Image.ofBytes bytes).hasSignature Zip64.locatorSignature (offset - Zip64.locatorSize) = false) :
    ofImage (.ofBytes bytes) =
      .ok ⟨offset - directorySize - directoryOffset % UInt32.size, offset - directorySize, count⟩ := by
  have hlocator : Zip64.locator? (.ofBytes bytes) 0 = .ok none := by
    have ho : (Image.ofBytes bytes).size - (Zip64.locatorSize + EndRecord.size + 0) = offset - Zip64.locatorSize := by
      rw [Image.size_ofBytes, hl]
      omega
    simp only [Zip64.locator?, ho, hz, Bool.false_eq_true, and_false, if_false]
    rfl
  have hdisks : ¬ (¬ (EndRecord.mayOverflow ⟨0, 0, count, count, directorySize, directoryOffset % UInt32.size⟩) ∧
      (0 : Nat) ≠ 0) := by simp
  have hplace : directoryOffset % UInt32.size + (offset - directorySize - directoryOffset % UInt32.size) =
      offset - directorySize := by omega
  simp only [ofImage, EndRecord.find_eq h hl, EndRecord.readAt_eq h hc hs, except_ok_bind, hlocator, if_neg hdisks]
  rw [if_neg (Nat.not_lt.mpr hd), hplace]
  rfl

end DirectoryPlace

namespace Listing

variable {f : Image} {l : Listing} {data : Bytes}

lemma payloadOffset_ok : l.payloadOffset f = .ok offset ↔ l.payloadStart f = .ok offset ∧ l.hasAes = false := by
  rw [payloadOffset, except_bind_ok]
  simp [except_mapError_ok, except_guard_ok, Pure.pure, Except.pure]

lemma payloadOffset_crash {text : String} : l.payloadOffset f = .error (.crash text) ↔
    (∃ start, l.payloadStart f = .ok start) ∧ l.hasAes = true ∧ text = passwordCrash := by
  rw [payloadOffset]
  cases l.payloadStart f with
  | error fault => simp [Except.mapError, Bind.bind, Except.bind]
  | ok start => cases l.hasAes <;> simp [Except.mapError, Bind.bind, Except.bind, Pure.pure, Except.pure, eq_comm,
      throw, throwThe, MonadExceptOf.throw]

lemma le_of_payloadOffset (h : l.payloadOffset f = .ok offset) : l.offset + Archive.headerSize ≤ offset := by
  obtain ⟨h, -⟩ := payloadOffset_ok.mp h
  simp only [payloadStart, except_guard_ok, except_bind_ok, Pure.pure, Except.pure, Except.ok.injEq] at h
  obtain ⟨-, -, _, -, -, nameLength, -, extraLength, -, -, rfl⟩ := h
  omega

lemma data_of_stored (h : l.data f offset = .ok data) (hs : l.method = Compression.stored.code.toNat) :
    data = f.slice offset (min l.compressedSize f.size) := by
  have hmethod : ¬ Compression.stored.code.toNat = Compression.deflated.code.toNat := by decide
  simp only [Listing.data, hs, if_neg hmethod, except_guard_ok, Pure.pure, Except.pure, except_ok_bind,
    Except.ok.injEq] at h
  exact h.2.symm

end Listing

namespace Placed

structure Fits (p : Placed) : Prop where
  payload : p.payload.length < UInt32.size
  size : p.size < UInt32.size
  name : p.nameBytes.length < UInt16.size
  offset : p.offset < UInt32.size
  padding : p.padding < UInt16.size

def listing (p : Placed) (shift : Nat) : Listing :=
  { isEncrypted := false, method := p.compression.code.toNat, checksum := p.checksum.toNat
    compressedSize := p.payload.length, size := p.size, name := Text.CodePage437.decode p.nameBytes
    offset := p.offset + shift, hasAes := false }

variable {p : Placed} {shift : Nat}

@[simp] lemma length_word16 (n : Nat) : (word16 n).length = 2 := Bytes.length_word16 _

@[simp] lemma length_word32 (n : Nat) : (word32 n).length = 4 := Bytes.length_word32 _

lemma length_localEntry (p : Placed) :
    p.localEntry.length = headerSize + p.nameBytes.length + p.padding + p.payload.length := by
  simp only [localEntry, summary, List.length_append, Bytes.length_word16, Bytes.length_word32, length_word16,
    length_word32, List.length_replicate, headerSize]

lemma length_centralRecord (p : Placed) : p.centralRecord.length = Listing.headerSize + p.nameBytes.length := by
  simp only [centralRecord, summary, List.length_append, Bytes.length_word16, Bytes.length_word32, length_word16,
    length_word32, Listing.headerSize]

lemma length_endRecord (count directorySize directoryOffset : Nat) :
    (endRecord count directorySize directoryOffset).length = EndRecord.size := by
  simp only [endRecord, List.length_append, Bytes.length_word32, length_word16, length_word32, EndRecord.size]

lemma number_code {method : UInt16} (h : StandsAt bytes offset (Bytes.word16 method ++ more)) :
    (Image.ofBytes bytes).number 2 offset = .ok method.toNat ∧ StandsAt bytes (offset + 2) more := by
  have hw : Bytes.word16 method = word16 method.toNat := by rw [word16, UInt16.ofNat_toNat]
  rw [hw] at h
  exact Image.number16 h method.toNat_lt

lemma number_checksum {checksum : UInt32} (h : StandsAt bytes offset (Bytes.word32 checksum ++ more)) :
    (Image.ofBytes bytes).number 4 offset = .ok checksum.toNat ∧ StandsAt bytes (offset + 4) more := by
  have hw : Bytes.word32 checksum = word32 checksum.toNat := by rw [word32, UInt32.ofNat_toNat]
  rw [hw] at h
  exact Image.number32 h checksum.toNat_lt

lemma readAt_centralRecord (h : StandsAt bytes offset p.centralRecord) (hf : p.Fits)
    (hs : p.offset + shift < UInt64.size) :
    Listing.readAt (.ofBytes bytes) shift offset =
      .ok (p.listing shift, offset + Listing.headerSize + p.nameBytes.length) := by
  simp only [centralRecord, summary, List.append_assoc] at h
  have hsig := Image.block_eq h.left (Bytes.length_word32 _)
  have h4 := h.next (Bytes.length_word32 _) rfl
  obtain ⟨-, h6⟩ := Image.number16 h4 (by decide)
  obtain ⟨-, h8⟩ := Image.number16 h6 (by decide)
  obtain ⟨n8, h10⟩ := Image.number16 h8 (by decide)
  obtain ⟨n10, h12⟩ := number_code h10
  obtain ⟨-, h16⟩ := Image.number32 h12 (by decide)
  obtain ⟨n16, h20⟩ := number_checksum h16
  obtain ⟨n20, h24⟩ := Image.number32 h20 hf.payload
  obtain ⟨n24, h28⟩ := Image.number32 h24 hf.size
  obtain ⟨n28, h30⟩ := Image.number16 h28 hf.name
  obtain ⟨n30, h32⟩ := Image.number16 h30 (by decide)
  obtain ⟨n32, h34⟩ := Image.number16 h32 (by decide)
  obtain ⟨-, h36⟩ := Image.number16 h34 (by decide)
  obtain ⟨-, h38⟩ := Image.number16 h36 (by decide)
  obtain ⟨-, h42⟩ := Image.number32 h38 (by decide)
  obtain ⟨n42, h46⟩ := Image.number32 h42 hf.offset
  have hname : (Image.ofBytes bytes).block (offset + Listing.headerSize) p.nameBytes.length = .ok p.nameBytes :=
    Image.block_eq h46 rfl
  have hoverflow : ¬ UInt64.size ≤ p.offset + shift := Nat.not_le.mpr hs
  have hmethod : p.compression.code.toNat ≠ Listing.aesMethod := by cases p.compression <;> decide
  simp only [Listing.readAt, hsig, n8, n10, n16, n20, n24, n28, n30, n32, n42, hname, except_ok_bind,
    Image.block_zero, ne_eq, not_true_eq_false, if_false, List.length_nil, Listing.withExtra, Nat.zero_testBit,
    Bool.false_eq_true, Pure.pure, Except.pure, hmethod, false_and, hoverflow]
  rfl

lemma ofCode?_code (compression : Compression) : Compression.ofCode? compression.code.toNat = some compression := by
  cases compression <;> rfl

lemma payloadOffset_listing (h : StandsAt bytes (p.offset + shift) p.localEntry) (hf : p.Fits)
    (hr : isReachable (p.offset + shift) = true) :
    (p.listing shift).payloadOffset (.ofBytes bytes) =
        .ok (p.offset + shift + headerSize + p.nameBytes.length + p.padding) ∧
      StandsAt bytes (p.offset + shift + headerSize + p.nameBytes.length + p.padding) p.payload := by
  simp only [localEntry, summary, List.append_assoc] at h
  have hsig := Image.block_eq h.left (Bytes.length_word32 _)
  have h4 := h.next (Bytes.length_word32 _) rfl
  obtain ⟨-, h6⟩ := Image.number16 h4 (by decide)
  obtain ⟨-, h8⟩ := Image.number16 h6 (by decide)
  obtain ⟨-, h10⟩ := number_code h8
  obtain ⟨-, h14⟩ := Image.number32 h10 (by decide)
  obtain ⟨-, h18⟩ := number_checksum h14
  obtain ⟨-, h22⟩ := Image.number32 h18 hf.payload
  obtain ⟨-, h26⟩ := Image.number32 h22 hf.size
  obtain ⟨n26, h28⟩ := Image.number16 h26 hf.name
  obtain ⟨n28, h30⟩ := Image.number16 h28 hf.padding
  have hpayload := (h30.next rfl rfl).next (List.length_replicate ..) rfl
  refine ⟨?_, hpayload⟩
  refine Listing.payloadOffset_ok.mpr ⟨?_, rfl⟩
  simp only [Listing.payloadStart, listing, hsig, n26, n28, hr, ofCode?_code, except_ok_bind, ne_eq,
    not_true_eq_false, if_false, Bool.false_eq_true, Option.isNone_some]
  rfl

lemma data_listing (h : StandsAt bytes offset p.payload) (hs : p.compression = .stored)
    (hc : p.checksum = Digest.Crc32.checksum p.payload) :
    (p.listing shift).data (.ofBytes bytes) offset = .ok p.payload := by
  have hmin : min p.payload.length (Image.ofBytes bytes).size = p.payload.length := by
    rw [Image.size_ofBytes]
    exact Nat.min_eq_left h.length_le
  have hmethod : ¬ Compression.stored.code.toNat = Compression.deflated.code.toNat := by decide
  simp only [Listing.data, listing, hmin, Image.slice_eq h rfl, hs, hc, if_neg hmethod, Pure.pure, Except.pure,
    except_ok_bind, ne_eq, not_true_eq_false, if_false]

lemma data_deflated {data : Bytes} (h : StandsAt bytes offset p.payload) (hs : p.compression = .deflated)
    (hd : Deflate.decode p.payload = .ok data) (hc : p.checksum = Digest.Crc32.checksum data) :
    (p.listing shift).data (.ofBytes bytes) offset = .ok data := by
  have hmin : min p.payload.length (Image.ofBytes bytes).size = p.payload.length := by
    rw [Image.size_ofBytes]
    exact Nat.min_eq_left h.length_le
  simp only [Listing.data, listing, hmin, Image.slice_eq h rfl, hs, hc, hd, if_true, Except.mapError, Pure.pure,
    Except.pure, except_ok_bind, ne_eq, not_true_eq_false, if_false]

end Placed

end DexUnseal.Archive
