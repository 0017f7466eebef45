import DexUnseal.Dex.Header
import DexUnseal.Proofs.Dex.Results

/-! Headers read back as they were written, and so do the sections that they list. -/

namespace DexUnseal.Dex

open Reader

lemma Section.reads_encode (s : Section) : Reads read s.encode s :=
  (reads_u32 s.size).bind ((reads_u32 s.offset).then (Reads.pure _))

lemma Section.readAt_ofCount {file : Bytes} {offset : UInt32} {item : Nat → Reader α} {parts : List Bytes}
    {xs : List α} (h : List.Forall₂ (fun part x => ∀ i, Reads (item i) part x) parts xs)
    (hs : StandsAt file offset.toNat parts.flatten) (hn : xs.length < UInt32.size) :
    readAt (counted item 0 (ofCount xs.length offset).size.toNat) file (ofCount xs.length offset).offset.toNat =
      .ok xs := by
  rw [ofCount, UInt32.toNat_ofNat_of_lt' hn]
  apply (reads_counted h 0).readAt
  simp only
  split
  · rename_i hz
    rw [List.length_eq_zero_iff.mp (h.length_eq.trans hz)]
    exact List.nil_prefix
  · exact hs

namespace Header

lemma length_encode (h : Header) : h.encode.length = size := by
  simp [encode, encodeSigned, Section.encode, h.magic.property, h.signature.property, size]

lemma standsAt_mapOffset (h : Header) (rest : Bytes) : StandsAt (h.encode ++ rest) 0x34 (Bytes.word32 h.mapOffset) := by
  have hs := standsAt_append (h.magic.val ++ Bytes.word32 h.checksum ++ h.signature.val ++ Bytes.word32 h.fileSize
    ++ Bytes.word32 h.headerSize ++ Bytes.word32 h.endianTag ++ h.link.encode) (Bytes.word32 h.mapOffset)
    (h.strings.encode ++ h.types.encode ++ h.protos.encode ++ h.fields.encode ++ h.methods.encode
      ++ h.classes.encode ++ h.data.encode ++ rest)
  simpa [encode, encodeSigned, Section.encode, h.magic.property, h.signature.property] using hs

theorem reads_encode {file : Bytes} {h : Header} (hfile : size ≤ file.length)
    (hm : h.magic.val.take 4 = magicStart) (ht : h.endianTag = littleEndianTag) :
    Reads (read file) h.encode h := by
  simp only [encode, encodeSigned, List.append_assoc]
  refine Reads.skip (Reads.refuseIf (Nat.not_lt.mpr hfile) _) ((reads_block h.magic).bind ?_)
  apply Reads.skip (Reads.refuseIf (not_not.mpr hm) _)
  refine (reads_u32 h.checksum).bind ((reads_block h.signature).bind ((reads_u32 h.fileSize).bind ?_))
  refine (reads_u32 h.headerSize).bind ((reads_u32 h.endianTag).bind (h.link.reads_encode.bind ?_))
  refine (reads_u32 h.mapOffset).bind (h.strings.reads_encode.bind (h.types.reads_encode.bind ?_))
  refine h.protos.reads_encode.bind (h.fields.reads_encode.bind (h.methods.reads_encode.bind ?_))
  refine h.classes.reads_encode.bind (h.data.reads_encode.then ?_)
  have hb : ¬ h.endianTag = bigEndianTag := by rw [ht]; decide
  exact Reads.skip (Reads.refuseIf hb _) (Reads.skip (Reads.refuseIf (not_not.mpr ht) _) (Reads.pure _))

lemma gives_magic (file : Bytes) : Gives (read file) fun h => h.magic.val.take 4 = magicStart := by
  refine Gives.after fun _ => Gives.after fun magic => (Gives.refuseIf _ _).bind fun _ hm => ?_
  refine Gives.after fun _ => Gives.after fun _ => Gives.after fun _ => Gives.after fun _ => Gives.after fun _ => ?_
  refine Gives.after fun _ => Gives.after fun _ => Gives.after fun _ => Gives.after fun _ => Gives.after fun _ => ?_
  refine Gives.after fun _ => Gives.after fun _ => Gives.after fun _ => Gives.after fun _ => Gives.after fun _ => ?_
  exact Gives.after fun _ => Gives.pure (not_not.mp hm)

lemma gives_size (file : Bytes) : Gives (read file) fun _ => size ≤ file.length :=
  (Gives.refuseIf _ _).bind fun _ h => (Gives.trivial _).mono fun _ _ => Nat.not_lt.mp h

end Header

end DexUnseal.Dex
