import DexUnseal.Dex.StringItem
import DexUnseal.Proofs.Dex.Value.Writing
import DexUnseal.Proofs.Text.ModifiedUtf8

/-! Pool strings read back as they were written. -/

namespace DexUnseal.Dex.StringData

open Reader

/-- Raw strings are what no text can stand for: bytes without a zero that are no modified UTF-8. -/
def WellFormed : StringData → Prop
  | decoded _ => True
  | raw _ bytes => 0 ∉ bytes ∧ Text.ModifiedUtf8.decode bytes = none

lemma reads_terminated {bytes : Bytes} (h : 0 ∉ bytes) : Reads terminated (bytes ++ [0]) bytes := by
  intro position rest
  have hb : ∀ b ∈ bytes, (b != 0) = true := by
    intro b hb
    simp only [bne_iff_ne]
    rintro rfl
    exact h hb
  simp only [terminated, List.append_assoc, List.dropWhile_append_of_pos hb,
    List.takeWhile_append_of_pos hb, List.singleton_append]
  simp [Nat.add_assoc]

theorem reads_encode {s : StringData} (h : s.WellFormed) : Reads read s.encode s := by
  cases s with
  | decoded text =>
    simp only [read, encode, List.append_assoc]
    refine (reads_uleb128 _).bind ((reads_terminated (Text.ModifiedUtf8.zero_notMem_encode text)).then ?_)
    simpa only [ofBytes, Text.ModifiedUtf8.decode_encode] using Reads.pure _
  | raw units bytes =>
    simp only [read, encode, List.append_assoc]
    refine (reads_uleb128 _).bind ((reads_terminated h.1).then ?_)
    simpa only [ofBytes, h.2] using Reads.pure _

lemma gives_terminated : Gives terminated (0 ∉ ·) := by
  intro c bytes c' h
  simp only [terminated] at h
  split at h
  · simp at h
  · obtain ⟨rfl, -⟩ := by simpa using h
    intro hz
    simpa using List.all_eq_true.mp (List.all_takeWhile (p := (· != 0))) 0 hz

theorem gives_wellFormed : Gives read WellFormed := by
  refine Gives.after fun units => gives_terminated.bind fun bytes hb => Gives.pure ?_
  rw [ofBytes]
  split
  · trivial
  · exact ⟨hb, ‹_›⟩

lemma WellFormed.roundTrips {s : StringData} (h : s.WellFormed) : RoundTrips (Writer.append s.encode) read s :=
  .intro (Writer.appends_append _) (reads_encode h)

/-- How long a text is in UTF-16, where supplementary characters take two units. -/
def utf16Length (text : String) : Nat := text.toList.length + text.toList.countP (0x10000 ≤ ·.toNat)

/-- Any text is read as it was written, and so is whatever was read before, in whichever form that was. A text is
written with its length in UTF-16, and the only zero byte behind that ends it. -/
theorem encode_roundTrips :
    (∀ text, (decoded text).encode =
        Leb128.encode (UInt32.ofNat (utf16Length text)) ++ (Text.ModifiedUtf8.encode text ++ [0]) ∧
      0 ∉ Text.ModifiedUtf8.encode text ∧ RoundTrips (Writer.append (decoded text).encode) read (decoded text)) ∧
      ∀ file position s c, read (.ofOffset file position) = .ok (s, c) →
        RoundTrips (Writer.append s.encode) read s := by
  refine ⟨fun text => ⟨?_, Text.ModifiedUtf8.zero_notMem_encode text, WellFormed.roundTrips trivial⟩,
    fun file position s c h => (gives_wellFormed _ _ _ h).roundTrips⟩
  rw [encode, Text.ModifiedUtf8.unitCount_eq, utf16Length, List.append_assoc]

def mixedSample : Bytes := [0x05, 0xff, 0x00, 0x01, 0xf0, 0x9f, 0x98, 0x80, 0x00]

theorem encode_roundTrips_mixedSample :
    read (.ofOffset mixedSample 0) = .ok (raw 5 [0xff], .ofOffset mixedSample 3) ∧
      read (.ofOffset mixedSample 3) = .ok (decoded "😀", .ofOffset mixedSample 9) ∧
      RoundTrips (Writer.append (raw 5 [0xff]).encode) read (raw 5 [0xff]) ∧
      RoundTrips (Writer.append (decoded "😀").encode) read (decoded "😀") ∧
      (decoded "😀").encode = [0x02, 0xed, 0xa0, 0xbd, 0xed, 0xb8, 0x80, 0x00] := by
  have hraw : read (.ofOffset mixedSample 0) = .ok (raw 5 [0xff], .ofOffset mixedSample 3) := by rfl
  have htext : read (.ofOffset mixedSample 3) = .ok (decoded "😀", .ofOffset mixedSample 9) := by rfl
  exact ⟨hraw, htext, encode_roundTrips.2 _ _ _ _ hraw, encode_roundTrips.2 _ _ _ _ htext, by decide⟩

end DexUnseal.Dex.StringData
