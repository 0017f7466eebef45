import DexUnseal.Proofs.Dex.Value.Reading
import DexUnseal.Proofs.Dex.Value.Writing

/-! Writers of values take no more bytes than any others whose words are read as the same values. -/

namespace DexUnseal.Dex

open Reader Writer

/-- Wherever `x` is read, it is written in as many bytes as that took, or fewer. -/
def Shortest (write : Writer) (read : Reader α) (x : α) : Prop :=
  ∀ file position c, read (.ofOffset file position) = .ok (x, c) → ∀ buffer, position + (write buffer).1 ≤ c.position

lemma Shortest.intro {write : Writer} {read : Reader α} {G : Bytes → α → Prop} {bytes : Bytes} {x : α}
    (hw : write.Appends bytes) (hr : Accepts read G) (h : ∀ word, G word x → bytes.length ≤ word.length) :
    Shortest write read x := by
  intro file position c hc buffer
  obtain ⟨word, hword, -, hposition⟩ := hr.ok_iff.mp hc
  rw [hw buffer, hposition]
  exact Nat.add_le_add_left (h word hword) position

namespace Value

variable {payload : Bytes} {most : Nat}

lemma length_tagged (code : Nat) (payload : Bytes) : (tagged code payload).length = payload.length + 1 := rfl

lemma fitsSigned_signExtend (width raw : Nat) : FitsSigned width (signExtend width raw) := by
  have hpos := Bytes.capacity_pos width
  have hl := @Int.le_bmod raw (Bytes.capacity width) hpos
  have hu := @Int.bmod_lt raw (Bytes.capacity width) hpos
  rw [signExtend]
  exact ⟨by omega, by omega⟩

lemma length_encodeSigned_le {v : Int} (code : Nat) (hn : payload ≠ []) (hl : payload.length ≤ most) (hm : most ≤ 8)
    (hv : v = (Bytes.ofLittleEndian (Extension.sign.extend most payload) : Int).bmod (Bytes.capacity most)) :
    (encodeSigned code v).length ≤ payload.length + 1 := by
  have hfits := fitsSigned_signExtend payload.length (Bytes.ofLittleEndian payload)
  have hwide := hfits.mono hl
  rw [Extension.bmod_ofLittleEndian_sign hn hl, Int.bmod_eq_of_le_mul_two (by have := hwide.1; omega)
    (by have := hwide.2; omega)] at hv
  obtain ⟨-, -, hwidth⟩ := signedWidth_spec (List.length_pos_iff.mpr hn) (Nat.le_trans hl hm) (hv ▸ hfits)
  rw [encodeSigned, length_tagged, Bytes.length_littleEndian]
  exact Nat.succ_le_succ hwidth

lemma length_encodeUnsigned_le {n : Nat} (code : Nat) (hn : payload ≠ []) (hl : payload.length ≤ most) (hm : most ≤ 8)
    (hv : n ≤ Bytes.ofLittleEndian (Extension.zero.extend most payload)) :
    (encodeUnsigned code n).length ≤ payload.length + 1 := by
  rw [Extension.ofLittleEndian_zero] at hv
  obtain ⟨-, -, hwidth⟩ := unsignedWidth_spec (List.length_pos_iff.mpr hn) (Nat.le_trans hl hm)
    (Nat.lt_of_le_of_lt hv (Bytes.ofLittleEndian_lt payload))
  rw [encodeUnsigned, length_tagged, Bytes.length_littleEndian]
  exact Nat.succ_le_succ hwidth

lemma length_encodeHigh_le {bits : Nat} (code : Nat) (hn : payload ≠ []) (hl : payload.length ≤ most)
    (hv : bits = Bytes.ofLittleEndian (Extension.low.extend most payload) % Bytes.capacity most) :
    (encodeHigh code most bits).length ≤ payload.length + 1 := by
  have hlength := Extension.low.length_extend hl
  have hlt := Bytes.ofLittleEndian_lt (Extension.low.extend most payload)
  have hbytes := Bytes.littleEndian_ofLittleEndian (Extension.low.extend most payload)
  rw [hlength] at hlt hbytes
  rw [Nat.mod_eq_of_lt hlt] at hv
  -- the bytes that a narrow payload is made up with are among those that are left out
  have hzeros : most - payload.length ≤ ((Extension.low.extend most payload).takeWhile (· == 0)).length := by
    rw [Extension.extend, List.takeWhile_append_of_pos (by simp), List.length_append, List.length_replicate]
    exact Nat.le_add_right _ _
  have hpos := List.length_pos_iff.mpr hn
  rw [encodeHigh, length_tagged, hv, hbytes, List.length_drop, hlength]
  omega

end Value

lemma ScalarKind.length_encode_le (kind : ScalarKind) {payload : Bytes} (hn : payload ≠ [])
    (hl : payload.length ≤ kind.width) : (kind.value payload).encode.length ≤ payload.length + 1 := by
  cases kind with
  | byte =>
    apply Value.length_encodeSigned_le 0x00 hn hl (by decide)
    rw [UInt8.toInt8_ofNat', Int8.toInt_ofNat']
    rfl
  | short =>
    apply Value.length_encodeSigned_le 0x02 hn hl (by decide)
    rw [UInt16.toInt16_ofNat', Int16.toInt_ofNat']
    rfl
  | int =>
    apply Value.length_encodeSigned_le 0x04 hn hl (by decide)
    rw [UInt32.toInt32_ofNat', Int32.toInt_ofNat']
    rfl
  | long =>
    apply Value.length_encodeSigned_le 0x06 hn hl (by decide)
    rw [UInt64.toInt64_ofNat', Int64.toInt_ofNat']
    rfl
  | char =>
    apply Value.length_encodeUnsigned_le 0x03 hn hl (by decide)
    rw [UInt16.toNat_ofNat']
    exact Nat.mod_le _ _
  | index kind =>
    apply Value.length_encodeUnsigned_le kind.code hn hl (by decide : 4 ≤ 8)
    rw [UInt32.toNat_ofNat']
    exact Nat.mod_le _ _
  | float =>
    apply Value.length_encodeHigh_le 0x10 hn hl
    rw [UInt32.toNat_ofNat']
    rfl
  | double =>
    apply Value.length_encodeHigh_le 0x11 hn hl
    rw [UInt64.toNat_ofNat']
    rfl

lemma length_flatMap_le {R : Bytes → α → Prop} {words : List Bytes} {xs : List α} {f : α → Bytes}
    (h : List.Forall₂ R words xs) (hf : ∀ word x, R word x → (f x).length ≤ word.length) :
    (xs.flatMap f).length ≤ words.flatten.length := by
  induction h with
  | nil => exact Nat.le_refl _
  | cons hx _ ih =>
    rw [List.flatMap_cons, List.flatten_cons, List.length_append, List.length_append]
    exact Nat.add_le_add (hf _ _ hx) ih

namespace Value

lemma Spells.length_encode_le {n : Nat} {bytes : Bytes} {v : Value} (h : Value.Spells bytes v) (hv : v.height ≤ n) :
    v.encode.length ≤ bytes.length := by
  -- the relation nests through lists of words, so the induction is on the height of the value
  induction n generalizing bytes v with
  | zero => exact absurd v.height_pos (Nat.not_lt.mpr hv)
  | succ n ih =>
    cases h with
    | scalar kind hl hw =>
      exact kind.length_encode_le (List.ne_nil_of_length_pos (by omega)) hw
    | array argument hc hn hm =>
      rw [height, Nat.add_le_add_iff_right, heightEach_le_iff] at hv
      have hcount := hc.length_encode_le
      have hmembers : (List.flatMap encode _).length ≤ _ :=
        length_flatMap_le (forall₂_and_right.mpr ⟨hm, hv⟩) fun word v hx => ih hx.1 hx.2
      rw [encode, encodeEach_eq, hn, UInt32.ofNat_toNat]
      simp only [List.length_cons, List.length_append]
      omega
    | annotated argument ha =>
      cases ha with
      | intro ht hc hn he =>
        rw [height, Nat.add_le_add_iff_right, Annotation.height_le_iff] at hv
        have htype := ht.length_encode_le
        have hcount := hc.length_encode_le
        have helements : (List.flatMap Element.encode _).length ≤ _ :=
          length_flatMap_le (forall₂_and_right.mpr ⟨he, hv⟩) fun word e hx => by
            obtain ⟨⟨hname, hvalue⟩, hv⟩ := hx
            rw [Element.encode, List.length_append, List.length_append]
            exact Nat.add_le_add hname.length_encode_le (ih hvalue hv)
        rw [encode, Annotation.encode, Element.encodeEach_eq, hn, UInt32.ofNat_toNat]
        simp only [List.length_cons, List.length_append]
        omega
    | null => exact Nat.le_refl _
    | boolean => exact Nat.le_refl _

lemma shortest_uleb128 (n : UInt32) : Shortest (append (Leb128.encode n)) uleb128 n :=
  .intro (appends_append _) accepts_uleb128 fun _ h => h.length_encode_le

lemma shortest_write (v : Value) : Shortest v.write read v :=
  .intro v.appends_write (accepts_readWithin 33) fun _ h => h.1.length_encode_le h.2

/-- The counts and indices of a value, but for those of the values in it. -/
def numbers : Value → List UInt32
  | .array values => [UInt32.ofNat values.length]
  | .annotated a => a.typeIdx :: UInt32.ofNat a.elements.length :: a.elements.map Element.nameIdx
  | _ => []

/-- A value is written in no more bytes than it was read from, and nothing in it could be written in fewer: no value
nested in it, and none of their counts and indices. -/
theorem write_shortest {file : Bytes} {position : Nat} {v : Value} {c : Cursor}
    (h : read (.ofOffset file position) = .ok (v, c)) :
    (∀ buffer, ∃ bytes, v.write buffer = (bytes.length, buffer ++ bytes) ∧ position + bytes.length ≤ c.position) ∧
      ∀ depth x, v.Has depth x →
        Shortest x.write read x ∧ ∀ n ∈ x.numbers, Shortest (append (Leb128.encode n)) uleb128 n := by
  refine ⟨fun buffer => ⟨v.encode, v.appends_write buffer, ?_⟩,
    fun _ x _ => ⟨shortest_write x, fun n _ => shortest_uleb128 n⟩⟩
  have hv := shortest_write v file position c h buffer
  rwa [v.appends_write buffer] at hv

def wideSample : Bytes := [0x3d, 0x85, 0x00, 0x81, 0x80, 0x00, 0x83, 0x00, 0x44, 0x80, 0xff, 0xff]

theorem write_shortest_wideSample :
    read (.ofOffset wideSample 0) = .ok (.annotated ⟨5, [⟨3, .int (-128)⟩]⟩, .ofOffset wideSample 12) ∧
      ((Value.annotated ⟨5, [⟨3, .int (-128)⟩]⟩).write []).1 = 6 ∧
      Shortest (Value.int (-128)).write read (.int (-128)) ∧ Shortest (append (Leb128.encode 3)) uleb128 3 := by
  have h : read (.ofOffset wideSample 0) = .ok (.annotated ⟨5, [⟨3, .int (-128)⟩]⟩, .ofOffset wideSample 12) := by
    set_option maxRecDepth 2000 in rfl
  obtain ⟨-, hparts⟩ := write_shortest h
  refine ⟨h, rfl, ?_, ?_⟩
  · exact (hparts 1 _ (.annotated (List.mem_singleton_self _) (.self _))).1
  · exact (hparts 0 _ (.self _)).2 3 (by decide)

end Value

end DexUnseal.Dex
