import DexUnseal.Proofs.Dex.Grammar
import DexUnseal.Proofs.Dex.Value.Grammar
import DexUnseal.Proofs.Pairing

/-! The reader of values takes the words of their grammar. -/

namespace DexUnseal.Dex

namespace Value

open Reader

lemma accepts_bytes (n : Nat) : Accepts (repeated u8 n) fun bytes xs => xs = bytes ∧ bytes.length = n := by
  refine (accepts_u8.repeated n).congr fun bytes xs => ⟨?_, ?_⟩
  · rintro ⟨rfl, words, rfl, hw⟩
    have hflatten : words.flatten = xs := by
      induction hw with
      | nil => rfl
      | cons hb _ ih => rw [List.flatten_cons, ih, hb, List.singleton_append]
    exact ⟨hflatten.symm, by rw [hflatten]⟩
  · rintro ⟨rfl, rfl⟩
    exact ⟨rfl, xs.map fun b => [b], by rw [← List.flatMap_def, List.flatMap_singleton'],
      List.forall₂_map_left_iff.mpr (List.forall₂_same.mpr fun _ _ => rfl)⟩

def AcceptsPayload (r : Reader α) (width most : Nat) (number : Bytes → α) : Prop :=
  Accepts r fun bytes x => bytes.length = width ∧ bytes.length ≤ most ∧ x = number bytes

lemma accepts_payload (width most : Nat) : AcceptsPayload (payload width most) width most Bytes.ofLittleEndian := by
  rw [AcceptsPayload, payload]
  split
  · refine (accepts_failHere _).congr fun bytes n => ⟨False.elim, ?_⟩
    rintro ⟨hl, hm, -⟩
    omega
  · refine (accepts_bytes width).then.congr fun bytes n => ⟨?_, ?_⟩
    · rintro ⟨_, ⟨rfl, hl⟩, rfl⟩
      exact ⟨hl, by omega, rfl⟩
    · rintro ⟨hl, -, rfl⟩
      exact ⟨bytes, ⟨rfl, hl⟩, rfl⟩

lemma AcceptsPayload.map {r : Reader α} {width most : Nat} {number : Bytes → α}
    (h : AcceptsPayload r width most number) (f : α → β) :
    AcceptsPayload (f <$> r) width most fun bytes => f (number bytes) := by
  refine (Accepts.map h).congr fun bytes y => ⟨?_, ?_⟩
  · rintro ⟨_, ⟨hl, hm, rfl⟩, rfl⟩
    exact ⟨hl, hm, rfl⟩
  · rintro ⟨hl, hm, rfl⟩
    exact ⟨_, ⟨hl, hm, rfl⟩, rfl⟩

lemma accepts_signed (width most : Nat) : AcceptsPayload (signed width most) width most fun bytes =>
    signExtend width (Bytes.ofLittleEndian bytes) :=
  (accepts_payload width most).map _

lemma accepts_high (width most : Nat) : AcceptsPayload (high width most) width most fun bytes =>
    Bytes.ofLittleEndian bytes * Bytes.capacity (most - width) :=
  (accepts_payload width most).map _

variable {nested : Reader Value} {argument : Fin 8} {bytes : Bytes}

lemma bmod_signExtend {width most : Nat} (hp : 0 < width) (hl : bytes.length = width) (hm : bytes.length ≤ most) :
    (signExtend width (Bytes.ofLittleEndian bytes)).bmod (Bytes.capacity most) =
      (Bytes.ofLittleEndian (Extension.sign.extend most bytes) : Int).bmod (Bytes.capacity most) := by
  subst hl
  exact (Extension.bmod_ofLittleEndian_sign (List.ne_nil_of_length_pos hp) hm).symm

lemma AcceptsPayload.scalar {r : Reader α} {number : Bytes → α} (kind : ScalarKind)
    (h : AcceptsPayload r (argument + 1) kind.width number) (f : α → Value)
    (hf : ∀ bytes : Bytes, bytes.length = argument + 1 → bytes.length ≤ kind.width →
      f (number bytes) = kind.value bytes) :
    AcceptsPayload (do return f (← r)) (argument + 1) kind.width kind.value := by
  rw [AcceptsPayload, bind_pure_comp]
  refine (h.map f).congr fun bytes v => and_congr_right fun hl => and_congr_right fun hm => ?_
  rw [← hf bytes hl hm]

lemma accepts_scalar (kind : ScalarKind) :
    AcceptsPayload (ofTag nested argument kind.code) (argument + 1) kind.width kind.value := by
  cases kind with
  | byte =>
    refine (accepts_signed (argument + 1) 1).scalar .byte (fun i => .byte (Int8.ofInt i)) fun bytes hl hm => ?_
    refine congrArg Value.byte (Int8.toInt_inj.mp ?_)
    rw [Int8.toInt_ofInt, UInt8.toInt8_ofNat', Int8.toInt_ofNat']
    exact bmod_signExtend (Nat.succ_pos _) hl hm
  | short =>
    refine (accepts_signed (argument + 1) 2).scalar .short (fun i => .short (Int16.ofInt i)) fun bytes hl hm => ?_
    refine congrArg Value.short (Int16.toInt_inj.mp ?_)
    rw [Int16.toInt_ofInt, UInt16.toInt16_ofNat', Int16.toInt_ofNat']
    exact bmod_signExtend (Nat.succ_pos _) hl hm
  | int =>
    refine (accepts_signed (argument + 1) 4).scalar .int (fun i => .int (Int32.ofInt i)) fun bytes hl hm => ?_
    refine congrArg Value.int (Int32.toInt_inj.mp ?_)
    rw [Int32.toInt_ofInt, UInt32.toInt32_ofNat', Int32.toInt_ofNat']
    exact bmod_signExtend (Nat.succ_pos _) hl hm
  | long =>
    refine (accepts_signed (argument + 1) 8).scalar .long (fun i => .long (Int64.ofInt i)) fun bytes hl hm => ?_
    refine congrArg Value.long (Int64.toInt_inj.mp ?_)
    rw [Int64.toInt_ofInt, UInt64.toInt64_ofNat', Int64.toInt_ofNat']
    exact bmod_signExtend (Nat.succ_pos _) hl hm
  | char =>
    refine (accepts_payload (argument + 1) 2).scalar .char (fun n => .char (UInt16.ofNat n)) fun bytes hl hm => ?_
    exact congrArg (fun n => Value.char (UInt16.ofNat n)) (Extension.ofLittleEndian_zero bytes 2).symm
  | index kind =>
    rw [ScalarKind.code, ofTag_index]
    refine (accepts_payload (argument + 1) 4).scalar (.index kind) (fun n => .index kind (UInt32.ofNat n))
      fun bytes hl hm => ?_
    exact congrArg (fun n => Value.index kind (UInt32.ofNat n)) (Extension.ofLittleEndian_zero bytes 4).symm
  | float =>
    refine (accepts_high (argument + 1) 4).scalar .float (fun n => .float (UInt32.ofNat n)) fun bytes hl hm => ?_
    rw [← hl]
    exact congrArg (fun n => Value.float (UInt32.ofNat n)) (Extension.ofLittleEndian_low bytes 4).symm
  | double =>
    refine (accepts_high (argument + 1) 8).scalar .double (fun n => .double (UInt64.ofNat n)) fun bytes hl hm => ?_
    rw [← hl]
    exact congrArg (fun n => Value.double (UInt64.ofNat n)) (Extension.ofLittleEndian_low bytes 8).symm

variable {code : Nat} {v : Value}

lemma accepts_listOf {n : Nat} (h : Accepts nested fun bytes v => Value.Spells bytes v ∧ v.height ≤ n) :
    Accepts (listOf nested) fun bytes values => (∃ count number words, bytes = count ++ words.flatten ∧
      Leb128.Spells count number ∧ values.length = number.toNat ∧ List.Forall₂ Value.Spells words values) ∧
      ∀ v ∈ values, v.height ≤ n := by
  refine (accepts_uleb128.bind fun number => h.repeated number.toNat).congr fun bytes values => ⟨?_, ?_⟩
  · rintro ⟨count, _, number, rfl, hc, hn, words, rfl, hv⟩
    obtain ⟨hv, hh⟩ := forall₂_and_right.mp hv
    exact ⟨⟨count, number, words, rfl, hc, hn, hv⟩, hh⟩
  · rintro ⟨⟨count, number, words, rfl, hc, hn, hv⟩, hh⟩
    exact ⟨count, _, number, rfl, hc, hn, words, rfl, forall₂_and_right.mpr ⟨hv, hh⟩⟩

lemma accepts_element {n : Nat} (h : Accepts nested fun bytes v => Value.Spells bytes v ∧ v.height ≤ n) :
    Accepts (do return (⟨← uleb128, ← nested⟩ : Element)) fun bytes e =>
      Element.Spells bytes e ∧ e.value.height ≤ n := by
  refine (accepts_uleb128.bind fun nameIdx => h.then).congr fun bytes e => ⟨?_, ?_⟩
  · rintro ⟨name, word, nameIdx, rfl, hn, v, ⟨hv, hh⟩, rfl⟩
    exact ⟨.intro hn hv, hh⟩
  · rintro ⟨⟨hn, hv⟩, hh⟩
    exact ⟨_, _, _, rfl, hn, _, ⟨hv, hh⟩, rfl⟩

lemma accepts_annotationOf {n : Nat} (h : Accepts nested fun bytes v => Value.Spells bytes v ∧ v.height ≤ n) :
    Accepts (annotationOf nested) fun bytes a => Annotation.Spells bytes a ∧ a.height ≤ n := by
  refine (accepts_uleb128.bind fun typeIdx => accepts_uleb128.bind fun number =>
    ((accepts_element h).repeated number.toNat).then).congr fun bytes a => ⟨?_, ?_⟩
  · rintro ⟨type, _, typeIdx, rfl, ht, count, _, number, rfl, hc, elements, ⟨hn, words, rfl, he⟩, rfl⟩
    obtain ⟨he, hh⟩ := forall₂_and_right.mp he
    exact ⟨.intro ht hc hn he, Annotation.height_le_iff.mpr hh⟩
  · rintro ⟨⟨ht, hc, hn, he⟩, hh⟩
    have helements := forall₂_and_right.mpr ⟨he, Annotation.height_le_iff.mp hh⟩
    exact ⟨_, _, _, rfl, ht, _, _, _, rfl, hc, _, ⟨hn, _, rfl, helements⟩, rfl⟩

lemma ofTag_unknown (hk : ¬ ∃ kind : ScalarKind, code = kind.code)
    (hc : ¬ (code = 0x1c ∨ code = 0x1d ∨ code = 0x1e ∨ code = 0x1f)) (argument : Nat) :
    ofTag nested argument code = failHere fun position => .unknownValueType code (position - 1) := by
  unfold ofTag
  split
  case h_1 => exact absurd ⟨.byte, rfl⟩ hk
  case h_2 => exact absurd ⟨.short, rfl⟩ hk
  case h_3 => exact absurd ⟨.char, rfl⟩ hk
  case h_4 => exact absurd ⟨.int, rfl⟩ hk
  case h_5 => exact absurd ⟨.long, rfl⟩ hk
  case h_6 => exact absurd ⟨.float, rfl⟩ hk
  case h_7 => exact absurd ⟨.double, rfl⟩ hk
  case h_12 =>
    split
    · rename_i kind hkind
      refine absurd ⟨.index kind, ?_⟩ hk
      unfold IndexKind.ofCode? at hkind
      split at hkind <;> cases hkind <;> rfl
    · rfl
  all_goals simp at hc

lemma accepts_ofTag {n : Nat} (h : Accepts nested fun bytes v => Value.Spells bytes v ∧ v.height ≤ n)
    (argument : Fin 8) (hc : code < 32) : Accepts (ofTag nested argument code) fun payload v =>
      Value.Spells (tag argument code :: payload) v ∧ v.height ≤ n + 1 := by
  by_cases hk : ∃ kind : ScalarKind, code = kind.code
  · obtain ⟨kind, rfl⟩ := hk
    refine (accepts_scalar kind).congr fun payload v => ?_
    rw [spells_scalar_iff]
    refine (and_iff_left_of_imp ?_).symm
    rintro ⟨-, -, rfl⟩
    rw [kind.height_value]
    exact Nat.le_add_left 1 n
  by_cases hother : code = 0x1c ∨ code = 0x1d ∨ code = 0x1e ∨ code = 0x1f
  · obtain rfl | rfl | rfl | rfl := hother
    · refine (accepts_listOf h).then.congr fun payload v => ?_
      rw [spells_array_iff]
      constructor
      · rintro ⟨values, ⟨hv, hh⟩, rfl⟩
        exact ⟨⟨values, hv, rfl⟩, Nat.succ_le_succ (heightEach_le_iff.mpr hh)⟩
      · rintro ⟨⟨values, hv, rfl⟩, hh⟩
        exact ⟨values, ⟨hv, heightEach_le_iff.mp (Nat.le_of_succ_le_succ hh)⟩, rfl⟩
    · refine (accepts_annotationOf h).then.congr fun payload v => ?_
      rw [spells_annotated_iff]
      constructor
      · rintro ⟨a, ⟨ha, hh⟩, rfl⟩
        exact ⟨⟨a, ha, rfl⟩, Nat.succ_le_succ hh⟩
      · rintro ⟨⟨a, ha, rfl⟩, hh⟩
        exact ⟨a, ⟨ha, Nat.le_of_succ_le_succ hh⟩, rfl⟩
    · refine (Accepts.pure _).congr fun payload v => ?_
      rw [spells_null_iff]
      refine (and_iff_left_of_imp ?_).symm
      rintro ⟨-, rfl⟩
      exact Nat.le_add_left 1 n
    · have htruth : ((argument : Nat) != 0) = (argument != 0) := by
        rw [Bool.eq_iff_iff, bne_iff_ne, bne_iff_ne, Ne, Ne, Fin.ext_iff]
        rfl
      refine (Accepts.pure _).congr fun payload v => ?_
      rw [spells_boolean_iff, htruth]
      refine (and_iff_left_of_imp ?_).symm
      rintro ⟨-, rfl⟩
      exact Nat.le_add_left 1 n
  · rw [ofTag_unknown hk hother]
    refine (accepts_failHere _).congr fun payload v => ⟨False.elim, ?_⟩
    rintro ⟨hv, -⟩
    obtain ⟨kind, hcode, -⟩ | ⟨hcode, -⟩ | ⟨hcode, -⟩ | ⟨hcode, -⟩ | ⟨hcode, -⟩ := hv.behind_tag hc
    · exact hk ⟨kind, hcode⟩
    all_goals exact hother (by tauto)

lemma Spells.exists_tag {bytes : Bytes} (h : Value.Spells bytes v) :
    ∃ (argument : Fin 8) (code : Nat) (payload : Bytes), code < 32 ∧ bytes = tag argument code :: payload := by
  cases h with
  | scalar kind => exact ⟨_, _, _, Nat.lt_trans kind.code_lt (by decide), rfl⟩
  | array argument => exact ⟨argument, _, _, by decide, rfl⟩
  | annotated argument => exact ⟨argument, _, _, by decide, rfl⟩
  | null argument => exact ⟨argument, _, _, by decide, rfl⟩
  | boolean argument => exact ⟨argument, _, _, by decide, rfl⟩

theorem accepts_readWithin (room : Nat) :
    Accepts (readWithin room) fun bytes v => Value.Spells bytes v ∧ v.height ≤ room := by
  -- the values in a value are read with one unit of room less, and are one level less high
  induction room with
  | zero =>
    refine (accepts_failHere _).congr fun bytes v => ⟨False.elim, ?_⟩
    rintro ⟨-, hh⟩
    exact absurd v.height_pos (Nat.not_lt.mpr hh)
  | succ room ih =>
    have htag (header : UInt8) : Accepts (ofTag (readWithin room) (header.toNat / 32) (header.toNat % 32))
        fun payload v => Value.Spells (header :: payload) v ∧ v.height ≤ room + 1 := by
      obtain ⟨argument, code, hc, rfl⟩ := Dex.exists_tag header
      have ha := argument.isLt
      rw [toNat_tag hc, show (argument * 32 + code) / 32 = argument by omega,
        show (argument * 32 + code) % 32 = code by omega]
      exact accepts_ofTag ih argument hc
    refine (accepts_u8.bind htag).congr fun bytes v => ⟨?_, ?_⟩
    · rintro ⟨_, payload, header, rfl, rfl, hv⟩
      exact hv
    · rintro ⟨hv, hh⟩
      obtain ⟨argument, code, payload, hc, rfl⟩ := hv.exists_tag
      exact ⟨[tag argument code], payload, _, rfl, rfl, hv, hh⟩

lemma height_le_iff {levels : Nat} : v.height ≤ levels + 1 ↔ ∀ depth x, v.Has depth x → depth ≤ levels :=
  ⟨fun h _ _ hx => Nat.le_of_lt_succ (Nat.lt_of_lt_of_le hx.depth_lt h), height_le_of_depth⟩

lemma read_ok_iff {file : Bytes} {position : Nat} {c : Cursor} : read (.ofOffset file position) = .ok (v, c) ↔
    ∃ bytes, StandsAt file position bytes ∧ Value.Spells bytes v ∧ (∀ depth x, v.Has depth x → depth ≤ 32) ∧
      c = .ofOffset file (position + bytes.length) := by
  simp only [← height_le_iff]
  refine (accepts_readWithin 33).ok_iff.trans (exists_congr fun bytes => ?_)
  simp only [Cursor.ofOffset, StandsAt]
  constructor
  · rintro ⟨⟨hv, hh⟩, hb, hp⟩
    refine ⟨⟨c.rest, hb.symm⟩, hv, hh, ?_⟩
    rw [← List.drop_drop, hb, List.drop_left, ← hp]
  · rintro ⟨⟨rest, hb⟩, hv, hh, rfl⟩
    refine ⟨⟨hv, hh⟩, ?_, rfl⟩
    rw [← List.drop_drop, ← hb, List.drop_left]

/-- The reader gives a value exactly where a word of the grammar stands, nested at most 32 deep. Payloads that are
made up to more bytes, as far as the type allows, are read as the ones that they were made from. -/
theorem read_iff_spells :
    (∀ file position v c, read (.ofOffset file position) = .ok (v, c) ↔ ∃ bytes, StandsAt file position bytes ∧
        Value.Spells bytes v ∧ (∀ depth x, v.Has depth x → depth ≤ 32) ∧
        c = .ofOffset file (position + bytes.length)) ∧
      ∀ (kind : ScalarKind) (payload : Bytes) (argument : Fin 8), payload ≠ [] → payload.length ≤ argument + 1 →
        argument + 1 ≤ kind.width → ∀ file position,
        StandsAt file position (tag argument kind.code :: kind.extend (argument + 1) payload) →
        read (.ofOffset file position) = .ok (kind.value payload, .ofOffset file (position + (argument + 2))) := by
  refine ⟨fun _ _ _ _ => read_ok_iff, fun kind payload argument hn hl hw file position hb => ?_⟩
  have hlength : (kind.extend (argument + 1) payload).length = argument + 1 := kind.extension.length_extend hl
  have hvalue : kind.value (kind.extend (argument + 1) payload) = kind.value payload :=
    congrArg (fun bytes => kind.ofWord (Bytes.ofLittleEndian bytes)) (kind.extension.extend_extend hl hw)
  refine read_ok_iff.mpr ⟨_, hb, spells_scalar_iff.mpr ⟨hlength, by rwa [hlength], hvalue.symm⟩, ?_, ?_⟩
  · rw [← height_le_iff, kind.height_value]
    exact by decide
  · rw [List.length_cons, hlength]

theorem read_iff_spells_sample : StandsAt [0x07, 0x44, 0x80, 0xff, 0xff, 0x07] 1 [0x44, 0x80, 0xff, 0xff] ∧
    read (.ofOffset [0x07, 0x44, 0x80, 0xff, 0xff, 0x07] 1) =
      .ok (.int (-128), .ofOffset [0x07, 0x44, 0x80, 0xff, 0xff, 0x07] 5) :=
  ⟨by decide, read_iff_spells.2 .int [0x80] 2 (by decide) (by decide) (by decide) _ _ (by decide)⟩

end Value

end DexUnseal.Dex
