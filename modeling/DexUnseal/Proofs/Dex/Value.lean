import DexUnseal.Dex.Value
import DexUnseal.Proofs.Dex.Results

/-! Encoded values read back as they were written, if they are nested no deeper than the reader goes. -/

namespace DexUnseal.Dex

open Reader

mutual

/-- How many values the longest way down from a value passes, itself included. -/
def Value.height : Value → Nat
  | .array values => Value.heightEach values + 1
  | .annotated a => a.height + 1
  | _ => 1

def Value.heightEach : List Value → Nat
  | [] => 0
  | v :: values => max v.height (Value.heightEach values)

def Annotation.height : Annotation → Nat
  | ⟨_, elements⟩ => Element.heightEach elements

def Element.height : Element → Nat
  | ⟨_, value⟩ => value.height

def Element.heightEach : List Element → Nat
  | [] => 0
  | e :: elements => max e.height (Element.heightEach elements)

end

lemma Value.heightEach_le_iff {values : List Value} {n : Nat} :
    Value.heightEach values ≤ n ↔ ∀ v ∈ values, v.height ≤ n := by
  induction values with
  | nil => simp [Value.heightEach]
  | cons v values ih => rw [Value.heightEach, Nat.max_le, ih, List.forall_mem_cons]

lemma Element.heightEach_le_iff {elements : List Element} {n : Nat} :
    Element.heightEach elements ≤ n ↔ ∀ e ∈ elements, e.value.height ≤ n := by
  induction elements with
  | nil => simp [Element.heightEach]
  | cons e elements ih =>
    obtain ⟨nameIdx, value⟩ := e
    simp only [Element.heightEach, Element.height, Nat.max_le, ih, List.forall_mem_cons]

lemma Value.encodeEach_eq (values : List Value) : Value.encodeEach values = values.flatMap Value.encode := by
  induction values with
  | nil => simp [Value.encodeEach]
  | cons v values ih => simp [Value.encodeEach, ih]

lemma Element.encodeEach_eq (elements : List Element) :
    Element.encodeEach elements = elements.flatMap Element.encode := by
  induction elements with
  | nil => simp [Element.encodeEach]
  | cons e elements ih => simp [Element.encodeEach, ih]

lemma Element.length_le_encodeEach (elements : List Element) :
    elements.length ≤ (Element.encodeEach elements).length := by
  induction elements with
  | nil => simp
  | cons e elements ih =>
    obtain ⟨nameIdx, value⟩ := e
    have he := Leb128.encode_length_pos nameIdx
    simp only [Element.encodeEach, Element.encode, List.length_append, List.length_cons]
    omega

lemma Element.length_le_of_mem {elements : List Element} {e : Element} (h : e ∈ elements) :
    e.value.encode.length ≤ (Element.encodeEach elements).length := by
  obtain ⟨before, after, rfl⟩ := List.append_of_mem h
  obtain ⟨nameIdx, value⟩ := e
  simp only [Element.encodeEach_eq, List.flatMap_append, List.flatMap_cons, List.length_append, Element.encode]
  omega

lemma Annotation.height_le_iff {a : Annotation} {n : Nat} :
    a.height ≤ n ↔ ∀ e ∈ a.elements, e.value.height ≤ n := by
  obtain ⟨typeIdx, elements⟩ := a
  rw [height, Element.heightEach_le_iff]

lemma Annotation.length_elements_le (a : Annotation) : a.elements.length ≤ a.encode.length := by
  obtain ⟨typeIdx, elements⟩ := a
  have he := Element.length_le_encodeEach elements
  simp only [encode, List.length_append]
  omega

lemma Annotation.length_le_of_mem {a : Annotation} {e : Element} (h : e ∈ a.elements) :
    e.value.encode.length ≤ a.encode.length := by
  obtain ⟨typeIdx, elements⟩ := a
  have he : e.value.encode.length ≤ (Element.encodeEach elements).length := Element.length_le_of_mem h
  simp only [encode, List.length_append]
  omega

/-- A value and the values in it, with the number of arrays and annotations around them. -/
inductive Value.Has : Value → Nat → Value → Prop
  | self (v : Value) : Has v 0 v
  | array {values : List Value} {v x : Value} {depth : Nat} (hv : v ∈ values) (hx : Has v depth x) :
      Has (.array values) (depth + 1) x
  | annotated {a : Annotation} {e : Element} {x : Value} {depth : Nat} (he : e ∈ a.elements)
      (hx : Has e.value depth x) : Has (.annotated a) (depth + 1) x

def Value.size : Value → Nat
  | .array values => values.length
  | .annotated a => a.elements.length
  | _ => 0

def Value.Fits (v : Value) : Prop := ∀ depth x, v.Has depth x → x.size < UInt32.size

lemma Value.height_pos (v : Value) : 0 < v.height := by
  cases v <;> simp [height]

lemma Value.Has.depth_lt {v x : Value} {depth : Nat} (h : v.Has depth x) : depth < v.height := by
  induction h with
  | self v => exact v.height_pos
  | array hv _ ih =>
    have hle := heightEach_le_iff.mp (Nat.le_refl _) _ hv
    rw [height]
    omega
  | @annotated a e x depth he _ ih =>
    have hle := Annotation.height_le_iff.mp (Nat.le_refl a.height) e he
    rw [height]
    omega

lemma Value.height_le_of_depth {v : Value} {n : Nat} (h : ∀ depth x, v.Has depth x → depth ≤ n) :
    v.height ≤ n + 1 := by
  induction n generalizing v with
  | zero =>
    cases v with
    | array values =>
      rw [height, Nat.add_le_add_iff_right, heightEach_le_iff]
      intro v hv
      exact absurd (h 1 v (.array hv (.self v))) (by decide)
    | annotated a =>
      rw [height, Nat.add_le_add_iff_right, Annotation.height_le_iff]
      intro e he
      exact absurd (h 1 e.value (.annotated he (.self _))) (by decide)
    | _ => simp [height]
  | succ n ih =>
    cases v with
    | array values =>
      rw [height, Nat.add_le_add_iff_right, heightEach_le_iff]
      exact fun v hv => ih fun depth x hx => Nat.le_of_succ_le_succ (h _ x (.array hv hx))
    | annotated a =>
      rw [height, Nat.add_le_add_iff_right, Annotation.height_le_iff]
      exact fun e he => ih fun depth x hx => Nat.le_of_succ_le_succ (h _ x (.annotated he hx))
    | _ => simp [height]

namespace Value

lemma leastWidth_spec {f : Nat → Bool} (h : f 8) :
    f (leastWidth f) ∧ 1 ≤ leastWidth f ∧ ∀ width, 1 ≤ width → width ≤ 8 → f width → leastWidth f ≤ width := by
  rw [leastWidth]
  cases hf : (List.range' 1 7).find? f with
  | none =>
    refine ⟨h, by decide, fun width h₁ h₈ hw => ?_⟩
    rw [List.find?_range'_eq_none] at hf
    have hn := hf width h₁
    simp only [hw, Bool.not_true, Bool.false_eq_true, imp_false, Nat.not_lt] at hn
    exact hn
  | some least =>
    obtain ⟨hl, hm, hn⟩ := List.find?_range'_eq_some.mp hf
    refine ⟨hl, (List.mem_range'_1.mp hm).1, fun width h₁ _ hw => Nat.le_of_not_lt fun hlt => ?_⟩
    have hnw := hn width h₁ hlt
    simp [hw] at hnw

lemma FitsSigned.mono {m n : Nat} {v : Int} (h : FitsSigned m v) (hmn : m ≤ n) : FitsSigned n v := by
  have hc : Bytes.capacity m ≤ Bytes.capacity n := Nat.pow_le_pow_right (by decide) hmn
  obtain ⟨hl, hu⟩ := h
  exact ⟨by omega, by omega⟩

lemma signedWidth_spec {v : Int} {most : Nat} (h₁ : 1 ≤ most) (h₈ : most ≤ 8) (h : FitsSigned most v) :
    FitsSigned (signedWidth v) v ∧ 1 ≤ signedWidth v ∧ signedWidth v ≤ most := by
  obtain ⟨hf, hp, hl⟩ := leastWidth_spec (f := fun width => FitsSigned width v)
    (decide_eq_true (h.mono h₈))
  exact ⟨of_decide_eq_true hf, hp, hl most h₁ h₈ (decide_eq_true h)⟩

lemma unsignedWidth_spec {n most : Nat} (h₁ : 1 ≤ most) (h₈ : most ≤ 8) (h : n < Bytes.capacity most) :
    n < Bytes.capacity (unsignedWidth n) ∧ 1 ≤ unsignedWidth n ∧ unsignedWidth n ≤ most := by
  have hc : Bytes.capacity most ≤ Bytes.capacity 8 := Nat.pow_le_pow_right (by decide) h₈
  obtain ⟨hf, hp, hl⟩ := leastWidth_spec (f := fun width => n < Bytes.capacity width)
    (decide_eq_true (Nat.lt_of_lt_of_le h hc))
  exact ⟨of_decide_eq_true hf, hp, hl most h₁ h₈ (decide_eq_true h)⟩

lemma signExtend_emod {width : Nat} {v : Int} (h : FitsSigned width v) :
    signExtend width ((v % Bytes.capacity width).toNat % Bytes.capacity width) = v := by
  have hpos := Bytes.capacity_pos width
  have hn : ((v % Bytes.capacity width).toNat : Int) = v % Bytes.capacity width :=
    Int.toNat_of_nonneg (Int.emod_nonneg v (by omega))
  rw [signExtend, Int.natCast_emod, hn, Int.emod_emod, Int.emod_bmod]
  exact Int.bmod_eq_of_le_mul_two (by have := h.1; omega) (by have := h.2; omega)

lemma reads_payload {bytes : Bytes} {most : Nat} (h : bytes.length ≤ most) :
    Reads (payload bytes.length most) bytes (Bytes.ofLittleEndian bytes) := by
  rw [payload, if_neg (Nat.not_lt.mpr h)]
  have hb : Reads (repeated u8 bytes.length) (bytes.flatMap fun b => [b]) bytes :=
    reads_repeated_flatMap (fun b => [b]) fun b _ => reads_u8 b
  rw [List.flatMap_singleton'] at hb
  exact hb.then (Reads.pure _)

lemma encodeSigned_form (code : Nat) {most : Nat} {v : Int} (h₁ : 1 ≤ most) (h₈ : most ≤ 8) (h : FitsSigned most v) :
    ∃ bytes, encodeSigned code v = tagged code bytes ∧ 1 ≤ bytes.length ∧ bytes.length ≤ most ∧
      Reads (signed bytes.length most) bytes v := by
  obtain ⟨hf, hw, hm⟩ := signedWidth_spec h₁ h₈ h
  have hlen := Bytes.length_littleEndian (signedWidth v) (v % Bytes.capacity (signedWidth v)).toNat
  refine ⟨_, rfl, by rwa [hlen], by rwa [hlen], ?_⟩
  have hle : (Bytes.littleEndian (signedWidth v) (v % Bytes.capacity (signedWidth v)).toNat).length ≤ most := by
    rwa [hlen]
  have hp := (reads_payload hle).map (signExtend (signedWidth v))
  rw [Bytes.ofLittleEndian_littleEndian, signExtend_emod hf] at hp
  rwa [signed, hlen] at *

lemma encodeUnsigned_form (code : Nat) {most n : Nat} (h₁ : 1 ≤ most) (h₈ : most ≤ 8) (h : n < Bytes.capacity most) :
    ∃ bytes, encodeUnsigned code n = tagged code bytes ∧ 1 ≤ bytes.length ∧ bytes.length ≤ most ∧
      Reads (payload bytes.length most) bytes n := by
  obtain ⟨hf, hw, hm⟩ := unsignedWidth_spec h₁ h₈ h
  have hlen := Bytes.length_littleEndian (unsignedWidth n) n
  refine ⟨_, rfl, by rwa [hlen], by rwa [hlen], ?_⟩
  have hle : (Bytes.littleEndian (unsignedWidth n) n).length ≤ most := by rwa [hlen]
  have hp := reads_payload hle
  rwa [Bytes.ofLittleEndian_littleEndian, Nat.mod_eq_of_lt hf] at hp

lemma encodeHigh_form (code : Nat) {width bits : Nat} (h₁ : 1 ≤ width) (h : bits < Bytes.capacity width) :
    ∃ bytes, encodeHigh code width bits = tagged code bytes ∧ 1 ≤ bytes.length ∧ bytes.length ≤ width ∧
      Reads (high bytes.length width) bytes bits := by
  have hlen := Bytes.length_littleEndian width bits
  set bytes := Bytes.littleEndian width bits with hb
  set skipped := min (bytes.takeWhile (· == 0)).length (width - 1) with hs
  have hlen' : (bytes.drop skipped).length = width - skipped := by rw [List.length_drop, hlen]
  refine ⟨bytes.drop skipped, rfl, by omega, by omega, ?_⟩
  have hz : ∀ b ∈ bytes.take skipped, b = 0 := by
    obtain ⟨rest, hr⟩ := List.takeWhile_prefix (· == 0) (l := bytes)
    intro b hm
    rw [← hr, List.take_append_of_le_length (Nat.min_le_left _ _)] at hm
    simpa using List.all_eq_true.mp List.all_takeWhile b (List.mem_of_mem_take hm)
  have hv : Bytes.ofLittleEndian (bytes.drop skipped) * Bytes.capacity (width - (bytes.drop skipped).length) =
      bits := by
    have ha := Bytes.ofLittleEndian_append (bytes.take skipped) (bytes.drop skipped)
    rw [List.take_append_drop, Bytes.ofLittleEndian_zeros hz, hb, Bytes.ofLittleEndian_littleEndian,
      Nat.mod_eq_of_lt h, ← hb, List.length_take, hlen] at ha
    rw [hlen', ha, Nat.zero_add, Nat.mul_comm]
    congr 2
    omega
  have hle : (bytes.drop skipped).length ≤ width := by omega
  have hp := (reads_payload hle).map
    (· * Bytes.capacity (width - (bytes.drop skipped).length))
  rwa [hv] at hp

lemma reads_tagged {room code : Nat} {bytes : Bytes} {v : Value} (hc : code < 32) (h₁ : 1 ≤ bytes.length)
    (h₈ : bytes.length ≤ 8)
    (h : ∀ argument, bytes.length = argument + 1 → Reads (ofTag (readWithin room) argument code) bytes v) :
    Reads (readWithin (room + 1)) (tagged code bytes) v := by
  have hn : (UInt8.ofNat ((bytes.length - 1) * 32 + code)).toNat = (bytes.length - 1) * 32 + code := by
    rw [UInt8.toNat_ofNat']
    omega
  apply (reads_u8 (UInt8.ofNat ((bytes.length - 1) * 32 + code))).bind
  rw [hn, show ((bytes.length - 1) * 32 + code) / 32 = bytes.length - 1 by omega,
    show ((bytes.length - 1) * 32 + code) % 32 = code by omega]
  exact h _ (by omega)

lemma ofCode?_code (kind : IndexKind) : IndexKind.ofCode? kind.code = some kind := by
  cases kind <;> rfl

lemma ofTag_index (nested : Reader Value) (argument : Nat) (kind : IndexKind) :
    ofTag nested argument kind.code =
      (do return .index kind (UInt32.ofNat (← payload (argument + 1) 4))) := by
  cases kind <;> rfl

lemma reads_scalar_signed {room code most : Nat} {v : Int} {x : Value} (hc : code < 32) (h₁ : 1 ≤ most)
    (h₈ : most ≤ 8) (h : FitsSigned most v)
    (hr : ∀ argument bytes, Reads (signed (argument + 1) most) bytes v →
      Reads (ofTag (readWithin room) argument code) bytes x) :
    Reads (readWithin (room + 1)) (encodeSigned code v) x := by
  obtain ⟨bytes, he, hp, hm, hs⟩ := encodeSigned_form code h₁ h₈ h
  rw [he]
  exact reads_tagged hc hp (by omega) fun argument ha => hr argument bytes (ha ▸ hs)

lemma reads_scalar_unsigned {room code most n : Nat} {x : Value} (hc : code < 32) (h₁ : 1 ≤ most)
    (h₈ : most ≤ 8) (h : n < Bytes.capacity most)
    (hr : ∀ argument bytes, Reads (payload (argument + 1) most) bytes n →
      Reads (ofTag (readWithin room) argument code) bytes x) :
    Reads (readWithin (room + 1)) (encodeUnsigned code n) x := by
  obtain ⟨bytes, he, hp, hm, hs⟩ := encodeUnsigned_form code h₁ h₈ h
  rw [he]
  exact reads_tagged hc hp (by omega) fun argument ha => hr argument bytes (ha ▸ hs)

lemma reads_scalar_high {room code width bits : Nat} {x : Value} (hc : code < 32) (h₁ : 1 ≤ width)
    (h₈ : width ≤ 8) (h : bits < Bytes.capacity width)
    (hr : ∀ argument bytes, Reads (high (argument + 1) width) bytes bits →
      Reads (ofTag (readWithin room) argument code) bytes x) :
    Reads (readWithin (room + 1)) (encodeHigh code width bits) x := by
  obtain ⟨bytes, he, hp, hm, hs⟩ := encodeHigh_form code h₁ h
  rw [he]
  exact reads_tagged hc hp (by omega) fun argument ha => hr argument bytes (ha ▸ hs)

lemma fitsSigned_int8 (v : Int8) : FitsSigned 1 v.toInt := by
  have hl := v.le_toInt
  have hu := v.toInt_lt
  exact ⟨by simp [Bytes.capacity]; omega, by simp [Bytes.capacity]; omega⟩

lemma fitsSigned_int16 (v : Int16) : FitsSigned 2 v.toInt := by
  have hl := v.le_toInt
  have hu := v.toInt_lt
  exact ⟨by simp [Bytes.capacity]; omega, by simp [Bytes.capacity]; omega⟩

lemma fitsSigned_int32 (v : Int32) : FitsSigned 4 v.toInt := by
  have hl := v.le_toInt
  have hu := v.toInt_lt
  exact ⟨by simp [Bytes.capacity]; omega, by simp [Bytes.capacity]; omega⟩

lemma fitsSigned_int64 (v : Int64) : FitsSigned 8 v.toInt := by
  have hl := v.le_toInt
  have hu := v.toInt_lt
  exact ⟨by simp [Bytes.capacity]; omega, by simp [Bytes.capacity]; omega⟩

lemma encode_length_pos (v : Value) : 0 < v.encode.length := by
  cases v <;> simp [encode, encodeSigned, encodeUnsigned, encodeHigh, tagged]

lemma length_le_encodeEach (values : List Value) : values.length ≤ (encodeEach values).length := by
  induction values with
  | nil => simp
  | cons v values ih =>
    have hv := encode_length_pos v
    simp only [encodeEach, List.length_append, List.length_cons]
    omega

lemma length_le_of_mem {values : List Value} {v : Value} (h : v ∈ values) :
    v.encode.length ≤ (encodeEach values).length := by
  obtain ⟨before, after, rfl⟩ := List.append_of_mem h
  simp only [encodeEach_eq, List.flatMap_append, List.flatMap_cons, List.length_append]
  omega

lemma reads_listOf {nested : Reader Value} {values : List Value} (hlen : values.length < UInt32.size)
    (h : ∀ v ∈ values, Reads nested v.encode v) :
    Reads (listOf nested) (encodeArray values) values := by
  apply (reads_uleb128 _).bind
  rw [UInt32.toNat_ofNat_of_lt' hlen, encodeEach_eq]
  exact reads_repeated_flatMap encode h

lemma reads_element {nested : Reader Value} {e : Element} (h : Reads nested e.value.encode e.value) :
    Reads (do return (⟨← uleb128, ← nested⟩ : Element)) e.encode e := by
  obtain ⟨nameIdx, value⟩ := e
  rw [Element.encode]
  exact (reads_uleb128 nameIdx).bind (h.then (Reads.pure _))

lemma reads_annotationOf {nested : Reader Value} {a : Annotation} (hlen : a.elements.length < UInt32.size)
    (h : ∀ e ∈ a.elements, Reads nested e.value.encode e.value) :
    Reads (annotationOf nested) a.encode a := by
  obtain ⟨typeIdx, elements⟩ := a
  have hn : (UInt32.ofNat elements.length).toNat = elements.length := UInt32.toNat_ofNat_of_lt' hlen
  simp only [annotationOf, Annotation.encode, List.append_assoc]
  refine (reads_uleb128 typeIdx).bind ((reads_uleb128 _).bind (Reads.then ?_ (Reads.pure _)))
  rw [hn, Element.encodeEach_eq]
  exact reads_repeated_flatMap Element.encode fun e he => reads_element (h e he)

/-- Each level of nesting uses up one unit of room. -/
theorem reads_of_fits {room : Nat} {v : Value} (hv : v.height ≤ room) (hf : v.Fits) :
    Reads (readWithin room) v.encode v := by
  induction room generalizing v with
  | zero => cases v <;> simp [height] at hv
  | succ room ih =>
    cases v with
    | byte v =>
      exact reads_scalar_signed (by decide) (by decide) (by decide) (fitsSigned_int8 v) fun argument bytes h =>
        h.then (by rw [Int8.ofInt_toInt]; exact Reads.pure _)
    | short v =>
      exact reads_scalar_signed (by decide) (by decide) (by decide) (fitsSigned_int16 v) fun argument bytes h =>
        h.then (by rw [Int16.ofInt_toInt]; exact Reads.pure _)
    | int v =>
      exact reads_scalar_signed (by decide) (by decide) (by decide) (fitsSigned_int32 v) fun argument bytes h =>
        h.then (by rw [Int32.ofInt_toInt]; exact Reads.pure _)
    | long v =>
      exact reads_scalar_signed (by decide) (by decide) (by decide) (fitsSigned_int64 v) fun argument bytes h =>
        h.then (by rw [Int64.ofInt_toInt]; exact Reads.pure _)
    | char v =>
      have hv : v.toNat < Bytes.capacity 2 := v.toNat_lt
      exact reads_scalar_unsigned (by decide) (by decide) (by decide) hv fun argument bytes h =>
        h.then (by rw [UInt16.ofNat_toNat]; exact Reads.pure _)
    | float bits =>
      exact reads_scalar_high (by decide) (by decide) (by decide) bits.toNat_lt fun argument bytes h =>
        h.then (by rw [UInt32.ofNat_toNat]; exact Reads.pure _)
    | double bits =>
      exact reads_scalar_high (by decide) (by decide) (by decide) bits.toNat_lt fun argument bytes h =>
        h.then (by rw [UInt64.ofNat_toNat]; exact Reads.pure _)
    | index kind v =>
      have hv : v.toNat < Bytes.capacity 4 := v.toNat_lt
      refine reads_scalar_unsigned (by cases kind <;> decide) (by decide) (by decide) hv
        fun argument bytes h => ?_
      rw [ofTag_index]
      exact h.then (by rw [UInt32.ofNat_toNat]; exact Reads.pure _)
    | null => exact (reads_u8 0x1e).then (Reads.pure _)
    | boolean v => cases v <;> exact (reads_u8 _).then (Reads.pure _)
    | array values =>
      rw [height, Nat.add_le_add_iff_right, heightEach_le_iff] at hv
      have hlist : Reads (listOf (readWithin room)) (encodeArray values) values :=
        reads_listOf (hf 0 _ (.self _)) fun w hw => ih (hv w hw) fun depth x hx => hf _ x (.array hw hx)
      exact (reads_u8 0x1c).bind (hlist.then (Reads.pure _))
    | annotated a =>
      rw [height, Nat.add_le_add_iff_right, Annotation.height_le_iff] at hv
      have ha : Reads (annotationOf (readWithin room)) a.encode a :=
        reads_annotationOf (hf 0 _ (.self _)) fun e he => ih (hv e he) fun depth x hx => hf _ x (.annotated he hx)
      exact (reads_u8 0x1d).bind (ha.then (Reads.pure _))

lemma size_le_length (v : Value) : v.size ≤ v.encode.length := by
  cases v with
  | array values =>
    have hle := length_le_encodeEach values
    simp only [size, encode, List.length_cons, List.length_append]
    omega
  | annotated a =>
    have hle := a.length_elements_le
    simp only [size, encode, List.length_cons]
    omega
  | _ => exact Nat.zero_le _

lemma Has.length_le {v x : Value} {depth : Nat} (h : v.Has depth x) : x.encode.length ≤ v.encode.length := by
  induction h with
  | self v => exact Nat.le_refl _
  | array hv _ ih =>
    have hle := length_le_of_mem hv
    simp only [encode, List.length_cons, List.length_append]
    omega
  | @annotated a e x depth he _ ih =>
    have hle := a.length_le_of_mem he
    simp only [encode, List.length_cons]
    omega

lemma fits_of_length {v : Value} (h : v.encode.length < UInt32.size) : v.Fits := fun _ x hx =>
  Nat.lt_of_le_of_lt (Nat.le_trans x.size_le_length hx.length_le) h

theorem reads_encode {room : Nat} {v : Value} (hv : v.height ≤ room) (hlen : v.encode.length < UInt32.size) :
    Reads (readWithin room) v.encode v :=
  reads_of_fits hv (fits_of_length hlen)

def Shallow (values : List Value) : Prop := ∀ v ∈ values, v.height ≤ room 1

theorem reads_encodeArray {values : List Value} (hv : Shallow values)
    (hlen : (encodeArray values).length < UInt32.size) : Reads readArray (encodeArray values) values := by
  simp only [encodeArray, List.length_append] at hlen
  have hcount := length_le_encodeEach values
  refine reads_listOf (by omega) fun v hm => reads_encode (hv v hm) ?_
  have := length_le_of_mem hm
  omega

end Value

theorem Annotation.reads_encode {a : Annotation} (ha : a.height ≤ Value.room 1)
    (hlen : a.encode.length < UInt32.size) : Reads Annotation.read a.encode a := by
  have hle := a.length_elements_le
  replace ha := Annotation.height_le_iff.mp ha
  refine Value.reads_annotationOf (by omega) fun e he => Value.reads_encode (ha e he) ?_
  have := a.length_le_of_mem he
  omega

namespace Value

lemma gives_listOf {nested : Reader Value} {n : Nat} (h : Gives nested fun v => v.height ≤ n) :
    Gives (listOf nested) fun values => ∀ v ∈ values, v.height ≤ n :=
  Gives.after fun count => (h.repeated count.toNat).mono fun _ hv => hv.2

lemma gives_annotationOf {nested : Reader Value} {n : Nat} (h : Gives nested fun v => v.height ≤ n) :
    Gives (annotationOf nested) fun a => a.height ≤ n := by
  have he : Gives (do return (⟨← uleb128, ← nested⟩ : Element)) fun e => e.value.height ≤ n :=
    Gives.after fun nameIdx => h.bind fun v hv => Gives.pure hv
  refine Gives.after fun typeIdx => Gives.after fun count => (he.repeated count.toNat).bind fun elements hs => ?_
  apply Gives.pure
  exact Annotation.height_le_iff.mpr hs.2

lemma gives_height (room : Nat) : Gives (readWithin room) fun v => v.height ≤ room := by
  induction room with
  | zero => exact Gives.failHere _
  | succ room ih =>
    refine Gives.after fun header => ?_
    unfold ofTag
    split
    case h_8 => exact (gives_listOf ih).bind fun values hv => Gives.pure (by
      rw [height, Nat.add_le_add_iff_right, heightEach_le_iff]
      exact hv)
    case h_9 => exact (gives_annotationOf ih).bind fun a ha => Gives.pure (by
      rw [height, Nat.add_le_add_iff_right]
      exact ha)
    case h_10 => exact Gives.pure (by simp [height])
    case h_11 => exact Gives.pure (by simp [height])
    case h_12 =>
      split
      · exact Gives.after fun n => Gives.pure (by simp [height])
      · exact Gives.failHere _
    all_goals exact Gives.after fun n => Gives.pure (by simp [height])

theorem gives_readArray : Gives readArray Shallow :=
  gives_listOf (gives_height (room 1))

end Value

theorem Annotation.gives_height : Gives Annotation.read fun a => a.height ≤ Value.room 1 :=
  Value.gives_annotationOf (Value.gives_height (Value.room 1))

end DexUnseal.Dex
