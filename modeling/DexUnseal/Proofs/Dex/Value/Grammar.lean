import DexUnseal.Proofs.Dex.Value

/-!
The grammar of encoded values, for any writer: payloads may be wider than they need to be, and so may the counts and
indices between values. The reader accepts the words of this grammar and gives the values that they spell, as long as
these are not nested too deep.
-/

namespace DexUnseal.Dex

inductive Extension where
  | sign
  | zero
  | low

def Extension.extend (e : Extension) (width : Nat) (payload : Bytes) : Bytes :=
  let missing := width - payload.length
  match e with
  | sign => payload ++ List.replicate missing (if payload.getLastD 0 < 128 then 0x00 else 0xff)
  | zero => payload ++ List.replicate missing 0
  | low => List.replicate missing 0 ++ payload

inductive ScalarKind where
  | byte
  | short
  | char
  | int
  | long
  | float
  | double
  | index (kind : IndexKind)

namespace ScalarKind

def code : ScalarKind → Nat
  | byte => 0x00
  | short => 0x02
  | char => 0x03
  | int => 0x04
  | long => 0x06
  | float => 0x10
  | double => 0x11
  | index kind => kind.code

def width : ScalarKind → Nat
  | byte => 1
  | short => 2
  | char => 2
  | int => 4
  | long => 8
  | float => 4
  | double => 8
  | index _ => 4

def extension : ScalarKind → Extension
  | byte => .sign
  | short => .sign
  | char => .zero
  | int => .sign
  | long => .sign
  | float => .low
  | double => .low
  | index _ => .zero

/-- The value of a word of full width; signed numbers are in two's complement. -/
def ofWord : ScalarKind → Nat → Value
  | byte, n => .byte (UInt8.ofNat n).toInt8
  | short, n => .short (UInt16.ofNat n).toInt16
  | char, n => .char (UInt16.ofNat n)
  | int, n => .int (UInt32.ofNat n).toInt32
  | long, n => .long (UInt64.ofNat n).toInt64
  | float, n => .float (UInt32.ofNat n)
  | double, n => .double (UInt64.ofNat n)
  | index kind, n => .index kind (UInt32.ofNat n)

def extend (kind : ScalarKind) (width : Nat) (payload : Bytes) : Bytes := kind.extension.extend width payload

def value (kind : ScalarKind) (payload : Bytes) : Value :=
  kind.ofWord (Bytes.ofLittleEndian (kind.extend kind.width payload))

end ScalarKind

def tag (argument : Fin 8) (code : Nat) : UInt8 := UInt8.ofNat (argument * 32 + code)

mutual

/-- Bytes spell a value. The argument of a type without a payload says nothing, but for truth values. -/
inductive Value.Spells : Bytes → Value → Prop
  | scalar (kind : ScalarKind) {argument : Fin 8} {payload : Bytes} (hl : payload.length = argument + 1)
      (hw : payload.length ≤ kind.width) : Value.Spells (tag argument kind.code :: payload) (kind.value payload)
  | array (argument : Fin 8) {count : Bytes} {n : UInt32} {words : List Bytes} {values : List Value}
      (hc : Leb128.Spells count n) (hn : values.length = n.toNat) (hv : List.Forall₂ Value.Spells words values) :
      Value.Spells (tag argument 0x1c :: (count ++ words.flatten)) (.array values)
  | annotated (argument : Fin 8) {bytes : Bytes} {a : Annotation} (ha : Annotation.Spells bytes a) :
      Value.Spells (tag argument 0x1d :: bytes) (.annotated a)
  | null (argument : Fin 8) : Value.Spells [tag argument 0x1e] .null
  | boolean (argument : Fin 8) : Value.Spells [tag argument 0x1f] (.boolean (argument != 0))

inductive Annotation.Spells : Bytes → Annotation → Prop
  | intro {type count : Bytes} {typeIdx n : UInt32} {words : List Bytes} {elements : List Element}
      (ht : Leb128.Spells type typeIdx) (hc : Leb128.Spells count n) (hn : elements.length = n.toNat)
      (he : List.Forall₂ Element.Spells words elements) :
      Annotation.Spells (type ++ (count ++ words.flatten)) ⟨typeIdx, elements⟩

inductive Element.Spells : Bytes → Element → Prop
  | intro {name word : Bytes} {nameIdx : UInt32} {value : Value} (hn : Leb128.Spells name nameIdx)
      (hv : Value.Spells word value) : Element.Spells (name ++ word) ⟨nameIdx, value⟩

end

namespace Extension

variable {payload : Bytes} {width wider : Nat}

lemma length_extend (e : Extension) (h : payload.length ≤ width) : (e.extend width payload).length = width := by
  cases e <;> simp [extend] <;> omega

lemma extend_extend (e : Extension) (hl : payload.length ≤ width) (hw : width ≤ wider) :
    e.extend wider (e.extend width payload) = e.extend wider payload := by
  have hmissing : wider - payload.length = (width - payload.length) + (wider - width) := by omega
  have hlength := e.length_extend hl
  cases e with
  | sign =>
    -- the bytes put behind keep the sign, so the next ones are the same
    have hsign : (sign.extend width payload).getLastD 0 < 128 ↔ payload.getLastD 0 < 128 := by
      cases hm : width - payload.length with
      | zero => simp [extend, hm]
      | succ missing =>
        simp only [extend, hm, List.replicate_succ', ← List.append_assoc, List.getLastD_concat]
        split <;> simp_all
    simp only [extend] at hlength hsign ⊢
    rw [hlength, hmissing, List.replicate_add, ← List.append_assoc]
    simp only [hsign]
  | zero =>
    simp only [extend] at hlength ⊢
    rw [hlength, hmissing, List.replicate_add, List.append_assoc]
  | low =>
    simp only [extend] at hlength ⊢
    rw [hlength, hmissing, Nat.add_comm, List.replicate_add, List.append_assoc]

lemma ofLittleEndian_zero (payload : Bytes) (width : Nat) :
    Bytes.ofLittleEndian (zero.extend width payload) = Bytes.ofLittleEndian payload := by
  rw [extend, Bytes.ofLittleEndian_append, Bytes.ofLittleEndian_zeros fun b hb => List.eq_of_mem_replicate hb,
    Nat.mul_zero, Nat.add_zero]

lemma ofLittleEndian_low (payload : Bytes) (width : Nat) :
    Bytes.ofLittleEndian (low.extend width payload) =
      Bytes.ofLittleEndian payload * Bytes.capacity (width - payload.length) := by
  rw [extend, Bytes.ofLittleEndian_append, Bytes.ofLittleEndian_zeros fun b hb => List.eq_of_mem_replicate hb,
    List.length_replicate, Nat.zero_add, Nat.mul_comm]

lemma last_lt_iff (hn : payload ≠ []) :
    payload.getLastD 0 < 128 ↔ 2 * Bytes.ofLittleEndian payload < Bytes.capacity payload.length := by
  obtain ⟨front, b, rfl⟩ := (List.eq_nil_or_concat' payload).resolve_left hn
  have hfront := Bytes.ofLittleEndian_lt front
  have hlast : Bytes.ofLittleEndian [b] = b.toNat := by simp [Bytes.ofLittleEndian]
  rw [List.getLastD_concat, Leb128.last_iff, Bytes.ofLittleEndian_append, hlast, List.length_append,
    List.length_singleton, Bytes.capacity_succ]
  constructor
  · intro hb
    have hle := Nat.mul_le_mul_left (Bytes.capacity front.length) (Nat.le_of_lt_succ hb)
    omega
  · intro hlt
    by_contra hb
    have hle := Nat.mul_le_mul_left (Bytes.capacity front.length) (Nat.le_of_not_lt hb)
    omega

lemma signExtend_eq (hn : payload ≠ []) : Value.signExtend payload.length (Bytes.ofLittleEndian payload) =
    if payload.getLastD 0 < 128 then (Bytes.ofLittleEndian payload : Int)
    else Bytes.ofLittleEndian payload - Bytes.capacity payload.length := by
  have hlt := Bytes.ofLittleEndian_lt payload
  have hsign := last_lt_iff hn
  rw [Value.signExtend]
  split
  · rename_i hlast
    have hlow := hsign.mp hlast
    exact Int.bmod_eq_of_le_mul_two (by omega) (by omega)
  · rename_i hlast
    have hhigh := Nat.le_of_not_lt (mt hsign.mpr hlast)
    rw [← Int.sub_bmod_right]
    exact Int.bmod_eq_of_le_mul_two (by omega) (by omega)

lemma bmod_ofLittleEndian_sign (hn : payload ≠ []) (hl : payload.length ≤ width) :
    (Bytes.ofLittleEndian (sign.extend width payload) : Int).bmod (Bytes.capacity width) =
      (Value.signExtend payload.length (Bytes.ofLittleEndian payload)).bmod (Bytes.capacity width) := by
  rw [signExtend_eq hn, extend, Bytes.ofLittleEndian_append]
  split
  · rw [Bytes.ofLittleEndian_zeros fun b hb => List.eq_of_mem_replicate hb, Nat.mul_zero, Nat.add_zero]
  · have hcapacity := Bytes.capacity_add payload.length (width - payload.length)
    have hones := Bytes.ofLittleEndian_ones (width - payload.length)
    rw [Nat.add_sub_cancel' hl, ← hones, Nat.mul_add, Nat.mul_one] at hcapacity
    rw [← Int.sub_bmod_right]
    congr 1
    omega

end Extension

lemma ScalarKind.code_lt (kind : ScalarKind) : kind.code < 0x1c := by
  rcases kind with _ | _ | _ | _ | _ | _ | _ | kind <;> first | decide | (cases kind <;> decide)

lemma ScalarKind.code_injective : Function.Injective ScalarKind.code := by
  have hindex (kind : IndexKind) : 0x15 ≤ kind.code := by cases kind <;> decide
  rintro (_ | _ | _ | _ | _ | _ | _ | kind) (_ | _ | _ | _ | _ | _ | _ | kind') h
  all_goals
    simp only [code] at h
    first
    | rfl
    | omega
    | exact absurd (hindex kind) (by omega)
    | exact absurd (hindex kind') (by omega)
    | exact congrArg index (Option.some.inj (by rw [← Value.ofCode?_code, h, Value.ofCode?_code]))

lemma ScalarKind.height_value (kind : ScalarKind) (payload : Bytes) : (kind.value payload).height = 1 := by
  cases kind <;> simp [value, ofWord, Value.height]

section Tag

variable {argument argument' : Fin 8} {code code' : Nat}

lemma toNat_tag (hc : code < 32) : (tag argument code).toNat = argument * 32 + code := by
  have ha := argument.isLt
  rw [tag, UInt8.toNat_ofNat', Nat.mod_eq_of_lt (by omega)]

lemma tag_inj (hc : code < 32) (hc' : code' < 32) :
    tag argument code = tag argument' code' ↔ argument = argument' ∧ code = code' := by
  rw [← UInt8.toNat_inj, toNat_tag hc, toNat_tag hc', Fin.ext_iff]
  omega

lemma exists_tag (header : UInt8) : ∃ (argument : Fin 8) (code : Nat), code < 32 ∧ header = tag argument code := by
  have hlt : header.toNat < 256 := header.toNat_lt
  have hargument : header.toNat / 32 < 8 := by omega
  refine ⟨⟨header.toNat / 32, hargument⟩, header.toNat % 32, Nat.mod_lt _ (by decide), UInt8.toNat_inj.mp ?_⟩
  rw [toNat_tag (Nat.mod_lt _ (by decide))]
  exact (Nat.div_add_mod' header.toNat 32).symm

end Tag

namespace Value

variable {argument : Fin 8} {code : Nat} {payload : Bytes} {v : Value}

lemma Spells.behind_tag (h : Value.Spells (tag argument code :: payload) v) (hc : code < 32) :
    (∃ kind : ScalarKind, code = kind.code ∧ payload.length = argument + 1 ∧ payload.length ≤ kind.width ∧
        v = kind.value payload) ∨
      (code = 0x1c ∧ ∃ count n words values, payload = count ++ words.flatten ∧ Leb128.Spells count n ∧
        values.length = n.toNat ∧ List.Forall₂ Value.Spells words values ∧ v = .array values) ∨
      (code = 0x1d ∧ ∃ a, Annotation.Spells payload a ∧ v = .annotated a) ∨
      (code = 0x1e ∧ payload = [] ∧ v = .null) ∨
      (code = 0x1f ∧ payload = [] ∧ v = .boolean (argument != 0)) := by
  -- the code tells the constructor, and with it the argument is told by the tag
  generalize hb : tag argument code :: payload = bytes at h
  cases h with
  | scalar kind hl hw =>
    obtain ⟨ht, rfl⟩ := List.cons.inj hb
    obtain ⟨rfl, rfl⟩ := (tag_inj hc (Nat.lt_trans kind.code_lt (by decide))).mp ht
    exact .inl ⟨kind, rfl, hl, hw, rfl⟩
  | array _ hn hl hv =>
    obtain ⟨ht, rfl⟩ := List.cons.inj hb
    obtain ⟨rfl, rfl⟩ := (tag_inj hc (by decide)).mp ht
    exact .inr (.inl ⟨rfl, _, _, _, _, rfl, hn, hl, hv, rfl⟩)
  | annotated _ ha =>
    obtain ⟨ht, rfl⟩ := List.cons.inj hb
    obtain ⟨rfl, rfl⟩ := (tag_inj hc (by decide)).mp ht
    exact .inr (.inr (.inl ⟨rfl, _, ha, rfl⟩))
  | null =>
    obtain ⟨ht, rfl⟩ := List.cons.inj hb
    obtain ⟨rfl, rfl⟩ := (tag_inj hc (by decide)).mp ht
    exact .inr (.inr (.inr (.inl ⟨rfl, rfl, rfl⟩)))
  | boolean =>
    obtain ⟨ht, rfl⟩ := List.cons.inj hb
    obtain ⟨rfl, rfl⟩ := (tag_inj hc (by decide)).mp ht
    exact .inr (.inr (.inr (.inr ⟨rfl, rfl, rfl⟩)))

lemma spells_scalar_iff {kind : ScalarKind} : Value.Spells (tag argument kind.code :: payload) v ↔
    payload.length = argument + 1 ∧ payload.length ≤ kind.width ∧ v = kind.value payload := by
  have hlt := kind.code_lt
  constructor
  · intro h
    obtain ⟨kind', hk, hv⟩ | ⟨hk, -⟩ | ⟨hk, -⟩ | ⟨hk, -⟩ | ⟨hk, -⟩ := h.behind_tag (by omega)
    · rwa [ScalarKind.code_injective hk]
    all_goals omega
  · rintro ⟨hl, hw, rfl⟩
    exact .scalar kind hl hw

lemma spells_array_iff : Value.Spells (tag argument 0x1c :: payload) v ↔
    ∃ values, (∃ count n words, payload = count ++ words.flatten ∧ Leb128.Spells count n ∧
      values.length = n.toNat ∧ List.Forall₂ Value.Spells words values) ∧ v = .array values := by
  constructor
  · intro h
    obtain ⟨kind, hk, -⟩ | ⟨-, count, n, words, values, hp, hc, hn, hv, rfl⟩ | ⟨hk, -⟩ | ⟨hk, -⟩ | ⟨hk, -⟩ :=
      h.behind_tag (by decide)
    · exact absurd kind.code_lt (by omega)
    · exact ⟨values, ⟨count, n, words, hp, hc, hn, hv⟩, rfl⟩
    all_goals omega
  · rintro ⟨values, ⟨count, n, words, rfl, hc, hn, hv⟩, rfl⟩
    exact .array argument hc hn hv

lemma spells_annotated_iff : Value.Spells (tag argument 0x1d :: payload) v ↔
    ∃ a, Annotation.Spells payload a ∧ v = .annotated a := by
  constructor
  · intro h
    obtain ⟨kind, hk, -⟩ | ⟨hk, -⟩ | ⟨-, ha⟩ | ⟨hk, -⟩ | ⟨hk, -⟩ := h.behind_tag (by decide)
    · exact absurd kind.code_lt (by omega)
    · omega
    · exact ha
    all_goals omega
  · rintro ⟨a, ha, rfl⟩
    exact .annotated argument ha

lemma spells_null_iff : Value.Spells (tag argument 0x1e :: payload) v ↔ payload = [] ∧ v = .null := by
  constructor
  · intro h
    obtain ⟨kind, hk, -⟩ | ⟨hk, -⟩ | ⟨hk, -⟩ | ⟨-, hv⟩ | ⟨hk, -⟩ := h.behind_tag (by decide)
    · exact absurd kind.code_lt (by omega)
    · omega
    · omega
    · exact hv
    · omega
  · rintro ⟨rfl, rfl⟩
    exact .null argument

lemma spells_boolean_iff : Value.Spells (tag argument 0x1f :: payload) v ↔
    payload = [] ∧ v = .boolean (argument != 0) := by
  constructor
  · intro h
    obtain ⟨kind, hk, -⟩ | ⟨hk, -⟩ | ⟨hk, -⟩ | ⟨hk, -⟩ | ⟨-, hv⟩ := h.behind_tag (by decide)
    · exact absurd kind.code_lt (by omega)
    · omega
    · omega
    · omega
    · exact hv
  · rintro ⟨rfl, rfl⟩
    exact .boolean argument

end Value

end DexUnseal.Dex
