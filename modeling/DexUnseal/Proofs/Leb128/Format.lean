import DexUnseal.Proofs.Dex.Machine.Words
import Mathlib.Algebra.BigOperators.Fin
import Mathlib.Data.Int.ModEq

/-! The format of LEB128 numbers: where a number ends in an input, the sum that its groups come to, and the groups of
numbers with a sign, of which there can be more than the number needs. Both decoders follow it, and what is written
without a sign is as short as it allows. -/

namespace DexUnseal.Leb128

variable {number other input rest : Bytes} {room length : Nat} {v : Int}

/-- The input is over where the number could go on. -/
def Unfinished (room : Nat) (input : Bytes) : Prop := input.length < room ∧ ∀ b ∈ input, ¬ b < 128

instance (room : Nat) (input : Bytes) : Decidable (Unfinished room input) := inferInstanceAs (Decidable (_ ∧ _))

def extent (room : Nat) (input : Bytes) : Nat := min (input.findIdx (· < 128) + 1) room

def taken (value : Bytes → α) (input : Bytes) : Option (α × Bytes × Bytes) :=
  if Unfinished maxLength input then none
  else
    let number := input.take (extent maxLength input)
    some (value number, number, input.drop (extent maxLength input))

lemma unfinished_nil (room : Nat) : Unfinished (room + 1) [] :=
  ⟨Nat.succ_pos room, fun _ h => absurd h List.not_mem_nil⟩

lemma not_unfinished {b : UInt8} (h : b < 128 ∨ room = 0) : ¬ Unfinished (room + 1) (b :: input) := by
  rintro ⟨hl, hc⟩
  obtain hb | rfl := h
  · exact hc b List.mem_cons_self hb
  · simp at hl

lemma extent_eq_one {b : UInt8} (h : b < 128 ∨ room = 0) : extent (room + 1) (b :: input) = 1 := by
  obtain hb | rfl := h
  · rw [extent, List.findIdx_cons, decide_eq_true hb, cond_true]
    exact Nat.min_eq_left (Nat.le_add_left 1 room)
  · exact Nat.min_eq_right (Nat.le_add_left 1 _)

lemma unfinished_cons {b : UInt8} (hb : ¬ b < 128) :
    Unfinished (room + 1) (b :: input) ↔ Unfinished room input := by
  rw [Unfinished, Unfinished, List.length_cons, Nat.add_lt_add_iff_right, List.forall_mem_cons, and_iff_right hb]

lemma extent_cons {b : UInt8} (hb : ¬ b < 128) : extent (room + 1) (b :: input) = extent room input + 1 := by
  rw [extent, extent, List.findIdx_cons, decide_eq_false hb, cond_false, Nat.add_min_add_right]

lemma cut_eq (room : Nat) (input : Bytes) :
    cut (room + 1) input = if Unfinished (room + 1) input then none
      else some (input.take (extent (room + 1) input), input.drop (extent (room + 1) input)) := by
  induction input generalizing room with
  | nil => exact (if_pos (unfinished_nil room)).symm
  | cons b input ih =>
    by_cases hb : b < 128 ∨ room = 0
    · rw [if_neg (not_unfinished hb), extent_eq_one hb, cut, if_pos hb]
      rfl
    · obtain ⟨hcont, hroom⟩ := not_or.mp hb
      obtain ⟨room, rfl⟩ := Nat.exists_eq_succ_of_ne_zero hroom
      rw [cut, if_neg hb, ih, extent_cons hcont]
      simp only [unfinished_cons hcont]
      split <;> rfl

lemma map_cut (value : Bytes → α) (input : Bytes) :
    (cut maxLength input).map (fun (number, rest) => (value number, number, rest)) = taken value input := by
  have hcut : cut maxLength input = if Unfinished maxLength input then none
      else some (input.take (extent maxLength input), input.drop (extent maxLength input)) := cut_eq 4 input
  rw [hcut, taken]
  split <;> rfl

def weighted (number : Bytes) : Nat := ∑ i : Fin number.length, number[i].toNat % 128 * 128 ^ i.val

/-- Of fewer than five groups the highest bit is the sign, of five the low bits make up the word. -/
def signedWord (number : Bytes) : Int32 :=
  .ofBitVec (if number.length < maxLength then (BitVec.ofNat (7 * number.length) (weighted number)).signExtend 32
    else .ofNat 32 (weighted number))

lemma unsigned_eq_weighted (number : Bytes) : unsigned number = weighted number := by
  induction number with
  | nil => rfl
  | cons b number ih =>
    have hs : ∑ i : Fin number.length, number[i].toNat % 128 * 128 ^ (i.val + 1) = 128 * weighted number := by
      rw [weighted, Finset.mul_sum]
      refine Finset.sum_congr rfl fun i _ => ?_
      rw [Nat.pow_succ, ← Nat.mul_assoc, Nat.mul_comm]
    rw [unsigned, ih, ← hs]
    simp [weighted, Fin.sum_univ_succ]

lemma sign_iff (hn : number ≠ []) :
    64 ≤ (number.getLastD 0).toNat % 128 ↔ capacity number.length ≤ 2 * unsigned number := by
  induction number with
  | nil => exact absurd rfl hn
  | cons b tail ih =>
    cases tail with
    | nil =>
      have hc : capacity [b].length = 128 := rfl
      rw [hc, unsigned, unsigned, List.getLastD_cons, List.getLastD_nil]
      omega
    | cons c tail =>
      have hlast : (b :: c :: tail).getLastD 0 = (c :: tail).getLastD 0 := rfl
      have hvalue : unsigned (b :: c :: tail) = b.toNat % 128 + 128 * unsigned (c :: tail) := rfl
      have hword : capacity (b :: c :: tail).length = 128 * capacity (c :: tail).length := capacity_succ _
      -- half of an even capacity is not made up for by the group below
      have heven : capacity (c :: tail).length = 128 * capacity tail.length := capacity_succ _
      rw [hlast, ih (List.cons_ne_nil c tail), hvalue, hword]
      omega

lemma signed_eq_bmod (hn : number ≠ []) (hl : number.length < maxLength) :
    signed number = (unsigned number : Int).bmod (capacity number.length) := by
  have hlt := unsigned_lt number
  have hmod : (unsigned number : Int) % capacity number.length = unsigned number :=
    Int.emod_eq_of_lt (by omega) (by omega)
  have heven : 2 ∣ capacity number.length := by
    obtain ⟨b, tail, rfl⟩ := List.exists_cons_of_ne_nil hn
    rw [List.length_cons, capacity_succ]
    omega
  rw [signed, Int.bmod_def, hmod]
  by_cases hs : 64 ≤ (number.getLastD 0).toNat % 128
  · have hhigh := (sign_iff hn).mp hs
    rw [if_pos ⟨hl, hs⟩, if_neg (by omega)]
  · have hlow := mt (sign_iff hn).mpr hs
    rw [if_neg fun h => hs h.2, if_pos (by omega)]

lemma ofInt_signed (number : Bytes) : Int32.ofInt (signed number) = signedWord number := by
  obtain rfl | hn := eq_or_ne number []
  · rfl
  rw [signedWord, ← unsigned_eq_weighted]
  by_cases hl : number.length < maxLength
  · rw [if_pos hl, signed_eq_bmod hn hl, BitVec.signExtend, BitVec.toInt_ofNat', ← capacity_eq_two_pow]
    rfl
  · rw [if_neg hl, signed, if_neg fun h => hl h.1]
    exact congrArg Int32.ofBitVec (BitVec.ofInt_natCast 32 (unsigned number))

lemma decode_eq_taken (input : Bytes) : decode input = taken (fun number => UInt32.ofNat (weighted number)) input :=
  calc decode input = taken (fun number => UInt32.ofNat (unsigned number)) input :=
        map_cut (fun number => UInt32.ofNat (unsigned number)) input
    _ = taken (fun number => UInt32.ofNat (weighted number)) input := by simp only [unsigned_eq_weighted]

lemma decodeSigned_eq_taken (input : Bytes) : decodeSigned input = taken signedWord input :=
  calc decodeSigned input = taken (fun number => Int32.ofInt (signed number)) input :=
        map_cut (fun number => Int32.ofInt (signed number)) input
    _ = taken signedWord input := by simp only [ofInt_signed]

section Words

open Dex

variable {image : Image} {ix : Nat}

def readOff (primitive : Primitive) (ix : Nat) : Option (α × Bytes × Bytes) → Except Halt (α × Nat)
  | some (x, number, _) => .ok (x, ix + number.length)
  | none => .error (.fault (.ofCause (.endOfStream primitive ix)))

lemma machine_uleb128 (hix : ix < 2 ^ 63) :
    Machine.uleb128 image ix = readOff .uleb128 ix (decode (image.val.drop ix)) := by
  have hrest : (Cursor.ofOffset image.val ix).rest = image.val.drop ix := rfl
  rw [(Machine.advances_uleb128 ix hix).eq, Reader.uleb128, hrest]
  cases decode (image.val.drop ix) <;> rfl

lemma machine_sleb128 (hix : ix < 2 ^ 63) :
    Machine.sleb128 image ix = readOff .sleb128 ix (decodeSigned (image.val.drop ix)) := by
  have hrest : (Cursor.ofOffset image.val ix).rest = image.val.drop ix := rfl
  rw [(Machine.advances_sleb128 ix hix).eq, Reader.sleb128, hrest]
  cases decodeSigned (image.val.drop ix) <;> rfl

end Words

def FitsSigned (length : Nat) (v : Int) : Prop := -(capacity length : Int) ≤ 2 * v ∧ 2 * v < capacity length

instance (length : Nat) (v : Int) : Decidable (FitsSigned length v) := inferInstanceAs (Decidable (_ ∧ _))

def signedGroups : (length : Nat) → (v : Int) → Bytes
  | 0, _ => []
  | length + 1, v => UInt8.ofNat ((v % 128).toNat + if length = 0 then 0 else 128) :: signedGroups length (v / 128)

/-- No more groups than it takes until the last one has the sign. -/
def encodeSigned : (room : Nat) → (v : Int) → Bytes
  | 0, _ => []
  | room + 1, v =>
    if FitsSigned 1 v then [UInt8.ofNat (v % 128).toNat]
    else UInt8.ofNat ((v % 128).toNat + 128) :: encodeSigned room (v / 128)

lemma fitsSigned_succ (h : 0 < length) : FitsSigned (length + 1) v ↔ FitsSigned length (v / 128) := by
  obtain ⟨length, rfl⟩ := Nat.exists_eq_add_of_le' h
  rw [FitsSigned, FitsSigned, capacity_succ (length + 1), capacity_succ]
  omega

lemma fitsSigned_int32 (x : Int32) : FitsSigned maxLength x.toInt := by
  have hl := x.le_toInt
  have hu := x.toInt_lt
  have hc : capacity maxLength = 2 ^ 35 := rfl
  rw [FitsSigned, hc]
  omega

lemma length_signedGroups (length : Nat) (v : Int) : (signedGroups length v).length = length := by
  induction length generalizing v with
  | zero => rfl
  | succ length ih => rw [signedGroups, List.length_cons, ih]

lemma signedGroups_ne_nil (length : Nat) (v : Int) : signedGroups (length + 1) v ≠ [] := List.cons_ne_nil _ _

lemma isNumber_signedGroups (hl : length ≤ room) : IsNumber (room + 1) (signedGroups (length + 1) v) := by
  induction length generalizing room v with
  | zero =>
    refine isNumber_singleton (.inl ?_)
    rw [last_iff, UInt8.toNat_ofNat', if_pos rfl]
    omega
  | succ length ih =>
    obtain ⟨room, rfl⟩ := Nat.exists_eq_add_of_le' (Nat.lt_of_lt_of_le (Nat.succ_pos length) hl)
    refine (isNumber_cons (signedGroups_ne_nil length _)).mpr ⟨?_, ih (Nat.le_of_succ_le_succ hl)⟩
    rw [last_iff, UInt8.toNat_ofNat', if_neg (Nat.succ_ne_zero length)]
    omega

lemma unsigned_signedGroups (length : Nat) (v : Int) :
    (unsigned (signedGroups length v) : Int) ≡ v [ZMOD capacity length] := by
  induction length generalizing v with
  | zero => exact Int.modEq_one
  | succ length ih =>
    have hgroup : (UInt8.ofNat ((v % 128).toNat + if length = 0 then 0 else 128)).toNat % 128 = (v % 128).toNat := by
      rw [UInt8.toNat_ofNat']
      split <;> omega
    have hrest : (128 * unsigned (signedGroups length (v / 128)) : Int) ≡ 128 * (v / 128)
        [ZMOD 128 * capacity length] := (ih (v / 128)).mul_left'
    have hsum := hrest.add_left (v % 128)
    rw [Int.emod_add_mul_ediv] at hsum
    rw [signedGroups, unsigned, hgroup, capacity_succ]
    push_cast
    rwa [Int.toNat_of_nonneg (Int.emod_nonneg v (by decide))]

lemma ofInt_congr {a b : Int} (h : a ≡ b [ZMOD Int32.size]) : Int32.ofInt a = Int32.ofInt b := by
  rw [← Int32.toInt_inj, Int32.toInt_ofInt, Int32.toInt_ofInt, ← Int.emod_bmod, h, Int.emod_bmod]

lemma signed_signedGroups (hl : length < maxLength) (hf : FitsSigned (length + 1) v) :
    signed (signedGroups (length + 1) v) ≡ v [ZMOD Int32.size] := by
  have hmod := unsigned_signedGroups (length + 1) v
  have hlength := length_signedGroups (length + 1) v
  obtain hlt | hfull := Nat.lt_or_eq_of_le hl
  · have hshort : (signedGroups (length + 1) v).length < maxLength := by rwa [hlength]
    rw [signed_eq_bmod (signedGroups_ne_nil length v) hshort, hlength, ← Int.emod_bmod, hmod, Int.emod_bmod,
      Int.bmod_eq_of_le_mul_two (by have := hf.1; omega) (by have := hf.2; omega)]
  · -- five groups have no sign of their own, but they reach beyond the word
    obtain rfl : length = 4 := Nat.succ.inj hfull
    have hlong : ¬ (signedGroups 5 v).length < maxLength := Nat.not_lt.mpr (Nat.le_of_eq hlength.symm)
    rw [signed, if_neg fun h => hlong h.1]
    exact hmod.of_dvd (by decide)

lemma decodeSigned_append (hn : IsNumber maxLength number) :
    decodeSigned (number ++ rest) = some (Int32.ofInt (signed number), number, rest) := by
  rw [decodeSigned, cut_eq_some_iff.mpr ⟨hn, rfl⟩]
  rfl

lemma decodeSigned_signedGroups {x : Int32} (hp : 0 < length) (hl : length ≤ maxLength)
    (hf : FitsSigned length x.toInt) :
    decodeSigned (signedGroups length x.toInt ++ rest) = some (x, signedGroups length x.toInt, rest) := by
  obtain ⟨length, rfl⟩ := Nat.exists_eq_add_of_le' hp
  have hn : IsNumber maxLength (signedGroups (length + 1) x.toInt) :=
    isNumber_signedGroups (Nat.le_of_succ_le_succ hl)
  rw [decodeSigned_append hn, ofInt_congr (signed_signedGroups hl hf), Int32.ofInt_toInt]

lemma exists_encodeSigned (hf : FitsSigned (room + 1) v) :
    ∃ length, 0 < length ∧ length ≤ room + 1 ∧ FitsSigned length v ∧
      encodeSigned (room + 1) v = signedGroups length v := by
  induction room generalizing v with
  | zero => exact ⟨1, Nat.one_pos, Nat.le_refl 1, hf, if_pos hf⟩
  | succ room ih =>
    by_cases hone : FitsSigned 1 v
    · exact ⟨1, Nat.one_pos, Nat.le_add_left 1 _, hone, if_pos hone⟩
    · obtain ⟨length, hp, hl, hrest, he⟩ := ih ((fitsSigned_succ (Nat.succ_pos room)).mp hf)
      refine ⟨length + 1, Nat.succ_pos length, Nat.succ_le_succ hl, (fitsSigned_succ hp).mpr hrest, ?_⟩
      rw [encodeSigned, if_neg hone, he, signedGroups, if_neg (Nat.ne_of_gt hp)]

lemma decodeSigned_encodeSigned (x : Int32) (rest : Bytes) :
    decodeSigned (encodeSigned maxLength x.toInt ++ rest) = some (x, encodeSigned maxLength x.toInt, rest) := by
  obtain ⟨length, hp, hl, hf, he⟩ := @exists_encodeSigned 4 _ (fitsSigned_int32 x)
  have he' : encodeSigned maxLength x.toInt = signedGroups length x.toInt := he
  rw [he', decodeSigned_signedGroups hp hl hf]

lemma IsNumber.eq_of_unsigned (hn : IsNumber room number) (ho : IsNumber room other)
    (hl : number.length = other.length) (hroom : number.length < room) (hu : unsigned number = unsigned other) :
    number = other := by
  induction number generalizing other room with
  | nil => exact absurd rfl hn.ne_nil
  | cons b tail ih =>
    obtain ⟨c, tail', rfl⟩ := List.exists_cons_of_ne_nil ho.ne_nil
    obtain ⟨room, rfl⟩ := Nat.exists_eq_add_of_le' (Nat.lt_of_le_of_lt (Nat.zero_le _) hroom)
    have hlength : tail.length = tail'.length := Nat.succ.inj hl
    simp only [unsigned] at hu
    -- two bytes of one group are the same if both are marked as the last one or both as followed by others
    by_cases ht : tail = []
    · obtain rfl : tail' = [] := List.length_eq_zero_iff.mp (by rw [← hlength, ht, List.length_nil])
      subst ht
      have hb := hn.ended hroom b rfl
      have hc := ho.ended hroom c rfl
      rw [last_iff] at hb hc
      rw [UInt8.toNat_inj.mp (by omega : b.toNat = c.toNat)]
    · have ht' : tail' ≠ [] := fun h => ht (List.length_eq_zero_iff.mp (by rw [hlength, h, List.length_nil]))
      obtain ⟨hb, hn⟩ := (isNumber_cons ht).mp hn
      obtain ⟨hc, ho⟩ := (isNumber_cons ht').mp ho
      rw [last_iff] at hb hc
      have hb' := b.toNat_lt
      have hc' := c.toNat_lt
      rw [UInt8.toNat_inj.mp (by omega : b.toNat = c.toNat),
        ih hn ho hlength (Nat.lt_of_succ_lt_succ hroom) (by omega)]

lemma Spells.unsigned_eq {w : UInt32} (h : Spells number w) (hl : number.length < maxLength) :
    unsigned number = w.toNat := by
  have hlt : unsigned number < capacity 4 :=
    Nat.lt_of_lt_of_le (unsigned_lt number) (Nat.pow_le_pow_right (by decide) (Nat.le_of_lt_succ hl))
  have hc : capacity 4 = 2 ^ 28 := rfl
  rw [h.value_eq, UInt32.toNat_ofNat', Nat.mod_eq_of_lt (by omega)]

/-- The high bits of a fifth byte have no part in the value, so only shorter spellings are the only ones. -/
lemma Spells.eq_encode {w : UInt32} (h : Spells number w) (hl : number.length = (encode w).length)
    (hroom : number.length < maxLength) : number = encode w := by
  have he := (decode_eq_some_iff.mp (decode_encode w [])).1
  exact h.toIsNumber.eq_of_unsigned he.toIsNumber hl hroom
    ((h.unsigned_eq hroom).trans (he.unsigned_eq (hl ▸ hroom)).symm)

/-- An input is read up to its first byte below 128, or five bytes of it, as what their groups come to, and only one
that is over before is not read; on words, where groups are shifted and joined, it is read as the same. A number is
written in the fewest bytes, and one with a sign is read back from any number of groups that holds it. -/
theorem codecs_meet_format :
    (∀ input, decode input = taken (fun number => UInt32.ofNat (weighted number)) input ∧
      decodeSigned input = taken signedWord input) ∧
    (∀ (image : Dex.Image) (ix : Nat), ix < 2 ^ 63 →
      Dex.Machine.uleb128 image ix = readOff .uleb128 ix (decode (image.val.drop ix)) ∧
      Dex.Machine.sleb128 image ix = readOff .sleb128 ix (decodeSigned (image.val.drop ix))) ∧
    (∀ v : UInt32, (∀ rest, decode (encode v ++ rest) = some (v, encode v, rest)) ∧ (encode v).length ≤ maxLength ∧
      ∀ input number rest, decode input = some (v, number, rest) → (encode v).length ≤ number.length ∧
        (number.length = (encode v).length → number = encode v ∨ number.length = maxLength)) ∧
    ∀ (v : Int32) (rest : Bytes),
      decodeSigned (encodeSigned maxLength v.toInt ++ rest) = some (v, encodeSigned maxLength v.toInt, rest) ∧
      ∀ length, 0 < length → length ≤ maxLength → FitsSigned length v.toInt →
        decodeSigned (signedGroups length v.toInt ++ rest) = some (v, signedGroups length v.toInt, rest) := by
  refine ⟨fun input => ⟨decode_eq_taken input, decodeSigned_eq_taken input⟩,
    fun image ix hix => ⟨machine_uleb128 hix, machine_sleb128 hix⟩,
    fun v => ⟨decode_encode v, length_encode_le v, fun input number rest h => ?_⟩,
    fun v rest => ⟨decodeSigned_encodeSigned v rest, fun length => decodeSigned_signedGroups⟩⟩
  obtain ⟨hspells, -⟩ := decode_eq_some_iff.mp h
  refine ⟨hspells.length_encode_le, fun hl => ?_⟩
  obtain hroom | hfull := Nat.lt_or_eq_of_le hspells.length_le
  · exact .inl (hspells.eq_encode hl hroom)
  · exact .inr hfull

def paddedSample : Dex.Image := ⟨[0xff, 0xc0, 0xbb, 0xf8, 0x7f, 0x80, 0x80], by decide⟩

theorem codecs_meet_format_paddedSample :
    Dex.Machine.sleb128 paddedSample 1 = .ok (-123456, 5) ∧
      Dex.Machine.uleb128 paddedSample 5 = .error (.fault (.ofCause (.endOfStream .uleb128 5))) ∧
      decodeSigned (signedGroups 4 (-123456) ++ [0x80]) = some (-123456, [0xc0, 0xbb, 0xf8, 0x7f], [0x80]) ∧
      decodeSigned (encodeSigned 5 (-123456) ++ [0x80]) = some (-123456, [0xc0, 0xbb, 0x78], [0x80]) ∧
      decode [0x80, 0x80, 0x80, 0x80, 0xf1] = some (0x10000000, [0x80, 0x80, 0x80, 0x80, 0xf1], []) ∧
      (encode 0x10000000).length ≤ 5 := by
  obtain ⟨-, hwords, hshortest, hsigned⟩ := codecs_meet_format
  obtain ⟨hfewest, hgroups⟩ := hsigned (-123456) [0x80]
  have hlong : decode [0x80, 0x80, 0x80, 0x80, 0xf1] = some (0x10000000, [0x80, 0x80, 0x80, 0x80, 0xf1], []) := by
    decide
  exact ⟨(hwords paddedSample 1 (by decide)).2.trans rfl, (hwords paddedSample 5 (by decide)).1.trans rfl,
    hgroups 4 (by decide) (by decide) (by decide), hfewest, hlong,
    ((hshortest 0x10000000).2.2 _ _ _ hlong).1⟩

end DexUnseal.Leb128
