import DexUnseal.Proofs.Dex.Machine

/-! Numbers, blocks and strings on words: no operation overflows, and shifted groups add up. -/

namespace DexUnseal.Dex.Machine

variable {image : Image} {ix : Nat}

lemma or_shiftLeft {value n s bits : Nat} (hv : value < 2 ^ s) (hs : s ≤ bits) :
    value ||| ((n <<< s) % 2 ^ bits) = (value + 2 ^ s * n) % 2 ^ bits := by
  obtain ⟨k, rfl⟩ := Nat.exists_eq_add_of_le hs
  have hdiv : (value + 2 ^ s * n) / 2 ^ s = n := by
    rw [Nat.add_mul_div_left _ _ (Nat.two_pow_pos s), Nat.div_eq_of_lt hv, Nat.zero_add]
  have hmod : (value + 2 ^ s * n) % 2 ^ s = value := by
    rw [Nat.add_mul_mod_self_left, Nat.mod_eq_of_lt hv]
  rw [Nat.shiftLeft_eq, Nat.mul_comm n, Nat.pow_add, Nat.mul_mod_mul_left, Nat.mod_mul, hdiv, hmod, Nat.or_comm,
    ← Nat.two_pow_add_eq_or_of_lt hv, Nat.add_comm]

lemma bytesFrom_eq {bytes : Bytes} {start i left : Nat} (h : start + i + left ≤ bytes.length)
    (hb : bytes.length < 2 ^ 63) :
    bytesFrom bytes start i left = pure ((bytes.drop (start + i)).take left) := by
  induction left generalizing i with
  | zero => rfl
  | succ left ih =>
    have hlt : start + i < bytes.length := by omega
    rw [bytesFrom, add_eq (by omega), pure_bind, index_eq hlt, pure_bind, ih (by omega), pure_bind,
      List.drop_eq_getElem_cons hlt, List.take_succ_cons]
    rfl

lemma length_front {file : Bytes} {n : Nat} (h : ix + n ≤ file.length) : ((file.drop ix).take n).length = n := by
  rw [List.length_take, List.length_drop]
  omega

lemma take?_ofOffset {file : Bytes} {n : Nat} (h : ix + n ≤ file.length) :
    (Cursor.ofOffset file ix).take? n = some (⟨(file.drop ix).take n, length_front h⟩, .ofOffset file (ix + n)) := by
  refine (dif_pos (length_front h)).trans ?_
  simp only [Cursor.ofOffset, List.drop_drop]

lemma take?_ofOffset_none {file : Bytes} {n : Nat} (hn : 0 < n) (h : file.length < ix + n) :
    (Cursor.ofOffset file ix).take? n = none := by
  refine dif_neg ?_
  simp only [Cursor.ofOffset, List.length_take, List.length_drop]
  omega

lemma agrees_number (primitive : Primitive) {width : Nat} (hw : 0 < width) (hword : width ≤ 8) (hix : ix < 2 ^ 63) :
    Agrees image (fun ix' => ix' = ix + width ∧ ix' ≤ image.val.length) (number primitive width image ix)
      (Reader.number primitive width (.ofOffset image.val ix)) := by
  refine Agrees.advancing ?_ fun ix' hm => ⟨by omega, hm.2⟩
  have himage := image.property
  rw [position_bind, add_eq (by omega), pure_bind, file_bind, Reader.number]
  by_cases hend : image.val.length < ix + width
  · rw [take?_ofOffset_none hw hend, refuseIf, if_pos hend]
    have hposition : (Cursor.ofOffset image.val ix).position + width < Reader.positionBound := by
      simp only [Cursor.ofOffset, Reader.positionBound, UInt64.size]
      omega
    rw [if_pos hposition]
    exact .fault _
  · have hfits : ix + width ≤ image.val.length := Nat.le_of_not_lt hend
    rw [refuseIf_bind hend, bytesFrom_eq hfits himage, pure_bind, advance_bind (by omega), take?_ofOffset hfits]
    exact .ok ⟨rfl, hfits⟩

lemma advances_number (primitive : Primitive) {width : Nat} (hw : 0 < width) (hword : width ≤ 8) :
    Advances image (number primitive width) (Reader.number primitive width) :=
  fun _ hix => (agrees_number primitive hw hword hix).mono fun _ hm => ⟨by omega, hm.2⟩

lemma advances_u8 : Advances image u8 Reader.u8 := (advances_number .u1 (by decide) (by decide)).map _

lemma advances_u16 : Advances image u16 Reader.u16 := (advances_number .u2 (by decide) (by decide)).map _

lemma advances_u32 : Advances image u32 Reader.u32 := (advances_number .u4 (by decide) (by decide)).map _

lemma advances_block {n : Nat} (hn : 0 < n) (hword : n < 2 ^ 63) : Advances image (block n) (Reader.block n) := by
  apply Advances.advancing
  intro ix hix
  rw [rest_bind, position_bind, Reader.block]
  by_cases hend : image.val.length < ix + n
  · have hshort : (image.val.drop ix).length < n := by
      rw [List.length_drop]
      omega
    rw [take?_ofOffset_none hn hend, refuseIf, if_pos hshort]
    exact .fault _
  · have hfits : ix + n ≤ image.val.length := Nat.le_of_not_lt hend
    have hlong : n ≤ (image.val.drop ix).length := by
      rw [List.length_drop]
      omega
    rw [refuseIf_bind (Nat.not_lt.mpr hlong), slice_eq (Nat.zero_le n) hlong, pure_bind, advance_bind (by omega),
      List.drop_zero, copy_eq (length_front hfits), take?_ofOffset hfits]
    exact .ok ⟨by omega, hfits⟩

lemma group_bits (b : UInt8) :
    b.toNat &&& 0x7f = b.toNat % 128 ∧ (b.toNat &&& 0x80 = 0 ↔ b < 128) ∧
      (b.toNat &&& 0x40 ≠ 0 ↔ 64 ≤ b.toNat % 128) := by
  -- There are few enough bytes to look at all of them.
  have hall : ∀ n : Fin 256, n.val &&& 0x7f = n.val % 128 ∧ (n.val &&& 0x80 = 0 ↔ n.val < 128) ∧
      (n.val &&& 0x40 ≠ 0 ↔ 64 ≤ n.val % 128) := by decide +kernel
  exact hall ⟨b.toNat, b.toNat_lt⟩

lemma add_group_lt {value group count : Nat} (hv : value < 2 ^ (7 * count)) (hg : group < 128) :
    value + 2 ^ (7 * count) * group < 2 ^ (7 * (count + 1)) := by
  calc value + 2 ^ (7 * count) * group < 2 ^ (7 * count) * (group + 1) := by rw [Nat.mul_succ]; omega
    _ ≤ 2 ^ (7 * count) * 2 ^ 7 := Nat.mul_le_mul_left _ hg
    _ = 2 ^ (7 * (count + 1)) := by rw [← Nat.pow_add, Nat.mul_succ]

lemma groups_eq {room count value : Nat} (input : Bytes) (hroom : count + room = Leb128.maxLength)
    (hv : value < 2 ^ (7 * count)) :
    groups (input.take room) count value = pure ((Leb128.cut room input).map fun (number, _) =>
      ((value + 2 ^ (7 * count) * Leb128.unsigned number) % 2 ^ 32, number.getLastD 0,
        count + (number.length - 1))) := by
  induction room generalizing input count value with
  | zero => rfl
  | succ room ih =>
    cases input with
    | nil => rfl
    | cons b input =>
      have hmax : Leb128.maxLength = 5 := rfl
      obtain ⟨hgroup, hflag, -⟩ := group_bits b
      rw [List.take_succ_cons, groups, mul_eq (by omega), pure_bind, shiftLeft_eq (by omega), pure_bind,
        add_eq (by omega), pure_bind, hgroup, or_shiftLeft hv (by omega), Leb128.cut]
      have hlast : b.toNat &&& 0x80 = 0 ∨ count + 1 = Leb128.maxLength ↔ b < 128 ∨ room = 0 := by
        rw [hflag]
        refine or_congr_right ?_
        omega
      by_cases hb : b < 128 ∨ room = 0
      · rw [if_pos hb, if_pos (hlast.mpr hb)]
        simp [Leb128.unsigned]
      · rw [if_neg hb, if_neg (mt hlast.mp hb)]
        -- There is room for another group, so this one does not reach the end of the word.
        have hnext := add_group_lt hv (Nat.mod_lt b.toNat (by decide : 0 < 128))
        have hword : 2 ^ (7 * (count + 1)) ≤ 2 ^ 32 := Nat.pow_le_pow_right (by decide) (by omega)
        rw [Nat.mod_eq_of_lt (Nat.lt_of_lt_of_le hnext hword), ih input (by omega) hnext]
        cases hc : Leb128.cut room input with
        | none => rfl
        | some cut =>
          obtain ⟨number, rest⟩ := cut
          obtain ⟨a, tail, rfl⟩ := List.exists_cons_of_ne_nil (Leb128.cut_eq_some_iff.mp hc).1.ne_nil
          have hsum (u : Nat) : value + 2 ^ (7 * count) * (b.toNat % 128) + 2 ^ (7 * (count + 1)) * u =
              value + 2 ^ (7 * count) * (b.toNat % 128 + 128 * u) := by
            rw [Nat.mul_succ, Nat.pow_add, Nat.mul_add, Nat.mul_assoc, Nat.add_assoc]
          simp only [Option.map_some, Leb128.unsigned, hsum, List.getLastD_cons, List.length_cons]
          congr 4
          omega

lemma groups_start (input : Bytes) :
    groups (input.take Leb128.maxLength) 0 0 = pure ((Leb128.cut Leb128.maxLength input).map fun (number, _) =>
      (Leb128.unsigned number % 2 ^ 32, number.getLastD 0, number.length - 1)) := by
  have hg := @groups_eq Leb128.maxLength 0 0 input (Nat.zero_add _) (by decide)
  simpa only [Nat.zero_add, Nat.mul_zero, Nat.pow_zero, Nat.one_mul] using hg

lemma cut_forward {room : Nat} {number rest : Bytes}
    (h : Leb128.cut room (image.val.drop ix) = some (number, rest)) :
    Forward image ix (ix + number.length) ∧ rest = image.val.drop (ix + number.length) := by
  obtain ⟨hn, hinput⟩ := Leb128.cut_eq_some_iff.mp h
  have hpos := List.length_pos_iff.mpr hn.ne_nil
  have hl := congrArg List.length hinput
  rw [List.length_drop, List.length_append] at hl
  refine ⟨⟨by omega, by omega⟩, ?_⟩
  rw [← List.drop_drop, hinput, List.drop_left]

lemma advances_uleb128 : Advances image uleb128 Reader.uleb128 := by
  apply Advances.advancing
  intro ix hix
  have himage := image.property
  have hrest : (Cursor.ofOffset image.val ix).rest = image.val.drop ix := rfl
  rw [rest_bind, groups_start, pure_bind, Reader.uleb128, Leb128.decode, hrest]
  cases hc : Leb128.cut Leb128.maxLength (image.val.drop ix) with
  | none => exact .fault _
  | some cut =>
    obtain ⟨number, rest⟩ := cut
    obtain ⟨hmoved, rfl⟩ := cut_forward hc
    obtain ⟨hlt, hle⟩ := hmoved
    have hlength : number.length - 1 + 1 = number.length := by omega
    simp only [Option.map_some]
    rw [add_eq (by omega), pure_bind, hlength, advance_bind (by omega), UInt32.ofNat_mod_size]
    exact .ok ⟨hlt, hle⟩

lemma toInt32_sub (value place : Nat) :
    (UInt32.ofNat ((value + place * (2 ^ 32 - 1)) % 2 ^ 32)).toInt32 = Int32.ofInt ((value : Int) - place) := by
  rw [UInt32.ofNat_mod_size, UInt32.toInt32_ofNat', ← Int32.ofInt_eq_ofNat, ← Int32.toInt_inj, Int32.toInt_ofInt,
    Int32.toInt_ofInt]
  have hplace : ((value + place * (2 ^ 32 - 1) : Nat) : Int) = (value : Int) - place + (Int32.size : Nat) * place := by
    simp only [Int32.size]
    omega
  rw [hplace, Int.add_mul_bmod_self_left]

lemma extendSign_eq {number : Bytes} (hn : Leb128.IsNumber Leb128.maxLength number) :
    ∃ value, extendSign (Leb128.unsigned number % 2 ^ 32) (number.getLastD 0) (7 * (number.length - 1) + 7) =
      pure value ∧ (UInt32.ofNat value).toInt32 = Int32.ofInt (Leb128.signed number) := by
  have hpos := List.length_pos_iff.mpr hn.ne_nil
  have hl := hn.length_le
  have hused : 7 * (number.length - 1) + 7 = 7 * number.length := by omega
  have hmax : Leb128.maxLength = 5 := rfl
  have hshort : 7 * number.length < 32 ↔ number.length < Leb128.maxLength := by omega
  have hsign := and_congr hshort (group_bits (number.getLastD 0)).2.2
  rw [extendSign, Leb128.signed, hused]
  by_cases h : number.length < Leb128.maxLength ∧ (number.getLastD 0).toNat % 128 ≥ 64
  · have hcapacity := Leb128.capacity_eq_two_pow number.length
    have hlt := hcapacity ▸ Leb128.unsigned_lt number
    have hword : 2 ^ (7 * number.length) < 2 ^ 32 := Nat.pow_lt_pow_right (by decide) (by omega)
    rw [if_pos (hsign.mpr h), if_pos h, Nat.mod_eq_of_lt (Nat.lt_trans hlt hword), shiftLeft_eq (by omega), pure_bind,
      or_shiftLeft hlt (by omega), hcapacity]
    exact ⟨_, rfl, toInt32_sub _ _⟩
  · rw [if_neg (mt hsign.mp h), if_neg h]
    refine ⟨_, rfl, ?_⟩
    rw [UInt32.ofNat_mod_size, UInt32.toInt32_ofNat', Int32.ofInt_eq_ofNat]

lemma advances_sleb128 : Advances image sleb128 Reader.sleb128 := by
  apply Advances.advancing
  intro ix hix
  have himage := image.property
  have hrest : (Cursor.ofOffset image.val ix).rest = image.val.drop ix := rfl
  rw [rest_bind, groups_start, pure_bind, Reader.sleb128, Leb128.decodeSigned, hrest]
  cases hc : Leb128.cut Leb128.maxLength (image.val.drop ix) with
  | none => exact .fault _
  | some cut =>
    obtain ⟨number, rest⟩ := cut
    obtain ⟨hn, -⟩ := Leb128.cut_eq_some_iff.mp hc
    obtain ⟨hmoved, rfl⟩ := cut_forward hc
    obtain ⟨value, hvalue, hsigned⟩ := extendSign_eq hn
    obtain ⟨hlt, hle⟩ := hmoved
    have hl := hn.length_le
    have hmax : Leb128.maxLength = 5 := rfl
    have hlength : number.length - 1 + 1 = number.length := by omega
    simp only [Option.map_some]
    rw [mul_eq (by omega), pure_bind, add_eq (by omega), pure_bind, hvalue, pure_bind, add_eq (by omega), pure_bind,
      hlength, advance_bind (by omega), hsigned]
    exact .ok ⟨hlt, hle⟩

lemma agrees_terminated (hix : ix < 2 ^ 63) :
    Agrees image (Forward image ix) (terminated image ix) (StringData.terminated (.ofOffset image.val ix)) := by
  have himage := image.property
  have hrest : (Cursor.ofOffset image.val ix).rest = image.val.drop ix := rfl
  have hzero : (fun b : UInt8 => !(b != 0)) = (· == 0) := by
    funext b
    exact Bool.not_not _
  rw [terminated, rest_bind, StringData.terminated, hrest]
  cases hf : (image.val.drop ix).findIdx? (· == 0) with
  | none =>
    have hnone : (image.val.drop ix).dropWhile (· != 0) = [] := by
      rw [List.dropWhile_eq_drop_findIdx_not, hzero, List.findIdx?_eq_none_iff_findIdx_eq.mp hf, List.drop_length]
    rw [hnone]
    exact .fault _
  | some length =>
    obtain ⟨hlt, hlength⟩ := List.findIdx?_eq_some_iff_findIdx_eq.mp hf
    have hle : (image.val.drop ix).length = image.val.length - ix := List.length_drop
    have htake : (image.val.drop ix).takeWhile (· != 0) = (image.val.drop ix).take length := by
      rw [List.takeWhile_eq_take_findIdx_not, hzero, hlength]
    have hdrop : (image.val.drop ix).dropWhile (· != 0) =
        (image.val.drop ix)[length] :: image.val.drop (ix + length + 1) := by
      rw [List.dropWhile_eq_drop_findIdx_not, hzero, hlength, List.drop_eq_getElem_cons hlt, List.drop_drop]
      rfl
    simp only [hdrop, htake]
    rw [slice_eq (Nat.zero_le _) (Nat.le_of_lt hlt), pure_bind, add_eq (by omega), pure_bind, advance_bind (by omega),
      List.drop_zero, List.length_take_of_le (Nat.le_of_lt hlt)]
    exact .ok ⟨by omega, by omega⟩

lemma advances_text : Advances image text StringData.read :=
  Advances.advancing (advances_uleb128.bind fun _ => Follows.bind
    (fun _ hix => (agrees_terminated hix).mono fun _ => .inr) fun _ => .pure _)

end DexUnseal.Dex.Machine
