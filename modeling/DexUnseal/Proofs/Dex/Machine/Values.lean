import DexUnseal.Dex.Machine.Values
import DexUnseal.Proofs.Dex.Machine.Words

/-! Values and annotations on words. A payload of at most eight bytes fits a word, wherever it is moved in
it, and the depth of nesting uses up the calls that may be open. -/

namespace DexUnseal.Dex.Machine

open Reader (Gives)

variable {image : Image}

lemma capacity_eq (width : Nat) : Bytes.capacity width = 2 ^ (8 * width) := (Nat.pow_mul 2 8 width).symm

lemma gives_payload (width most : Nat) :
    Gives (Value.payload width most) fun raw => width ≤ most ∧ raw < Bytes.capacity width := by
  rw [Value.payload]
  split
  · exact Gives.failHere _
  · refine ((Gives.trivial Reader.u8).repeated width).bind fun bytes ⟨hl, _⟩ => Gives.pure ?_
    have hlt := Bytes.ofLittleEndian_lt bytes
    rw [hl] at hlt
    exact ⟨by omega, hlt⟩

lemma advances_littleEndianFrom {i left result : Nat} (hi : i < 8) (hr : result < Bytes.capacity i) {first : Nat}
    (hrest : ∀ result < Bytes.capacity (i + 1), Follows image (littleEndianFrom (i + 1) left result)
      ((fun bytes => result + Bytes.capacity (i + 1) * Bytes.ofLittleEndian bytes) <$>
        Reader.counted (fun _ => Reader.u8) (first + 1) left)) :
    Advances image (littleEndianFrom i (left + 1) result)
      ((fun bytes => result + Bytes.capacity i * Bytes.ofLittleEndian bytes) <$>
        Reader.counted (fun _ => Reader.u8) first (left + 1)) := by
  rw [littleEndianFrom, Reader.counted, map_bind]
  refine advances_u8.bind fun b => ?_
  have hb : result + Bytes.capacity i * b.toNat < Bytes.capacity (i + 1) := by
    calc result + Bytes.capacity i * b.toNat < Bytes.capacity i * (b.toNat + 1) := by rw [Nat.mul_succ]; omega
      _ ≤ Bytes.capacity i * 256 := Nat.mul_le_mul_left _ b.toNat_lt
      _ = Bytes.capacity (i + 1) := by rw [Nat.mul_comm, Bytes.capacity_succ]
  have hword : Bytes.capacity (i + 1) ≤ 2 ^ 64 := by
    rw [capacity_eq]
    exact Nat.pow_le_pow_right (by decide) (by omega)
  have hsum (bytes : Bytes) : result + Bytes.capacity i * Bytes.ofLittleEndian (b :: bytes) =
      result + Bytes.capacity i * b.toNat + Bytes.capacity (i + 1) * Bytes.ofLittleEndian bytes := by
    rw [Bytes.ofLittleEndian, Bytes.capacity_succ, Nat.mul_add, Nat.mul_left_comm, Nat.mul_assoc, Nat.add_assoc]
  have hlow : result < 2 ^ (8 * i) := capacity_eq i ▸ hr
  have hmore := hrest _ hb
  rw [mul_eq (by omega), pure_bind, shiftLeft_eq (by omega), pure_bind, or_shiftLeft hlow (by omega), ← capacity_eq,
    Nat.mod_eq_of_lt (Nat.lt_of_lt_of_le hb hword), map_bind]
  rw [map_eq_pure_bind] at hmore
  simpa only [map_pure, hsum] using hmore

lemma follows_littleEndianFrom {i left result : Nat} (hi : i + left ≤ 8) (hr : result < Bytes.capacity i)
    (first : Nat) :
    Follows image (littleEndianFrom i left result)
      ((fun bytes => result + Bytes.capacity i * Bytes.ofLittleEndian bytes) <$>
        Reader.counted (fun _ => Reader.u8) first left) := by
  induction left generalizing i result first with
  | zero => exact .pure _
  | succ left ih =>
    have hrest (result : Nat) (hr : result < Bytes.capacity (i + 1)) := ih (by omega) hr (first + 1)
    exact (advances_littleEndianFrom (by omega) hr hrest).follows

lemma follows_payload {width most : Nat} (hw : 1 ≤ width) (hm : most ≤ 8) :
    Follows image (payload width most) (Value.payload width most) := by
  rw [payload, Value.payload]
  by_cases hwide : most < width
  · rw [if_pos hwide, if_pos hwide]
    exact (advances_failHere _).follows
  · obtain ⟨left, rfl⟩ := Nat.exists_eq_add_of_le' hw
    have hrest : ∀ result < Bytes.capacity 1, Follows image (littleEndianFrom 1 left result)
        ((fun bytes => result + Bytes.capacity 1 * Bytes.ofLittleEndian bytes) <$>
          Reader.counted (fun _ => Reader.u8) 1 left) :=
      fun result hr => follows_littleEndianFrom (by omega) hr 1
    have hp := (advances_littleEndianFrom (by decide) (by decide : 0 < Bytes.capacity 0) hrest).advancing.follows
    have hsum (bytes : Bytes) : 0 + Bytes.capacity 0 * Bytes.ofLittleEndian bytes = Bytes.ofLittleEndian bytes := by
      rw [Nat.zero_add]
      exact Nat.one_mul _
    rw [if_neg hwide, if_neg hwide]
    simpa only [map_eq_pure_bind, hsum, Reader.repeated] using hp

lemma bmod_of_lt {n half : Nat} (h : n < 2 * half) :
    (n : Int).bmod (2 * half) = if n < half then (n : Int) else n - 2 * half := by
  have hmod : (n : Int) % ((2 * half : Nat) : Int) = n := Int.emod_eq_of_lt (Int.natCast_nonneg n) (by omega)
  rw [Int.bmod_def, hmod]
  by_cases hlow : n < half
  · rw [if_pos hlow, if_pos (by omega)]
  · rw [if_neg hlow, if_neg (by omega)]
    omega

lemma bmod_mul {n half place : Nat} (h : n < 2 * half) (hp : 0 < place) :
    ((n * place : Nat) : Int).bmod (2 * (half * place)) = (n : Int).bmod (2 * half) * place := by
  have hplaced : n * place < 2 * (half * place) := by
    rw [← Nat.mul_assoc]
    exact Nat.mul_lt_mul_of_pos_right h hp
  rw [bmod_of_lt hplaced, bmod_of_lt h]
  by_cases hlow : n < half
  · rw [if_pos hlow, if_pos (Nat.mul_lt_mul_of_pos_right hlow hp), Int.natCast_mul]
  · rw [if_neg hlow, if_neg (mt (fun hl => Nat.lt_of_mul_lt_mul_right hl) hlow), Int.sub_mul, Int.natCast_mul,
      Int.natCast_mul, Int.mul_assoc]

lemma shift_back {raw width : Nat} (hw : 1 ≤ width) (h₈ : width ≤ 8) (h : raw < Bytes.capacity width) :
    (((raw <<< (64 - 8 * width)) % 2 ^ 64 : Nat) : Int).bmod (2 ^ 64) >>> (64 - 8 * width) =
      Value.signExtend width raw := by
  have hcapacity : Bytes.capacity width = 2 * 2 ^ (8 * width - 1) := by
    rw [capacity_eq, Nat.mul_comm 2, Nat.two_pow_pred_mul_two (by omega)]
  have hword : 2 * (2 ^ (8 * width - 1) * 2 ^ (64 - 8 * width)) = 2 ^ 64 := by
    rw [← Nat.pow_add, Nat.mul_comm, ← Nat.pow_succ]
    congr 1
    omega
  have hplace : 0 < 2 ^ (64 - 8 * width) := Nat.two_pow_pos _
  rw [hcapacity] at h
  have hlt : raw * 2 ^ (64 - 8 * width) < 2 ^ 64 := by
    rw [← hword, ← Nat.mul_assoc]
    exact Nat.mul_lt_mul_of_pos_right h hplace
  rw [Nat.shiftLeft_eq, Nat.mod_eq_of_lt hlt, ← hword, bmod_mul h hplace, Int.shiftRight_eq_div_pow,
    Int.mul_ediv_cancel _ (by omega), Value.signExtend, hcapacity]

lemma follows_signed {width most : Nat} (hw : 1 ≤ width) (hm : most ≤ 8) :
    Follows image (signed width most) (Value.signed width most) := by
  rw [signed, Value.signed, map_eq_pure_bind]
  refine (follows_payload hw hm).bind_gives (gives_payload width most) fun raw ⟨hfits, hraw⟩ => ?_
  rw [mul_eq (by omega), pure_bind, sub_eq (by omega), pure_bind, shiftLeft_eq (by omega), pure_bind,
    shiftRightSigned_eq (by omega), shift_back hw (by omega) hraw]
  exact .pure _

lemma follows_high {width most : Nat} (hw : 1 ≤ width) (hm : most ≤ 8) :
    Follows image (high width most) (Value.high width most) := by
  rw [high, Value.high, map_eq_pure_bind]
  refine (follows_payload hw hm).bind_gives (gives_payload width most) fun raw ⟨hfits, hraw⟩ => ?_
  have hlt : raw * 2 ^ (8 * (most - width)) < 2 ^ 64 := by
    rw [capacity_eq] at hraw
    calc raw * 2 ^ (8 * (most - width)) < 2 ^ (8 * width) * 2 ^ (8 * (most - width)) :=
        Nat.mul_lt_mul_of_pos_right hraw (Nat.two_pow_pos _)
      _ = 2 ^ (8 * most) := by rw [← Nat.pow_add, ← Nat.mul_add, Nat.add_sub_cancel' hfits]
      _ ≤ 2 ^ 64 := Nat.pow_le_pow_right (by decide) (by omega)
  rw [sub_eq hfits, pure_bind, mul_eq (by omega), pure_bind, shiftLeft_eq (by omega), Nat.shiftLeft_eq,
    Nat.mod_eq_of_lt hlt, capacity_eq]
  exact .pure _

section Nesting

variable {value : Nat → Machine Value} {nested : Reader Value} {depth : Nat}

lemma advances_listOf (hd : depth < 2 ^ 63) (h : Advances image (value (depth + 1)) nested) :
    Advances image (listOf value depth) (Value.listOf nested) := by
  refine (advances_uleb128.bind fun count => Advances.repeated ?_ _).advancing
  rw [add_eq (by omega), pure_bind]
  exact h

lemma advances_annotationOf (hd : depth < 2 ^ 63) (h : Advances image (value (depth + 1)) nested) :
    Advances image (annotationOf value depth) (Value.annotationOf nested) := by
  refine (advances_uleb128.bind fun typeIdx => advances_uleb128.follows.bind fun count => ?_).advancing
  refine Follows.bind (Advances.repeated (advances_uleb128.bind fun nameIdx => ?_) _) fun elements => .pure _
  rw [add_eq (by omega), pure_bind]
  exact h.follows.bind fun v => .pure _

lemma agrees_ofTag {ix : Nat} (hpos : 0 < ix) (hix : ix < 2 ^ 63) (hd : depth < 2 ^ 62)
    (h : Advances image (value (depth + 2)) nested) (argument code : Nat) :
    Agrees image (Onward image ix) (ofTag value depth argument (argument + 1) code image ix)
      (Value.ofTag nested argument code (.ofOffset image.val ix)) := by
  have hw : 1 ≤ argument + 1 := Nat.le_add_left 1 argument
  unfold ofTag
  split
  case h_1 => exact ((follows_signed hw (by decide)).bind fun _ => .pure _) ix hix
  case h_2 => exact ((follows_signed hw (by decide)).bind fun _ => .pure _) ix hix
  case h_3 => exact ((follows_payload hw (by decide)).bind fun _ => .pure _) ix hix
  case h_4 => exact ((follows_signed hw (by decide)).bind fun _ => .pure _) ix hix
  case h_5 => exact ((follows_signed hw (by decide)).bind fun _ => .pure _) ix hix
  case h_6 => exact ((follows_high hw (by decide)).bind fun _ => .pure _) ix hix
  case h_7 => exact ((follows_high hw (by decide)).bind fun _ => .pure _) ix hix
  case h_8 =>
    rw [add_eq (by omega), pure_bind]
    exact ((advances_listOf (by omega) h).follows.bind fun _ => .pure _) ix hix
  case h_9 =>
    rw [add_eq (by omega), pure_bind]
    exact ((advances_annotationOf (by omega) h).follows.bind fun _ => .pure _) ix hix
  case h_10 => exact Follows.pure _ ix hix
  case h_11 => exact Follows.pure _ ix hix
  case h_12 =>
    rw [Value.ofTag]
    · cases IndexKind.ofCode? code with
      | some kind => exact ((follows_payload hw (by decide)).bind fun _ => .pure _) ix hix
      | none =>
        dsimp only
        rw [position_bind, sub_eq hpos, pure_bind]
        exact .fault _
    all_goals assumption

end Nesting

lemma header_bits (b : UInt8) : b.toNat >>> 5 = b.toNat / 32 ∧ b.toNat &&& 0x1f = b.toNat % 32 := by
  have hmask : b.toNat &&& (2 ^ 5 - 1) = b.toNat % 2 ^ 5 := Nat.and_two_pow_sub_one_eq_mod _ _
  exact ⟨Nat.shiftRight_eq_div_pow _ _, hmask⟩

lemma advances_valueWithin {frames depth : Nat} (h : nestingLimit + 2 < 2 * frames + depth)
    (hd : depth ≤ nestingLimit + 2) :
    Advances image (valueWithin frames depth) (Value.readWithin (Value.room depth)) := by
  have hlimit : nestingLimit = 64 := rfl
  -- The depth grows by two with each open call, so it passes the limit before the calls are used up.
  induction frames generalizing depth with
  | zero => omega
  | succ frames ih =>
    rw [valueWithin]
    by_cases hdeep : nestingLimit < depth
    · have hroom : Value.room depth = 0 := by
        rw [Value.room]
        omega
      rw [if_pos hdeep, hroom]
      exact advances_failHere _
    · have hroom : Value.room depth = Value.room (depth + 2) + 1 := by
        rw [Value.room, Value.room]
        omega
      rw [if_neg hdeep, hroom]
      apply Advances.advancing
      intro ix hix
      refine (advances_u8 ix hix).bind fun header ix' hm _ => ?_
      have hargument : header.toNat / 32 < 8 := by
        have hb := header.toNat_lt
        omega
      rw [shiftRight_eq (by decide), pure_bind, (header_bits header).1, (header_bits header).2, add_eq (by omega),
        pure_bind]
      have hix' := Onward.bounded (.inr hm) hix
      have hnested : Advances image (valueWithin frames (depth + 2)) (Value.readWithin (Value.room (depth + 2))) :=
        ih (by omega) (by omega)
      have htag := agrees_ofTag (Nat.zero_lt_of_lt hm.1) hix' (by omega) hnested (header.toNat / 32) (header.toNat % 32)
      exact htag.mono fun _ => hm.trans_onward

lemma advances_valueAt {depth : Nat} (hd : depth ≤ nestingLimit + 2) :
    Advances image (valueAt depth) (Value.readWithin (Value.room depth)) :=
  advances_valueWithin (by omega) hd

lemma advances_array : Advances image array Value.readArray :=
  advances_listOf (by decide) (advances_valueAt (by decide))

lemma advances_annotation : Advances image annotation Annotation.read :=
  advances_annotationOf (by decide) (advances_valueAt (by decide))

lemma advances_annotationItem : Advances image annotationItem AnnotationItem.read :=
  (advances_u8.bind fun _ => advances_annotation.follows.bind fun _ => .pure _).advancing

lemma advances_offsetList : Advances image offsetList OffsetList.read :=
  (advances_u32.bind fun _ => advances_u32.repeated _).advancing

lemma yields_annotationSet (offset : UInt32) :
    Yields image (annotationSet offset) (AnnotationSet.readAt image.val offset) :=
  (advances_offsetList.follows.readAt (offset_lt offset)).bind fun _ => Yields.mapM (fun entry =>
    (advances_annotationItem.follows.readAt (offset_lt entry)).within (.annotationItem entry)) _

lemma yields_parameterSets (offset : UInt32) :
    Yields image (parameterSets offset) (Directory.readSets image.val (AnnotationSet.readAt image.val) offset) :=
  (advances_offsetList.follows.readAt (offset_lt offset)).bind fun _ =>
    Yields.mapM (Yields.optional yields_annotationSet) _

lemma advances_member {find : UInt32 → Machine τ} {find' : UInt32 → Except Fault τ}
    (h : ∀ offset, Yields image (find offset) (find' offset)) :
    Advances image (member find) (Directory.readMember find') :=
  advances_u32.bind fun _ => advances_u32.follows.bind fun offset => (h offset).follows.bind fun _ => .pure _

lemma advances_directory : Advances image directory (AnnotationDirectory.read image.val) := by
  have hmember : Advances image (member annotationSet) (Directory.readMember (AnnotationSet.readAt image.val)) :=
    advances_member yields_annotationSet
  have hparameters : Advances image (member parameterSets)
      (Directory.readMember (Directory.readSets image.val (AnnotationSet.readAt image.val))) :=
    advances_member yields_parameterSets
  apply Advances.advancing
  refine advances_u32.bind fun classOffset => advances_u32.follows.bind fun fieldCount =>
    advances_u32.follows.bind fun methodCount => advances_u32.follows.bind fun parameterCount => ?_
  refine (Yields.optional yields_annotationSet classOffset).follows.bind fun ofClass => ?_
  exact (hmember.repeated _).bind fun ofFields => (hmember.repeated _).bind fun ofMethods =>
    (hparameters.repeated _).bind fun ofParameters => .pure _

end DexUnseal.Dex.Machine
