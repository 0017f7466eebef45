import DexUnseal.Leb128
import Mathlib.Algebra.Group.Nat.Defs
import Mathlib.Tactic.Lemma

/-! LEB128 numbers: which bytes make one up, and that they read back as they were written, whatever follows them. -/

namespace DexUnseal.Leb128

lemma capacity_succ (length : Nat) : capacity (length + 1) = 128 * capacity length := by
  rw [Nat.mul_comm]
  rfl

lemma capacity_eq_two_pow (length : Nat) : capacity length = 2 ^ (7 * length) := (Nat.pow_mul 2 7 length).symm

lemma last_iff (b : UInt8) : b < 128 ↔ b.toNat < 128 := Iff.rfl

lemma cut_encodeGroups (room n : Nat) (rest : Bytes) (h : n < capacity (room + 1)) :
    cut (room + 1) (encodeGroups (room + 1) n ++ rest) = some (encodeGroups (room + 1) n, rest) := by
  induction room generalizing n with
  | zero =>
    have hn : n < 128 := by simpa [capacity] using h
    simp [encodeGroups, cut, hn]
  | succ room ih =>
    rw [encodeGroups]
    by_cases hn : n < 128
    · have hb : UInt8.ofNat n < 128 := by
        rw [last_iff, UInt8.toNat_ofNat']
        omega
      simp [cut, hn, hb]
    · have hb : ¬ UInt8.ofNat (n % 128 + 128) < 128 := by
        rw [last_iff, UInt8.toNat_ofNat']
        omega
      rw [capacity_succ] at h
      simp only [hn, if_false, List.cons_append, cut, hb, false_or, Nat.succ_ne_zero,
        ih (n / 128) (by omega), Option.map_some]

lemma unsigned_encodeGroups (room n : Nat) (h : n < capacity (room + 1)) :
    unsigned (encodeGroups (room + 1) n) = n := by
  induction room generalizing n with
  | zero =>
    have hn : n < 128 := by simpa [capacity] using h
    simp only [encodeGroups, hn, if_true, unsigned, UInt8.toNat_ofNat']
    omega
  | succ room ih =>
    rw [encodeGroups]
    by_cases hn : n < 128
    · simp only [hn, if_true, unsigned, UInt8.toNat_ofNat']
      omega
    · rw [capacity_succ] at h
      simp only [hn, if_false, unsigned, UInt8.toNat_ofNat', ih (n / 128) (by omega)]
      omega

theorem decode_encode (v : UInt32) (rest : Bytes) :
    decode (encode v ++ rest) = some (v, encode v, rest) := by
  have hv : v.toNat < capacity 5 := Nat.lt_of_lt_of_le v.toNat_lt (by decide)
  simp only [decode, encode, maxLength, cut_encodeGroups 4 v.toNat rest hv,
    unsigned_encodeGroups 4 v.toNat hv, Option.map_some, UInt32.ofNat_toNat]

/-- Groups of at most `room` bytes: all but the last are marked as followed by another one, and the last is not, unless
there is no room for more. -/
structure IsNumber (room : Nat) (number : Bytes) : Prop where
  ne_nil : number ≠ []
  length_le : number.length ≤ room
  continued : ∀ b ∈ number.dropLast, ¬ b < 128
  ended : number.length < room → ∀ b ∈ number.getLast?, b < 128

lemma isNumber_singleton {room : Nat} {b : UInt8} (h : b < 128 ∨ room = 0) : IsNumber (room + 1) [b] where
  ne_nil := List.cons_ne_nil b []
  length_le := by simp
  continued := by simp
  ended := by
    intro hl
    have hr : room ≠ 0 := by simpa [Nat.pos_iff_ne_zero] using hl
    simpa using h.resolve_right hr

lemma isNumber_cons {room : Nat} {b : UInt8} {number : Bytes} (hn : number ≠ []) :
    IsNumber (room + 1) (b :: number) ↔ ¬ b < 128 ∧ IsNumber room number := by
  obtain ⟨c, rest, rfl⟩ := List.exists_cons_of_ne_nil hn
  constructor
  · rintro ⟨-, hl, hc, he⟩
    rw [List.dropLast_cons_cons, List.forall_mem_cons] at hc
    exact ⟨hc.1, hn, by simpa using hl, hc.2, by simpa using he⟩
  · rintro ⟨hb, -, hl, hc, he⟩
    refine ⟨List.cons_ne_nil _ _, by simpa using hl, ?_, by simpa using he⟩
    rw [List.dropLast_cons_cons, List.forall_mem_cons]
    exact ⟨hb, hc⟩

theorem cut_eq_some_iff {room : Nat} {input number rest : Bytes} :
    cut room input = some (number, rest) ↔ IsNumber room number ∧ input = number ++ rest := by
  induction room generalizing input number with
  | zero =>
    refine ⟨fun h => (nomatch h), fun ⟨h, _⟩ => ?_⟩
    exact absurd (List.length_eq_zero_iff.mp (Nat.le_zero.mp h.length_le)) h.ne_nil
  | succ room ih =>
    cases input with
    | nil =>
      refine ⟨fun h => (nomatch h), fun ⟨h, he⟩ => ?_⟩
      exact absurd (List.append_eq_nil_iff.mp he.symm).1 h.ne_nil
    | cons b input =>
      rw [cut]
      split
      · rename_i hb
        rw [Option.some.injEq, Prod.mk.injEq]
        constructor
        · rintro ⟨rfl, rfl⟩
          exact ⟨isNumber_singleton hb, rfl⟩
        · rintro ⟨h, he⟩
          obtain ⟨c, tail, rfl⟩ := List.exists_cons_of_ne_nil h.ne_nil
          obtain ⟨rfl, rfl⟩ := List.cons_eq_cons.mp he
          cases tail with
          | nil => exact ⟨rfl, rfl⟩
          | cons c tail =>
            obtain ⟨hcont, htail⟩ := (isNumber_cons (List.cons_ne_nil c tail)).mp h
            have hroom := htail.length_le
            simp [hb.resolve_left hcont] at hroom
      · rename_i hb
        obtain ⟨hcont, hroom⟩ := not_or.mp hb
        rw [Option.map_eq_some_iff]
        constructor
        · rintro ⟨⟨tail, rest'⟩, ht, he⟩
          obtain ⟨rfl, rfl⟩ := Prod.mk.inj he
          obtain ⟨htail, rfl⟩ := ih.mp ht
          exact ⟨(isNumber_cons htail.ne_nil).mpr ⟨hcont, htail⟩, rfl⟩
        · rintro ⟨h, he⟩
          obtain ⟨c, tail, rfl⟩ := List.exists_cons_of_ne_nil h.ne_nil
          obtain ⟨rfl, rfl⟩ := List.cons_eq_cons.mp he
          have hne : tail ≠ [] := by
            rintro rfl
            exact hcont (h.ended (by simp; omega) b rfl)
          exact ⟨(tail, rest), ih.mpr ⟨((isNumber_cons hne).mp h).2, rfl⟩, rfl⟩

lemma cut_append {room : Nat} {input number rest : Bytes} (h : cut room input = some (number, rest)) :
    input = number ++ rest ∧ ∀ other, cut room (number ++ other) = some (number, other) := by
  obtain ⟨hn, hi⟩ := cut_eq_some_iff.mp h
  exact ⟨hi, fun other => cut_eq_some_iff.mpr ⟨hn, rfl⟩⟩

structure Spells (number : Bytes) (v : UInt32) : Prop extends IsNumber maxLength number where
  value_eq : v = UInt32.ofNat (unsigned number)

lemma decode_eq_some_iff {input number rest : Bytes} {v : UInt32} :
    decode input = some (v, number, rest) ↔ Spells number v ∧ input = number ++ rest := by
  rw [decode, Option.map_eq_some_iff]
  constructor
  · rintro ⟨⟨number', rest'⟩, hcut, he⟩
    obtain ⟨rfl, rfl, rfl⟩ : UInt32.ofNat (unsigned number') = v ∧ number' = number ∧ rest' = rest := by
      simpa using he
    obtain ⟨hn, hi⟩ := cut_eq_some_iff.mp hcut
    exact ⟨⟨hn, rfl⟩, hi⟩
  · rintro ⟨⟨hn, rfl⟩, hi⟩
    exact ⟨(number, rest), cut_eq_some_iff.mpr ⟨hn, hi⟩, rfl⟩

lemma unsigned_lt (number : Bytes) : unsigned number < capacity number.length := by
  induction number with
  | nil => decide
  | cons b number ih =>
    rw [unsigned, List.length_cons, capacity_succ]
    omega

lemma length_encodeGroups_le {room n length : Nat} (hl : 0 < length) (h : n < capacity length) :
    (encodeGroups room n).length ≤ length := by
  induction room generalizing n length with
  | zero => exact Nat.zero_le _
  | succ room ih =>
    rw [encodeGroups]
    split
    · exact hl
    · rename_i hn
      -- a number of one group would be below 128
      obtain _ | _ | length := length
      · exact absurd hl (by decide)
      · exact absurd h hn
      · rw [capacity_succ] at h
        exact Nat.succ_le_succ (ih (Nat.succ_pos length) (by omega))

lemma Spells.length_encode_le {number : Bytes} {v : UInt32} (h : Spells number v) :
    (encode v).length ≤ number.length := by
  refine length_encodeGroups_le (List.length_pos_iff.mpr h.ne_nil) (Nat.lt_of_le_of_lt ?_ (unsigned_lt number))
  rw [h.value_eq, UInt32.toNat_ofNat']
  exact Nat.mod_le _ _

lemma length_encode_le (v : UInt32) : (encode v).length ≤ maxLength :=
  length_encodeGroups_le (by decide) (Nat.lt_trans v.toNat_lt (by decide))

lemma encodeGroups_ne_nil (room n : Nat) : encodeGroups (room + 1) n ≠ [] := by
  rw [encodeGroups]
  split <;> simp

lemma encode_length_pos (v : UInt32) : 0 < (encode v).length :=
  List.length_pos_iff.mpr (encodeGroups_ne_nil 4 v.toNat)

end DexUnseal.Leb128
