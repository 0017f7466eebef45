import DexUnseal.Archive.DexEntry
import DexUnseal.Proofs.Text.Numeral

/-! Every number but zero is that of one name, which spells it out, and no other name has a number. -/

namespace DexUnseal.Archive.DexEntry

variable {name name' : String} {digits digits' : List Char} {number : UInt32}

lemma numeral?_eq (h : numeral? name.toList = some digits) :
    name.toList = stem.toList ++ (digits ++ suffix.toList) := by
  rw [numeral?] at h
  split at h
  · rename_i hstem
    obtain ⟨rest, hrest⟩ := List.isPrefixOf_iff_prefix.mp hstem
    have hdrop : name.toList.drop stem.length = rest := by
      rw [← hrest, ← String.length_toList, List.drop_left]
    simp only [hdrop] at h
    split at h
    · rename_i hsuffix
      obtain ⟨front, rfl⟩ := List.isSuffixOf_iff_suffix.mp hsuffix
      have hfront : (front ++ suffix.toList).length - suffix.length = front.length := by
        rw [List.length_append, String.length_toList, Nat.add_sub_cancel]
      rw [hfront, List.take_left, Option.some.injEq] at h
      rw [← hrest, h]
    · cases h
  · cases h

lemma decimalValue_eq (digits : List Char) :
    decimalValue digits = Nat.ofDigits 10 (digits.map digitValue).reverse := by
  induction digits using List.reverseRecOn with
  | nil => rfl
  | append_singleton digits c ih =>
    rw [decimalValue, List.foldl_append, ← decimalValue, ih]
    simp [Nat.ofDigits_cons, Nat.add_comm]

lemma zero_toNat : '0'.toNat = 48 := rfl

structure Counts (digits : List Char) : Prop where
  ne_nil : digits ≠ []
  head : digits.head? ≠ some '0'
  digits : ∀ c ∈ digits, c.isDigit = true

lemma Counts.digits_decimalValue (h : Counts digits) :
    Nat.digits 10 (decimalValue digits) = (digits.map digitValue).reverse := by
  rw [decimalValue_eq]
  refine Nat.digits_ofDigits 10 (by omega) _ (fun d hd => ?_) fun _ => ?_
  · obtain ⟨c, hc, rfl⟩ := List.mem_map.mp (List.mem_reverse.mp hd)
    have hrange := Text.toNat_of_isDigit (h.digits c hc)
    rw [digitValue, zero_toNat]
    omega
  · obtain ⟨c, rest, rfl⟩ := List.exists_cons_of_ne_nil h.ne_nil
    have hrange := Text.toNat_of_isDigit (h.digits c List.mem_cons_self)
    have hne : c.toNat ≠ '0'.toNat := fun he => h.head (by rw [Char.toNat_inj.mp he]; rfl)
    simp only [List.map_cons, List.reverse_cons, List.getLast_append_singleton, digitValue]
    rw [zero_toNat] at hne ⊢
    omega

lemma Counts.map_ofNat (h : Counts digits) :
    (digits.map digitValue).map (fun d => Char.ofNat ('0'.toNat + d)) = digits := by
  rw [List.map_map]
  refine (List.map_congr_left fun c hc => ?_).trans digits.map_id
  have hrange := Text.toNat_of_isDigit (h.digits c hc)
  have hadd : '0'.toNat + digitValue c = c.toNat := by
    rw [digitValue, zero_toNat]
    omega
  rw [Function.comp_apply, hadd, Char.ofNat_toNat, id]

lemma Counts.eq_of_decimalValue (h : Counts digits) (h' : Counts digits')
    (he : decimalValue digits = decimalValue digits') : digits = digits' := by
  have hmap : digits.map digitValue = digits'.map digitValue := by
    rw [← List.reverse_inj, ← h.digits_decimalValue, ← h'.digits_decimalValue, he]
  rw [← h.map_ofNat, ← h'.map_ofNat, hmap]

lemma index?_ok (h : index? name = some number) : ∃ digits, name.toList = stem.toList ++ (digits ++ suffix.toList) ∧
    (digits = [] ∧ number = 1 ∨ Counts digits ∧ 2 ≤ decimalValue digits ∧ number.toNat = decimalValue digits) := by
  rw [index?] at h
  cases hn : numeral? name.toList with
  | none => simp [hn] at h
  | some digits =>
    refine ⟨digits, numeral?_eq hn, ?_⟩
    simp only [hn] at h
    cases digits with
    | nil => exact .inl ⟨rfl, (Option.some.inj h).symm⟩
    | cons c rest =>
      simp only at h
      split at h
      · rename_i hc
        obtain ⟨hhead, hall, htwo, hlt⟩ := hc
        obtain rfl := Option.some.inj h
        exact .inr ⟨⟨List.cons_ne_nil c rest, hhead, List.all_eq_true.mp hall⟩, htwo, UInt32.toNat_ofNat_of_lt' hlt⟩
      · cases h

theorem index?_injective (h : index? name = some number) (h' : index? name' = some number) : name = name' := by
  obtain ⟨digits, hname, hd⟩ := index?_ok h
  obtain ⟨digits', hname', hd'⟩ := index?_ok h'
  have hone : (1 : UInt32).toNat = 1 := rfl
  have hdigits : digits = digits' := by
    rcases hd with ⟨rfl, rfl⟩ | ⟨hc, htwo, hvalue⟩
    · rcases hd' with ⟨rfl, -⟩ | ⟨-, htwo', hvalue'⟩
      · rfl
      · omega
    · rcases hd' with ⟨rfl, rfl⟩ | ⟨hc', -, hvalue'⟩
      · omega
      · exact hc.eq_of_decimalValue hc' (hvalue.symm.trans hvalue')
  rw [← String.toList_inj, hname, hname', hdigits]

def spelling (number : UInt32) : String :=
  if number = 1 then "classes.dex" else "classes" ++ Text.decimal number.toNat ++ ".dex"

lemma counts_toDigits {n : Nat} (h : 0 < n) : Counts (Nat.toDigits 10 n) :=
  ⟨Nat.toDigits_ne_nil, Text.head?_toDigits h, fun _ => Text.isDigit_of_mem_toDigits⟩

lemma decimalValue_toDigits (n : Nat) : decimalValue (Nat.toDigits 10 n) = n := Nat.ofDigitChars_ten_toDigits

lemma numeral?_append (digits : List Char) : numeral? (stem.toList ++ (digits ++ suffix.toList)) = some digits := by
  have hstem : stem.toList.isPrefixOf (stem.toList ++ (digits ++ suffix.toList)) = true :=
    List.isPrefixOf_iff_prefix.mpr (List.prefix_append ..)
  have hsuffix : suffix.toList.isSuffixOf (digits ++ suffix.toList) = true :=
    List.isSuffixOf_iff_suffix.mpr (List.suffix_append ..)
  have hrest : (stem.toList ++ (digits ++ suffix.toList)).drop stem.length = digits ++ suffix.toList := by
    rw [← String.length_toList, List.drop_left]
  rw [numeral?, if_pos hstem]
  simp only [hrest, if_pos hsuffix]
  rw [List.length_append, String.length_toList, Nat.add_sub_cancel, List.take_left]

lemma index?_of_counts (h : Counts digits) (htwo : 2 ≤ decimalValue digits) (hlt : decimalValue digits < UInt32.size)
    (hname : name.toList = stem.toList ++ (digits ++ suffix.toList)) :
    index? name = some (UInt32.ofNat (decimalValue digits)) := by
  obtain ⟨c, rest, rfl⟩ := List.exists_cons_of_ne_nil h.ne_nil
  rw [index?, hname, numeral?_append]
  exact if_pos ⟨h.head, List.all_eq_true.mpr h.digits, htwo, hlt⟩

lemma index?_spelling (h : number ≠ 0) : index? (spelling number) = some number := by
  rw [spelling]
  split
  · rename_i hone
    rw [hone]
    decide +kernel
  · rename_i hone
    have hzero : number.toNat ≠ 0 := fun he => h (UInt32.toNat_inj.mp he)
    have hne : number.toNat ≠ 1 := fun he => hone (UInt32.toNat_inj.mp he)
    have hname : ("classes" ++ Text.decimal number.toNat ++ ".dex").toList =
        stem.toList ++ (Nat.toDigits 10 number.toNat ++ suffix.toList) := by
      change (stem ++ Text.decimal number.toNat ++ suffix).toList = _
      rw [String.toList_append, String.toList_append, Text.toList_decimal, List.append_assoc]
    have hvalue := decimalValue_toDigits number.toNat
    have hlt : decimalValue (Nat.toDigits 10 number.toNat) < UInt32.size := hvalue.symm ▸ number.toNat_lt
    rw [index?_of_counts (counts_toDigits (by omega)) (by omega) hlt hname, hvalue, UInt32.ofNat_toNat]

lemma ne_zero_of_index? (h : index? name = some number) : number ≠ 0 := by
  rintro rfl
  obtain ⟨digits, -, ⟨-, hzero⟩ | ⟨-, htwo, hvalue⟩⟩ := index?_ok h
  · cases hzero
  · rw [← hvalue] at htwo
    exact absurd htwo (by decide)

lemma index?_iff : index? name = some number ↔ number ≠ 0 ∧ name = spelling number :=
  ⟨fun h => ⟨ne_zero_of_index? h, index?_injective h (index?_spelling (ne_zero_of_index? h))⟩,
    fun ⟨h, hname⟩ => hname ▸ index?_spelling h⟩

lemma index?_eq_none_iff : index? name = none ↔ ∀ number, number ≠ 0 → name ≠ spelling number := by
  simp only [Option.eq_none_iff_forall_ne_some, ne_eq, index?_iff, not_and]

end DexUnseal.Archive.DexEntry
