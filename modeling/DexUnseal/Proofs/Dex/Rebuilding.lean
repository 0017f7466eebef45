import DexUnseal.Proofs.Dex.Refusal
import DexUnseal.Proofs.Unsealing

/-! What was decoded can be rebuilt, with all of its classes or some, opened or not. -/

namespace DexUnseal.Dex.Container

open Reader

inductive Derived (c : Container) : Container → Prop
  | refl : Derived c c
  | select {d : Container} (h : Derived c d) (descriptors : List String) : Derived c (d.select descriptors)
  | opened {d : Container} (h : Derived c d) : Derived c (Unsealing.container d)
  | withClasses {d : Container} (h : Derived c d) {classes : List ClassDef} (hs : classes ⊆ d.classes) :
    Derived c (d.withClasses classes)

def Repeats (c : Container) : Prop :=
  ∃ d ∈ c.classes, ∃ indices ∈ d.memberIndices, ∃ before index after, indices = before ++ index :: index :: after

variable {c d : Container} {file : Bytes}

lemma WellFormed.withClasses (h : c.WellFormed) {classes : List ClassDef} (hs : classes ⊆ c.classes) :
    (c.withClasses classes).WellFormed :=
  ⟨h.magic, h.pools, fun d hd => h.classes d (hs hd)⟩

lemma Sorted.withClasses (h : c.Sorted) {classes : List ClassDef} (hs : classes ⊆ c.classes) :
    (c.withClasses classes).Sorted :=
  fun d hd => h d (hs hd)

lemma Ordered.withClasses (h : c.Ordered) {classes : List ClassDef} (hs : classes ⊆ c.classes) :
    (c.withClasses classes).Ordered :=
  fun d hd => h d (hs hd)

lemma WellFormed.opened (h : c.WellFormed) : (Unsealing.container c).WellFormed := by
  refine ⟨h.magic, h.pools, fun d hd => ?_⟩
  obtain ⟨d₀, hd₀, rfl⟩ := List.mem_map.mp hd
  exact Unsealing.wellFormed_classDef _ (h.classes d₀ hd₀)

lemma Sorted.opened (h : c.Sorted) : (Unsealing.container c).Sorted := by
  intro d hd
  obtain ⟨d₀, hd₀, rfl⟩ := List.mem_map.mp hd
  exact Unsealing.sorted_classDef _ (h d₀ hd₀)

lemma Ordered.opened (h : c.Ordered) : (Unsealing.container c).Ordered := by
  intro d hd
  obtain ⟨d₀, hd₀, rfl⟩ := List.mem_map.mp hd
  rw [ClassDef.Ordered, Unsealing.memberIndices_classDef]
  exact h d₀ hd₀

lemma Derived.wellFormed (h : Derived c d) (hc : c.WellFormed) : d.WellFormed := by
  induction h with
  | refl => exact hc
  | select _ _ ih => exact ih.withClasses (List.filter_subset_self _)
  | opened _ ih => exact ih.opened
  | withClasses _ hs ih => exact ih.withClasses hs

lemma Derived.sorted (h : Derived c d) (hc : c.Sorted) : d.Sorted := by
  induction h with
  | refl => exact hc
  | select _ _ ih => exact ih.withClasses (List.filter_subset_self _)
  | opened _ ih => exact ih.opened
  | withClasses _ hs ih => exact ih.withClasses hs

lemma Derived.pools_eq (h : Derived c d) : d.pools = c.pools := by
  induction h with
  | refl => rfl
  | select _ _ ih => exact ih
  | opened _ ih => exact ih
  | withClasses _ _ ih => exact ih

lemma Sorted.not_ordered_iff (h : c.Sorted) : ¬ c.Ordered ↔ c.Repeats := by
  rw [Container.not_ordered_iff]
  constructor
  · rintro ⟨d, hd, indices, hi, start, previous, index, rest, he, hle⟩
    have hsorted := h d hd indices hi
    rw [he] at hsorted
    have hback := (List.pairwise_append.mp hsorted).2.1
    obtain rfl := UInt32.le_antisymm hle ((List.pairwise_cons.mp hback).1 index List.mem_cons_self)
    exact ⟨d, hd, indices, hi, start, index, rest, he⟩
  · rintro ⟨d, hd, indices, hi, before, index, after, he⟩
    exact ⟨d, hd, indices, hi, before, index, index, after, he, UInt32.le_refl index⟩

lemma encode_of_not_ordered (ho : ¬ c.Ordered) : ∃ fault, c.encode = .error fault :=
  (exists_refused_iff.mpr (.inr ho)).imp fun _ => Refused.encode_eq

/-- A repeated member index is all that keeps a container made of a decoded one from being rebuilt. -/
theorem Derived.rebuild (hc : decode file = .ok c) (h : Derived c d) (hlen : d.file.length < UInt32.size) :
    ((∃ fault, d.encode = .error fault) ↔ d.Repeats) ∧
      (¬ d.Repeats → ∃ file', d.encode = .ok file' ∧ decode file' = .ok d ∧ d.pools = c.pools ∧
        decode file' >>= encode = .ok file') := by
  have hw := h.wellFormed (decode_wellFormed hc).1
  rw [← (h.sorted (decode_wellFormed hc).2).not_ordered_iff, not_not]
  refine ⟨⟨?_, encode_of_not_ordered⟩, fun ho => ?_⟩
  · rintro ⟨fault, he⟩ ho
    simp [encode_eq_file hw ho hlen] at he
  · have hd := decode_file hw ho.sorted hlen
    exact ⟨d.file, encode_eq_file hw ho hlen, hd, h.pools_eq,
      except_bind_ok.mpr ⟨d, hd, encode_eq_file hw ho hlen⟩⟩

def openedSample : Container := Unsealing.container (sample.select ["Lp/A;"])

/-- A file can list a field twice. -/
def repeatingSample : Container :=
  { sample with classes := sample.classes.map fun d => { d with instanceFields := [⟨0, ⟨0⟩⟩, ⟨0, ⟨0⟩⟩] } }

lemma length_file_openedSample : openedSample.file.length < 1024 := by
  rw [length_file, size_dataSection]
  decide +kernel

lemma length_file_repeatingSample : repeatingSample.file.length < 1024 := by
  rw [length_file, size_dataSection]
  decide +kernel

lemma wellFormed_repeatingSample : repeatingSample.WellFormed := by
  refine ⟨wellFormed_sample.magic, wellFormed_sample.pools, List.forall_mem_map.mpr fun d hd => ?_⟩
  have hw := wellFormed_sample.classes d hd
  exact ⟨hw.descriptor, hw.interfaces, hw.code, hw.annotations, hw.staticValues⟩

lemma sorted_repeatingSample : repeatingSample.Sorted := by
  simp [Sorted, ClassDef.Sorted, repeatingSample, sample, ClassDef.memberIndices]

lemma repeats_repeatingSample : repeatingSample.Repeats :=
  ⟨_, List.mem_cons_self, [0, 0], by decide, [], 0, [], rfl⟩

theorem Derived.rebuild_sample :
    (∃ file', openedSample.encode = .ok file' ∧ decode file' = .ok openedSample ∧
      openedSample.pools = sample.pools ∧ decode file' >>= encode = .ok file') ∧
    decode repeatingSample.file = .ok repeatingSample ∧ ∃ fault, repeatingSample.encode = .error fault := by
  have ho : openedSample.Ordered := (ordered_sample.withClasses (List.filter_subset_self _)).opened
  have hnot : ¬ openedSample.Repeats := fun hr => ho.sorted.not_ordered_iff.mpr hr ho
  have hd := decode_file wellFormed_repeatingSample sorted_repeatingSample
    (Nat.lt_trans length_file_repeatingSample (by decide))
  have hopened := Derived.rebuild decode_file_sample (.opened (.select .refl ["Lp/A;"]))
    (Nat.lt_trans length_file_openedSample (by decide))
  have hrepeating := Derived.rebuild hd .refl (Nat.lt_trans length_file_repeatingSample (by decide))
  exact ⟨hopened.2 hnot, hd, hrepeating.1.mpr repeats_repeatingSample⟩

end DexUnseal.Dex.Container
