import DexUnseal.ClassName
import Mathlib.Data.List.Basic

/-! A descriptor is made up again from the dotted name. -/

namespace DexUnseal.ClassName

variable {n : ClassName} {descriptor text : String}

lemma toList_replaceChar (old new : Char) (text : String) :
    (replaceChar old new text).toList = text.toList.map fun c => if c = old then new else c := by
  rw [replaceChar, String.toList_ofList]

lemma replaceChar_replaceChar {old new : Char} (h : new ∉ text.toList) :
    replaceChar new old (replaceChar old new text) = text := by
  rw [← String.toList_inj, toList_replaceChar, toList_replaceChar, List.map_map]
  refine (List.map_congr_left fun c hc => ?_).trans text.toList.map_id
  have hne : c ≠ new := fun he => h (he ▸ hc)
  by_cases ho : c = old <;> simp [ho, hne]

def IsDescriptor (descriptor : String) : Prop := ∃ inside, inside ≠ "" ∧ descriptor = "L" ++ inside ++ ";"

lemma ofDescriptor?_eq_some_iff : ofDescriptor? descriptor = some n ↔ n.path ≠ "" ∧ n.descriptor = descriptor := by
  constructor
  · intro h
    rw [ofDescriptor?] at h
    split at h
    · rename_i rest hl
      split at h
      · rename_i hc
        obtain rfl := Option.some.inj h
        obtain ⟨front, rfl⟩ := List.getLast?_eq_some_iff.mp hc.1
        rw [List.dropLast_concat] at hc ⊢
        refine ⟨fun he => hc.2 ?_, ?_⟩
        · simpa using congrArg String.toList he
        · rw [← String.toList_inj, hl]
          simp [ClassName.descriptor]
      · cases h
    · cases h
  · rintro ⟨hne, rfl⟩
    have hchars : n.descriptor.toList = 'L' :: (n.path.toList ++ [';']) := by simp [ClassName.descriptor]
    have hpath : n.path.toList ≠ [] := fun he => hne (by simpa using he)
    simp [ofDescriptor?, hchars, hpath]

theorem isSome_ofDescriptor?_iff : (ofDescriptor? descriptor).isSome ↔ IsDescriptor descriptor := by
  rw [Option.isSome_iff_exists, IsDescriptor]
  constructor
  · rintro ⟨n, hn⟩
    obtain ⟨hne, rfl⟩ := ofDescriptor?_eq_some_iff.mp hn
    exact ⟨n.path, hne, rfl⟩
  · rintro ⟨inside, hne, rfl⟩
    exact ⟨⟨inside⟩, ofDescriptor?_eq_some_iff.mpr ⟨hne, rfl⟩⟩

lemma old_not_mem_replaceChar {old new : Char} (hne : old ≠ new) (text : String) :
    old ∉ (replaceChar old new text).toList := by
  rw [toList_replaceChar, List.mem_map]
  rintro ⟨c, -, hc⟩
  split at hc
  · exact hne hc.symm
  · exact absurd hc ‹_›

lemma descriptor_inj {k : ClassName} : n.descriptor = k.descriptor ↔ n.path = k.path := by
  simp only [← String.toList_inj, descriptor, String.toList_append]
  exact ⟨fun h => List.append_cancel_left (List.append_cancel_right h), fun h => by rw [h]⟩

lemma dot_mem_descriptor_iff : '.' ∈ n.descriptor.toList ↔ '.' ∈ n.path.toList := by
  simp [ClassName.descriptor]

/-- A name whose parts are joined by dots alone stands for no other descriptor than its own, and not even for that
if it has dots, for these become slashes. -/
theorem descriptor_ofDotted_eq_iff (h : ofDescriptor? descriptor = some n) (hs : '/' ∉ text.toList) :
    (ofDotted text).descriptor = descriptor ↔ n.dotted = text ∧ '.' ∉ descriptor.toList := by
  obtain ⟨-, rfl⟩ := ofDescriptor?_eq_some_iff.mp h
  rw [descriptor_inj, dot_mem_descriptor_iff, ofDotted, dotted]
  constructor
  · intro hp
    rw [← hp]
    exact ⟨replaceChar_replaceChar hs, old_not_mem_replaceChar (by decide) text⟩
  · rintro ⟨rfl, hd⟩
    exact replaceChar_replaceChar hd

end DexUnseal.ClassName
