import DexUnseal.Proofs.Dex.RoundTrip

/-! Which containers cannot be encoded, and what is told of them. -/

namespace DexUnseal.Dex.Container

variable {c : Container} {fault : Fault}

lemma not_ordered_iff : ¬ c.Ordered ↔ ∃ d ∈ c.classes, ∃ indices ∈ d.memberIndices,
    ∃ start previous index rest, indices = start ++ previous :: index :: rest ∧ index ≤ previous := by
  simp only [Ordered, ClassDef.Ordered, ← ClassDef.isChain_lt_iff_pairwise,
    List.isChain_iff_forall_rel_of_append_cons_cons]
  constructor
  · intro h
    push Not at h
    obtain ⟨d, hd, indices, hi, previous, index, start, rest, he, hle⟩ := h
    exact ⟨d, hd, indices, hi, start, previous, index, rest, he, UInt32.not_lt.mp hle⟩
  · rintro ⟨d, hd, indices, hi, start, previous, index, rest, he, hle⟩ ho
    exact UInt32.not_lt.mpr hle (ho d hd indices hi he)

/-- What is told of a container that cannot be encoded. All code is written before the members of any class. -/
inductive Refused (c : Container) : Fault → Prop
  | tries {before after : List Code} {code : Code} (codes : c.codes = before ++ code :: after)
      (fit : ∀ x ∈ before, x.tries.length ≤ 65535) (many : 65535 < code.tries.length) :
      Refused c ⟨.tooManyTries code.tries.length, []⟩
  | order {before after : List ClassDef} {d : ClassDef} {index previous : UInt32}
      (fit : ∀ code ∈ c.codes, code.tries.length ≤ 65535) (classes : c.classes = before ++ d :: after)
      (ordered : ∀ x ∈ before, x.Ordered) (first : d.FirstDisorder index previous) :
      Refused c ⟨.membersOutOfOrder index previous, [.classData d.descriptor]⟩

lemma refused_of_checkTries (h : c.checkTries = .error fault) : c.Refused fault := by
  rw [checkTries_eq_forM] at h
  obtain ⟨before, code, after, hcodes, hbefore, hcode⟩ := forM_error.mp h
  obtain ⟨hmany, rfl⟩ := Code.checkTries_eq_error_iff.mp hcode
  exact .tries hcodes (fun x hx => Code.checkTries_eq_ok_iff.mp (hbefore x hx)) hmany

lemma refused_of_checkOrder (ht : c.checkTries = .ok ()) (h : c.classes.forM ClassDef.checkOrder = .error fault) :
    c.Refused fault := by
  obtain ⟨before, d, after, hclasses, hbefore, hd⟩ := forM_error.mp h
  obtain ⟨index, previous, hfirst, rfl⟩ := ClassDef.checkOrder_eq_error_iff.mp hd
  exact .order (checkTries_eq_ok_iff.mp ht) hclasses
    (fun x hx => ClassDef.checkOrder_eq_ok_iff.mp (hbefore x hx)) hfirst

lemma Refused.encode_eq (h : c.Refused fault) : c.encode = .error fault := by
  cases h with
  | tries codes fit many =>
    refine except_bind_error.mpr (.inl ?_)
    rw [checkTries_eq_forM]
    refine forM_error.mpr ⟨_, _, _, codes, fun x hx => ?_, ?_⟩
    · exact Code.checkTries_eq_ok_iff.mpr (fit x hx)
    · exact Code.checkTries_eq_error_iff.mpr ⟨many, rfl⟩
  | order fit classes ordered first =>
    refine except_bind_error.mpr (.inr ⟨(), checkTries_eq_ok_iff.mpr fit, except_bind_error.mpr (.inl ?_)⟩)
    refine forM_error.mpr ⟨_, _, _, classes, fun x hx => ?_, ?_⟩
    · exact ClassDef.checkOrder_eq_ok_iff.mpr (ordered x hx)
    · exact ClassDef.checkOrder_eq_error_iff.mpr ⟨_, _, first, rfl⟩

lemma encode_eq_error_iff (hids : Header.size + IdSections.size c.pools c.classes.length < UInt32.size) :
    c.encode = .error fault ↔ c.Refused fault := by
  refine ⟨fun h => ?_, Refused.encode_eq⟩
  obtain ht | ⟨⟨⟩, ht, h⟩ := except_bind_error.mp h
  · exact refused_of_checkTries ht
  obtain ho | ⟨⟨⟩, ho, h⟩ := except_bind_error.mp h
  · exact refused_of_checkOrder ht ho
  · simp only [idBytes_end hids, ne_eq, not_true_eq_false, if_false] at h
    cases h

lemma exists_refused_iff :
    (∃ fault, c.Refused fault) ↔ (∃ code ∈ c.codes, 65535 < code.tries.length) ∨ ¬ c.Ordered := by
  constructor
  · rintro ⟨_, h⟩
    cases h with
    | tries codes _ many => exact .inl ⟨_, codes ▸ List.mem_append_right _ List.mem_cons_self, many⟩
    | order _ classes _ first =>
      refine .inr fun ho => ?_
      have hd := ClassDef.checkOrder_eq_error_iff.mpr ⟨_, _, first, rfl⟩
      rw [ClassDef.checkOrder_eq_ok_iff.mpr (ho _ (classes ▸ List.mem_append_right _ List.mem_cons_self))] at hd
      cases hd
  · intro h
    cases ht : c.checkTries with
    | error fault => exact ⟨fault, refused_of_checkTries ht⟩
    | ok _ =>
      cases ho : c.classes.forM ClassDef.checkOrder with
      | error fault => exact ⟨fault, refused_of_checkOrder ht ho⟩
      | ok _ =>
        obtain ⟨code, hcode, hmany⟩ | hn := h
        · exact absurd hmany (Nat.not_lt.mpr (checkTries_eq_ok_iff.mp ht code hcode))
        · exact absurd (checkOrder_eq_ok_iff.mp ho) hn

/-- It is enough that the id sections end before 2^32, which they do in any file that is shorter than that. -/
theorem encode_fails_iff (hids : Header.size + IdSections.size c.pools c.classes.length < UInt32.size) :
    (∀ fault, c.encode = .error fault ↔ c.Refused fault) ∧
      ((∃ fault, c.encode = .error fault) ↔ (∃ code ∈ c.codes, 65535 < code.tries.length) ∨
        ∃ d ∈ c.classes, ∃ indices ∈ d.memberIndices, ∃ start previous index rest,
          indices = start ++ previous :: index :: rest ∧ index ≤ previous) ∧
      ∀ fault actual expected, c.encode = .error fault → fault.cause ≠ .idSectionsMisplaced actual expected := by
  refine ⟨fun fault => encode_eq_error_iff hids, ?_, fun fault actual expected h => ?_⟩
  · simp only [encode_eq_error_iff hids, exists_refused_iff, not_ordered_iff]
  · cases (encode_eq_error_iff hids).mp h <;> exact nofun

def shuffledSample : Container :=
  { sample with classes := sample.classes.map fun d => { d with instanceFields := [⟨7, ⟨0⟩⟩, ⟨3, ⟨0⟩⟩] } }

theorem encode_fails_iff_shuffledSample :
    Header.size + IdSections.size shuffledSample.pools shuffledSample.classes.length < UInt32.size ∧
      shuffledSample.encode = .error ⟨.membersOutOfOrder 3 7, [.classData "Lp/A;"]⟩ := by
  have hids : Header.size + IdSections.size shuffledSample.pools shuffledSample.classes.length < UInt32.size := by
    decide
  have hfirst : ∀ d ∈ shuffledSample.classes, d.FirstDisorder 3 7 := by
    intro d hd
    obtain rfl := List.mem_singleton.mp hd
    exact ⟨[[0]], [7, 3], [[], [0]], rfl, by simp, [], [], rfl, by simp, by decide⟩
  refine ⟨hids, ((encode_fails_iff hids).1 _).mpr ?_⟩
  refine @Refused.order _ [] [] _ 3 7 ?_ rfl ?_ (hfirst _ List.mem_cons_self)
  · decide
  · exact nofun

end DexUnseal.Dex.Container
