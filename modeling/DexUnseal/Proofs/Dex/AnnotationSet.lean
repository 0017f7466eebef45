import DexUnseal.Dex.AnnotationSet
import DexUnseal.Proofs.Dex.Value
import DexUnseal.Proofs.Pairing

/-! Annotation sets and directories read back from the offsets that stand for them on file. -/

namespace DexUnseal.Dex

open Reader

lemma OffsetList.reads_encode {offsets : OffsetList} (h : offsets.length < UInt32.size) :
    Reads read (encode offsets) offsets := by
  apply (reads_u32 _).bind
  rw [UInt32.toNat_ofNat_of_lt' h]
  exact reads_repeated_flatMap Bytes.word32 fun offset _ => reads_u32 offset

lemma OffsetList.length_le_encode (offsets : OffsetList) : offsets.length ≤ (encode offsets).length := by
  simp [encode, List.length_flatMap]
  omega

lemma AnnotationItem.reads_encode {item : AnnotationItem} (h : item.height ≤ Value.room 1)
    (hlen : item.encode.length < UInt32.size) : Reads read item.encode item := by
  rw [encode, List.length_cons] at hlen
  have ha : Reads Annotation.read item.toAnnotation.encode item.toAnnotation :=
    Annotation.reads_encode h (by omega)
  exact (reads_u8 item.visibility).bind (ha.then (Reads.pure _))

namespace AnnotationSet

def StandAt (file : Bytes) (set : AnnotationSet) (offsets : OffsetList) : Prop :=
  List.Forall₂ (fun item offset => offset ≠ 0 ∧ StandsAt file offset.toNat item.encode) set offsets

def WellFormed (set : AnnotationSet) : Prop := ∀ item ∈ set, item.height ≤ Value.room 1

lemma readAt_offsets {file : Bytes} {set : AnnotationSet} {offsets : OffsetList} {offset : UInt32}
    (h : set.WellFormed) (hfile : file.length < UInt32.size) (hs : set.StandAt file offsets)
    (ho : StandsAt file offset.toNat (OffsetList.encode offsets)) : readAt file offset = .ok set := by
  have hlen := OffsetList.length_le_encode offsets
  have hle := ho.length_le
  have hl : OffsetList.read.readAt file offset.toNat = .ok offsets :=
    (OffsetList.reads_encode (by omega)).readAt ho
  have hf : offsets.filter (· != 0) = offsets := by
    have hz := forall₂_right hs fun item entry hi => hi.1
    exact List.filter_eq_self.mpr fun entry he => by simpa using hz entry he
  refine except_bind_ok.mpr ⟨_, hl, ?_⟩
  rw [hf, mapM_ok]
  refine forall₂_swap (forall₂_imp_mem hs h fun item entry hh hi => ?_)
  have hile := hi.2.length_le
  rw [inContext_ok]
  exact (AnnotationItem.reads_encode hh (by omega)).readAt hi.2

end AnnotationSet

namespace Directory

structure All (P : σ → Prop) (d : Directory σ) : Prop where
  ofClass : ∀ set ∈ d.ofClass, P set
  ofFields : ∀ member ∈ d.ofFields, P member.2
  ofMethods : ∀ member ∈ d.ofMethods, P member.2
  ofParameters : ∀ member ∈ d.ofParameters, ∀ set ∈ member.2, ∀ x ∈ set, P x

def Keyed (R : α → β → Prop) (a : UInt32 × α) (b : UInt32 × β) : Prop := a.1 = b.1 ∧ R a.2 b.2

structure Rel (R : σ → τ → Prop) (d : Directory σ) (e : Directory τ) : Prop where
  ofClass : Option.Rel R d.ofClass e.ofClass
  ofFields : List.Forall₂ (Keyed R) d.ofFields e.ofFields
  ofMethods : List.Forall₂ (Keyed R) d.ofMethods e.ofMethods
  ofParameters : List.Forall₂ (Keyed (List.Forall₂ (Option.Rel R))) d.ofParameters e.ofParameters

variable {R : σ → τ → Prop} {d : Directory σ} {e : Directory τ}

lemma Rel.imp_all {P : σ → Prop} {S : σ → τ → Prop} (h : Rel R d e) (hp : All P d)
    (hs : ∀ x y, P x → R x y → S x y) : Rel S d e where
  ofClass := optionRel_imp_mem h.ofClass hp.ofClass hs
  ofFields := forall₂_imp_mem h.ofFields hp.ofFields fun _ _ hx hr => ⟨hr.1, hs _ _ hx hr.2⟩
  ofMethods := forall₂_imp_mem h.ofMethods hp.ofMethods fun _ _ hx hr => ⟨hr.1, hs _ _ hx hr.2⟩
  ofParameters := forall₂_imp_mem h.ofParameters hp.ofParameters fun _ _ hx hr =>
    ⟨hr.1, forall₂_imp_mem hr.2 hx fun _ _ hx hr => optionRel_imp_mem hr hx hs⟩

lemma Rel.trans {S : τ → υ → Prop} {T : σ → υ → Prop} {f : Directory υ} (h : Rel R d e) (h' : Rel S e f)
    (ht : ∀ x y z, R x y → S y z → T x z) : Rel T d f where
  ofClass := optionRel_trans h.ofClass h'.ofClass ht
  ofFields := forall₂_trans h.ofFields h'.ofFields fun _ _ _ hx hy => ⟨hx.1.trans hy.1, ht _ _ _ hx.2 hy.2⟩
  ofMethods := forall₂_trans h.ofMethods h'.ofMethods fun _ _ _ hx hy => ⟨hx.1.trans hy.1, ht _ _ _ hx.2 hy.2⟩
  ofParameters := forall₂_trans h.ofParameters h'.ofParameters fun _ _ _ hx hy =>
    ⟨hx.1.trans hy.1, forall₂_trans hx.2 hy.2 fun _ _ _ hx hy => optionRel_trans hx hy ht⟩

lemma reads_member {find : UInt32 → Except Fault σ} {x : UInt32 × σ} {offset : UInt32 × UInt32}
    (h : Keyed (fun x o => find o = .ok x) x offset) :
    Reads (readMember find) (Bytes.word32 offset.1 ++ Bytes.word32 offset.2) x := by
  obtain ⟨idx, x⟩ := x
  obtain ⟨idx', o⟩ := offset
  obtain ⟨rfl, hx⟩ := h
  exact (reads_u32 idx).bind ((reads_u32 o).then (Reads.skip (Reads.lift hx) (Reads.pure _)))

lemma reads_members {find : UInt32 → Except Fault σ} {xs : List (UInt32 × σ)} {offsets : List (UInt32 × UInt32)}
    (h : List.Forall₂ (Keyed fun x o => find o = .ok x) xs offsets) {count : Nat} (hc : xs.length = count) :
    Reads (repeated (readMember find) count)
      (offsets.flatMap fun (idx, offset) => Bytes.word32 idx ++ Bytes.word32 offset) xs := by
  subst hc
  rw [List.flatMap_def]
  refine reads_repeated (List.forall₂_map_left_iff.mpr ?_)
  exact (forall₂_swap h).imp fun _ _ hx => reads_member hx

lemma readSets_offsets {file : Bytes} {set : UInt32 → Except Fault σ} {sets : List (Option σ)}
    {offsets : List (Option UInt32)} {offset : UInt32} (hfile : file.length < UInt32.size)
    (hs : List.Forall₂ (Option.Rel fun x o => o ≠ 0 ∧ set o = .ok x) sets offsets)
    (ho : StandsAt file offset.toNat (OffsetList.encode (offsets.map (·.getD 0)))) :
    readSets file set offset = .ok sets := by
  have hlen := OffsetList.length_le_encode (offsets.map (·.getD 0))
  have hle := ho.length_le
  have hl : OffsetList.read.readAt file offset.toNat = .ok (offsets.map (·.getD 0)) :=
    (OffsetList.reads_encode (by omega)).readAt ho
  refine except_bind_ok.mpr ⟨_, hl, mapM_ok.mpr (List.forall₂_map_left_iff.mpr ?_)⟩
  exact (forall₂_swap hs).imp fun _ _ hx => optional_eq hx

lemma reads_encode {file : Bytes} {set : UInt32 → Except Fault σ} {offsets : Directory UInt32}
    {setLists : List UInt32} (hd : Rel (fun x offset => offset ≠ 0 ∧ set offset = .ok x) d offsets)
    (hl : List.Forall₂ (fun sets offset =>
      StandsAt file offset.toNat (OffsetList.encode (sets.2.map (·.getD 0)))) offsets.ofParameters setLists)
    (hfile : file.length < UInt32.size) (hlen : (offsets.encode setLists).length < UInt32.size) :
    Reads (read file set) (offsets.encode setLists) d := by
  have hparameters : List.Forall₂ (Keyed fun sets o => readSets file set o = .ok sets) d.ofParameters
      ((offsets.ofParameters.map (·.1)).zip setLists) :=
    forall₂_map_zip hd.ofParameters hl fun x y z hx hz => ⟨hx.1, readSets_offsets hfile hx.2 hz⟩
  have hf := hd.ofFields.length_eq
  have hm := hd.ofMethods.length_eq
  have hp := hd.ofParameters.length_eq
  have hs := hl.length_eq
  have hcount : ∀ {n : Nat}, n ≤ (offsets.encode setLists).length → (UInt32.ofNat n).toNat = n :=
    fun hn => UInt32.toNat_ofNat_of_lt' (by omega)
  have hle : (offsets.encode setLists).length =
      16 + 8 * (d.ofFields.length + d.ofMethods.length + d.ofParameters.length) := by
    simp only [encode, List.flatMap_append, List.length_append, List.length_flatMap, Bytes.length_word32]
    simp
    omega
  simp only [encode, List.flatMap_append, List.append_assoc]
  refine (reads_u32 _).bind ((reads_u32 _).bind ((reads_u32 _).bind ((reads_u32 _).bind ?_)))
  apply Reads.skip (Reads.lift (optional_eq hd.ofClass))
  refine (reads_members (hd.ofFields.imp fun _ _ h => ⟨h.1, h.2.2⟩) ?_).bind ?_
  · rw [hcount (by omega), hf]
  refine (reads_members (hd.ofMethods.imp fun _ _ h => ⟨h.1, h.2.2⟩) ?_).bind ?_
  · rw [hcount (by omega), hm]
  exact (reads_members hparameters (by rw [hcount (by omega), hp])).then (Reads.pure _)

lemma gives_member {find : UInt32 → Except Fault σ} {P : σ → Prop} (h : ∀ o x, find o = .ok x → P x) :
    Gives (readMember find) fun member => P member.2 :=
  Gives.after fun _ => Gives.after fun o => (Gives.lift fun x hx => h o x hx).bind fun _ hx => Gives.pure hx

lemma readSets_all {file : Bytes} {set : UInt32 → Except Fault σ} {P : σ → Prop} (h : ∀ o x, set o = .ok x → P x)
    {o : UInt32} {sets : List (Option σ)} (hs : readSets file set o = .ok sets) : ∀ x ∈ sets, ∀ a ∈ x, P a := by
  obtain ⟨offsets, -, hs⟩ := except_bind_ok.mp hs
  refine forall₂_right (mapM_ok.mp hs) fun offset x hx a ha => ?_
  obtain ⟨o, ho⟩ := optional_ok hx a ha
  exact h o a ho

lemma gives_all {file : Bytes} {set : UInt32 → Except Fault σ} {P : σ → Prop} (h : ∀ o x, set o = .ok x → P x) :
    Gives (read file set) (All P) := by
  refine Gives.after fun _ => Gives.after fun fieldCount => Gives.after fun methodCount => ?_
  refine Gives.after fun parameterCount => Gives.bind (Gives.lift fun x hx => optional_ok hx) fun ofClass hc => ?_
  refine ((gives_member h).repeated fieldCount.toNat).bind fun ofFields hf => ?_
  refine ((gives_member h).repeated methodCount.toNat).bind fun ofMethods hm => ?_
  refine ((gives_member fun o x => readSets_all h).repeated parameterCount.toNat).bind fun ofParameters hp => ?_
  exact Gives.pure ⟨fun a ha => (hc a ha).elim fun o ho => h o a ho, hf.2, hm.2, hp.2⟩

end Directory

lemma AnnotationSet.readAt_wellFormed {file : Bytes} {offset : UInt32} {set : AnnotationSet}
    (h : readAt file offset = .ok set) : set.WellFormed := by
  obtain ⟨offsets, -, h⟩ := except_bind_ok.mp h
  have hg : Gives AnnotationItem.read fun item => item.height ≤ Value.room 1 :=
    Gives.after fun _ => Annotation.gives_height.bind fun _ ha => Gives.pure ha
  exact forall₂_right (mapM_ok.mp h) fun entry item hi => hg.readAt (inContext_ok.mp hi)

namespace AnnotationDirectory

def WellFormed (d : AnnotationDirectory) : Prop := d.All AnnotationSet.WellFormed

theorem reads_encode {file : Bytes} {d : AnnotationDirectory} {items : Directory OffsetList}
    {sets : Directory UInt32} {setLists : List UInt32} (h : d.WellFormed)
    (hi : d.Rel (AnnotationSet.StandAt file) items)
    (hs : items.Rel (fun entries o => o ≠ 0 ∧ StandsAt file o.toNat (OffsetList.encode entries)) sets)
    (hl : List.Forall₂ (fun sets offset =>
      StandsAt file offset.toNat (OffsetList.encode (sets.2.map (·.getD 0)))) sets.ofParameters setLists)
    (hfile : file.length < UInt32.size) (hlen : (sets.encode setLists).length < UInt32.size) :
    Reads (read file) (sets.encode setLists) d := by
  have hd := (hi.imp_all h fun _ _ hx hr => (⟨hx, hr⟩ : _ ∧ _)).trans hs fun set entries o hx ho =>
    (⟨ho.1, AnnotationSet.readAt_offsets hx.1 hfile hx.2 ho.2⟩ : o ≠ 0 ∧ AnnotationSet.readAt file o = .ok set)
  exact Directory.reads_encode hd hl hfile hlen

theorem gives_wellFormed (file : Bytes) : Gives (read file) WellFormed :=
  Directory.gives_all fun _ _ => AnnotationSet.readAt_wellFormed

end AnnotationDirectory

end DexUnseal.Dex
