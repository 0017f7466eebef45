import DexUnseal.Dex.Layout
import DexUnseal.Proofs.Dex.AnnotationSet
import DexUnseal.Proofs.Dex.Code
import DexUnseal.Proofs.Dex.Pools
import Mathlib.Data.List.Chain

/-! Class definitions read back as they were written, if their members are in order. -/

namespace DexUnseal.Dex.ClassDef

open Reader

structure WellFormed (pools : Pools) (c : ClassDef) : Prop where
  descriptor : pools.typeDescriptor? c.classIdx = some c.descriptor
  interfaces : c.interfaces.WellFormed
  code : ∀ m ∈ c.methods, ∀ code ∈ m.code, code.WellFormed
  annotations : c.annotations.WellFormed
  staticValues : Value.Shallow c.staticValues

def Ordered (c : ClassDef) : Prop := ∀ indices ∈ c.memberIndices, indices.Pairwise (· < ·)

/-- The indices of the members do not decrease in any list, but may repeat. -/
def Sorted (c : ClassDef) : Prop := ∀ indices ∈ c.memberIndices, indices.Pairwise (· ≤ ·)

lemma Ordered.sorted {c : ClassDef} (h : c.Ordered) : c.Sorted :=
  fun indices hi => (h indices hi).imp fun hlt => UInt32.le_of_lt hlt

lemma nextIndex_sub {last index : UInt32} (h : last ≤ index) : nextIndex last (index - last) = .ok index := by
  have hd := UInt32.toNat_sub_of_le _ _ h
  have hi := index.toNat_lt
  have hl := UInt32.le_iff_toNat_le.mp h
  have hb : last.toNat + (index - last).toNat < UInt32.size := by
    rw [hd, UInt32.size]
    omega
  rw [nextIndex, if_pos hb, UInt32.add_comm, UInt32.sub_add_cancel]
  rfl

lemma reads_members {member : UInt32 → Reader α} {index : β → UInt32} {item : β → Bytes} {xs : List β}
    {ys : List α} {last : UInt32} (h : List.Forall₂ (fun x y => Reads (member (index x)) (item x) y) xs ys)
    (ho : (last :: xs.map index).IsChain (· ≤ ·)) :
    Reads (readMembers member last ys.length) (encodeMembers index item last xs) ys := by
  induction h generalizing last with
  | nil => exact Reads.pure []
  | cons hx _ ih =>
    rw [List.map_cons, List.isChain_cons_cons] at ho
    simp only [encodeMembers, List.append_assoc]
    refine (reads_uleb128 _).bind (Reads.skip (Reads.lift (nextIndex_sub ho.1)) ?_)
    exact hx.bind ((ih ho.2).then (Reads.pure _))

lemma length_le_encodeMembers (index : β → UInt32) (item : β → Bytes) (last : UInt32) (xs : List β) :
    xs.length ≤ (encodeMembers index item last xs).length := by
  induction xs generalizing last with
  | nil => simp
  | cons x xs ih =>
    have hl := Leb128.encode_length_pos (index x - last)
    have hr := ih (index x)
    simp only [encodeMembers, List.length_append, List.length_cons]
    omega

lemma chain_of_sorted {indices : List UInt32} (h : indices.Pairwise (· ≤ ·)) : (0 :: indices).IsChain (· ≤ ·) :=
  List.Pairwise.isChain (List.pairwise_cons.mpr ⟨fun _ _ => UInt32.zero_le, h⟩)

def CodeAt (file : Bytes) (m : MethodDef) (offset : UInt32) : Prop :=
  optional (fun o => inContext (.method m.methodIdx) ((Code.read file).readAt file o.toNat)) offset = .ok m.code

lemma reads_fields {fields : List FieldDef} (h : (fields.map (·.fieldIdx)).Pairwise (· ≤ ·)) :
    Reads (readMembers readField 0 fields.length) (encodeFields 0 fields) fields :=
  reads_members (List.forall₂_same.mpr fun _ _ => (reads_uleb128 _).then (Reads.pure _)) (chain_of_sorted h)

lemma reads_methods {file : Bytes} {methods : List MethodDef} {offsets : List UInt32}
    (h : (methods.map (·.methodIdx)).Pairwise (· ≤ ·)) (hc : List.Forall₂ (CodeAt file) methods offsets) :
    Reads (readMembers (readMethod file) 0 methods.length) (encodeMethods 0 (methods.zip offsets)) methods := by
  have hz := forall₂_zip_left hc
  have hm : (methods.zip offsets).map (·.1.methodIdx) = methods.map (·.methodIdx) := by
    have hfst : (methods.zip offsets).map Prod.fst = methods := List.map_fst_zip (Nat.le_of_eq hc.length_eq)
    rw [← hfst, List.map_map]
    simp [hfst]
  refine reads_members (hz.imp ?_) (by rw [hm]; exact chain_of_sorted h)
  rintro ⟨m, o⟩ _ ⟨rfl, ho⟩
  exact (reads_uleb128 _).bind ((reads_uleb128 _).then (Reads.skip (Reads.lift ho) (Reads.pure _)))

lemma length_le_encodeFields (fields : List FieldDef) : fields.length ≤ (encodeFields 0 fields).length :=
  length_le_encodeMembers _ _ _ _

lemma length_le_encodeMethods {file : Bytes} {methods : List MethodDef} {offsets : List UInt32}
    (hc : List.Forall₂ (CodeAt file) methods offsets) :
    methods.length ≤ (encodeMethods 0 (methods.zip offsets)).length := by
  have hz := (forall₂_zip_left hc).length_eq
  exact hz ▸ length_le_encodeMembers _ _ _ _

theorem reads_encodeData {file : Bytes} {c : ClassDef} {codeOffsets : List UInt32} (h : c.Sorted)
    (hc : List.Forall₂ (CodeAt file) c.methods codeOffsets)
    (hlen : (c.encodeData codeOffsets).length < UInt32.size) :
    Reads (readData file) (c.encodeData codeOffsets) c.toClassData := by
  obtain ⟨hdc, hvc⟩ := forall₂_append_left hc
  simp only [Sorted, memberIndices, List.forall_mem_cons] at h
  obtain ⟨hs, hi, hd, hv, -⟩ := h
  have hsn := length_le_encodeFields c.staticFields
  have hin := length_le_encodeFields c.instanceFields
  have hdn := length_le_encodeMethods hdc
  have hvn := length_le_encodeMethods hvc
  simp only [encodeData, List.length_append] at hlen
  simp only [encodeData, List.append_assoc]
  refine (reads_uleb128 _).bind ((reads_uleb128 _).bind ((reads_uleb128 _).bind ((reads_uleb128 _).bind ?_)))
  rw [UInt32.toNat_ofNat_of_lt' (by omega), UInt32.toNat_ofNat_of_lt' (by omega),
    UInt32.toNat_ofNat_of_lt' (by omega), UInt32.toNat_ofNat_of_lt' (by omega)]
  refine (reads_fields hs).bind ((reads_fields hi).bind ((reads_methods hd hdc).bind ?_))
  exact (reads_methods hv hvc).then (Reads.pure _)

lemma readData_placed {file : Bytes} {c : ClassDef} {codeOffsets : List UInt32} {offset : UInt32} (h : c.Sorted)
    (hfile : file.length < UInt32.size) (hc : List.Forall₂ (CodeAt file) c.methods codeOffsets)
    (hp : Placed file (c.dataItem? codeOffsets) offset) :
    readUnlessZero (readData file) ⟨[], [], [], []⟩ file offset = .ok c.toClassData := by
  rw [dataItem?] at hp
  split at hp
  · have hle := hp.2.length_le
    apply readUnlessZero_placed hp (by simp)
    rintro _ ⟨⟩
    exact reads_encodeData h hc (by omega)
  · rename_i hd
    refine readUnlessZero_placed hp (fun _ => ?_) (by simp)
    simp only [hasData, Bool.not_eq_true', Bool.not_eq_false, Bool.and_eq_true, List.isEmpty_iff] at hd
    obtain ⟨⟨⟨hs, hi⟩, hd⟩, hv⟩ := hd
    have he : c.toClassData = ⟨c.staticFields, c.instanceFields, c.directMethods, c.virtualMethods⟩ := rfl
    rw [he, hs, hi, hd, hv]

lemma readStaticValues_placed {file : Bytes} {c : ClassDef} {offset : UInt32}
    (h : Value.Shallow c.staticValues) (hfile : file.length < UInt32.size)
    (hp : Placed file c.staticValuesItem? offset) :
    readUnlessZero Value.readArray [] file offset = .ok c.staticValues := by
  rw [staticValuesItem?] at hp
  split at hp
  · exact readUnlessZero_placed hp (fun _ => List.isEmpty_iff.mp ‹_›) (by simp)
  · have hle := hp.2.length_le
    apply readUnlessZero_placed hp (by simp)
    rintro _ ⟨⟩
    exact Value.reads_encodeArray h (by omega)

theorem reads_encode {file : Bytes} {pools : Pools} {c : ClassDef} {o : ClassOffsets}
    (hd : pools.typeDescriptor? c.classIdx = some c.descriptor)
    (hi : TypeList.readAt file o.interfaces = .ok c.interfaces)
    (ha : readUnlessZero (AnnotationDirectory.read file) .empty file o.annotations = .ok c.annotations)
    (hc : readUnlessZero (readData file) ⟨[], [], [], []⟩ file o.data = .ok c.toClassData)
    (hs : readUnlessZero Value.readArray [] file o.staticValues = .ok c.staticValues) :
    Reads (read file pools) (c.encode o) c := by
  have ht : Reads (typeDescriptor pools c.classIdx) [] c.descriptor := by
    rw [typeDescriptor, hd]
    exact Reads.pure _
  simp only [encode, List.append_assoc]
  refine (reads_u32 c.classIdx).bind (Reads.skip ht ((reads_u32 c.flags.bits).bind ?_))
  refine (reads_u32 c.superclassIdx).bind ((reads_u32 o.interfaces).bind ((reads_u32 c.sourceFileIdx).bind ?_))
  refine (reads_u32 o.annotations).bind ((reads_u32 o.data).bind ((reads_u32 o.staticValues).then ?_))
  refine Reads.skip (Reads.lift hi) (Reads.skip (Reads.lift ha) (Reads.skip (Reads.lift hc) ?_))
  exact Reads.skip (Reads.lift hs) (Reads.pure _)

lemma disorder?_eq_none_iff {indices : List UInt32} :
    disorder? indices = none ↔ indices.IsChain (· < ·) := by
  fun_induction disorder? indices with
  | case1 a b rest h => simp [List.isChain_cons_cons, UInt32.not_lt.mpr h]
  | case2 a b rest h ih => simp [List.isChain_cons_cons, UInt32.not_le.mp h, ih]
  | case3 indices h =>
    match indices, h with
    | [], _ => simp
    | [_], _ => simp
    | a :: b :: rest, h => exact (h a b rest rfl).elim

lemma isChain_lt_iff_pairwise {indices : List UInt32} : indices.IsChain (· < ·) ↔ indices.Pairwise (· < ·) :=
  haveI : IsTrans UInt32 (· < ·) := ⟨fun _ _ _ => UInt32.lt_trans⟩
  List.isChain_iff_pairwise

def FirstDrop (indices : List UInt32) (index previous : UInt32) : Prop :=
  ∃ start rest, indices = start ++ previous :: index :: rest ∧ (start ++ [previous]).Pairwise (· < ·) ∧
    index ≤ previous

lemma disorder?_cons {indices : List UInt32} {index : UInt32} (h : ∀ b ∈ indices.head?, index < b) :
    disorder? (index :: indices) = disorder? indices := by
  cases indices with
  | nil => rfl
  | cons b rest => rw [disorder?, if_neg (UInt32.not_le.mpr (h b rfl))]

lemma disorder?_append {start rest : List UInt32} {index previous : UInt32}
    (h : (start ++ [previous]).IsChain (· < ·)) (hle : index ≤ previous) :
    disorder? (start ++ previous :: index :: rest) = some (index, previous) := by
  induction start with
  | nil => exact if_pos hle
  | cons a start ih =>
    obtain ⟨ha, h⟩ := List.isChain_cons.mp h
    rw [List.cons_append, disorder?_cons (by simpa using ha), ih h]

lemma disorder?_eq_some_iff {indices : List UInt32} {index previous : UInt32} :
    disorder? indices = some (index, previous) ↔ FirstDrop indices index previous := by
  simp only [FirstDrop, ← isChain_lt_iff_pairwise]
  refine ⟨fun h => ?_, ?_⟩
  · fun_induction disorder? indices with
    | case1 a b rest hle =>
      cases h
      exact ⟨[], rest, rfl, .singleton _, hle⟩
    | case2 a b rest hlt ih =>
      obtain ⟨start, rest', he, hs, hle⟩ := ih h
      have hhead : (start ++ [previous]).head? = some b := by
        simpa only [List.head?_append, List.head?_cons] using (congrArg List.head? he).symm
      have hafter : ∀ x ∈ (start ++ [previous]).head?, a < x := by
        rw [hhead]
        rintro _ ⟨⟩
        exact UInt32.not_le.mp hlt
      exact ⟨a :: start, rest', congrArg (a :: ·) he, List.isChain_cons.mpr ⟨hafter, hs⟩, hle⟩
    | case3 => cases h
  · rintro ⟨start, rest, rfl, hs, hle⟩
    exact disorder?_append hs hle

lemma checkOrder_eq_ok_iff {c : ClassDef} : c.checkOrder = .ok () ↔ c.Ordered := by
  have h : c.memberIndices.findSome? disorder? = none ↔ c.Ordered := by
    simp only [List.findSome?_eq_none_iff, disorder?_eq_none_iff, isChain_lt_iff_pairwise, Ordered]
  rw [← h, checkOrder]
  split
  · simp [*, throw, throwThe, MonadExceptOf.throw]
  · simp [*, Pure.pure, Except.pure]

def FirstDisorder (c : ClassDef) (index previous : UInt32) : Prop :=
  ∃ before indices after, c.memberIndices = before ++ indices :: after ∧
    (∀ xs ∈ before, xs.Pairwise (· < ·)) ∧ FirstDrop indices index previous

lemma checkOrder_eq_error_iff {c : ClassDef} {fault : Fault} : c.checkOrder = .error fault ↔
    ∃ index previous, c.FirstDisorder index previous ∧
      fault = ⟨.membersOutOfOrder index previous, [.classData c.descriptor]⟩ := by
  have h : ∀ index previous, c.memberIndices.findSome? disorder? = some (index, previous) ↔
      c.FirstDisorder index previous := by
    intro index previous
    rw [List.findSome?_eq_some_iff]
    simp only [FirstDisorder, disorder?_eq_some_iff, disorder?_eq_none_iff, isChain_lt_iff_pairwise]
    constructor
    · rintro ⟨before, xs, after, he, hx, hb⟩
      exact ⟨before, xs, after, he, hb, hx⟩
    · rintro ⟨before, xs, after, he, hb, hx⟩
      exact ⟨before, xs, after, he, hx, hb⟩
  simp only [← h, checkOrder]
  split
  · rename_i index previous he
    simp [he, throw, throwThe, MonadExceptOf.throw, Fault.ofCause, Fault.within, eq_comm]
  · simp [*, Pure.pure, Except.pure]

lemma nextIndex_ok {last difference index : UInt32} (h : nextIndex last difference = .ok index) : last ≤ index := by
  rw [nextIndex] at h
  split at h
  · rename_i hb
    obtain rfl := Except.ok.inj h
    rw [UInt32.le_iff_toNat_le, UInt32.toNat_add, Nat.mod_eq_of_lt hb]
    omega
  · simp [throw, throwThe, MonadExceptOf.throw] at h

lemma gives_members {member : UInt32 → Reader α} {index : α → UInt32} {P : α → Prop}
    (h : ∀ i, Gives (member i) fun x => index x = i ∧ P x) (last : UInt32) (count : Nat) :
    Gives (readMembers member last count) fun xs =>
      (last :: xs.map index).IsChain (· ≤ ·) ∧ ∀ x ∈ xs, P x := by
  induction count generalizing last with
  | zero => exact Gives.pure (by simp)
  | succ count ih =>
    refine Gives.after fun difference => (Gives.lift fun i hi => nextIndex_ok hi).bind fun i hi => ?_
    refine (h i).bind fun x hx => (ih i).bind fun xs hxs => Gives.pure ⟨?_, List.forall_mem_cons.mpr ⟨hx.2, hxs.2⟩⟩
    obtain ⟨rfl, -⟩ := hx
    exact List.isChain_cons_cons.mpr ⟨hi, hxs.1⟩

lemma sorted_of_chain {last : UInt32} {indices : List UInt32} (h : (last :: indices).IsChain (· ≤ ·)) :
    indices.Pairwise (· ≤ ·) :=
  haveI : Std.Refl (fun a b : UInt32 => a ≤ b) := ⟨fun _ => UInt32.le_refl _⟩
  haveI : IsTrans UInt32 (· ≤ ·) := ⟨fun _ _ _ => UInt32.le_trans⟩
  (List.pairwise_cons.mp (List.isChain_iff_pairwise.mp h)).2

lemma gives_fields (count : Nat) : Gives (readMembers readField 0 count) fun fields =>
    (fields.map (·.fieldIdx)).Pairwise (· ≤ ·) := by
  have hf (i : UInt32) : Gives (readField i) fun f => f.fieldIdx = i ∧ True :=
    Gives.after fun _ => Gives.pure ⟨rfl, trivial⟩
  exact (gives_members hf 0 count).mono fun fields h => sorted_of_chain h.1

lemma gives_methods (file : Bytes) (count : Nat) : Gives (readMembers (readMethod file) 0 count) fun methods =>
    (methods.map (·.methodIdx)).Pairwise (· ≤ ·) ∧ ∀ m ∈ methods, ∀ code ∈ m.code, code.WellFormed := by
  have hm (i : UInt32) : Gives (readMethod file i) fun m => m.methodIdx = i ∧ ∀ code ∈ m.code, code.WellFormed := by
    refine Gives.after fun flags => Gives.after fun o => Gives.bind (Gives.lift fun x hx => optional_ok hx) ?_
    intro code hc
    refine Gives.pure ⟨rfl, fun code hm => ?_⟩
    obtain ⟨o, ho⟩ := hc code hm
    exact (Code.gives_wellFormed file).readAt (inContext_ok.mp ho)
  exact (gives_members hm 0 count).mono fun methods h => ⟨sorted_of_chain h.1, h.2⟩

structure Readable (c : ClassData) : Prop where
  staticFields : (c.staticFields.map (·.fieldIdx)).Pairwise (· ≤ ·)
  instanceFields : (c.instanceFields.map (·.fieldIdx)).Pairwise (· ≤ ·)
  directMethods : (c.directMethods.map (·.methodIdx)).Pairwise (· ≤ ·)
  virtualMethods : (c.virtualMethods.map (·.methodIdx)).Pairwise (· ≤ ·)
  code : ∀ m ∈ c.directMethods ++ c.virtualMethods, ∀ code ∈ m.code, code.WellFormed

lemma gives_data (file : Bytes) : Gives (readData file) Readable := by
  refine Gives.after fun _ => Gives.after fun _ => Gives.after fun _ => Gives.after fun _ => ?_
  refine (gives_fields _).bind fun staticFields hs => (gives_fields _).bind fun instanceFields hi => ?_
  refine (gives_methods file _).bind fun directMethods hd => (gives_methods file _).bind fun virtualMethods hv => ?_
  exact Gives.pure ⟨hs, hi, hd.1, hv.1, List.forall_mem_append.mpr ⟨hd.2, hv.2⟩⟩

theorem gives_wellFormed (file : Bytes) (pools : Pools) :
    Gives (read file pools) fun c => c.WellFormed pools ∧ c.Sorted := by
  have hd (classIdx : UInt32) : Gives (typeDescriptor pools classIdx) fun descriptor =>
      pools.typeDescriptor? classIdx = some descriptor := by
    rw [typeDescriptor]
    split
    · exact Gives.pure ‹_›
    · exact Gives.fail _
  refine Gives.after fun classIdx => (hd classIdx).bind fun descriptor hd => Gives.after fun flags => ?_
  refine Gives.after fun superclassIdx => Gives.after fun io => Gives.after fun sourceFileIdx => ?_
  refine Gives.after fun ao => Gives.after fun co => Gives.after fun so => ?_
  refine Gives.bind (Gives.lift fun types h => TypeList.readAt_wellFormed h) fun interfaces hi => ?_
  refine Gives.bind (P := AnnotationDirectory.WellFormed) (Gives.lift fun d h => readUnlessZero_ok h ?_ fun o ho =>
    (AnnotationDirectory.gives_wellFormed file).readAt ho) fun annotations ha => ?_
  · exact ⟨by simp [Directory.empty], by simp [Directory.empty], by simp [Directory.empty], by simp [Directory.empty]⟩
  refine Gives.bind (P := Readable) (Gives.lift fun d h => readUnlessZero_ok h ?_ fun o ho =>
    (gives_data file).readAt ho) fun data hc => ?_
  · exact ⟨by simp, by simp, by simp, by simp, by simp⟩
  refine Gives.bind (P := Value.Shallow) (Gives.lift fun values h => readUnlessZero_ok h ?_ fun o ho =>
    Value.gives_readArray.readAt ho) fun staticValues hs => ?_
  · simp [Value.Shallow]
  refine Gives.pure ⟨⟨hd, hi, hc.code, ha, hs⟩, ?_⟩
  simp only [Sorted, memberIndices, List.forall_mem_cons]
  exact ⟨hc.staticFields, hc.instanceFields, hc.directMethods, hc.virtualMethods, by simp⟩

end DexUnseal.Dex.ClassDef
