import DexUnseal.Dex.Pools
import DexUnseal.Proofs.Dex.Header
import DexUnseal.Proofs.Dex.StringItem
import DexUnseal.Proofs.Dex.Value
import DexUnseal.Proofs.Pairing

/-! Pool items read back as they were written. -/

namespace DexUnseal.Dex

open Reader

def FitsHalfWord (v : UInt32) : Prop := v.toNat < UInt16.size

lemma FitsHalfWord.toUInt32_toUInt16 {v : UInt32} (h : FitsHalfWord v) : v.toUInt16.toUInt32 = v := by
  rw [← UInt32.toNat_inj, UInt16.toNat_toUInt32, UInt32.toNat_toUInt16, Nat.mod_eq_of_lt h]

lemma fitsHalfWord_toUInt32 (v : UInt16) : FitsHalfWord v.toUInt32 := by
  rw [FitsHalfWord, UInt16.toNat_toUInt32]
  exact v.toNat_lt

lemma reads_halfWord {v : UInt32} (h : FitsHalfWord v) :
    Reads (UInt16.toUInt32 <$> u16) (Bytes.word16 v.toUInt16) v := by
  have hr := (reads_u16 v.toUInt16).map UInt16.toUInt32
  rwa [h.toUInt32_toUInt16] at hr

namespace TypeList

def WellFormed (types : TypeList) : Prop := ∀ t ∈ types, FitsHalfWord t

lemma reads_encode {types : TypeList} (h : types.WellFormed) (hlen : (encode types).length < UInt32.size) :
    Reads read (encode types) types := by
  have hn : types.length < UInt32.size := by
    simp [encode, List.length_flatMap] at hlen
    omega
  have hr : ∀ t ∈ types, Reads (UInt16.toUInt32 <$> u16) (Bytes.word16 t.toUInt16) t :=
    fun t ht => reads_halfWord (h t ht)
  apply (reads_u32 _).bind
  rw [UInt32.toNat_ofNat_of_lt' hn]
  exact reads_repeated_flatMap (fun t : UInt32 => Bytes.word16 t.toUInt16) hr

def item? (types : TypeList) : Option Bytes := if types = [] then none else some (encode types)

lemma readAt_placed {file : Bytes} {types : TypeList} {offset : UInt32} (h : types.WellFormed)
    (hfile : file.length < UInt32.size) (hp : Placed file types.item? offset) : readAt file offset = .ok types := by
  rw [item?] at hp
  split at hp
  · refine readUnlessZero_placed hp (fun _ => ‹_›) (by simp)
  · have hle := hp.2.length_le
    apply readUnlessZero_placed hp (by simp)
    rintro _ ⟨⟩
    exact reads_encode h (by omega)

lemma readAt_wellFormed {file : Bytes} {offset : UInt32} {types : TypeList} (h : readAt file offset = .ok types) :
    types.WellFormed := by
  have ht : Gives (UInt16.toUInt32 <$> u16) FitsHalfWord :=
    Gives.map fun _ v _ _ => fitsHalfWord_toUInt32 v
  have hg : Gives read WellFormed := Gives.after fun count => (ht.repeated count.toNat).mono fun _ hx => hx.2
  exact readUnlessZero_ok h (by simp [WellFormed]) fun o ho => hg.readAt ho

end TypeList

namespace Proto

def WellFormed (p : Proto) : Prop := p.parameters.WellFormed

lemma reads_encode {file : Bytes} {p : Proto} {offset : UInt32} (h : TypeList.readAt file offset = .ok p.parameters) :
    Reads (read file) (p.encode offset) p := by
  simp only [encode, List.append_assoc]
  refine (reads_u32 p.shortyIdx).bind ((reads_u32 p.returnTypeIdx).bind ((reads_u32 offset).then ?_))
  exact Reads.skip (Reads.lift h) (Reads.pure _)

lemma gives_wellFormed (file : Bytes) : Gives (read file) WellFormed := by
  refine Gives.after fun _ => Gives.after fun _ => Gives.after fun o => Gives.bind (P := TypeList.WellFormed) ?_ ?_
  · exact Gives.lift fun types ht => TypeList.readAt_wellFormed ht
  · exact fun types ht => Gives.pure ht

end Proto

namespace FieldId

def WellFormed (f : FieldId) : Prop := FitsHalfWord f.classIdx ∧ FitsHalfWord f.typeIdx

lemma reads_encode {f : FieldId} (h : f.WellFormed) : Reads read f.encode f := by
  simp only [encode, List.append_assoc]
  refine (reads_u16 _).bind ((reads_u16 _).bind ((reads_u32 f.nameIdx).then ?_))
  rw [h.1.toUInt32_toUInt16, h.2.toUInt32_toUInt16]
  exact Reads.pure _

lemma gives_wellFormed : Gives read WellFormed :=
  Gives.after fun classIdx => Gives.after fun typeIdx => Gives.after fun _ =>
    Gives.pure ⟨fitsHalfWord_toUInt32 classIdx, fitsHalfWord_toUInt32 typeIdx⟩

end FieldId

namespace MethodId

def WellFormed (m : MethodId) : Prop := FitsHalfWord m.classIdx ∧ FitsHalfWord m.protoIdx

lemma reads_encode {m : MethodId} (h : m.WellFormed) : Reads read m.encode m := by
  simp only [encode, List.append_assoc]
  refine (reads_u16 _).bind ((reads_u16 _).bind ((reads_u32 m.nameIdx).then ?_))
  rw [h.1.toUInt32_toUInt16, h.2.toUInt32_toUInt16]
  exact Reads.pure _

lemma gives_wellFormed : Gives read WellFormed :=
  Gives.after fun classIdx => Gives.after fun protoIdx => Gives.after fun _ =>
    Gives.pure ⟨fitsHalfWord_toUInt32 classIdx, fitsHalfWord_toUInt32 protoIdx⟩

end MethodId

lemma MethodHandle.reads_encode (h : MethodHandle) : Reads read h.encode h := by
  simp only [encode, List.append_assoc]
  exact (reads_u16 h.kind).bind ((reads_u16 0).bind ((reads_u16 h.memberIdx).bind ((reads_u16 0).then (Reads.pure _))))

namespace Pools

structure WellFormed (p : Pools) : Prop where
  strings : ∀ s ∈ p.strings, s.WellFormed
  types : ∀ t ∈ p.types, (text? p.strings t).isSome
  protos : ∀ proto ∈ p.protos, proto.WellFormed
  fields : ∀ f ∈ p.fields, f.WellFormed
  methods : ∀ m ∈ p.methods, m.WellFormed
  callSites : ∀ values ∈ p.callSites, Value.Shallow values

lemma reads_string {file : Bytes} {s : StringData} {offset : UInt32} (h : s.WellFormed)
    (hs : StandsAt file offset.toNat s.encode) (number : Nat) :
    Reads (readString file number) (Bytes.word32 offset) s :=
  (reads_u32 offset).then (Reads.lift (inContext_ok.mpr ((StringData.reads_encode h).readAt hs)))

lemma reads_type {strings : List StringData} {t : UInt32} (h : (text? strings t).isSome) :
    Reads (readType strings) (Bytes.word32 t) t := by
  have hn : ¬ (text? strings t).isNone := by simpa [Option.isSome_iff_ne_none] using h
  exact (reads_u32 t).then (Reads.skip (Reads.refuseIf hn _) (Reads.pure t))

lemma reads_callSite {file : Bytes} {values : List Value} {offset : UInt32} (h : Value.Shallow values)
    (hfile : file.length < UInt32.size) (hs : StandsAt file offset.toNat (Value.encodeArray values)) :
    Reads (readCallSite file) (Bytes.word32 offset) values := by
  have hle := hs.length_le
  exact (reads_u32 offset).then (Reads.lift ((Value.reads_encodeArray h (by omega)).readAt hs))

lemma readSection_ofCount {file : Bytes} {offset : UInt32} {item : Reader α} {encode : α → Bytes} {xs : List α}
    (h : ∀ x ∈ xs, Reads item (encode x) x) (hs : StandsAt file offset.toNat (xs.flatMap encode))
    (hn : xs.length < UInt32.size) : readSection file (.ofCount xs.length offset) item = .ok xs := by
  rw [List.flatMap_def] at hs
  exact Section.readAt_ofCount (List.forall₂_map_left_iff.mpr (List.forall₂_same.mpr fun x hx _ => h x hx)) hs hn

lemma gives_type (strings : List StringData) : Gives (readType strings) fun t => (text? strings t).isSome := by
  refine Gives.after fun t => (Gives.refuseIf _ _).bind fun _ ht => Gives.pure ?_
  simpa [Option.isSome_iff_ne_none] using ht

lemma gives_mapEntry (file : Bytes) :
    Gives (readMapEntry file) fun entry => ∀ values ∈ entry.1, Value.Shallow values := by
  have hc : Gives (readCallSite file) Value.Shallow :=
    Gives.after fun o => Gives.lift fun values hv => Value.gives_readArray.readAt hv
  refine Gives.after fun code => Gives.after fun _ => Gives.after fun count => Gives.after fun offset => ?_
  split
  · refine Gives.bind (Gives.lift fun callSites h => (hc.repeated count.toNat).readAt h) fun callSites h => ?_
    exact Gives.pure h.2
  · split
    · exact Gives.after fun handles => Gives.pure (by simp)
    · exact Gives.pure (by simp)

lemma readSection_all {file : Bytes} {s : Section} {item : Reader α} {xs : List α} {P : α → Prop}
    (hi : Gives item P) (h : readSection file s item = .ok xs) : ∀ x ∈ xs, P x :=
  ((hi.repeated s.size.toNat).readAt h).2

theorem read_wellFormed {file : Bytes} {h : Header} {p : Pools} (hp : read file h = .ok p) : p.WellFormed := by
  obtain ⟨strings, hs, hp⟩ := except_bind_ok.mp hp
  obtain ⟨types, ht, hp⟩ := except_bind_ok.mp hp
  obtain ⟨protos, hpr, hp⟩ := except_bind_ok.mp hp
  obtain ⟨fields, hf, hp⟩ := except_bind_ok.mp hp
  obtain ⟨methods, hm, hp⟩ := except_bind_ok.mp hp
  obtain ⟨⟨callSites, handles⟩, hc, hp⟩ := except_bind_ok.mp hp
  obtain rfl := Except.ok.inj hp
  have hstring (number : Nat) : Gives (readString file number) StringData.WellFormed :=
    Gives.after fun o => Gives.lift fun s hs => StringData.gives_wellFormed.readAt (inContext_ok.mp hs)
  refine ⟨((Gives.counted hstring 0 _).readAt hs).2, readSection_all (gives_type strings) ht,
    readSection_all (Proto.gives_wellFormed file) hpr, readSection_all FieldId.gives_wellFormed hf,
    readSection_all MethodId.gives_wellFormed hm, ?_⟩
  have hmap : Gives (readMap file) fun entries => ∀ values ∈ entries.1, Value.Shallow values := by
    refine Gives.after fun count => ((gives_mapEntry file).repeated count.toNat).bind fun entries he => ?_
    refine Gives.pure fun values hv => ?_
    obtain ⟨entry, hm, hv⟩ := List.mem_flatMap.mp hv
    exact he.2 entry hm values hv
  exact readUnlessZero_ok (P := fun entries => ∀ values ∈ entries.1, Value.Shallow values) hc (by simp)
    fun o ho => hmap.readAt ho

end Pools

end DexUnseal.Dex
