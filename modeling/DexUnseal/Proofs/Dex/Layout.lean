import DexUnseal.Dex.Layout
import DexUnseal.Proofs.Dex.Header
import DexUnseal.Proofs.Dex.Placing

/-! Where the id sections of a container stand, as long as words can hold their offsets. -/

namespace DexUnseal.Dex

open Reader

namespace Placing

lemma returns_annotations (classes : List ClassDef) :
    Returns (placeAnnotations classes) (·.length = classes.length) := by
  refine (returns_mapM _ _).bind fun items hi => (returns_mapM _ _).bind fun sets hs => ?_
  refine (returns_mapM _ _).bind fun setLists hl => (returns_mapM _ _).mono fun offsets ho => ?_
  rw [List.length_map] at hi
  simp [ho, hl, hs, hi]

lemma returns_code (classes : List ClassDef) (debugOffsets : List (List UInt32)) :
    Returns (placeCode classes debugOffsets) (·.length = min classes.length debugOffsets.length) :=
  (returns_mapM _ _).mono fun offsets ho => by rw [ho, List.length_zip]

lemma returns_items (c : Container) : Returns (placeItems c) fun p => ∀ map,
    (p map).strings.length = c.pools.strings.length ∧ (p map).callSites.length = c.pools.callSites.length ∧
      (p map).classes.length = c.classes.length := by
  refine (returns_mapM _ _).bind fun strings hs => .after fun typeLists => ?_
  refine (returns_mapM _ _).bind fun callSites hc => ?_
  refine (returns_mapM _ _).bind fun staticValues hv => (returns_annotations _).bind fun annotations ha => ?_
  refine (returns_mapM _ _).bind fun debugOffsets hd => (returns_code _ _).bind fun codeOffsets hco => ?_
  refine (returns_mapM _ _).bind fun data hda => .pure fun map => ⟨hs, hc, ?_⟩
  rw [List.length_zip, hco, hd] at hda
  simp [ha, hv, hda]

theorem returns_all (c : Container) (ids : IdSections) : Returns (placeAll c ids) fun p =>
    p.strings.length = c.pools.strings.length ∧ p.callSites.length = c.pools.callSites.length ∧
      p.classes.length = c.classes.length :=
  (returns_items c).bind fun _ hp => .after fun map => .pure (hp map)

end Placing

namespace IdSections

def size (p : Pools) (classCount : Nat) : Nat :=
  p.strings.length * 4 + p.types.length * 4 + p.protos.length * 12 + p.fields.length * 8 + p.methods.length * 8 +
    classCount * 32 + p.callSites.length * 4 + p.handles.length * 8

lemma toNat_after (start : UInt32) {count size : Nat} (h : start.toNat + count * size < UInt32.size) :
    (start + UInt32.ofNat count * UInt32.ofNat size).toNat = start.toNat + count * size := by
  rw [← UInt32.ofNat_mul, UInt32.toNat_add, UInt32.toNat_ofNat_of_lt' (by omega), Nat.mod_eq_of_lt h]

structure InPlace (ids : IdSections) (p : Pools) (classCount : Nat) : Prop where
  strings : ids.strings.toNat = Header.size
  types : ids.types.toNat = ids.strings.toNat + p.strings.length * 4
  protos : ids.protos.toNat = ids.types.toNat + p.types.length * 4
  fields : ids.fields.toNat = ids.protos.toNat + p.protos.length * 12
  methods : ids.methods.toNat = ids.fields.toNat + p.fields.length * 8
  classes : ids.classes.toNat = ids.methods.toNat + p.methods.length * 8
  callSites : ids.callSites.toNat = ids.classes.toNat + classCount * 32
  handles : ids.handles.toNat = ids.callSites.toNat + p.callSites.length * 4
  data : ids.data.toNat = ids.handles.toNat + p.handles.length * 8

lemma inPlace_ofPools {p : Pools} {classCount : Nat} (h : Header.size + size p classCount < UInt32.size) :
    (ofPools p classCount).InPlace p classCount := by
  rw [size] at h
  set ids := ofPools p classCount
  have hstrings : ids.strings.toNat = Header.size := rfl
  have htypes : ids.types.toNat = ids.strings.toNat + p.strings.length * 4 := toNat_after ids.strings (by omega)
  have hprotos : ids.protos.toNat = ids.types.toNat + p.types.length * 4 := toNat_after ids.types (by omega)
  have hfields : ids.fields.toNat = ids.protos.toNat + p.protos.length * 12 := toNat_after ids.protos (by omega)
  have hmethods : ids.methods.toNat = ids.fields.toNat + p.fields.length * 8 := toNat_after ids.fields (by omega)
  have hclasses : ids.classes.toNat = ids.methods.toNat + p.methods.length * 8 := toNat_after ids.methods (by omega)
  have hsites : ids.callSites.toNat = ids.classes.toNat + classCount * 32 := toNat_after ids.classes (by omega)
  have hhandles : ids.handles.toNat = ids.callSites.toNat + p.callSites.length * 4 :=
    toNat_after ids.callSites (by omega)
  have hdata : ids.data.toNat = ids.handles.toNat + p.handles.length * 8 := toNat_after ids.handles (by omega)
  exact ⟨hstrings, htypes, hprotos, hfields, hmethods, hclasses, hsites, hhandles, hdata⟩

lemma InPlace.toNat_data {ids : IdSections} {p : Pools} {classCount : Nat} (h : ids.InPlace p classCount) :
    ids.data.toNat = Header.size + size p classCount := by
  obtain ⟨istrings, itypes, iprotos, ifields, imethods, iclasses, isites, ihandles, idata⟩ := h
  rw [size]
  omega

end IdSections

namespace Container

lemma length_encodeIds {c : Container} {p : Placement} (hs : p.strings.length = c.pools.strings.length)
    (hc : p.callSites.length = c.pools.callSites.length) (hd : p.classes.length = c.classes.length) :
    (c.encodeIds p).length = IdSections.size c.pools c.classes.length := by
  simp [encodeIds, IdSections.size, List.length_flatMap, Proto.encode, FieldId.encode, MethodId.encode,
    MethodHandle.encode, ClassDef.encode, hs, hc, hd]
  omega

structure SectionsAt (file : Bytes) (c : Container) (ids : IdSections) (p : Placement) : Prop where
  strings : StandsAt file ids.strings.toNat (p.strings.flatMap Bytes.word32)
  types : StandsAt file ids.types.toNat (c.pools.types.flatMap Bytes.word32)
  protos : StandsAt file ids.protos.toNat
    (c.pools.protos.flatMap fun proto => proto.encode (p.typeLists proto.parameters))
  fields : StandsAt file ids.fields.toNat (c.pools.fields.flatMap FieldId.encode)
  methods : StandsAt file ids.methods.toNat (c.pools.methods.flatMap MethodId.encode)
  classes : StandsAt file ids.classes.toNat ((c.classes.zip p.classes).flatMap fun (d, offsets) => d.encode offsets)
  callSites : StandsAt file ids.callSites.toNat (p.callSites.flatMap Bytes.word32)
  handles : StandsAt file ids.handles.toNat (c.pools.handles.flatMap MethodHandle.encode)

lemma sectionsAt {c : Container} {ids : IdSections} {p : Placement} {header data : Bytes}
    (hi : ids.InPlace c.pools c.classes.length) (hh : header.length = Header.size)
    (hs : p.strings.length = c.pools.strings.length) (hc : p.callSites.length = c.pools.callSites.length)
    (hd : p.classes.length = c.classes.length) : SectionsAt (header ++ (c.encodeIds p ++ data)) c ids p := by
  obtain ⟨istrings, itypes, iprotos, ifields, imethods, iclasses, isites, ihandles, -⟩ := hi
  have hids := standsAt_append header (c.encodeIds p) data
  rw [hh, ← istrings] at hids
  simp only [encodeIds, List.append_assoc] at hids ⊢
  have htypes := hids.next (by simp [List.length_flatMap, hs]) itypes
  have hprotos := htypes.next (by simp [List.length_flatMap]) iprotos
  have hfields := hprotos.next (by simp [List.length_flatMap, Proto.encode]) ifields
  have hmethods := hfields.next (by simp [List.length_flatMap, FieldId.encode]) imethods
  have hclasses := hmethods.next (by simp [List.length_flatMap, MethodId.encode]) iclasses
  have hsites := hclasses.next (by simp [List.length_flatMap, ClassDef.encode, hd]) isites
  have hhandles := hsites.next (by simp [List.length_flatMap, hc]) ihandles
  exact ⟨hids.left, htypes.left, hprotos.left, hfields.left, hmethods.left, hclasses.left, hsites.left, hhandles⟩

end Container

end DexUnseal.Dex
