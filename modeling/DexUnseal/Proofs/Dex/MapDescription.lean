import DexUnseal.Proofs.Dex.FileItems

/-! The map of a file describes the items that the file is made of. -/

namespace DexUnseal.Dex

variable {kinds : List ItemKind} {kind : ItemKind}

lemma pairwise_rank (n : ItemKind → Nat) (h : kinds.Pairwise (·.rank < ·.rank)) :
    (kinds.flatMap fun kind => List.replicate (n kind) kind).Pairwise (·.rank ≤ ·.rank) := by
  induction kinds with
  | nil => exact .nil
  | cons k ks ih =>
    obtain ⟨hk, hks⟩ := List.pairwise_cons.mp h
    refine List.pairwise_append.mpr ⟨List.pairwise_replicate.mpr (.inr (Nat.le_refl _)), ih hks, fun a ha b hb => ?_⟩
    obtain ⟨k', hk', hb⟩ := List.mem_flatMap.mp hb
    rw [List.eq_of_mem_replicate ha, List.eq_of_mem_replicate hb]
    exact Nat.le_of_lt (hk k' hk')

lemma count_flatMap_replicate (n : ItemKind → Nat) (h : kinds.Nodup) (hk : kind ∈ kinds) :
    (kinds.flatMap fun kind => List.replicate (n kind) kind).count kind = n kind := by
  induction kinds with
  | nil => cases hk
  | cons k ks ih =>
    obtain ⟨hnew, hks⟩ := List.nodup_cons.mp h
    rw [List.flatMap_cons, List.count_append]
    by_cases he : kind = k
    · subst he
      have hrest : kind ∉ ks.flatMap fun kind => List.replicate (n kind) kind := by
        intro hm
        obtain ⟨k', hk', hm⟩ := List.mem_flatMap.mp hm
        exact hnew (List.eq_of_mem_replicate hm ▸ hk')
      rw [List.count_replicate_self, List.count_eq_zero_of_not_mem hrest, Nat.add_zero]
    · rw [List.count_eq_zero_of_not_mem fun hm => he (List.eq_of_mem_replicate hm), Nat.zero_add]
      exact ih hks ((List.mem_cons.mp hk).resolve_left he)

lemma sublist_idRun (kind : ItemKind) (count : Nat) (offset : UInt32) :
    ((Placing.idRun kind count offset).map (·.kind)).Sublist [kind] := by
  rw [Placing.idRun]
  split
  · exact List.nil_sublist _
  · exact List.Sublist.refl _

lemma sublist_idRuns (p : Pools) (classCount : Nat) (ids : IdSections) :
    ((Placing.idRuns p classCount ids).map (·.kind)).Sublist ItemKind.ofFront := by
  simp only [Placing.idRuns, List.map_append, List.map_cons]
  exact ((((((((sublist_idRun ..).cons_cons _).append (sublist_idRun ..)).append (sublist_idRun ..)).append
    (sublist_idRun ..)).append (sublist_idRun ..)).append (sublist_idRun ..)).append (sublist_idRun ..)).append
    (sublist_idRun ..)

namespace Container.Laid

open Placing

variable {c : Container} {data : List Item}

lemma tells (h : c.Laid data) : c.dataSection.Tells (data ++ [c.mapItem]) :=
  h.lays_map.tells (DataSection.tells_empty _)

lemma increasing (h : c.Laid data) (hlen : c.file.length < UInt32.size) :
    c.mapRuns.Pairwise fun run next => run.offset < next.offset := by
  obtain ⟨⟨parts, hd, hflat⟩, ht, -⟩ := h.mapped hlen
  have hitems := ht.increasing fun i hi => (h.formed i hi).alignment_le
  have hsub := sublist_offsets hd
  rw [hflat] at hsub
  have hoffsets : ((c.fileItems data).map (·.offset)).Pairwise (· < ·) := List.pairwise_map.mpr hitems
  exact List.pairwise_map.mp (hoffsets.sublist hsub)

lemma bytes_mapItem (h : c.Laid data) (hlen : c.file.length < UInt32.size) :
    c.mapItem.bytes = encodeMap c.mapRuns := by
  have hsorted : c.mapRuns.mergeSort (fun a b => a.offset ≤ b.offset) = c.mapRuns := by
    refine List.mergeSort_of_pairwise ((h.increasing hlen).imp fun hlt => ?_)
    exact decide_eq_true (UInt32.le_of_lt hlt)
  rw [mapItem, hsorted]

lemma ranked_data (h : c.Laid data) : (c.dataSection.runs.reverse.map (·.kind)).Pairwise (·.rank < ·.rank) ∧
    ∀ run ∈ c.dataSection.runs, run.kind ∈ ItemKind.ofBack := by
  obtain ⟨⟨parts, hd, hflat⟩, hchain⟩ := h.tells
  have hsub := sublist_kinds (List.rel_reverse hd)
  have hkinds : (data ++ [c.mapItem]).map (·.kind) =
      ItemKind.ofBack.flatMap fun kind => List.replicate (c.itemCount kind) kind := by
    rw [List.map_append, h.kinds, ItemKind.ofBack, List.flatMap_append]
    rfl
  rw [hflat, hkinds] at hsub
  have hle := (pairwise_rank c.itemCount (by decide)).sublist hsub
  refine ⟨?_, fun run hr => ?_⟩
  -- Neighbours of one kind would be one run, so the order of their kinds is strict.
  · refine pairwise_rank_lt hle ?_
    rw [List.isChain_map, List.isChain_reverse]
    exact hchain.imp fun _ _ hne => hne.symm
  · have hm := hsub.subset (List.mem_map_of_mem (List.mem_reverse.mpr hr))
    obtain ⟨kind, hk, hm⟩ := List.mem_flatMap.mp hm
    rwa [List.eq_of_mem_replicate hm]

lemma ranked (h : c.Laid data) : (c.mapRuns.map (·.kind)).Pairwise (·.rank < ·.rank) := by
  obtain ⟨hdata, hback⟩ := h.ranked_data
  have hfront := sublist_idRuns c.pools c.classes.length c.parts.ids
  have hfirst : ItemKind.ofFront.Pairwise (·.rank < ·.rank) := by decide
  have hbetween : ∀ kind ∈ ItemKind.ofFront, ∀ kind' ∈ ItemKind.ofBack, kind.rank < kind'.rank := by decide
  rw [mapRuns, List.map_append]
  refine List.pairwise_append.mpr ⟨hfirst.sublist hfront, hdata, fun kind hk kind' hk' => ?_⟩
  obtain ⟨run, hr, rfl⟩ := List.mem_map.mp hk'
  exact hbetween _ (hfront.subset hk) _ (hback run (List.mem_reverse.mp hr))

lemma nodup_kinds (h : c.Laid data) : (c.mapRuns.map (·.kind)).Nodup :=
  List.nodup_iff_pairwise_ne.mpr (h.ranked.imp fun hlt he => Nat.ne_of_lt hlt (congrArg ItemKind.rank he))

lemma nodup_typeCodes (h : c.Laid data) : (c.mapRuns.map (·.kind.typeCode)).Nodup := by
  have hranked := List.pairwise_map.mp h.ranked
  refine List.nodup_iff_pairwise_ne.mpr (List.pairwise_map.mpr (hranked.imp fun hlt he => ?_))
  exact Nat.ne_of_lt hlt (congrArg ItemKind.rank (ItemKind.eq_of_typeCode he))

lemma head_runs (h : c.Laid data) : c.dataSection.runs.head? = some ⟨.mapList, 1, c.parts.placement.map⟩ := by
  have htells := h.lays.tells (DataSection.tells_empty _)
  rw [List.nil_append] at htells
  have hnew : ∀ i ∈ data, i.kind ≠ .mapList := by
    intro i hi he
    have hkind : i.kind ∈ data.map (·.kind) := List.mem_map_of_mem hi
    rw [h.kinds, he] at hkind
    obtain ⟨kind, hm, hkind⟩ := List.mem_flatMap.mp hkind
    rw [← List.eq_of_mem_replicate hkind] at hm
    exact absurd hm (by decide)
  exact congrArg List.head? ((htells.align ItemKind.mapList.alignment).runs_countItem_of_new hnew)

lemma countP (h : c.Laid data) (kind : ItemKind) :
    (c.fileItems data).countP (·.kind = kind) = c.itemCount kind := by
  have hcount : (c.fileItems data).countP (·.kind = kind) = ((c.fileItems data).map (·.kind)).count kind := by
    rw [List.count_eq_countP, List.countP_map]
    exact List.countP_congr fun i _ => by simp
  rw [hcount, h.kinds_all]
  exact count_flatMap_replicate c.itemCount (by decide) (by cases kind <;> decide)

lemma length_le (h : c.Laid data) (hlen : c.file.length < UInt32.size) :
    (c.fileItems data).length ≤ c.file.length :=
  (h.mapped hlen).tiles.length_le fun i hi => (h.formed i hi).alignment_le

end Container.Laid

/-- The items that a file is made of, part by part, and what the map that its header points at tells of them. -/
structure Described (c : Container) (file : Bytes) (parts : List (List Item)) (runs : List MapItem) (map : UInt32)
    (typeLists : TypeList → UInt32) : Prop where
  tiles : Tiles 0 parts.flatten file
  told : List.Forall₂ Describes runs parts
  mapOffset : StandsAt file 0x34 (Bytes.word32 map)
  written : StandsAt file map.toNat (Placing.encodeMap runs)
  first : runs.head? = some ⟨.header, 1, 0⟩
  last : runs.getLast? = some ⟨.mapList, 1, map⟩
  increasing : runs.Pairwise fun run next => run.offset < next.offset
  typeCodes : (runs.map (·.kind.typeCode)).Nodup
  listed : ∀ kind, (∃ run ∈ runs, run.kind = kind) ↔ 0 < c.itemCount kind
  count : ∀ run ∈ runs, run.count.toNat = parts.flatten.countP (·.kind = run.kind)
  itemCount : ∀ kind, parts.flatten.countP (·.kind = kind) = c.itemCount kind
  ended : ∀ i ∈ parts.flatten, ∀ run ∈ runs, i.offset < run.offset → i.stop ≤ run.offset.toNat
  aligned : ∀ i ∈ parts.flatten,
    i.kind ∉ [.stringData, .encodedArray, .annotationItem, .debugInfo, .classData] → 4 ∣ i.offset.toNat
  /-- Above all, what an item refers to is an item of the right kind. -/
  formed : ∀ i ∈ parts.flatten, Formed c typeLists parts.flatten i.kind i.bytes
  shared : ∀ types ∈ c.typeLists, types ≠ [] → ⟨.typeList, typeLists types, TypeList.encode types⟩ ∈ parts.flatten

namespace Container

open Placing

variable {c : Container} {data : List Item}

lemma Laid.described (h : c.Laid data) (hlen : c.file.length < UInt32.size) :
    ∃ parts, Described c c.file parts c.mapRuns c.parts.placement.map c.parts.placement.typeLists := by
  obtain ⟨⟨parts, hd, hflat⟩, ht, -⟩ := h.mapped hlen
  have hmap : c.mapItem ∈ c.fileItems data :=
    List.mem_append_right _ (List.mem_append_right _ (List.mem_singleton_self _))
  have hcount := count_eq hd h.nodup_kinds
  rw [← hflat] at ht hmap
  refine ⟨parts, ht, hd, ?_, ?_, rfl, ?_, h.increasing hlen, h.nodup_typeCodes, fun kind => ?_, fun run hr => ?_,
    hflat ▸ h.countP, fun i hi run hr hlt => ?_, fun i hi hk => ?_, hflat ▸ h.formed, fun types hm hne => ?_⟩
  · rw [file_eq]
    exact c.fileHeader.standsAt_mapOffset _
  · have hs : StandsAt ([] ++ c.file) c.mapItem.offset.toNat c.mapItem.bytes := ht.standsAt rfl c.mapItem hmap
    rwa [h.bytes_mapItem hlen] at hs
  · rw [mapRuns, List.getLast?_append, List.getLast?_reverse, h.head_runs]
    rfl
  · rw [← h.countP, ← hflat, List.countP_pos_iff]
    refine ⟨fun ⟨run, hr, hk⟩ => ?_, fun ⟨i, hi, hk⟩ => ?_⟩
    · obtain ⟨i, hi, he, -⟩ := exists_item hd hr
      exact ⟨i, hi, decide_eq_true (he.trans hk)⟩
    · obtain ⟨run, hr, he⟩ := exists_run hd hi
      exact ⟨run, hr, he.trans (of_decide_eq_true hk)⟩
  · have hle := h.length_le hlen
    rw [hcount run hr, UInt32.toNat_ofNat_of_lt']
    rw [hflat]
    exact Nat.lt_of_le_of_lt (List.countP_le_length.trans hle) hlen
  · obtain ⟨j, hj, -, ho⟩ := exists_item hd hr
    rw [← ho] at hlt ⊢
    exact ht.stop_le hi hj hlt
  · have hfour : i.kind.alignment.toNat = 4 := by
      revert hk
      cases i.kind <;> decide
    exact hfour ▸ ht.aligned i hi
  · have hfound := h.located.typeLists types hm
    rw [TypeList.item?, if_neg hne] at hfound
    exact hflat ▸ hfound

end Container

end DexUnseal.Dex
