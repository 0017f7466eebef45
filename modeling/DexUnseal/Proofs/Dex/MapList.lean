import DexUnseal.Proofs.Dex.Placement

/-! The map yields the call sites and the method handles, wherever its entries for them are. -/

namespace DexUnseal.Dex

open Reader

namespace Pools

lemma typeCode_callSiteId {kind : ItemKind} (h : kind.typeCode = ItemKind.callSiteId.typeCode) :
    kind = .callSiteId := by
  cases kind <;> first | rfl | exact absurd h (by decide)

lemma typeCode_methodHandle {kind : ItemKind} (h : kind.typeCode = ItemKind.methodHandle.typeCode) :
    kind = .methodHandle := by
  cases kind <;> first | rfl | exact absurd h (by decide)

def entryOf (p : Pools) (run : MapItem) : List (List Value) × List MethodHandle :=
  if run.kind = .callSiteId then (p.callSites, []) else if run.kind = .methodHandle then ([], p.handles) else ([], [])

lemma reads_mapEntry {file : Bytes} {p : Pools} {run : MapItem}
    (hc : run.kind = .callSiteId →
      (repeated (readCallSite file) run.count.toNat).readAt file run.offset.toNat = .ok p.callSites)
    (hh : run.kind = .methodHandle →
      (repeated MethodHandle.read run.count.toNat).readAt file run.offset.toNat = .ok p.handles) :
    Reads (readMapEntry file) run.encode (p.entryOf run) := by
  simp only [MapItem.encode, List.append_assoc]
  refine (reads_u16 _).bind ((reads_u16 0).bind ((reads_u32 run.count).bind ((reads_u32 run.offset).then ?_)))
  rw [entryOf]
  by_cases hk : run.kind = .callSiteId
  · rw [if_pos hk, if_pos (hk ▸ rfl)]
    exact Reads.skip (Reads.lift (hc hk)) (Reads.pure _)
  · rw [if_neg hk, if_neg fun he => hk (typeCode_callSiteId he)]
    by_cases hk' : run.kind = .methodHandle
    · rw [if_pos hk', if_pos (hk' ▸ rfl)]
      exact Reads.skip (Reads.lift (hh hk')) (Reads.pure _)
    · rw [if_neg hk', if_neg fun he => hk' (typeCode_methodHandle he)]
      exact Reads.pure _

lemma flatMap_of_perm {f : α → List β} {xs ys : List α} {p : α → Bool} (h : xs.Perm ys)
    (hp : ∀ x, p x = false → f x = []) (hs : (ys.filter p).length ≤ 1) : xs.flatMap f = (ys.filter p).flatMap f := by
  have hx : xs.flatMap f = (xs.filter p).flatMap f := by
    clear h
    induction xs with
    | nil => rfl
    | cons x xs ih =>
      rw [List.flatMap_cons, ih, List.filter_cons]
      split
      · rw [List.flatMap_cons]
      · rw [hp x (by simpa using ‹¬ p x = true›), List.nil_append]
  have hf := h.filter p
  rw [hx]
  generalize ys.filter p = zs at hf hs
  match zs, hs with
  | [], _ => rw [List.perm_nil.mp hf]
  | [y], _ => rw [List.perm_singleton.mp hf]

lemma filter_idRun (k kind : ItemKind) (count : Nat) (offset : UInt32) :
    (Placing.idRun kind count offset).filter (·.kind = k) =
      if kind = k then Placing.idRun kind count offset else [] := by
  rw [Placing.idRun]
  by_cases hc : count = 0
  · simp [hc]
  · simp [hc, List.filter_cons]

variable {p : Pools} {classCount : Nat} {ids : IdSections} {runs dataRuns : List MapItem}

lemma filter_dataRuns (hd : ∀ run ∈ dataRuns, ¬ run.kind.MapOnly) {k : ItemKind} (hk : k.MapOnly) :
    dataRuns.filter (·.kind = k) = [] :=
  List.filter_eq_nil_iff.mpr fun run hr he => hd run hr (of_decide_eq_true he ▸ hk)

lemma filter_callSites (p : Pools) (classCount : Nat) (ids : IdSections) (hd : ∀ run ∈ dataRuns, ¬ run.kind.MapOnly) :
    (Placing.idRuns p classCount ids ++ dataRuns).filter (·.kind = .callSiteId) =
      Placing.idRun .callSiteId p.callSites.length ids.callSites := by
  simp only [Placing.idRuns, List.cons_append, List.filter_cons, List.filter_append, filter_idRun,
    filter_dataRuns hd (.inl rfl)]
  simp

lemma filter_handles (p : Pools) (classCount : Nat) (ids : IdSections) (hd : ∀ run ∈ dataRuns, ¬ run.kind.MapOnly) :
    (Placing.idRuns p classCount ids ++ dataRuns).filter (·.kind = .methodHandle) =
      Placing.idRun .methodHandle p.handles.length ids.handles := by
  simp only [Placing.idRuns, List.cons_append, List.filter_cons, List.filter_append, filter_idRun,
    filter_dataRuns hd (.inr rfl)]
  simp

lemma length_idRun_le (kind : ItemKind) (count : Nat) (offset : UInt32) :
    (Placing.idRun kind count offset).length ≤ 1 := by
  rw [Placing.idRun]
  split <;> simp

lemma eq_of_mem_idRun {kind : ItemKind} {count : Nat} {offset : UInt32} {run : MapItem}
    (h : run ∈ Placing.idRun kind count offset) : run = ⟨kind, UInt32.ofNat count, offset⟩ := by
  rw [Placing.idRun] at h
  split at h
  · simp at h
  · simpa using h

lemma flatMap_kind {f : MapItem → List β} {xs : List β} {k : ItemKind} {all : List MapItem} {offset : UInt32}
    (hp : runs.Perm all) (hall : all.filter (·.kind = k) = Placing.idRun k xs.length offset)
    (hk : ∀ run, run.kind = k → f run = xs) (hn : ∀ run, run.kind ≠ k → f run = []) : runs.flatMap f = xs := by
  rw [flatMap_of_perm (p := (·.kind = k)) hp (fun run hr => hn run (of_decide_eq_false hr))
    (hall ▸ length_idRun_le _ _ _), hall, Placing.idRun]
  split
  · rename_i hz
    simpa using (List.length_eq_zero_iff.mp hz).symm
  · simpa using hk _ rfl

lemma eq_of_kind {k : ItemKind} {all : List MapItem} {count : Nat} {offset : UInt32} {run : MapItem}
    (hall : all.filter (·.kind = k) = Placing.idRun k count offset) (hr : run ∈ all) (hk : run.kind = k) :
    run = ⟨k, UInt32.ofNat count, offset⟩ :=
  eq_of_mem_idRun (hall ▸ List.mem_filter.mpr ⟨hr, decide_eq_true hk⟩)

theorem readMap_eq {file : Bytes} {offset : UInt32} (hfile : file.length < UInt32.size)
    (hm : Placing.MapAt file (Placing.idRuns p classCount ids) offset)
    (hc : (repeated (readCallSite file) (UInt32.ofNat p.callSites.length).toNat).readAt file ids.callSites.toNat =
      .ok p.callSites)
    (hh : (repeated MethodHandle.read (UInt32.ofNat p.handles.length).toNat).readAt file ids.handles.toNat =
      .ok p.handles) :
    readUnlessZero (readMap file) ([], []) file offset = .ok (p.callSites, p.handles) := by
  obtain ⟨hz, runs, dataRuns, hs, hp, hd⟩ := hm
  have hlen : runs.length < UInt32.size := by
    have hle := hs.length_le
    simp [Placing.encodeMap, MapItem.encode, List.length_flatMap] at hle
    omega
  have hcall := filter_callSites p classCount ids hd
  have hhandle := filter_handles p classCount ids hd
  have hentries : ∀ run ∈ runs, Reads (readMapEntry file) run.encode (p.entryOf run) := by
    refine fun run hr => reads_mapEntry (fun hk => ?_) (fun hk => ?_)
    · rw [eq_of_kind hcall (hp.subset hr) hk]
      exact hc
    · rw [eq_of_kind hhandle (hp.subset hr) hk]
      exact hh
  have hrepeated : Reads (repeated (readMapEntry file) (runs.map p.entryOf).length) (runs.map MapItem.encode).flatten
      (runs.map p.entryOf) :=
    reads_repeated (by simpa [List.forall₂_map_left_iff, List.forall₂_map_right_iff] using hentries)
  have hsites : runs.flatMap (fun run => (p.entryOf run).1) = p.callSites :=
    flatMap_kind hp hcall (fun run hk => by rw [entryOf, if_pos hk]) fun run hk => by
      rw [entryOf, if_neg hk]
      split <;> rfl
  have hhandles : runs.flatMap (fun run => (p.entryOf run).2) = p.handles :=
    flatMap_kind hp hhandle (fun run hk => by simp [entryOf, hk]) fun run hk => by
      rw [entryOf, if_neg hk]
      split <;> rfl
  have hr : Reads (readMap file) (Placing.encodeMap runs) (p.callSites, p.handles) := by
    refine (reads_u32 _).bind (Reads.then (x := runs.map p.entryOf) ?_ ?_)
    · rwa [UInt32.toNat_ofNat_of_lt' hlen, List.flatMap_def, ← List.length_map p.entryOf]
    · rw [List.flatMap_map, List.flatMap_map, hsites, hhandles]
      exact Reads.pure _
  have hplaced : Placed file (some (Placing.encodeMap runs)) offset := ⟨hz, hs⟩
  exact readUnlessZero_placed hplaced (by simp) (by rintro _ ⟨⟩; exact hr)

end Pools

end DexUnseal.Dex
