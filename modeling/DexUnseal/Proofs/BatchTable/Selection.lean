import DexUnseal.Proofs.ClassSource.Completeness

/-! Which classes of a dex file the names of its batches select. -/

namespace DexUnseal

open Dex

namespace Dex.Container

variable {file : Bytes} {c : Container} {d : ClassDef} {names : List String}

/-- A name selects the classes that have it, but for those with dots in their descriptors. -/
theorem select_name (h : decode file = .ok c) (hn : Scan.classNames file = .ok names) :
    (∀ d ∈ c.classes, (ClassName.ofDotted d.dottedName).descriptor = d.descriptor ↔ '.' ∉ d.descriptor.toList) ∧
      ∀ name ∈ names,
        (c.select [(ClassName.ofDotted name).descriptor]).classes =
          c.classes.filter (fun d => d.dottedName = name ∧ '.' ∉ d.descriptor.toList) ∧
        ((∃ d ∈ (c.select [(ClassName.ofDotted name).descriptor]).classes, d.dottedName = name) ↔
          ∃ d ∈ c.classes, d.dottedName = name ∧ '.' ∉ d.descriptor.toList) := by
  refine ⟨fun d hd => descriptor_dottedName_iff h hn hd, fun name hname => ?_⟩
  have hselect : (c.select [(ClassName.ofDotted name).descriptor]).classes =
      c.classes.filter fun d => d.dottedName = name ∧ '.' ∉ d.descriptor.toList := by
    refine List.filter_congr fun d hd => ?_
    rw [decide_eq_decide, List.mem_singleton, eq_comm, descriptor_ofDotted_eq_iff h hn hname hd]
  refine ⟨hselect, ?_⟩
  rw [hselect]
  constructor
  · rintro ⟨d, hd, -⟩
    exact ⟨d, (List.mem_filter.mp hd).1, of_decide_eq_true (List.mem_filter.mp hd).2⟩
  · rintro ⟨d, hd, he, hdot⟩
    exact ⟨d, List.mem_filter.mpr ⟨hd, decide_eq_true ⟨he, hdot⟩⟩, he⟩

def bare (descriptors : List String) : Container where
  magic := sample.magic
  pools :=
    { strings := descriptors.map .decoded, types := (List.range descriptors.length).map UInt32.ofNat, protos := [],
      fields := [], methods := [], handles := [], callSites := [] }
  classes := descriptors.mapIdx fun i descriptor =>
    { classIdx := UInt32.ofNat i, descriptor, flags := ⟨0x11⟩, superclassIdx := 0xffffffff, interfaces := []
      sourceFileIdx := 0xffffffff, annotations := .empty, staticValues := [], staticFields := []
      instanceFields := [], directMethods := [], virtualMethods := [] }

lemma text?_bare {descriptors : List String} (hlen : descriptors.length < UInt32.size) {i : Nat}
    (hi : i < descriptors.length) : (bare descriptors).pools.string? (UInt32.ofNat i) = some descriptors[i] := by
  simp [Pools.string?, Pools.text?, bare, UInt32.toNat_ofNat_of_lt' (Nat.lt_trans hi hlen), hi, StringData.text?]

lemma wellFormed_bare {descriptors : List String} (hlen : descriptors.length < UInt32.size) :
    (bare descriptors).WellFormed where
  magic := rfl
  pools :=
    { strings := by simp [bare, StringData.WellFormed]
      types := by
        intro t ht
        obtain ⟨i, hi, rfl⟩ := List.mem_map.mp ht
        exact Option.isSome_iff_exists.mpr ⟨_, text?_bare hlen (List.mem_range.mp hi)⟩
      protos := by simp [bare]
      fields := by simp [bare]
      methods := by simp [bare]
      callSites := by simp [bare] }
  classes := by
    intro d hd
    obtain ⟨i, hi, rfl⟩ := List.mem_mapIdx.mp hd
    refine ⟨?_, by simp [TypeList.WellFormed], by simp [ClassDef.methods], ?_, by simp [Value.Shallow]⟩
    · have htype : (bare descriptors).pools.types[(UInt32.ofNat i).toNat]? = some (UInt32.ofNat i) := by
        simp [bare, UInt32.toNat_ofNat_of_lt' (Nat.lt_trans hi hlen), hi]
      rw [Pools.typeDescriptor?, htype]
      exact text?_bare hlen hi
    · exact ⟨by simp [Directory.empty], by simp [Directory.empty], by simp [Directory.empty], by simp [Directory.empty]⟩

lemma ordered_bare (descriptors : List String) : (bare descriptors).Ordered := by
  intro d hd
  obtain ⟨i, hi, rfl⟩ := List.mem_mapIdx.mp hd
  simp [ClassDef.Ordered, ClassDef.memberIndices]

lemma decode_file_bare {descriptors : List String} (hlen : (bare descriptors).file.length < UInt32.size) :
    decode (bare descriptors).file = .ok (bare descriptors) := by
  have hcount : descriptors.length < UInt32.size := by
    have hstrings := (count_lt (idSize_lt hlen)).1
    simpa [bare] using hstrings
  exact decode_file (wellFormed_bare hcount) (ordered_bare descriptors).sorted hlen

def dottedSample : Container := bare ["Lp.A;", "Lp/B;"]

lemma decode_dottedSample : decode dottedSample.file = .ok dottedSample := by
  have hlen : dottedSample.file.length < 1024 := by
    rw [length_file, size_dataSection]
    decide +kernel
  exact decode_file_bare (Nat.lt_trans hlen (by decide))

lemma classNames_dottedSample : Scan.classNames dottedSample.file = .ok ["p.A", "p.B"] :=
  classNames_of_decode decode_dottedSample (by decide)

theorem select_name_dottedSample :
    (dottedSample.select [(ClassName.ofDotted "p.A").descriptor]).classes.map (·.descriptor) = [] ∧
      (dottedSample.select [(ClassName.ofDotted "p.B").descriptor]).classes.map (·.descriptor) = ["Lp/B;"] := by
  obtain ⟨-, hselect⟩ := select_name decode_dottedSample classNames_dottedSample
  rw [(hselect "p.A" (by decide)).1, (hselect "p.B" (by decide)).1]
  decide

open BatchTable (oneByOne) in
theorem dottedSample_loses_class :
    decode dottedSample.file = .ok dottedSample ∧ Scan.classNames dottedSample.file = .ok ["p.A", "p.B"] ∧
      (∀ d ∈ dottedSample.classes, d.descriptor ≠ (ClassName.ofDotted "p.A").descriptor) ∧
      ∃ t b, oneByOne.map ⟨"classes.dex", dottedSample.file⟩ .empty = .ok t ∧ t.batch? "p.A" = some b ∧
        (dottedSample.select (b.task oneByOne).descriptors).classes = [] := by
  have hfresh : BatchTable.empty.fresh oneByOne.filter ["p.A", "p.B"] = ["p.A", "p.B"] := by decide
  have hchunks : batches oneByOne.batchSize ["p.A", "p.B"] = [["p.A"], ["p.B"]] := by
    simp [batches, oneByOne]
  have hmap := BatchTable.map_of_classNames classNames_dottedSample oneByOne "classes.dex" .empty
  rw [hfresh, hchunks] at hmap
  refine ⟨decode_dottedSample, classNames_dottedSample, by decide, _,
    oneByOne.batch ⟨"classes.dex", dottedSample.file⟩ 1 ["p.A"], hmap, ?_, rfl⟩
  rw [List.foldl_cons, List.foldl_cons, List.foldl_nil, BatchTable.batch?_add (.add .empty _),
    BatchTable.batch?_add .empty]
  rfl

end Dex.Container

structure Divides (size : Nat) (pieces : List (List α)) (whole : List α) : Prop where
  whole : pieces.flatten = whole
  nonempty : ∀ piece ∈ pieces, piece ≠ []
  length_le : ∀ piece ∈ pieces, piece.length ≤ size
  full : ∀ piece ∈ pieces.dropLast, piece.length = size

lemma divides_batches (size : Nat) (names : List String) : Divides (max 1 size) (batches size names) names := by
  refine ⟨flatten_batches size names, fun _ h => ne_nil_of_mem_batches h, ?_, ?_⟩
  · induction names using batches.induct size with
    | case1 => simp [batches]
    | case2 first rest ih =>
      rw [batches, List.forall_mem_cons]
      refine ⟨?_, ih⟩
      rw [List.length_cons, List.length_take]
      omega
  · induction names using batches.induct size with
    | case1 => simp [batches]
    | case2 first rest ih =>
      rw [batches]
      by_cases hrest : rest.drop (size - 1) = []
      · rw [hrest]
        simp [batches]
      · -- More names are left, so the first batch has taken as many as it can.
        have hlt : size - 1 < rest.length := by simpa [List.drop_eq_nil_iff] using hrest
        have hne : batches size (rest.drop (size - 1)) ≠ [] := by
          intro he
          have hflat := flatten_batches size (rest.drop (size - 1))
          rw [he] at hflat
          exact hrest hflat.symm
        rw [List.dropLast_cons_of_ne_nil hne, List.forall_mem_cons]
        refine ⟨?_, ih⟩
        rw [List.length_cons, List.length_take]
        omega

lemma exists_parts {f : α → β} {pieces : List (List β)} {xs : List α} (h : pieces.flatten = xs.map f) :
    ∃ parts : List (List α), parts.flatten = xs ∧ pieces = parts.map (·.map f) := by
  induction pieces generalizing xs with
  | nil => exact ⟨[], (List.map_eq_nil_iff.mp h.symm).symm, rfl⟩
  | cons piece pieces ih =>
    obtain ⟨part, rest, rfl, rfl, hrest⟩ := List.map_eq_append_iff.mp h.symm
    obtain ⟨parts, rfl, rfl⟩ := ih hrest.symm
    exact ⟨part :: parts, rfl, rfl⟩

lemma Divides.of_map {f : α → β} {size : Nat} {pieces : List (List β)} {xs : List α}
    (h : Divides size pieces (xs.map f)) :
    ∃ parts : List (List α), Divides size parts xs ∧ pieces = parts.map (·.map f) := by
  obtain ⟨parts, hparts, rfl⟩ := exists_parts h.whole
  refine ⟨parts, ⟨hparts, fun part hp => ?_, fun part hp => ?_, fun part hp => ?_⟩, rfl⟩
  · rintro rfl
    exact h.nonempty _ (List.mem_map_of_mem hp) rfl
  · simpa using h.length_le _ (List.mem_map_of_mem hp)
  · have hfull := h.full (part.map f) (List.map_dropLast ▸ List.mem_map_of_mem hp)
    simpa using hfull

lemma filter_mem_map [DecidableEq β] {f : α → β} {part xs : List α} (h : part.Sublist xs) (hn : (xs.map f).Nodup) :
    xs.filter (fun x => f x ∈ part.map f) = part := by
  induction h with
  | slnil => rfl
  | @cons part xs x h ih =>
    obtain ⟨hx, hn⟩ := List.nodup_cons.mp hn
    have hnot : f x ∉ part.map f := fun hm => hx ((h.map f).subset hm)
    rw [List.filter_cons_of_neg (by simpa using hnot), ih hn]
  | @cons_cons part xs x h ih =>
    obtain ⟨hx, hn⟩ := List.nodup_cons.mp hn
    have hrest : xs.filter (fun y => f y ∈ (x :: part).map f) = xs.filter fun y => f y ∈ part.map f := by
      refine List.filter_congr fun y hy => ?_
      have hne : f y ≠ f x := fun he => hx (he ▸ List.mem_map_of_mem hy)
      simp [hne]
    rw [List.filter_cons_of_pos (by simp), hrest, ih hn]

namespace BatchTable

variable {source : DexSource} {c : Container} {names : List String}

lemma descriptors_dottedNames (h : Container.decode source.bytes = .ok c)
    (hn : Scan.classNames source.bytes = .ok names) (hs : ∀ d ∈ c.classes, '.' ∉ d.descriptor.toList)
    {part : List ClassDef} (hp : part ⊆ c.classes) :
    descriptors (part.map (·.dottedName)) = part.map (·.descriptor) := by
  rw [descriptors, List.map_map]
  exact List.map_congr_left fun d hd => (descriptor_dottedName_iff h hn (hp hd)).mpr (hs d (hp hd))

/-- The batches that a dex file adds to a table divide those of its classes that are accepted and new to it. -/
theorem map_divides (h : Container.decode source.bytes = .ok c) (hn : Scan.classNames source.bytes = .ok names)
    (hdistinct : (c.classes.map (·.descriptor)).Nodup) (hs : ∀ d ∈ c.classes, '.' ∉ d.descriptor.toList)
    (m : BatchMapper) (t : BatchTable) :
    ∃ t' added, m.map source t = .ok t' ∧ t'.batches = t.batches ++ added ∧
      (∀ b ∈ added, b.source = source ∧ b.holder.job = (b.task m).run) ∧
      Divides (max 1 m.batchSize) (added.map fun b => (c.select (b.task m).descriptors).classes)
        (c.classes.filter fun d => m.filter.accepts d.dottedName && !t.contains d.dottedName) := by
  obtain rfl := eq_of_classNames h hn
  set wanted := c.classes.filter fun d => m.filter.accepts d.dottedName && !t.contains d.dottedName
  have hfresh : t.fresh m.filter (c.classes.map (·.dottedName)) = wanted.map (·.dottedName) := List.filter_map
  have hmap := map_of_classNames hn m source.name t
  rw [hfresh] at hmap
  obtain ⟨parts, hparts, hchunks⟩ := (divides_batches m.batchSize (wanted.map (·.dottedName))).of_map
  obtain ⟨added, hadded, hnames, hmade⟩ := batches_foldl m source t
    (DexUnseal.batches m.batchSize (wanted.map (·.dottedName)))
  refine ⟨_, added, hmap, hadded, fun b hb => ?_, ?_⟩
  · rw [hmade b hb]
    exact ⟨rfl, rfl⟩
  · have hselect : ∀ part ∈ parts, (c.select (descriptors (part.map (·.dottedName)))).classes = part := by
      intro part hp
      have hsub : part.Sublist c.classes :=
        (List.sublist_flatten_of_mem hp).trans (hparts.whole ▸ List.filter_sublist)
      rw [descriptors_dottedNames h hn hs hsub.subset]
      exact filter_mem_map hsub hdistinct
    have hselected : (added.map fun b => (c.select (b.task m).descriptors).classes) = parts := by
      calc added.map (fun b => (c.select (b.task m).descriptors).classes)
          = (added.map (·.names)).map fun chunk => (c.select (descriptors chunk)).classes := by
            rw [List.map_map]
            rfl
        _ = parts.map fun part => (c.select (descriptors (part.map (·.dottedName)))).classes := by
            rw [hnames, hchunks, List.map_map]
            rfl
        _ = parts.map id := List.map_congr_left hselect
        _ = parts := List.map_id parts
    rwa [hselected]

def slashedSample : Container := .bare ["Lp/A;", "Lp/B;", "Landroid/B;", "Lp/C;"]

lemma decode_slashedSample : Container.decode slashedSample.file = .ok slashedSample := by
  have hlen : slashedSample.file.length < 1024 := by
    rw [Container.length_file, Container.size_dataSection]
    decide +kernel
  exact Container.decode_file_bare (Nat.lt_trans hlen (by decide))

theorem map_divides_slashedSample : ∃ t' added,
    BatchMapper.map { oneByOne with batchSize := 2 } ⟨"classes.dex", slashedSample.file⟩ .empty = .ok t' ∧
      t'.batches = added ∧ Divides 2
        (added.map fun b => (slashedSample.select (b.task { oneByOne with batchSize := 2 }).descriptors).classes)
        (slashedSample.classes.eraseIdx 2) := by
  have hscan : Scan.classNames slashedSample.file = .ok ["p.A", "p.B", "android.B", "p.C"] :=
    classNames_of_decode decode_slashedSample (by decide)
  obtain ⟨t', added, hmap, hadded, -, hdivides⟩ := @map_divides ⟨"classes.dex", slashedSample.file⟩ _ _
    decode_slashedSample hscan (by decide) (by decide) { oneByOne with batchSize := 2 } .empty
  exact ⟨t', added, hmap, hadded, hdivides⟩

end BatchTable

end DexUnseal
