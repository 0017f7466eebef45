import DexUnseal.Proofs.BatchTable.Assignment
import DexUnseal.Proofs.Cache.Layout

/-! A table only grows, and a dex file that cannot be read leaves it as it is. -/

namespace DexUnseal

open Dex

structure MapCall where
  mapper : BatchMapper
  source : DexSource

namespace BatchMapper

variable {t : BatchTable}

lemma forM_add (m : BatchMapper) (source : DexSource) (chunks : List (List String)) (t : BatchTable) :
    (chunks.forM fun names => modify fun t => m.add source t names : ExceptT Fault (StateM BatchTable) Unit) t =
      (.ok (), chunks.foldl (m.add source) t) := by
  induction chunks generalizing t with
  | nil => rfl
  | cons chunk chunks ih => exact ih (m.add source t chunk)

lemma mapInto_eq (m : BatchMapper) (source : DexSource) (t : BatchTable) : m.mapInto source t =
    match m.map source t with
    | .ok t' => (.ok (), t')
    | .error fault => (.error fault, t) := by
  cases hscan : Scan.classNames source.bytes with
  | error fault =>
    have hm : m.map source t = .error fault := by
      rw [map, hscan]
      rfl
    rw [hm]
    simp only [mapInto, hscan]
    rfl
  | ok declared =>
    have hm : m.map source t = .ok _ := BatchTable.map_of_classNames hscan m source.name t
    rw [hm]
    simp only [mapInto, hscan]
    exact forM_add m source _ t

end BatchMapper

namespace BatchTable

variable {t t' : BatchTable} {m : BatchMapper} {source : DexSource} {name : String} {b : Batch}
  {calls : List MapCall} {call : MapCall} {chunks : List (List String)}

def after (t : BatchTable) (calls : List MapCall) : BatchTable :=
  calls.foldl (fun t call => (call.mapper.mapInto call.source t).2) t

/-- A name of a batch comes from a call with a dex file that declares it, and that is what the holder is named for. -/
structure ComesFrom (b : Batch) (name : String) (call : MapCall) : Prop where
  made : b = call.mapper.batch call.source b.index b.names
  label : b.holder.label = call.source.name ++ " batch " ++ Text.decimal b.index
  listed : name ∈ b.names
  accepted : call.mapper.filter.accepts name = true
  declared : Declares call.source.bytes name

structure Recorded (t : BatchTable) (calls : List MapCall) : Prop where
  numbered : t.Numbered
  leads : ∀ name, t.contains name = true → ∃ b, t.batch? name = some b
  origin : ∀ name b, t.batch? name = some b → ∃ call ∈ calls, ComesFrom b name call

structure Extends (t' t : BatchTable) : Prop where
  batches : t.batches <+: t'.batches
  kept : ∀ name b, t.batch? name = some b → t'.batch? name = some b

lemma Recorded.empty : BatchTable.empty.Recorded [] := by
  refine ⟨.empty, fun name h => ?_, fun name b hb => ?_⟩
  · simp [BatchTable.contains, BatchTable.empty] at h
  · cases mem_of_batch? hb

lemma Recorded.concat (h : t.Recorded calls) (call : MapCall) : t.Recorded (calls ++ [call]) := by
  refine ⟨h.numbered, h.leads, fun name b hb => ?_⟩
  obtain ⟨old, ho, hc⟩ := h.origin name b hb
  exact ⟨old, List.mem_append_left _ ho, hc⟩

lemma Recorded.add (h : t.Recorded calls) (hc : call ∈ calls) {names : List String}
    (hn : ∀ name ∈ names, call.mapper.filter.accepts name = true ∧ Declares call.source.bytes name) :
    (call.mapper.add call.source t names).Recorded calls := by
  refine ⟨h.numbered.add names, fun name hname => ?_, fun name b hb => ?_⟩
  · rw [batch?_add h.numbered]
    split
    · exact ⟨_, rfl⟩
    · rename_i hnot
      exact h.leads name (((contains_add t names name).mp hname).resolve_left hnot)
  · rw [batch?_add h.numbered] at hb
    split at hb
    · rename_i hname
      obtain rfl := Option.some.inj hb
      exact ⟨call, hc, rfl, rfl, hname, (hn name hname).1, (hn name hname).2⟩
    · exact h.origin name b hb

lemma Recorded.foldl (h : t.Recorded calls) (hc : call ∈ calls)
    (hn : ∀ chunk ∈ chunks, ∀ name ∈ chunk,
      call.mapper.filter.accepts name = true ∧ Declares call.source.bytes name) :
    (chunks.foldl (call.mapper.add call.source) t).Recorded calls := by
  induction chunks generalizing t with
  | nil => exact h
  | cons chunk chunks ih =>
    obtain ⟨hchunk, hchunks⟩ := List.forall_mem_cons.mp hn
    exact ih (h.add hc hchunk) hchunks

lemma Extends.foldl (h : t'.Extends t) (ht : t'.Numbered)
    (hn : ∀ chunk ∈ chunks, ∀ name ∈ chunk, t.contains name = false) :
    (chunks.foldl (m.add source) t').Extends t := by
  -- A name may move on to a later batch of the same call, but not if it was in the table before.
  induction chunks generalizing t' with
  | nil => exact h
  | cons chunk chunks ih =>
    obtain ⟨hchunk, hchunks⟩ := List.forall_mem_cons.mp hn
    refine ih ⟨h.batches.trans (List.prefix_append _ _), fun name b hb => ?_⟩ (ht.add chunk) hchunks
    rw [batch?_add ht, if_neg, h.kept name b hb]
    intro hname
    have hnot := hchunk name hname
    rw [contains_of_batch? hb] at hnot
    cases hnot

lemma mapInto_error {fault : Fault} (h : (m.mapInto source t).1 = .error fault) : (m.mapInto source t).2 = t := by
  rw [BatchMapper.mapInto_eq] at h ⊢
  cases hm : m.map source t with
  | error fault => rfl
  | ok t' =>
    rw [hm] at h
    cases h

lemma Recorded.mapInto (h : t.Recorded calls) (call : MapCall) :
    (call.mapper.mapInto call.source t).2.Recorded (calls ++ [call]) ∧
      (call.mapper.mapInto call.source t).2.Extends t := by
  have hold := h.concat call
  rw [BatchMapper.mapInto_eq]
  cases hm : call.mapper.map call.source t with
  | error fault => exact ⟨hold, List.prefix_refl _, fun _ _ hb => hb⟩
  | ok t' =>
    obtain ⟨names, hscan, rfl⟩ := map_ok hm
    have hnew : ∀ chunk ∈ DexUnseal.batches call.mapper.batchSize (t.fresh call.mapper.filter names),
        ∀ name ∈ chunk, name ∈ names ∧ call.mapper.filter.accepts name = true ∧ t.contains name = false := by
      intro chunk hc name hname
      have hf : name ∈ t.fresh call.mapper.filter names := mem_batches.mp ⟨chunk, hc, hname⟩
      simpa [fresh] using hf
    constructor
    · refine hold.foldl (List.mem_append_right _ List.mem_cons_self) fun chunk hc name hname => ?_
      obtain ⟨hd, ha, -⟩ := hnew chunk hc name hname
      exact ⟨ha, names, hscan, hd⟩
    · refine Extends.foldl ⟨List.prefix_refl _, fun _ _ hb => hb⟩ h.numbered fun chunk hc name hname => ?_
      exact (hnew chunk hc name hname).2.2

theorem Recorded.after {more : List MapCall} (h : t.Recorded calls) : (t.after more).Recorded (calls ++ more) := by
  induction more generalizing t calls with
  | nil => rwa [List.append_nil]
  | cons call more ih =>
    have hs := ih (h.mapInto call).1
    rwa [List.append_assoc] at hs

/-- What a call adds to a table: the accepted names that were not there, in batches of their own. -/
structure Adds (t' t : BatchTable) (call : MapCall) (declared : List String) : Prop where
  batches : ∃ added, t'.batches = t.batches ++ added ∧
    added.map (·.names) = DexUnseal.batches call.mapper.batchSize (t.fresh call.mapper.filter declared) ∧
    ∀ b ∈ added, b = call.mapper.batch call.source b.index b.names
  contains : ∀ name, t'.contains name = true ↔
    t.contains name = true ∨ (name ∈ declared ∧ call.mapper.filter.accepts name = true)

lemma mapInto_ok (h : (call.mapper.mapInto call.source t).1 = .ok ()) : ∃ declared,
    Scan.classNames call.source.bytes = .ok declared ∧ (call.mapper.mapInto call.source t).2.Adds t call declared := by
  rw [BatchMapper.mapInto_eq] at h ⊢
  cases hm : call.mapper.map call.source t with
  | error fault =>
    rw [hm] at h
    cases h
  | ok t' =>
    obtain ⟨declared, hscan, rfl⟩ := map_ok hm
    refine ⟨declared, hscan, batches_foldl _ _ _ _, fun name => ?_⟩
    rw [contains_foldl, mem_batches]
    by_cases hc : t.contains name = true <;> simp [fresh, hc]

/-- Whatever calls there have been, the batches are counted from one without a gap and share no file, and a name in
the table leads to a batch of a dex file that declares it. One call more adds batches of new names behind these, and
takes no name away from its batch; if it fails, it changes nothing. -/
theorem after_grows (calls : List MapCall) :
    let t := empty.after calls
    t.batches.map (·.index) = List.range' 1 t.batches.length ∧
      (∀ b ∈ t.batches, ∀ b' ∈ t.batches, ∀ l l' : Cache.Layout, ∀ p ∈ (l.entry b.index).paths,
        ∀ p' ∈ (l'.entry b'.index).paths, p.same p' = true → b = b') ∧
      (∀ name, t.contains name = true → ∃ b, t.batch? name = some b ∧ ∃ call ∈ calls, ComesFrom b name call) ∧
      ∀ call : MapCall,
        let result := call.mapper.mapInto call.source t
        t.batches <+: result.2.batches ∧
          (∀ name b, t.batch? name = some b → result.2.batch? name = some b) ∧
          (∀ fault, result.1 = .error fault → result.2 = t) ∧
          (result.1 = .ok () →
            ∃ declared, Scan.classNames call.source.bytes = .ok declared ∧ result.2.Adds t call declared) := by
  intro t
  have h : t.Recorded calls := Recorded.empty.after
  refine ⟨h.numbered.batches, fun b hb b' hb' l l' p hp p' hp' hs => ?_, fun name hname => ?_, fun call => ?_⟩
  · exact h.numbered.eq_of_index hb hb' (Cache.Layout.index_eq_of_same hp hp' hs)
  · obtain ⟨b, hb⟩ := h.leads name hname
    exact ⟨b, hb, h.origin name b hb⟩
  · have he := (h.mapInto call).2
    exact ⟨he.batches, he.kept, fun fault hf => mapInto_error hf, mapInto_ok⟩

open Container (sample)

theorem after_grows_sample :
    let good : MapCall := ⟨oneByOne, ⟨"classes.dex", sample.file⟩⟩
    let bad : MapCall := ⟨oneByOne, ⟨"classes2.dex", []⟩⟩
    let t := empty.after [good]
    t.batches.map (·.names) = [["p.A"]] ∧ t.batches.map (·.index) = [1] ∧
      (∃ b, t.batch? "p.A" = some b ∧ ComesFrom b "p.A" good) ∧ t.after [bad] = t := by
  intro good bad t
  have hok : (good.mapper.mapInto good.source .empty).1 = .ok () := by
    rw [BatchMapper.mapInto_eq]
    simp only [good, map_of_classNames classNames_sample]
  obtain ⟨fault, hbad⟩ : ∃ fault, (bad.mapper.mapInto bad.source t).1 = .error fault := ⟨_, rfl⟩
  obtain ⟨-, -, -, hcall⟩ := after_grows []
  obtain ⟨declared, hdeclared, hadds⟩ := (hcall good).2.2.2 hok
  obtain rfl := Except.ok.inj (classNames_sample.symm.trans hdeclared)
  replace hadds : t.Adds empty good ["p.A"] := hadds
  obtain ⟨hindex, -, hleads, hcall⟩ := after_grows [good]
  have hnames : t.batches.map (·.names) = [["p.A"]] := by
    obtain ⟨added, hbatches, hadded, -⟩ := hadds.batches
    have hchunks : DexUnseal.batches 1 (fresh .empty oneByOne.filter ["p.A"]) = [["p.A"]] := by
      simp [fresh, contains, empty, DexUnseal.batches, show oneByOne.filter.accepts "p.A" = true from by decide]
    rw [hbatches]
    exact hadded.trans hchunks
  have hlength : t.batches.length = 1 := by simpa using congrArg List.length hnames
  refine ⟨hnames, ?_, ?_, (hcall bad).2.2.1 fault hbad⟩
  · rw [hindex, hlength]
    rfl
  · obtain ⟨b, hb, call, hc, hfrom⟩ := hleads "p.A" ((hadds.contains "p.A").mpr (.inr ⟨by decide, by decide⟩))
    obtain rfl := List.mem_singleton.mp hc
    exact ⟨b, hb, hfrom⟩

end BatchTable

end DexUnseal
