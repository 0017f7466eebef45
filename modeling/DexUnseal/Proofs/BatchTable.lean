import DexUnseal.BatchTable
import DexUnseal.Proofs.BatchTask
import Mathlib.Data.List.Nodup

/-! A table leads from each name to a batch of the first dex file that declares it, and its batches are
loaded as they were opened. -/

namespace DexUnseal

open Dex

lemma mem_batches {size : Nat} {names : List String} {name : String} :
    (∃ chunk ∈ batches size names, name ∈ chunk) ↔ name ∈ names := by
  induction names using batches.induct size with
  | case1 => simp [batches]
  | case2 first rest ih =>
    rw [batches]
    simp only [List.mem_cons, exists_eq_or_imp, ih]
    rw [or_assoc, ← List.mem_append, List.take_append_drop]

def Declares (dex : Bytes) (name : String) : Prop := ∃ names, Scan.classNames dex = .ok names ∧ name ∈ names

def FirstOf (sources : List (String × Bytes)) (name : String) (source : DexSource) : Prop :=
  ∃ before after, sources = before ++ (source.name, source.bytes) :: after ∧ Declares source.bytes name ∧
    ∀ other ∈ before, ¬ Declares other.2 name

lemma FirstOf.append {sources : List (String × Bytes)} {name : String} {source : DexSource}
    (h : FirstOf sources name source) (more : List (String × Bytes)) : FirstOf (sources ++ more) name source := by
  obtain ⟨before, after, rfl, hd, hb⟩ := h
  exact ⟨before, after ++ more, by simp, hd, hb⟩

def Batch.Opened (b : Batch) (loaded : Loaded) : Prop :=
  ∃ c, Container.decode b.source.bytes = .ok c ∧ loaded = .ofContainer (Unsealing.container
    (c.select (b.names.map fun name => (ClassName.ofDotted name).descriptor)))

structure Holder.Gives (h : Holder World α) (P : α → Prop) : Prop where
  job : ∀ w x w', h.job w = (.value x, w') → P x
  kept : ∀ x, h.outcome? = some (.value x) → P x

namespace Holder

variable {World α : Type} {h h' : Holder World α} {w w' : World} {outcome : Outcome α} {P : α → Prop}

lemma Gives.ofJob {label : String} {job : Job World α} (hj : ∀ w x w', job w = (.value x, w') → P x) :
    (Holder.ofJob label job).Gives P :=
  ⟨hj, fun _ hx => nomatch hx⟩

lemma outcome_ofEnding {ending : Ending α} {x : α} (h : Outcome.ofEnding ending = .value x) : ending = .value x := by
  cases ending with
  | value y => rw [Outcome.value.inj h]
  | failure f => cases h
  | crash payload => cases payload <;> cases h

lemma Gives.materialize (hg : h.Gives P) (hm : h.materialize w = ((outcome, h'), w')) :
    (∀ x, outcome = .value x → P x) ∧ h'.Gives P := by
  rw [Holder.materialize] at hm
  cases ho : h.outcome? with
  | some kept =>
    simp only [ho] at hm
    cases hm
    exact ⟨fun x hx => hg.kept x (hx ▸ ho), hg⟩
  | none =>
    simp only [ho] at hm
    rcases hj : h.job w with ⟨ending, w₁⟩
    have hvalue (x : α) (hx : Outcome.ofEnding ending = .value x) : P x :=
      hg.job w x w₁ (by rw [hj, outcome_ofEnding hx])
    simp only [Bind.bind, StateT.bind, hj] at hm
    cases hm
    exact ⟨hvalue, hg.job, fun x hx => hvalue x (Option.some.inj hx)⟩

end Holder

namespace BatchTable

structure Numbered (t : BatchTable) : Prop where
  batches : t.batches.map (·.index) = List.range' 1 t.batches.length
  indices : ∀ (name : String) (index : Nat), t.indices[name]? = some index → index ≤ t.batches.length

variable {t t' : BatchTable} {m : BatchMapper} {source : DexSource} {name : String} {b b' : Batch}

lemma Numbered.index_le (h : t.Numbered) (hb : b ∈ t.batches) : b.index ≤ t.batches.length := by
  have hi : b.index ∈ List.range' 1 t.batches.length := h.batches ▸ List.mem_map_of_mem hb
  rw [List.mem_range'_1] at hi
  omega

lemma Numbered.eq_of_index (h : t.Numbered) (hb : b ∈ t.batches) (hb' : b' ∈ t.batches)
    (hi : b.index = b'.index) : b = b' := by
  have hn : (t.batches.map (·.index)).Nodup := h.batches ▸ List.nodup_range'
  exact List.inj_on_of_nodup_map hn hb hb' hi

lemma mem_of_batch? (h : t.batch? name = some b) : b ∈ t.batches := by
  obtain ⟨index, -, hf⟩ := Option.bind_eq_some_iff.mp h
  exact List.mem_of_find?_eq_some hf

lemma contains_of_batch? (hb : t.batch? name = some b) : t.contains name = true := by
  obtain ⟨index, hi, -⟩ := Option.bind_eq_some_iff.mp hb
  rw [contains, Std.TreeMap.contains_eq_isSome_getElem?, hi, Option.isSome_some]

lemma getElem?_foldl_insert (names : List String) (index : Nat) (indices : Std.TreeMap String Nat) (name : String) :
    (names.foldl (fun indices name => indices.insert name index) indices)[name]? =
      if name ∈ names then some index else indices[name]? := by
  induction names generalizing indices with
  | nil => simp
  | cons first rest ih =>
    simp only [List.foldl_cons, ih, Std.TreeMap.getElem?_insert, Std.LawfulEqCmp.compare_eq_iff_eq, List.mem_cons]
    by_cases hr : name ∈ rest
    · simp [hr]
    · simp only [hr, if_false, or_false, eq_comm]

lemma Numbered.empty : BatchTable.empty.Numbered :=
  ⟨rfl, fun name index h => by simp [BatchTable.empty] at h⟩

lemma Numbered.add (h : t.Numbered) (names : List String) : (m.add source t names).Numbered := by
  constructor
  · simp [BatchMapper.add, BatchMapper.batch, h.batches, List.range'_concat, Nat.add_comm]
  · intro name index hi
    simp only [BatchMapper.add, getElem?_foldl_insert, List.length_append, List.length_singleton] at hi ⊢
    split at hi
    · exact Nat.le_of_eq (Option.some.inj hi).symm
    · exact Nat.le_succ_of_le (h.indices name index hi)

/-- A batch that is added takes over the names that it holds and no others. -/
lemma batch?_add (h : t.Numbered) (names : List String) (name : String) : (m.add source t names).batch? name =
    if name ∈ names then some (m.batch source (t.batches.length + 1) names) else t.batch? name := by
  have hnew : (m.batch source (t.batches.length + 1) names).index = t.batches.length + 1 := rfl
  simp only [batch?, BatchMapper.add, getElem?_foldl_insert, Option.bind_eq_bind, List.find?_append]
  split
  · have hold : t.batches.find? (fun b => b.index = t.batches.length + 1) = none := by
      rw [List.find?_eq_none]
      intro b hb
      have hle := h.index_le hb
      simp only [decide_eq_true_eq]
      omega
    simp [hold, hnew]
  · cases hi : t.indices[name]? with
    | none => rfl
    | some index =>
      have hle := h.indices name index hi
      have hne : t.batches.length + 1 ≠ index := by omega
      simp [hnew, hne]

lemma contains_add (t : BatchTable) (names : List String) (name : String) :
    (m.add source t names).contains name = true ↔ name ∈ names ∨ t.contains name = true := by
  simp only [contains, BatchMapper.add, Std.TreeMap.contains_eq_isSome_getElem?, getElem?_foldl_insert]
  split <;> simp [*]

/-- Names lead to batches of sources that are right for them, and these get loaded as they are opened. -/
structure Serves (t : BatchTable) (Right : String → DexSource → Prop) : Prop where
  numbered : t.Numbered
  source : ∀ name b, t.batch? name = some b → Right name b.source
  holder : ∀ b ∈ t.batches, b.holder.Gives b.Opened

structure Sound (t : BatchTable) (filter : ClassFilter) (sources : List (String × Bytes)) : Prop where
  serves : t.Serves (FirstOf sources)
  contains : ∀ name, t.contains name = true ↔
    filter.accepts name = true ∧ ∃ source ∈ sources, Declares source.2 name

variable {Right Right' : String → DexSource → Prop} {sources more : List (String × Bytes)}

lemma Serves.mono (h : t.Serves Right) (hr : ∀ name source, Right name source → Right' name source) :
    t.Serves Right' :=
  ⟨h.numbered, fun name b hb => hr name b.source (h.source name b hb), h.holder⟩

lemma gives_batch (hm : m.loader = .decoding) (source : DexSource) (index : Nat) (names : List String) :
    (m.batch source index names).holder.Gives (m.batch source index names).Opened :=
  Holder.Gives.ofJob fun _ _ _ hj => BatchTask.run_value hm hj

lemma Serves.add (h : t.Serves Right) (hm : m.loader = .decoding) {names : List String}
    (hn : ∀ name ∈ names, Right name source) : (m.add source t names).Serves Right where
  numbered := h.numbered.add names
  source name b hb := by
    rw [batch?_add h.numbered] at hb
    split at hb
    · obtain rfl := Option.some.inj hb
      exact hn name ‹_›
    · exact h.source name b hb
  holder b hb := by
    rcases List.mem_append.mp hb with hb | hb
    · exact h.holder b hb
    · obtain rfl := List.mem_singleton.mp hb
      exact gives_batch hm source _ names

lemma Serves.foldl (h : t.Serves Right) (hm : m.loader = .decoding) {chunks : List (List String)}
    (hn : ∀ chunk ∈ chunks, ∀ name ∈ chunk, Right name source) : (chunks.foldl (m.add source) t).Serves Right := by
  induction chunks generalizing t with
  | nil => exact h
  | cons chunk chunks ih =>
    obtain ⟨hc, hcs⟩ := List.forall_mem_cons.mp hn
    exact ih (h.add hm hc) hcs

lemma contains_foldl (t : BatchTable) (chunks : List (List String)) (name : String) :
    (chunks.foldl (m.add source) t).contains name = true ↔
      (∃ chunk ∈ chunks, name ∈ chunk) ∨ t.contains name = true := by
  induction chunks generalizing t with
  | nil => simp
  | cons chunk chunks ih =>
    rw [List.foldl_cons, ih, contains_add]
    simp only [List.mem_cons, exists_eq_or_imp]
    exact or_left_comm.trans or_assoc.symm

lemma Sound.empty (filter : ClassFilter) : BatchTable.empty.Sound filter [] := by
  refine ⟨⟨.empty, fun name b hb => ?_, fun b hb => nomatch hb⟩, fun name => ?_⟩
  · cases mem_of_batch? hb
  · simp [BatchTable.contains, BatchTable.empty]

theorem Sound.map (h : t.Sound m.filter sources) (hm : m.loader = .decoding) (ht : m.map source t = .ok t') :
    t'.Sound m.filter (sources ++ [(source.name, source.bytes)]) := by
  obtain ⟨declared, hd, ht⟩ := except_bind_ok.mp ht
  obtain rfl := Except.ok.inj ht
  have hnew : ∀ name ∈ declared.filter fun name => m.filter.accepts name && !t.contains name,
      FirstOf (sources ++ [(source.name, source.bytes)]) name source := by
    intro name hname
    obtain ⟨hmem, hf⟩ := List.mem_filter.mp hname
    obtain ⟨ha, hc⟩ : m.filter.accepts name = true ∧ t.contains name = false := by simpa using hf
    refine ⟨sources, [], rfl, ⟨declared, hd, hmem⟩, fun other ho hdeclares => ?_⟩
    rw [(h.contains name).mpr ⟨ha, other, ho, hdeclares⟩] at hc
    cases hc
  constructor
  · refine (h.serves.mono fun _ _ hf => hf.append _).foldl hm fun chunk hc name hn => hnew name ?_
    exact mem_batches.mp ⟨chunk, hc, hn⟩
  · intro name
    rw [contains_foldl, mem_batches, List.mem_filter, h.contains]
    constructor
    · rintro (⟨hmem, hf⟩ | ⟨ha, other, ho, hdeclares⟩)
      · exact ⟨(by simpa using hf : _ ∧ _).1, _, List.mem_append_right _ List.mem_cons_self, declared, hd, hmem⟩
      · exact ⟨ha, other, List.mem_append_left _ ho, hdeclares⟩
    · rintro ⟨ha, other, ho, hdeclares⟩
      rcases List.mem_append.mp ho with ho | ho
      · exact .inr ⟨ha, other, ho, hdeclares⟩
      · obtain rfl := List.mem_singleton.mp ho
        obtain ⟨names, hnames, hmem⟩ := hdeclares
        obtain rfl := Except.ok.inj (hd.symm.trans hnames)
        by_cases hc : t.contains name = true
        · exact .inr ((h.contains name).mp hc)
        · exact .inl ⟨hmem, by simp [ha, hc]⟩

theorem Sound.foldlM (h : t.Sound m.filter sources) (hm : m.loader = .decoding)
    (ht : more.foldlM (fun table p => m.map ⟨p.1, p.2⟩ table) t = .ok t') : t'.Sound m.filter (sources ++ more) := by
  induction more generalizing t sources with
  | nil =>
    obtain rfl := Except.ok.inj ht
    rwa [List.append_nil]
  | cons p more ih =>
    obtain ⟨t₁, h₁, ht⟩ := except_bind_ok.mp ht
    have hs := ih (h.map hm h₁) ht
    rwa [List.append_assoc] at hs

variable {index : Nat} {holder : Holder Workspace Loaded}

lemma mem_setHolder (hb : b ∈ (t.setHolder index holder).batches) :
    ∃ b₀ ∈ t.batches, b = if b₀.index = index then { b₀ with holder } else b₀ := by
  obtain ⟨b₀, hb₀, rfl⟩ := List.mem_map.mp hb
  exact ⟨b₀, hb₀, rfl⟩

lemma find?_map_index {f : Batch → Batch} (hf : ∀ b, (f b).index = b.index) (batches : List Batch) (index : Nat) :
    (batches.map f).find? (fun b => b.index = index) = (batches.find? fun b => b.index = index).map f := by
  simp only [List.find?_map, Function.comp_def, hf]

lemma batch?_map {f : Batch → Batch} (hf : ∀ b, (f b).index = b.index) (t : BatchTable) (name : String) :
    { t with batches := t.batches.map f }.batch? name = (t.batch? name).map f := by
  rw [batch?, batch?]
  cases t.indices[name]? with
  | none => rfl
  | some index => exact find?_map_index hf t.batches index

lemma index_withHolder (b : Batch) : (if b.index = index then { b with holder } else b).index = b.index := by
  split <;> rfl

lemma batch?_setHolder (t : BatchTable) (index : Nat) (holder : Holder Workspace Loaded) (name : String) :
    (t.setHolder index holder).batch? name =
      (t.batch? name).map fun b => if b.index = index then { b with holder } else b :=
  batch?_map index_withHolder t name

lemma Numbered.setHolder (h : t.Numbered) : (t.setHolder index holder).Numbered := by
  have hi : (t.setHolder index holder).batches.map (·.index) = t.batches.map (·.index) := by
    rw [BatchTable.setHolder, List.map_map]
    exact List.map_congr_left fun b _ => index_withHolder b
  have hl : (t.setHolder index holder).batches.length = t.batches.length := List.length_map _
  exact ⟨by rw [hi, hl, h.batches], fun name i hname => by rw [hl]; exact h.indices name i hname⟩

lemma Serves.setHolder (h : t.Serves Right) (hb : b ∈ t.batches) (hg : holder.Gives b.Opened) :
    (t.setHolder b.index holder).Serves Right where
  numbered := h.numbered.setHolder
  source name b₁ hb₁ := by
    rw [batch?_setHolder] at hb₁
    obtain ⟨b₀, hb₀, rfl⟩ := Option.map_eq_some_iff.mp hb₁
    have hs := h.source name b₀ hb₀
    split <;> exact hs
  holder b₁ hb₁ := by
    obtain ⟨b₀, hb₀, rfl⟩ := mem_setHolder hb₁
    split
    · rename_i hi
      rw [h.numbered.eq_of_index hb₀ hb hi]
      exact hg
    · exact h.holder b₀ hb₀

lemma materialize_batch {index : Nat} {names : List String} {ending : Ending Loaded} {w w' : Workspace}
    (h : (m.task source index (names.map fun name => (ClassName.ofDotted name).descriptor)).run w = (ending, w')) :
    (t.materialize (m.batch source index names) w).1.1 = .ofEnding ending := by
  have hb : (m.batch source index names).holder.materialize w = ((.ofEnding ending,
      { (m.batch source index names).holder with outcome? := some (.ofEnding ending) }), w') := by
    simp only [Holder.materialize, BatchMapper.batch, Holder.ofJob, Bind.bind, StateT.bind, h]
    rfl
  simp only [BatchTable.materialize, Bind.bind, StateT.bind, hb]
  rfl

/-- Whatever comes of the work on a batch, the table stays right, and a value is the batch opened. -/
theorem Sound.materialize {filter : ClassFilter} {w w' : Workspace} {outcome : Outcome Loaded}
    (h : t.Sound filter sources) (hb : b ∈ t.batches) (hm : t.materialize b w = ((outcome, t'), w')) :
    (∀ loaded, outcome = .value loaded → b.Opened loaded) ∧ t'.Sound filter sources := by
  rcases hh : b.holder.materialize w with ⟨⟨outcome₁, holder₁⟩, w₁⟩
  obtain ⟨hvalue, hgives⟩ := (h.serves.holder b hb).materialize hh
  simp only [BatchTable.materialize, Bind.bind, StateT.bind, hh] at hm
  cases hm
  exact ⟨hvalue, h.serves.setHolder hb hgives, h.contains⟩

end BatchTable

end DexUnseal
