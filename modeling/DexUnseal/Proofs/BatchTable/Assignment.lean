import DexUnseal.Proofs.BatchTable
import DexUnseal.Proofs.Dex.Scan
import Mathlib.Data.List.Pairwise

/-! Which batches list a name, and which of them it leads to. As long as no dex file declares a class twice,
they are one and the same. -/

namespace DexUnseal

open Dex

lemma flatten_batches (size : Nat) (names : List String) : (batches size names).flatten = names := by
  induction names using batches.induct size with
  | case1 => rw [batches, List.flatten_nil]
  | case2 first rest ih => rw [batches, List.flatten_cons, ih, List.cons_append, List.take_append_drop]

lemma ne_nil_of_mem_batches {size : Nat} {names chunk : List String} (h : chunk ∈ batches size names) :
    chunk ≠ [] := by
  induction names using batches.induct size with
  | case1 => simp [batches] at h
  | case2 first rest ih =>
    rw [batches, List.mem_cons] at h
    rcases h with rfl | h
    · exact List.cons_ne_nil _ _
    · exact ih h

lemma eraseDups_of_nodup {names : List String} (h : names.Nodup) : names.eraseDups = names := by
  induction names with
  | nil => rfl
  | cons name names ih =>
    obtain ⟨hn, hs⟩ := List.nodup_cons.mp h
    have hf : names.filter (fun other => !other == name) = names := by
      rw [List.filter_eq_self]
      intro other ho
      have hne : other ≠ name := fun he => hn (he ▸ ho)
      simpa using hne
    rw [List.eraseDups_cons, hf, ih hs]

namespace BatchTable

def listed (t : BatchTable) : List String := t.batches.flatMap (·.names)

/-- What the batches are to be for the accepted names that some dex files declare: each name belongs to one
batch, which it leads to, and the names come in the order in which they come first. -/
structure Partitions (t : BatchTable) (names : List String) : Prop where
  order : t.listed = names.eraseDups
  one : ∀ name ∈ names, ∃! b, b ∈ t.batches ∧ name ∈ b.names
  leads : ∀ b ∈ t.batches, b.names ≠ [] ∧ ∀ name ∈ b.names, t.batch? name = some b

/-- What the batches are, also where a dex file declares a class twice: of those that list a name it leads
to the last. -/
structure Lists (t : BatchTable) (names : List String) : Prop where
  numbered : t.Numbered
  contains : ∀ name, t.contains name = true ↔ name ∈ t.listed
  order : t.listed.eraseDups = names.eraseDups
  nonempty : ∀ b ∈ t.batches, b.names ≠ []
  last : ∀ name, t.batch? name = t.batches.reverse.find? fun b => name ∈ b.names

variable {t t' : BatchTable} {m : BatchMapper} {source : DexSource} {sources : List (String × Bytes)}
  {names more declared : List String} {name : String} {filter : ClassFilter} {declares : List (List String)}

lemma mem_listed : name ∈ t.listed ↔ ∃ b ∈ t.batches, name ∈ b.names :=
  List.mem_flatMap

lemma Lists.mem_iff (h : t.Lists names) : name ∈ t.listed ↔ name ∈ names := by
  rw [← List.mem_eraseDups, h.order, List.mem_eraseDups]

lemma Lists.empty : BatchTable.empty.Lists [] := by
  refine ⟨.empty, fun name => ?_, rfl, fun b hb => (nomatch hb), fun name => ?_⟩
  · simp [BatchTable.contains, BatchTable.empty, listed]
  · simp [BatchTable.batch?, BatchTable.empty]

lemma Lists.congr (h : t.Lists names) (he : names.eraseDups = more.eraseDups) : t.Lists more :=
  ⟨h.numbered, h.contains, h.order.trans he, h.nonempty, h.last⟩

lemma listed_add (t : BatchTable) (names : List String) : (m.add source t names).listed = t.listed ++ names := by
  simp [listed, BatchMapper.add, BatchMapper.batch]

lemma Lists.add (h : t.Lists names) (hn : more ≠ []) : (m.add source t more).Lists (names ++ more) := by
  refine ⟨h.numbered.add more, fun name => ?_, ?_, fun b hb => ?_, fun name => ?_⟩
  · rw [contains_add, h.contains, listed_add, List.mem_append, or_comm]
  · have hseen : more.removeAll t.listed = more.removeAll names := by
      simp only [List.removeAll, List.elem_eq_mem, h.mem_iff]
    rw [listed_add, List.eraseDups_append, List.eraseDups_append, h.order, hseen]
  · rcases List.mem_append.mp hb with hb | hb
    · exact h.nonempty b hb
    · obtain rfl := List.mem_singleton.mp hb
      exact hn
  · rw [batch?_add h.numbered, h.last]
    simp only [BatchMapper.add, List.reverse_append, List.reverse_singleton, List.singleton_append, List.find?_cons]
    by_cases hm : name ∈ more <;> simp [BatchMapper.batch, hm]

lemma Lists.foldl (h : t.Lists names) {chunks : List (List String)} (hn : ∀ chunk ∈ chunks, chunk ≠ []) :
    (chunks.foldl (m.add source) t).Lists (names ++ chunks.flatten) := by
  induction chunks generalizing t names with
  | nil => rwa [List.flatten_nil, List.append_nil]
  | cons chunk chunks ih =>
    obtain ⟨hc, hcs⟩ := List.forall_mem_cons.mp hn
    rw [List.foldl_cons, List.flatten_cons, ← List.append_assoc]
    exact ih (h.add hc) hcs

lemma existsUnique_batch (h : t.listed.Nodup) (hn : name ∈ t.listed) : ∃! b, b ∈ t.batches ∧ name ∈ b.names := by
  obtain ⟨b, hb, hname⟩ := mem_listed.mp hn
  refine ⟨b, ⟨hb, hname⟩, fun b' ⟨hb', hname'⟩ => ?_⟩
  by_contra hne
  have hd := (List.nodup_flatMap.mp h).2
  have : Std.Symm (Function.onFun List.Disjoint fun b : Batch => b.names) :=
    ⟨fun _ _ hd _ hl hr => hd hr hl⟩
  exact hd.forall hb' hb hne hname' hname

lemma Lists.mem_names (h : t.Lists names) {b : Batch} (hb : t.batch? name = some b) : name ∈ b.names := by
  rw [h.last] at hb
  simpa using List.find?_some hb

lemma Lists.leads (h : t.Lists names) (hn : name ∈ t.listed) : ∃ b, t.batch? name = some b := by
  obtain ⟨b, hb, hname⟩ := mem_listed.mp hn
  rw [h.last, ← Option.isSome_iff_exists, List.find?_isSome]
  exact ⟨b, List.mem_reverse.mpr hb, decide_eq_true hname⟩

theorem Lists.partitions (h : t.Lists names) (hn : t.listed.Nodup) : t.Partitions names := by
  refine ⟨?_, fun name hname => existsUnique_batch hn (h.mem_iff.mpr hname), fun b hb => ⟨h.nonempty b hb, ?_⟩⟩
  · rw [← h.order, eraseDups_of_nodup hn]
  · intro name hname
    have hlisted := mem_listed.mpr ⟨b, hb, hname⟩
    obtain ⟨b', hb'⟩ := h.leads hlisted
    rw [hb', (existsUnique_batch hn hlisted).unique ⟨mem_of_batch? hb', h.mem_names hb'⟩ ⟨hb, hname⟩]

structure Mapped (t : BatchTable) (m : BatchMapper) (sources : List (String × Bytes))
    (declared : List (List String)) : Prop where
  scanned : List.Forall₂ (fun p names => Scan.classNames p.2 = .ok names) sources declared
  lists : t.Lists (declared.flatten.filter m.filter.accepts)
  made : ∀ b ∈ t.batches, b = m.batch b.source b.index b.names
  first : ∀ b ∈ t.batches, ∀ name ∈ b.names, FirstOf sources name b.source
  nodup : (∀ names ∈ declared, (names.filter m.filter.accepts).Nodup) → t.listed.Nodup

lemma Mapped.empty (m : BatchMapper) : BatchTable.empty.Mapped m [] [] :=
  ⟨.nil, .empty, fun _ hb => (nomatch hb), fun _ hb => (nomatch hb), fun _ => List.nodup_nil⟩

def fresh (t : BatchTable) (filter : ClassFilter) (names : List String) : List String :=
  names.filter fun name => filter.accepts name && !t.contains name

lemma Lists.mem_fresh (h : t.Lists names) : name ∈ t.fresh filter declared ↔
    name ∈ declared ∧ filter.accepts name = true ∧ name ∉ names := by
  have hc : t.contains name = false ↔ name ∉ names := by
    rw [← h.mem_iff, ← h.contains, Bool.not_eq_true]
  simp [fresh, hc]

lemma Lists.order_fresh (h : t.Lists names) (filter : ClassFilter) : (names ++ t.fresh filter declared).eraseDups =
    (names ++ declared.filter filter.accepts).eraseDups := by
  have hseen : (t.fresh filter declared).removeAll names = (declared.filter filter.accepts).removeAll names := by
    simp only [List.removeAll, fresh, List.filter_filter]
    refine List.filter_congr fun name _ => ?_
    have hc : t.contains name = decide (name ∈ names) := by
      rw [Bool.eq_iff_iff, h.contains, h.mem_iff, decide_eq_true_iff]
    by_cases hn : name ∈ names <;> simp [hn, hc]
  rw [List.eraseDups_append, List.eraseDups_append, hseen]

lemma Mapped.mem_listed (h : t.Mapped m sources declares) : name ∈ t.listed ↔
    m.filter.accepts name = true ∧ ∃ source ∈ sources, Declares source.2 name := by
  rw [h.lists.mem_iff, List.mem_filter, List.mem_flatten, and_comm]
  refine and_congr_right fun _ => ⟨?_, ?_⟩
  · rintro ⟨names, hn, hname⟩
    obtain ⟨p, hp, hscan⟩ := forall₂_exists_right (forall₂_swap h.scanned) hn
    exact ⟨p, hp, names, hscan, hname⟩
  · rintro ⟨p, hp, names, hscan, hname⟩
    obtain ⟨names', hn, hscan'⟩ := forall₂_exists_right h.scanned hp
    obtain rfl := Except.ok.inj (hscan.symm.trans hscan')
    exact ⟨names, hn, hname⟩

lemma map_ok (h : m.map source t = .ok t') : ∃ names, Scan.classNames source.bytes = .ok names ∧
    t' = (DexUnseal.batches m.batchSize (t.fresh m.filter names)).foldl (m.add source) t := by
  obtain ⟨names, hscan, h⟩ := except_bind_ok.mp h
  exact ⟨names, hscan, (Except.ok.inj h).symm⟩

lemma map_of_classNames {dex : Bytes} (h : Scan.classNames dex = .ok names) (m : BatchMapper) (file : String)
    (t : BatchTable) : m.map ⟨file, dex⟩ t =
      .ok ((DexUnseal.batches m.batchSize (t.fresh m.filter names)).foldl (m.add ⟨file, dex⟩) t) :=
  except_bind_ok.mpr ⟨names, h, rfl⟩

lemma batches_foldl (m : BatchMapper) (source : DexSource) (t : BatchTable) (chunks : List (List String)) : ∃ added,
    (chunks.foldl (m.add source) t).batches = t.batches ++ added ∧ added.map (·.names) = chunks ∧
      ∀ b ∈ added, b = m.batch source b.index b.names := by
  induction chunks generalizing t with
  | nil => exact ⟨[], (List.append_nil _).symm, rfl, nofun⟩
  | cons chunk chunks ih =>
    obtain ⟨added, hadded, hnames, hmade⟩ := ih (m.add source t chunk)
    refine ⟨m.batch source (t.batches.length + 1) chunk :: added, ?_, congrArg (chunk :: ·) hnames,
      List.forall_mem_cons.mpr ⟨rfl, hmade⟩⟩
    rw [List.foldl_cons, hadded]
    exact List.append_assoc _ _ _

lemma listed_foldl (t : BatchTable) (chunks : List (List String)) :
    (chunks.foldl (m.add source) t).listed = t.listed ++ chunks.flatten := by
  obtain ⟨added, hadded, hnames, -⟩ := batches_foldl m source t chunks
  rw [listed, hadded, List.flatMap_append, ← hnames, ← List.flatMap_def, listed]

lemma mem_foldl {chunks : List (List String)} {b : Batch} (hb : b ∈ (chunks.foldl (m.add source) t).batches) :
    b ∈ t.batches ∨ b = m.batch source b.index b.names ∧ b.names ∈ chunks := by
  obtain ⟨added, hadded, hnames, hmade⟩ := batches_foldl m source t chunks
  rw [hadded] at hb
  refine (List.mem_append.mp hb).imp_right fun hb => ⟨hmade b hb, ?_⟩
  rw [← hnames]
  exact List.mem_map_of_mem hb

lemma Mapped.firstOf_of_mem_fresh (h : t.Mapped m sources declares)
    (hscan : Scan.classNames source.bytes = .ok names) (hn : name ∈ t.fresh m.filter names) :
    FirstOf (sources ++ [(source.name, source.bytes)]) name source := by
  obtain ⟨hname, ha, hnew⟩ := h.lists.mem_fresh.mp hn
  refine ⟨sources, [], rfl, ⟨names, hscan, hname⟩, fun other ho hd => hnew ?_⟩
  exact h.lists.mem_iff.mp (h.mem_listed.mpr ⟨ha, other, ho, hd⟩)

lemma Mapped.nodup_fresh (h : t.Mapped m sources declares)
    (hn : ∀ names' ∈ declares ++ [names], (names'.filter m.filter.accepts).Nodup) :
    (t.listed ++ t.fresh m.filter names).Nodup := by
  obtain ⟨hold, hnew⟩ := List.forall_mem_append.mp hn
  have hfresh : t.fresh m.filter names = (names.filter m.filter.accepts).filter fun name => !t.contains name := by
    rw [fresh, List.filter_filter]
    exact List.filter_congr fun name _ => Bool.and_comm _ _
  refine List.nodup_append.mpr ⟨h.nodup hold, ?_, fun name hl other hf => ?_⟩
  · rw [hfresh]
    exact (hnew names List.mem_cons_self).filter _
  · rintro rfl
    exact (h.lists.mem_fresh.mp hf).2.2 (h.lists.mem_iff.mp hl)

theorem Mapped.map (h : t.Mapped m sources declares) (ht : m.map source t = .ok t') :
    ∃ names, t'.Mapped m (sources ++ [(source.name, source.bytes)]) (declares ++ [names]) := by
  obtain ⟨names, hscan, rfl⟩ := map_ok ht
  have hflat : (DexUnseal.batches m.batchSize (t.fresh m.filter names)).flatten = t.fresh m.filter names :=
    flatten_batches _ _
  refine ⟨names, ?_, ?_, fun b hb => ?_, fun b hb name hname => ?_, fun hn => ?_⟩
  · exact List.rel_append h.scanned (.cons hscan .nil)
  · have hl : ((DexUnseal.batches m.batchSize (t.fresh m.filter names)).foldl (m.add source) t).Lists _ :=
      h.lists.foldl fun chunk hc => ne_nil_of_mem_batches hc
    rw [List.flatten_append, List.filter_append, List.flatten_singleton]
    exact hl.congr (by rw [hflat, h.lists.order_fresh])
  · rcases mem_foldl hb with hb | ⟨he, -⟩
    · exact h.made b hb
    · rwa [congrArg Batch.source he]
  · rcases mem_foldl hb with hb | ⟨he, hchunk⟩
    · exact (h.first b hb name hname).append _
    · rw [congrArg Batch.source he]
      exact h.firstOf_of_mem_fresh hscan (mem_batches.mp ⟨_, hchunk, hname⟩)
  · rw [listed_foldl, hflat]
    exact h.nodup_fresh hn

theorem Mapped.foldlM {more : List (String × Bytes)} (h : t.Mapped m sources declares)
    (ht : more.foldlM (fun table p => m.map ⟨p.1, p.2⟩ table) t = .ok t') :
    ∃ declared, t'.Mapped m (sources ++ more) declared := by
  induction more generalizing t sources declares with
  | nil =>
    obtain rfl := Except.ok.inj ht
    exact ⟨declares, by rwa [List.append_nil]⟩
  | cons p more ih =>
    obtain ⟨t₁, h₁, ht⟩ := except_bind_ok.mp ht
    obtain ⟨names, hmap⟩ := h.map h₁
    obtain ⟨declared, hs⟩ := ih hmap ht
    exact ⟨declared, by rwa [List.append_assoc] at hs⟩

/-- Names go to batches of the first dex file that declares them, in order, and lead to the last batch that
lists them. A name may be listed twice if a dex file declares it twice, but not otherwise. -/
theorem mapped_of_foldlM (ht : sources.foldlM (fun table p => m.map ⟨p.1, p.2⟩ table) .empty = .ok t) :
    ∃ declared, t.Mapped m sources declared ∧
      ((∀ names ∈ declared, (names.filter m.filter.accepts).Nodup) →
        t.Partitions (declared.flatten.filter m.filter.accepts)) := by
  obtain ⟨declared, h⟩ := (Mapped.empty m).foldlM ht
  rw [List.nil_append] at h
  exact ⟨declared, h, fun hn => h.lists.partitions (h.nodup hn)⟩

open Container (sample)

def repeatedSample : Container := sample.withClasses (sample.classes ++ sample.classes)

def oneByOne : BatchMapper := ⟨⟨["android."]⟩, 1, ⟨⟨"/cache"⟩⟩, .decoding⟩

lemma foldlM_single {dex : Bytes} (file : String) (hscan : Scan.classNames dex = .ok names)
    (ha : ∀ name ∈ names, m.filter.accepts name = true) :
    [(file, dex)].foldlM (fun table p => m.map ⟨p.1, p.2⟩ table) .empty =
      .ok ((DexUnseal.batches m.batchSize names).foldl (m.add ⟨file, dex⟩) .empty) := by
  have hf : names.filter (fun name => m.filter.accepts name && !BatchTable.empty.contains name) = names := by
    refine List.filter_eq_self.mpr fun name hname => ?_
    simp [ha name hname, BatchTable.contains, BatchTable.empty]
  refine except_bind_ok.mpr ⟨_, except_bind_ok.mpr ⟨names, hscan, rfl⟩, ?_⟩
  rw [hf]
  rfl

lemma classNames_pairSample : Scan.classNames (twinSample 0 "Ldalvik/annotation/InnerClass;").file =
    .ok ["p.A", "dalvik.annotation.InnerClass"] := by
  have hlen : (twinSample 0 "Ldalvik/annotation/InnerClass;").file.length < 2048 := by
    rw [Container.length_file, Container.size_dataSection]
    decide +kernel
  exact classNames_of_decode (decode_file_twinSample rfl (Nat.lt_trans hlen (by decide))) (by decide)

/-- Both dex files declare the first class. -/
theorem mapped_of_foldlM_sample :
    let sources :=
      [("classes.dex", sample.file), ("classes2.dex", (twinSample 0 "Ldalvik/annotation/InnerClass;").file)]
    ∃ t, sources.foldlM (fun table p => oneByOne.map ⟨p.1, p.2⟩ table) .empty = .ok t ∧
      ∃ declared, t.Mapped oneByOne sources declared ∧ t.Partitions (declared.flatten.filter oneByOne.filter.accepts) ∧
        t.listed = ["p.A", "dalvik.annotation.InnerClass"] := by
  intro sources
  have ht : sources.foldlM (fun table p => oneByOne.map ⟨p.1, p.2⟩ table) .empty = .ok _ :=
    except_bind_ok.mpr ⟨_, map_of_classNames classNames_sample oneByOne "classes.dex" .empty,
      except_bind_ok.mpr ⟨_, map_of_classNames classNames_pairSample oneByOne "classes2.dex" _, rfl⟩⟩
  obtain ⟨declared, hm, hpartitions⟩ := mapped_of_foldlM ht
  have hdeclared : declared = [["p.A"], ["p.A", "dalvik.annotation.InnerClass"]] := by
    have hscanned := hm.scanned
    simp only [sources, List.forall₂_cons_left_iff, List.forall₂_nil_left_iff] at hscanned
    obtain ⟨first, _, hfirst, ⟨second, _, hsecond, rfl, rfl⟩, rfl⟩ := hscanned
    obtain rfl := Except.ok.inj (classNames_sample.symm.trans hfirst)
    obtain rfl := Except.ok.inj (classNames_pairSample.symm.trans hsecond)
    rfl
  have hp := hpartitions (by rw [hdeclared]; decide)
  refine ⟨_, ht, declared, hm, hp, ?_⟩
  rw [hp.order, hdeclared]
  decide

lemma classNames_repeatedSample : Scan.classNames repeatedSample.file = .ok ["p.A", "p.A"] := by
  have hs : sample.classes ++ sample.classes ⊆ sample.classes := List.append_subset.mpr ⟨fun _ h => h, fun _ h => h⟩
  have hlen : repeatedSample.file.length < 2048 := by
    rw [Container.length_file, Container.size_dataSection]
    decide +kernel
  have hd := Container.decode_file (Container.wellFormed_sample.withClasses hs)
    (Container.ordered_sample.withClasses hs).sorted (Nat.lt_trans hlen (by decide))
  exact classNames_of_decode hd (by decide)

theorem repeatedSample_in_two_batches : ∃ t,
    [("classes.dex", repeatedSample.file)].foldlM (fun table p => oneByOne.map ⟨p.1, p.2⟩ table) .empty = .ok t ∧
      oneByOne.filter.accepts "p.A" = true ∧ Scan.classNames repeatedSample.file = .ok ["p.A", "p.A"] ∧
      (¬ ∃! b, b ∈ t.batches ∧ "p.A" ∈ b.names) ∧ ∃ b ∈ t.batches, ∀ name, t.batch? name ≠ some b := by
  have ht := foldlM_single (m := oneByOne) "classes.dex" classNames_repeatedSample (by decide)
  have hchunks : DexUnseal.batches oneByOne.batchSize ["p.A", "p.A"] = [["p.A"], ["p.A"]] := by
    simp [DexUnseal.batches, oneByOne]
  rw [hchunks] at ht
  let source : DexSource := ⟨"classes.dex", repeatedSample.file⟩
  let first := oneByOne.batch source 1 ["p.A"]
  let second := oneByOne.batch source 2 ["p.A"]
  have hone : (oneByOne.add source .empty ["p.A"]).Numbered := .add .empty _
  refine ⟨_, ht, by decide, classNames_repeatedSample, fun hu => ?_, first, List.mem_cons_self, fun name hb => ?_⟩
  · have hboth : first = second :=
      hu.unique ⟨List.mem_cons_self, List.mem_cons_self⟩
        ⟨List.mem_cons_of_mem _ List.mem_cons_self, List.mem_cons_self⟩
    exact absurd (congrArg Batch.index hboth) (by decide)
  · rw [List.foldl_cons, List.foldl_cons, List.foldl_nil, batch?_add hone, batch?_add .empty] at hb
    split at hb
    · exact absurd (congrArg Batch.index (Option.some.inj hb)) (by decide)
    · cases mem_of_batch? hb

end BatchTable

end DexUnseal
