import DexUnseal.Proofs.Archive.DexEntry
import DexUnseal.Proofs.BatchTable.Assignment
import DexUnseal.Proofs.ClassName
import DexUnseal.Proofs.ClassSource

/-! A class that the archive defines first in a dex file in good order is served, whatever the batches and
whatever was asked for before. -/

namespace DexUnseal

open Dex
open Archive (DexEntry.index?)

/-- A dex file whose classes can be told apart by their dotted names and stored again. -/
structure Servable (dex : Bytes) (c : Container) : Prop where
  decode : Container.decode dex = .ok c
  distinct : (c.classes.map (·.descriptor)).Nodup
  slashed : ∀ d ∈ c.classes, '.' ∉ d.descriptor.toList
  ordered : c.Ordered
  fits : ∀ descriptors, (Unsealing.container (c.select descriptors)).file.length < UInt32.size

variable {dex dex' : Bytes} {c c' : Container} {d d' : ClassDef} {name : String} {names : List String}
  {a : Archive}

def descriptors (names : List String) : List String :=
  names.map fun name => (ClassName.ofDotted name).descriptor

def stored (c : Container) (names : List String) : Container := Unsealing.container (c.select (descriptors names))

/-- In its archive 44 bytes come before the dex file, and the offset fields there have 32 bits. -/
def Roomy (c : Container) (names : List String) : Prop := 44 + (stored c names).file.length < UInt32.size

structure Fate (c : Container) (names : List String) (outcome : Outcome Loaded) : Prop where
  loaded : Roomy c names → ∃ x, outcome = .value x
  lost : ¬ Roomy c names → ∃ failure, outcome = .failure failure

lemma Servable.descriptor_dottedName (h : Servable dex c) (hs : Scan.classNames dex = .ok names)
    (hd : d ∈ c.classes) : (ClassName.ofDotted d.dottedName).descriptor = d.descriptor :=
  (descriptor_dottedName_iff h.decode hs hd).mpr (h.slashed d hd)

lemma Servable.eq_of_dottedName (h : Servable dex c) (hs : Scan.classNames dex = .ok names) (hd : d ∈ c.classes)
    (hd' : d' ∈ c.classes) (he : d.dottedName = d'.dottedName) : d = d' := by
  have hdescriptor : d.descriptor = d'.descriptor := by
    rw [← h.descriptor_dottedName hs hd, ← h.descriptor_dottedName hs hd', he]
  exact List.inj_on_of_nodup_map h.distinct hd hd' hdescriptor

lemma Servable.exists_class (h : Servable dex c) (hd : Declares dex name) :
    ∃ d ∈ c.classes, d.dottedName = name := by
  obtain ⟨names, hs, hname⟩ := hd
  obtain rfl := eq_of_classNames h.decode hs
  exact List.mem_map.mp hname

lemma Servable.resolve (h : Servable dex c) (hs : Scan.classNames dex = .ok names) (hd : d ∈ c.classes)
    {listed : List String} (hl : d.dottedName ∈ listed) :
    ∃ f, (Loaded.ofContainer (stored c listed)).resolve? d.dottedName = some f ∧
      f.definition = Unsealing.classDef (Unsealing.InnerClassKeys.ofPools? c.pools) d := by
  have hselected : d ∈ (c.select (descriptors listed)).classes := by
    refine List.mem_filter.mpr ⟨hd, decide_eq_true ?_⟩
    rw [← h.descriptor_dottedName hs hd]
    exact List.mem_map_of_mem hl
  obtain ⟨d₁, hfind⟩ : ∃ d₁,
      (stored c listed).classes.reverse.find? (fun e => e.dottedName = d.dottedName) = some d₁ := by
    rw [← Option.isSome_iff_exists, List.find?_isSome]
    exact ⟨_, List.mem_reverse.mpr (List.mem_map_of_mem hselected), decide_eq_true rfl⟩
  have hname : d₁.dottedName = d.dottedName := by simpa using List.find?_some hfind
  obtain ⟨d₀, hd₀, rfl⟩ := List.mem_map.mp (List.mem_reverse.mp (List.mem_of_find?_eq_some hfind))
  obtain rfl := h.eq_of_dottedName hs (List.mem_filter.mp hd₀).1 hd hname
  exact ⟨_, Option.map_eq_some_iff.mpr ⟨_, hfind, rfl⟩, rfl⟩

lemma DefinedBy.declares (h : DefinedBy a name dex) : Declares dex name := by
  obtain ⟨_, _, _, -, -, -, hd, -⟩ := h
  exact hd

lemma DefinedBy.exists_entry (h : DefinedBy a name dex) : ∃ p ∈ a.dexEntries, Declares p.2 name := by
  obtain ⟨file, entry, number, he, rfl, hn, hd, -⟩ := h
  refine ⟨(file, entry.data), List.mem_map.mpr ⟨(number, file, entry.data), ?_, rfl⟩, hd⟩
  exact List.mem_mergeSort.mpr (mem_numbered.mpr ⟨entry, he, rfl, hn⟩)

lemma DefinedBy.unique (h : DefinedBy a name dex) (h' : DefinedBy a name dex') : dex = dex' := by
  obtain ⟨file, entry, number, he, rfl, hn, hd, hfirst⟩ := h
  obtain ⟨file', entry', number', he', rfl, hn', hd', hfirst'⟩ := h'
  have hnumber := UInt32.le_antisymm (hfirst file' entry' number' he' hn' hd') (hfirst' file entry number he hn hd)
  subst hnumber
  obtain rfl := Archive.DexEntry.index?_injective hn hn'
  rw [Option.some.inj (he.symm.trans he')]

def BatchTask.Filed (t : BatchTask) (files : FileTree) : Prop :=
  ∀ dex, t.opened = .ok dex → ∃ files' bytes files'', t.entry.store dex files = (.ok (), files') ∧
    files'.read t.entry.source = .ok bytes ∧ files'.write t.entry.optimized dex = .ok files''

def Batch.task (b : Batch) (m : BatchMapper) : BatchTask := m.task b.source b.index (descriptors b.names)

lemma Servable.fate {b : Batch} {m : BatchMapper} {w : Workspace} (h : Servable b.source.bytes c)
    (hl : m.loader = .decoding) (hf : (b.task m).Filed w.files) :
    Fate c b.names (.ofEnding ((b.task m).run w).1) := by
  have ho : (c.select (descriptors b.names)).Ordered := h.ordered.withClasses (List.filter_subset_self _)
  have hsize := h.fits (descriptors b.names)
  obtain ⟨files', bytes, files'', hstore, hread, hwrite⟩ := hf _ (BatchTask.opened_eq h.decode ho hsize)
  obtain rfl := Cache.Entry.read_of_store hstore hread
  refine ⟨fun hroomy => ?_, fun hroomy => ?_⟩
  · obtain ⟨w', hrun⟩ := BatchTask.run_eq (t := b.task m) hl h.decode ho hroomy ⟨hstore, hread, files'', hwrite⟩
    rw [hrun]
    exact ⟨_, rfl⟩
  · obtain ⟨failure, w', hrun⟩ := BatchTask.run_overlong (t := b.task m) hl h.decode ho hsize (Nat.le_of_not_lt hroomy)
      ⟨hstore, hread, files'', hwrite⟩
    rw [hrun]
    exact ⟨failure, rfl⟩

namespace BatchTable

variable {t t' : BatchTable} {m : BatchMapper} {sources : List (String × Bytes)} {b : Batch} {w w' : Workspace}
  {loaded : Outcome Loaded}

/-- Names that the table holds lead to batches that list them, and work that was done on them came to what it has to. -/
structure Complete (t : BatchTable) (m : BatchMapper) : Prop where
  leads : ∀ name, t.contains name = true → ∃ b, t.batch? name = some b
  listed : ∀ name b, t.batch? name = some b → name ∈ b.names
  job : ∀ b ∈ t.batches, b.holder.job = (b.task m).run
  kept : ∀ b ∈ t.batches, ∀ c outcome, Servable b.source.bytes c → b.holder.outcome? = some outcome →
    Fate c b.names outcome

lemma Mapped.complete {declared : List (List String)} (h : t.Mapped m sources declared) : t.Complete m := by
  refine ⟨fun name hname => h.lists.leads ((h.lists.contains name).mp hname), fun name b hb => h.lists.mem_names hb,
    fun b hb => ?_, fun b hb c outcome hc ho => ?_⟩
  · rw [h.made b hb]
    rfl
  · rw [h.made b hb] at ho
    cases ho

lemma Complete.setHolder (h : t.Complete m) (hn : t.Numbered) (hb : b ∈ t.batches) {holder : Holder Workspace Loaded}
    (hj : holder.job = (b.task m).run)
    (hk : ∀ c outcome, Servable b.source.bytes c → holder.outcome? = some outcome → Fate c b.names outcome) :
    (t.setHolder b.index holder).Complete m := by
  refine ⟨fun name hname => ?_, fun name b₁ hb₁ => ?_, fun b₁ hb₁ => ?_, fun b₁ hb₁ c outcome hc ho => ?_⟩
  · obtain ⟨b₀, hb₀⟩ := h.leads name hname
    exact ⟨_, by rw [batch?_setHolder, hb₀, Option.map_some]⟩
  · rw [batch?_setHolder] at hb₁
    obtain ⟨b₀, hb₀, rfl⟩ := Option.map_eq_some_iff.mp hb₁
    have hlisted := h.listed name b₀ hb₀
    split <;> exact hlisted
  · obtain ⟨b₀, hb₀, rfl⟩ := mem_setHolder hb₁
    split
    · rename_i hi
      rw [hn.eq_of_index hb₀ hb hi]
      exact hj
    · exact h.job b₀ hb₀
  · obtain ⟨b₀, hb₀, rfl⟩ := mem_setHolder hb₁
    split at hc
    · rename_i hi
      rw [if_pos hi] at ho ⊢
      obtain rfl := hn.eq_of_index hb₀ hb hi
      exact hk c outcome hc ho
    · rename_i hi
      rw [if_neg hi] at ho ⊢
      exact h.kept b₀ hb₀ c outcome hc ho

lemma Complete.materialize (h : t.Complete m) (hn : t.Numbered) (hl : m.loader = .decoding) (hb : b ∈ t.batches)
    (hf : b.holder.outcome? = none → (b.task m).Filed w.files) (hm : t.materialize b w = ((loaded, t'), w')) :
    (∀ c, Servable b.source.bytes c → Fate c b.names loaded) ∧ t'.Complete m := by
  rcases hh : b.holder.materialize w with ⟨⟨outcome, holder⟩, w₁⟩
  simp only [BatchTable.materialize, Bind.bind, StateT.bind, hh] at hm
  cases hm
  rw [Holder.materialize] at hh
  cases ho : b.holder.outcome? with
  | some known =>
    have hk (c : Container) (hc : Servable b.source.bytes c) := h.kept b hb c known hc ho
    simp only [ho] at hh
    cases hh
    refine ⟨hk, h.setHolder hn hb (h.job b hb) fun c other hc hother => ?_⟩
    obtain rfl := Option.some.inj (ho.symm.trans hother)
    exact hk c hc
  | none =>
    rcases hrun : (b.task m).run w with ⟨ending, w₂⟩
    simp only [ho, h.job b hb, Bind.bind, StateT.bind, hrun] at hh
    cases hh
    have hk (c : Container) (hc : Servable b.source.bytes c) : Fate c b.names (.ofEnding ending) := by
      have hfate := hc.fate hl (hf ho)
      rwa [hrun] at hfate
    refine ⟨hk, h.setHolder hn hb rfl fun c other hc hother => ?_⟩
    obtain rfl := Option.some.inj hother
    exact hk c hc

def listed? (t : BatchTable) (name : String) : Option (List String) := (t.batch? name).map (·.names)

lemma listed?_setHolder (t : BatchTable) (index : Nat) (holder : Holder Workspace Loaded) (name : String) :
    (t.setHolder index holder).listed? name = t.listed? name := by
  rw [listed?, batch?_setHolder, Option.map_map, listed?]
  congr 1
  funext b
  rw [Function.comp_apply]
  split <;> rfl

lemma listed?_materialize (hm : t.materialize b w = ((loaded, t'), w')) : t'.listed? = t.listed? := by
  rcases hh : b.holder.materialize w with ⟨⟨outcome, holder⟩, w₁⟩
  simp only [BatchTable.materialize, Bind.bind, StateT.bind, hh] at hm
  cases hm
  exact funext (t.listed?_setHolder b.index holder)

lemma exists_foldlM (hs : ∀ p ∈ sources, ∃ names, Scan.classNames p.2 = .ok names) (t : BatchTable) :
    ∃ t', sources.foldlM (fun table p => m.map ⟨p.1, p.2⟩ table) t = .ok t' := by
  induction sources generalizing t with
  | nil => exact ⟨t, rfl⟩
  | cons p sources ih =>
    obtain ⟨⟨names, hnames⟩, hrest⟩ := List.forall_mem_cons.mp hs
    obtain ⟨t', ht⟩ := ih hrest _
    exact ⟨t', except_bind_ok.mpr ⟨_, except_bind_ok.mpr ⟨names, hnames, rfl⟩, ht⟩⟩

end BatchTable

namespace ClassSource

variable {s s' : ClassSource} {first : FileTree} {w w' : Workspace} {outcome outcome' : Outcome (Option ClassFile)}
  {archive : Path} {filter : ClassFilter}

/-- The source stands right, and what it has loaded so far of what can be served has been loaded. -/
structure Ready (s : ClassSource) (a : Archive) (first : FileTree) (w : Workspace) : Prop where
  archive : (Archive.loadDexEntries s.archive first).1 = .ok a
  scanned : ∀ p ∈ a.dexEntries, ∃ names, Scan.classNames p.2 = .ok names
  loader : s.mapper.loader = .decoding
  sound : s.Sound first w
  complete : ∀ t, s.table? = some t → t.Complete s.mapper
  lists : ∀ t, s.table? = some t → ∃ t₀, scan s.mapper a = .ok t₀ ∧ t.listed? = t₀.listed?

lemma Ready.table (h : s.Ready a first w) : ∃ t, s.table w.files = (.ok t, w.files) ∧
    t.Sound s.mapper.filter a.dexEntries ∧ t.Complete s.mapper ∧
      ∃ t₀, scan s.mapper a = .ok t₀ ∧ t.listed? = t₀.listed? := by
  have hfiles := readOnly_table s w.files
  suffices ∃ t, (s.table w.files).1 = .ok t ∧ t.Complete s.mapper ∧
      ∃ t₀, scan s.mapper a = .ok t₀ ∧ t.listed? = t₀.listed? by
    obtain ⟨t, ht, hc⟩ := this
    obtain ⟨a', ha', hsound⟩ := h.sound.table h.loader ht
    obtain rfl := Except.ok.inj (h.archive.symm.trans ha')
    exact ⟨t, Prod.ext ht hfiles, hsound, hc⟩
  cases ht : s.table? with
  | some t =>
    exact ⟨t, by rw [ClassSource.table, ht]; rfl, h.complete t ht, h.lists t ht⟩
  | none =>
    obtain ⟨-, hw⟩ : s.table? = none ∧ w.files = first := by
      rcases h.sound with hs | ⟨_, t, -, ht', -⟩
      · exact hs
      · rw [ht] at ht'
        cases ht'
    obtain ⟨t, hscan⟩ := BatchTable.exists_foldlM (m := s.mapper) h.scanned .empty
    obtain ⟨declared, hm⟩ := (BatchTable.Mapped.empty s.mapper).foldlM hscan
    refine ⟨t, ?_, hm.complete, t, hscan, rfl⟩
    have hload : Archive.loadDexEntries s.archive w.files = (.ok a, w.files) :=
      Prod.ext (hw ▸ h.archive) (readOnly_loadDexEntries s.archive w.files)
    rw [ClassSource.table, ht]
    exact congrArg Prod.fst (filing_bind_ok.mpr ⟨a, w.files, filing_adapt_ok.mpr hload,
      filing_given_ok.mpr ⟨except_mapError_ok.mpr hscan, rfl⟩⟩)

def Filed (s : ClassSource) (name : String) (files : FileTree) : Prop :=
  ∀ t b, s.table files = (.ok t, files) → t.batch? name = some b → b.holder.outcome? = none →
    (b.task s.mapper).Filed files

def FiledAll (s : ClassSource) : List String → Workspace → Prop
  | [], _ => True
  | name :: names, w => s.Filed name w.files ∧ (s.get name w).1.2.FiledAll names (s.get name w).2

/-- The names that a source, by its filter and the size of its batches, lists together with a name. -/
def Lists (m : BatchMapper) (a : Archive) (name : String) (listed : List String) : Prop :=
  ∃ t, scan m a = .ok t ∧ t.listed? name = some listed

lemma Lists.unique {m : BatchMapper} {listed listed' : List String} (h : Lists m a name listed)
    (h' : Lists m a name listed') : listed = listed' := by
  obtain ⟨t, ht, hl⟩ := h
  obtain ⟨t', ht', hl'⟩ := h'
  obtain rfl := Except.ok.inj (ht.symm.trans ht')
  exact Option.some.inj (hl.symm.trans hl')

/-- What is to be served for a name. As long as there is room, it depends on nothing but the archive and the filter. -/
inductive Answer (archive : Path) (m : BatchMapper) (a : Archive) (name : String) : Outcome (Option ClassDef) → Prop
  | rejected (ha : m.filter.accepts name = false) : Answer archive m a name (.value none)
  | undeclared (ha : m.filter.accepts name = true) (hd : ∀ p ∈ a.dexEntries, ¬ Declares p.2 name) :
      Answer archive m a name (.failure (.illegalState (.notFound name archive.text)))
  | served {dex : Bytes} {c : Container} {d : ClassDef} {listed : List String} (ha : m.filter.accepts name = true)
      (hdex : DefinedBy a name dex) (hc : Servable dex c) (hd : d ∈ c.classes) (hname : d.dottedName = name)
      (hl : Lists m a name listed) (hmem : name ∈ listed) (hr : Roomy c listed) :
      Answer archive m a name (.value (some (Unsealing.classDef (Unsealing.InnerClassKeys.ofPools? c.pools) d)))
  | lost {dex : Bytes} {c : Container} {listed : List String} {failure : Failure} (ha : m.filter.accepts name = true)
      (hdex : DefinedBy a name dex) (hc : Servable dex c) (hl : Lists m a name listed) (hmem : name ∈ listed)
      (hr : ¬ Roomy c listed) : Answer archive m a name (.failure failure)

lemma Ready.withTable {t : BatchTable} (h : s.Ready a first w) (hsound : { s with table? := some t }.Sound first w')
    (hc : t.Complete s.mapper) (hl : ∃ t₀, scan s.mapper a = .ok t₀ ∧ t.listed? = t₀.listed?) :
    { s with table? := some t }.Ready a first w' := by
  refine ⟨h.archive, h.scanned, h.loader, hsound, fun t' ht' => ?_, fun t' ht' => ?_⟩
  · obtain rfl := Option.some.inj ht'
    exact hc
  · obtain rfl := Option.some.inj ht'
    exact hl

lemma answer_of_fate {m : BatchMapper} {b : Batch} {loaded : Outcome Loaded} (hfate : Fate c b.names loaded)
    (hopened : ∀ x, loaded = .value x → b.Opened x) (ha : m.filter.accepts name = true)
    (hdefined : DefinedBy a name b.source.bytes) (hserve : Servable b.source.bytes c)
    (hlisted : Lists m a name b.names) (hmem : name ∈ b.names) :
    Answer archive m a name ((loaded.map fun l => l.resolve? name).map fun f => f.map (·.definition)) := by
  by_cases hroomy : Roomy c b.names
  · obtain ⟨x, rfl⟩ := hfate.loaded hroomy
    obtain ⟨c', hdecode, rfl⟩ := hopened x rfl
    obtain rfl := Except.ok.inj (hserve.decode.symm.trans hdecode)
    obtain ⟨d, hd, rfl⟩ := hserve.exists_class hdefined.declares
    obtain ⟨names, hnames, -⟩ := hdefined.declares
    obtain ⟨f, hf, hdefinition⟩ := hserve.resolve hnames hd hmem
    rw [stored, descriptors] at hf
    rw [Outcome.map, Outcome.map, hf, Option.map_some, hdefinition]
    exact .served ha hdefined hserve hd rfl hlisted hmem hroomy
  · obtain ⟨failure, rfl⟩ := hfate.lost hroomy
    exact .lost ha hdefined hserve hlisted hmem hroomy

lemma Ready.request (h : s.Ready a first w) (hf : s.Filed name w.files) (hr : s.Request name w outcome s' w') :
    s'.Ready a first w' ∧ ((∀ dex, DefinedBy a name dex → ∃ c, Servable dex c) →
      Answer s.archive s.mapper a name (outcome.map fun f => f.map (·.definition))) := by
  have hsound := h.sound.request h.loader hr
  obtain ⟨t, ht, hs, hc, hlists⟩ := h.table
  cases hr with
  | rejected ha => exact ⟨h, fun _ => .rejected ha⟩
  | failed ha ht' =>
    rw [ht] at ht'
    cases ht'
  | @absent t' ha ht' hb =>
    obtain rfl : t = t' := by
      rw [ht] at ht'
      cases ht'
      rfl
    refine ⟨h.withTable hsound hc hlists, fun _ => .undeclared ha fun p hp hd => ?_⟩
    obtain ⟨b, hb'⟩ := hc.leads name ((hs.contains name).mpr ⟨ha, p, hp, hd⟩)
    rw [hb] at hb'
    cases hb'
  | @found t₀ t' b loaded w' ha ht' hb hm =>
    obtain rfl : t = t₀ := by
      rw [ht] at ht'
      cases ht'
      rfl
    have hmem := BatchTable.mem_of_batch? hb
    obtain ⟨hfate, hc'⟩ := hc.materialize hs.serves.numbered h.loader hmem (hf t b ht hb) hm
    obtain ⟨t₀, hscan, hsame⟩ := hlists
    refine ⟨h.withTable hsound hc' ⟨t₀, hscan, (BatchTable.listed?_materialize hm).trans hsame⟩, fun hservable => ?_⟩
    have hlisted : Lists s.mapper a name b.names :=
      ⟨t₀, hscan, by rw [← hsame, BatchTable.listed?, hb, Option.map_some]⟩
    have hdefined := definedBy_of_firstOf (hs.serves.source name b hb)
    obtain ⟨c, hserve⟩ := hservable b.source.bytes hdefined
    exact answer_of_fate (hfate c hserve) (hs.materialize hmem hm).1 ha hdefined hserve hlisted (hc.listed _ b hb)

lemma Ready.after {names : List String} (h : s.Ready a first w) (hf : s.FiledAll names w)
    (ha : s.after names w = (s', w')) : s'.Ready a first w' ∧ s'.archive = s.archive ∧ s'.mapper = s.mapper := by
  induction names generalizing s w with
  | nil =>
    cases ha
    exact ⟨h, rfl, rfl⟩
  | cons name names ih =>
    have hr := request_get s name w
    obtain ⟨harchive, hmapper⟩ := hr.same
    obtain ⟨hready, harchive', hmapper'⟩ := ih (h.request hf.1 hr).1 hf.2 ha
    exact ⟨hready, harchive'.trans harchive, hmapper'.trans hmapper⟩

def RoomFor (m : BatchMapper) (a : Archive) (name : String) : Prop := ∀ dex, DefinedBy a name dex →
  ∃ c, Servable dex c ∧ ∀ listed, Lists m a name listed → Roomy c listed

lemma RoomFor.roomy {m : BatchMapper} {listed : List String} (h : RoomFor m a name) (hdex : DefinedBy a name dex)
    (hc : Servable dex c) (hl : Lists m a name listed) : Roomy c listed := by
  obtain ⟨c', hc', hroomy⟩ := h dex hdex
  rw [Except.ok.inj (hc.decode.symm.trans hc'.decode)]
  exact hroomy listed hl

lemma Answer.unique {m m' : BatchMapper} {answer answer' : Outcome (Option ClassDef)} (hm : m.filter = m'.filter)
    (hr : RoomFor m a name) (hr' : RoomFor m' a name) (h : Answer archive m a name answer)
    (h' : Answer archive m' a name answer') : answer = answer' := by
  cases h with
  | lost _ hdex hc hl _ hcrowded => exact absurd (hr.roomy hdex hc hl) hcrowded
  | rejected ha =>
    rw [hm] at ha
    cases h' with
    | lost _ hdex hc hl _ hcrowded => exact absurd (hr'.roomy hdex hc hl) hcrowded
    | rejected => rfl
    | undeclared ha' => exact absurd (ha.symm.trans ha') Bool.false_ne_true
    | served ha' => exact absurd (ha.symm.trans ha') Bool.false_ne_true
  | undeclared ha hd =>
    rw [hm] at ha
    cases h' with
    | lost _ hdex hc hl _ hcrowded => exact absurd (hr'.roomy hdex hc hl) hcrowded
    | rejected ha' => exact absurd (ha'.symm.trans ha) Bool.false_ne_true
    | undeclared => rfl
    | served _ hdex =>
      obtain ⟨p, hp, hdeclares⟩ := hdex.exists_entry
      exact absurd hdeclares (hd p hp)
  | served ha hdex hc hd hname =>
    rw [hm] at ha
    cases h' with
    | lost _ hdex' hc' hl' _ hcrowded => exact absurd (hr'.roomy hdex' hc' hl') hcrowded
    | rejected ha' => exact absurd (ha'.symm.trans ha) Bool.false_ne_true
    | undeclared _ hd' =>
      obtain ⟨p, hp, hdeclares⟩ := hdex.exists_entry
      exact absurd hdeclares (hd' p hp)
    | served _ hdex' hc' hd' hname' =>
      obtain rfl := hdex.unique hdex'
      obtain rfl := Except.ok.inj (hc.decode.symm.trans hc'.decode)
      obtain ⟨names, hscan, -⟩ := hdex.declares
      rw [hc.eq_of_dottedName hscan hd hd' (hname.trans hname'.symm)]

/-- A source over an archive, told to make its batches in some way, gives an outcome for a name after some requests. All
file operations are successful. -/
inductive Answers (archive : Path) (m : BatchMapper) (a : Archive) (name : String) :
    Outcome (Option ClassFile) → Prop
  | get {settings : Settings} {files : FileTree} {claims claims' : Cache.Claims} {source s : ClassSource}
      {w : Workspace} (loads : List LoadCall) (history : List String)
      (hs : ofSettings settings .decoding archive files claims = .ok (source, claims'))
      (hm : source.mapper = m) (ha : (Archive.loadDexEntries archive files).1 = .ok a)
      (hh : source.after history ⟨files, loads⟩ = (s, w)) (hf : source.FiledAll history ⟨files, loads⟩)
      (hl : s.Filed name w.files) : Answers archive m a name (s.get name w).1.1

lemma ready_ofSettings {settings : Settings} {files : FileTree} {claims claims' : Cache.Claims} {source : ClassSource}
    (hset : ofSettings settings .decoding archive files claims = .ok (source, claims'))
    (ha : (Archive.loadDexEntries archive files).1 = .ok a)
    (hs : ∀ p ∈ a.dexEntries, ∃ names, Scan.classNames p.2 = .ok names) (loads : List LoadCall) :
    source.Ready a files ⟨files, loads⟩ ∧ source.archive = archive := by
  obtain ⟨_, -, hset⟩ := except_bind_ok.mp hset
  obtain ⟨rfl, -⟩ := Prod.mk.inj (Except.ok.inj hset)
  exact ⟨⟨ha, hs, rfl, .inl ⟨rfl, rfl⟩, fun _ ht => (nomatch ht), fun _ ht => nomatch ht⟩, rfl⟩

lemma Answers.answer {m : BatchMapper} {outcome : Outcome (Option ClassFile)} (h : Answers archive m a name outcome)
    (hs : ∀ p ∈ a.dexEntries, ∃ names, Scan.classNames p.2 = .ok names)
    (hc : ∀ dex, DefinedBy a name dex → ∃ c, Servable dex c) :
    Answer archive m a name (outcome.map fun f => f.map (·.definition)) := by
  obtain ⟨loads, history, hset, rfl, ha, hh, hf, hl⟩ := h
  obtain ⟨hstart, harchive⟩ := ready_ofSettings hset ha hs loads
  obtain ⟨hready, harchive', hmapper⟩ := hstart.after hf hh
  have hanswer := (hready.request hl (request_get _ name _)).2 hc
  rwa [harchive', hmapper, harchive] at hanswer

lemma Answers.of_servable {m : BatchMapper} {outcome : Outcome (Option ClassFile)}
    (h : Answers archive m a name outcome) (hs : ∀ p ∈ a.dexEntries, ∃ names, Scan.classNames p.2 = .ok names)
    (ha : m.filter.accepts name = true) (hdex : DefinedBy a name dex) (hc : Servable dex c) :
    ∃ d ∈ c.classes, d.dottedName = name ∧ ∃ listed, Lists m a name listed ∧ name ∈ listed ∧
      (Roomy c listed → ∃ f, outcome = .value (some f) ∧ f.name = name ∧
        f.definition = Unsealing.classDef (Unsealing.InnerClassKeys.ofPools? c.pools) d) ∧
      (¬ Roomy c listed → ∃ failure, outcome = .failure failure) := by
  have hanswer := h.answer hs fun dex' hdex' => ⟨c, hdex.unique hdex' ▸ hc⟩
  generalize hmap : outcome.map (fun f => f.map (·.definition)) = answer at hanswer
  cases hanswer with
  | rejected ha' => exact absurd (ha'.symm.trans ha) Bool.false_ne_true
  | undeclared _ hnone =>
    obtain ⟨p, hp, hdeclares⟩ := hdex.exists_entry
    exact absurd hdeclares (hnone p hp)
  | @served dex' c' d listed _ hdex' hc' hd hname hl hmem hroomy =>
    obtain rfl := hdex.unique hdex'
    obtain rfl := Except.ok.inj (hc.decode.symm.trans hc'.decode)
    refine ⟨d, hd, hname, listed, hl, hmem, fun _ => ?_, fun hcrowded => absurd hroomy hcrowded⟩
    cases outcome with
    | value f =>
      obtain ⟨f, rfl, hf⟩ := Option.map_eq_some_iff.mp (Outcome.value.inj hmap)
      exact ⟨f, rfl, by rw [ClassFile.name, hf]; exact hname, hf⟩
    | failure fault => cases hmap
    | crash text => cases hmap
  | @lost dex' c' listed failure _ hdex' hc' hl hmem hcrowded =>
    obtain rfl := hdex.unique hdex'
    obtain rfl := Except.ok.inj (hc.decode.symm.trans hc'.decode)
    obtain ⟨d, hd, hname⟩ := hc.exists_class hdex.declares
    refine ⟨d, hd, hname, listed, hl, hmem, fun hroomy => absurd hroomy hcrowded, fun _ => ?_⟩
    cases outcome with
    | value f => cases hmap
    | failure fault => exact ⟨fault, rfl⟩
    | crash text => cases hmap

/-- Where all dex files can be scanned, a class that comes from one in good order is served, opened, if the dex file of
its batch has room in its archive, and is lost if it has not. Sources with one filter do not differ in what they serve,
however large their batches are, as long as there is room. -/
theorem get_complete (hs : ∀ p ∈ a.dexEntries, ∃ names, Scan.classNames p.2 = .ok names) :
    (∀ m name dex c outcome, m.filter.accepts name = true → DefinedBy a name dex → Servable dex c →
      Answers archive m a name outcome → ∃ d ∈ c.classes, d.dottedName = name ∧
        (∀ d' ∈ c.classes, d'.dottedName = name → d' = d) ∧ ∃ listed, Lists m a name listed ∧ name ∈ listed ∧
          (Roomy c listed → ∃ f, outcome = .value (some f) ∧ f.name = name ∧
            f.definition = Unsealing.classDef (Unsealing.InnerClassKeys.ofPools? c.pools) d) ∧
          (¬ Roomy c listed → ∃ failure, outcome = .failure failure)) ∧
    (∀ m m' name outcome outcome', m.filter = m'.filter → RoomFor m a name → RoomFor m' a name →
      Answers archive m a name outcome → Answers archive m' a name outcome' →
        outcome.map (fun f => f.map (·.definition)) = outcome'.map fun f => f.map (·.definition)) := by
  constructor
  · intro m name dex c outcome ha hdex hc h
    obtain ⟨d, hd, hname, hfate⟩ := h.of_servable hs ha hdex hc
    obtain ⟨names, hscan, -⟩ := hdex.declares
    exact ⟨d, hd, hname, fun d' hd' he => hc.eq_of_dottedName hscan hd' hd (he.trans hname.symm), hfate⟩
  · intro m m' name outcome outcome' hm hr hr' h h'
    have hc (dex : Bytes) (hd : DefinedBy a name dex) : ∃ c, Servable dex c := (hr dex hd).imp fun _ h => h.1
    exact (h.answer hs hc).unique hm hr hr' (h'.answer hs hc)

open Container (sample openedSample)

lemma length_file_select_sample (descriptors : List String) :
    (Unsealing.container (sample.select descriptors)).file.length < 1024 := by
  have hempty : (sample.withClasses []).file.length < 1024 := by
    rw [Container.length_file, Container.size_dataSection]
    decide +kernel
  by_cases h : "Lp/A;" ∈ descriptors
  · have he : sample.select descriptors = sample.select ["Lp/A;"] := by
      simp [Container.select, sample, h]
    rw [he]
    exact Container.length_file_openedSample
  · have he : Unsealing.container (sample.select descriptors) = sample.withClasses [] := by
      simp [Container.select, Unsealing.container, Container.withClasses, sample, h]
    rw [he]
    exact hempty

lemma servable_sample : Servable sample.file sample where
  decode := Container.decode_file_sample
  distinct := by decide
  slashed := by decide
  ordered := Container.ordered_sample
  fits descriptors := Nat.lt_trans (length_file_select_sample descriptors) (by decide)

lemma filed_appFiles {dex : Bytes} {c : Container} {only : String} (hc : Servable dex c)
    (hlen : 44 + dex.length < UInt32.size) (hn : Scan.classNames dex = .ok [only])
    (ha : sampleSource.mapper.filter.accepts only = true) (name : String) :
    sampleSource.Filed name (appFiles dex) := by
  intro t b ht hb _ stored ho
  obtain rfl : appTable dex only = t := by
    rw [table_appFiles hlen hn ha] at ht
    cases ht
    rfl
  obtain rfl : b = appBatch dex only := List.mem_singleton.mp (BatchTable.mem_of_batch? hb)
  have hsize := hc.fits (descriptors [only])
  have hopened := BatchTask.opened_eq (t := (appBatch dex only).task sampleSource.mapper) hc.decode
    (hc.ordered.withClasses (List.filter_subset_self _)) hsize
  obtain rfl := Except.ok.inj (hopened.symm.trans ho)
  obtain ⟨hstore, hread, files'', hwrite⟩ : BatchTask.Stores _ _ (appFiles dex) _ := stores_appFiles hsize
  exact ⟨_, _, files'', hstore, hread, hwrite⟩

lemma roomFor_sample : RoomFor sampleSource.mapper sampleArchive "p.A" := by
  intro dex hdex
  have hdefined := definedBy_appArchive ⟨_, classNames_sample, List.mem_cons_self⟩
  refine ⟨sample, hdefined.unique hdex ▸ servable_sample, fun listed _ => ?_⟩
  have hl := length_file_select_sample (descriptors listed)
  rw [Roomy, stored, UInt32.size]
  omega

theorem get_complete_sample : (∀ p ∈ sampleArchive.dexEntries, ∃ names, Scan.classNames p.2 = .ok names) ∧
    sampleSource.mapper.filter.accepts "p.A" = true ∧ DefinedBy sampleArchive "p.A" sample.file ∧
    Servable sample.file sample ∧ RoomFor sampleSource.mapper sampleArchive "p.A" ∧ ∃ outcome outcome',
      Answers ⟨"/app.apk"⟩ sampleSource.mapper sampleArchive "p.A" outcome ∧
      Answers ⟨"/app.apk"⟩ sampleSource.mapper sampleArchive "p.A" outcome' ∧
      (∃ d ∈ sample.classes, ∃ f, outcome = .value (some f) ∧ f.name = "p.A" ∧
        f.definition = Unsealing.classDef (Unsealing.InnerClassKeys.ofPools? sample.pools) d) ∧
      outcome.map (fun f => f.map (·.definition)) = outcome'.map fun f => f.map (·.definition) := by
  have hdefined : DefinedBy sampleArchive "p.A" sample.file :=
    definedBy_appArchive ⟨_, classNames_sample, List.mem_cons_self⟩
  have hscannable := scannable_appArchive classNames_sample
  have hload := congrArg Prod.fst (loadDexEntries_appFiles overhead_sample)
  have hfiled := filed_appFiles servable_sample overhead_sample classNames_sample (by decide)
  have hsooner : Answers ⟨"/app.apk"⟩ sampleSource.mapper sampleArchive "p.A" _ :=
    .get [] [] (ofSettings_appFiles sample.file) rfl hload rfl trivial (hfiled "p.A")
  have hlater : Answers ⟨"/app.apk"⟩ sampleSource.mapper sampleArchive "p.A" _ :=
    .get [] ["android.os.Build"] (ofSettings_appFiles sample.file) rfl hload rfl
      ⟨hfiled "android.os.Build", trivial⟩ (hfiled "p.A")
  obtain ⟨hserved, hsame⟩ := get_complete hscannable
  obtain ⟨d, hd, -, -, listed, hlists, -, hf, -⟩ :=
    hserved _ "p.A" _ _ _ (by decide) hdefined servable_sample hsooner
  refine ⟨hscannable, by decide, hdefined, servable_sample, roomFor_sample, _, _, hsooner, hlater, ?_,
    hsame _ _ "p.A" _ _ rfl roomFor_sample roomFor_sample hsooner hlater⟩
  exact ⟨d, hd, hf (roomFor_sample.roomy hdefined servable_sample hlists)⟩

end ClassSource

end DexUnseal
