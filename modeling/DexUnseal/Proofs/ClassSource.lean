import DexUnseal.ClassSource
import DexUnseal.Proofs.BatchTable
import DexUnseal.Proofs.Dex.Scan

/-! A class that is served is the one of the first dex file that declares it, opened. -/

namespace DexUnseal

open Dex
open Archive (DexEntry.index?)

variable {a : Archive} {name : String}

/-- The dex file of an archive that a class comes from: of those that declare it the one of the lowest
number. -/
def DefinedBy (a : Archive) (name : String) (dex : Bytes) : Prop :=
  ∃ file entry number, a.entry? file = some entry ∧ entry.data = dex ∧ DexEntry.index? file = some number ∧
    Declares dex name ∧ ∀ other otherEntry otherNumber, a.entry? other = some otherEntry →
      DexEntry.index? other = some otherNumber → Declares otherEntry.data name → number ≤ otherNumber

def numbered (a : Archive) : List (UInt32 × String × Bytes) :=
  a.toList.filterMap fun (name, entry) => (DexEntry.index? name).map fun number => (number, name, entry.data)

lemma mem_numbered {number : UInt32} {file : String} {data : Bytes} : (number, file, data) ∈ numbered a ↔
    ∃ entry, a.entry? file = some entry ∧ entry.data = data ∧ DexEntry.index? file = some number := by
  simp only [numbered, List.mem_filterMap, Option.map_eq_some_iff, Prod.exists, Prod.mk.injEq, Archive.toList,
    Std.TreeMap.mem_toList_iff_getElem?_eq_some, Archive.entry?]
  constructor
  · rintro ⟨_, entry, he, _, hn, rfl, rfl, rfl⟩
    exact ⟨entry, he, rfl, hn⟩
  · rintro ⟨entry, he, rfl, hn⟩
    exact ⟨file, entry, he, number, hn, rfl, rfl, rfl⟩

lemma pairwise_mergeSort_numbered (a : Archive) :
    ((numbered a).mergeSort fun x y => x.1 ≤ y.1).Pairwise fun x y => x.1 ≤ y.1 := by
  have htrans (x y z : UInt32 × String × Bytes) (hxy : decide (x.1 ≤ y.1) = true) (hyz : decide (y.1 ≤ z.1) = true) :
      decide (x.1 ≤ z.1) = true :=
    decide_eq_true (UInt32.le_trans (of_decide_eq_true hxy) (of_decide_eq_true hyz))
  have htotal (x y : UInt32 × String × Bytes) : (decide (x.1 ≤ y.1) || decide (y.1 ≤ x.1)) = true := by
    simpa using UInt32.le_total x.1 y.1
  simpa using List.pairwise_mergeSort htrans htotal (numbered a)

lemma definedBy_of_firstOf {source : DexSource} (h : FirstOf a.dexEntries name source) :
    DefinedBy a name source.bytes := by
  obtain ⟨before, after, hsplit, hd, hbefore⟩ := h
  have hperm := List.mergeSort_perm (numbered a) fun x y => x.1 ≤ y.1
  have hsorted := pairwise_mergeSort_numbered a
  obtain ⟨front, rest, hfr, rfl, hrest⟩ := List.map_eq_append_iff.mp hsplit
  obtain ⟨⟨number, file, data⟩, back, rfl, hx, rfl⟩ := List.map_eq_cons_iff.mp hrest
  obtain ⟨rfl, rfl⟩ := Prod.mk.inj hx
  change (numbered a).mergeSort (fun x y => x.1 ≤ y.1) = _ at hfr
  have hmem (x : UInt32 × String × Bytes) :
      x ∈ numbered a ↔ x ∈ front ++ (number, source.name, source.bytes) :: back := by
    rw [← hfr, hperm.mem_iff]
  obtain ⟨entry, he, hdata, hn⟩ := mem_numbered.mp ((hmem _).mpr (List.mem_append_right front List.mem_cons_self))
  refine ⟨source.name, entry, number, he, hdata, hn, hd, fun other otherEntry otherNumber ho hon hdeclares => ?_⟩
  rw [hfr] at hsorted
  have hother := (hmem _).mp (mem_numbered.mpr ⟨otherEntry, ho, rfl, hon⟩)
  rcases List.mem_append.mp hother with hf | hb
  · exact absurd hdeclares (hbefore (other, otherEntry.data) (List.mem_map.mpr ⟨_, hf, rfl⟩))
  · rcases List.mem_cons.mp hb with hx | hb
    · obtain ⟨rfl, -⟩ := Prod.mk.inj hx
      exact UInt32.le_refl _
    · exact (List.pairwise_cons.mp (List.pairwise_append.mp hsorted).2.1).1 _ hb

/-- A class file is the image of a class of its name in the dex file that the name comes from, and differs
from it by final flags alone. -/
structure ClassFile.OpenedFrom (f : ClassFile) (a : Archive) (name : String) : Prop where
  name_eq : f.name = name
  image : ∃ dex c d, DefinedBy a name dex ∧ Container.decode dex = .ok c ∧ d ∈ c.classes ∧ d.dottedName = name ∧
    f.container.pools = c.pools ∧ f.definition = Unsealing.classDef (Unsealing.InnerClassKeys.ofPools? c.pools) d ∧
    Unsealing.Opened c.pools d f.definition

structure ClassFile.Unsealed (f : ClassFile) : Prop where
  flags : f.definition.flags.isFinal = false
  methods : ∀ m ∈ f.definition.methods, m.flags.isFinal = false
  innerClass : ∀ v, f.innerClassFlags? = some v → v &&& 0x10 = 0

lemma ClassFile.OpenedFrom.unsealed {f : ClassFile} (h : f.OpenedFrom a name) : f.Unsealed := by
  obtain ⟨dex, c, d, -, -, -, -, hp, hd, -⟩ := h.image
  refine ⟨?_, fun m hm => ?_, fun v hv => ?_⟩
  · rw [hd]
    exact Unsealing.isFinal_withoutFinal d.flags
  · rw [hd, Unsealing.methods_classDef] at hm
    obtain ⟨m₀, -, rfl⟩ := List.mem_map.mp hm
    exact Unsealing.isFinal_withoutFinal m₀.flags
  · exact Unsealing.innerClassFlags?_opened (c := d) (by rw [hp, hd]) hv

lemma Batch.Opened.resolve {b : Batch} {loaded : Loaded} {f : ClassFile} (h : b.Opened loaded)
    (hb : FirstOf a.dexEntries name b.source) (hf : loaded.resolve? name = some f) : f.OpenedFrom a name := by
  obtain ⟨c, hc, rfl⟩ := h
  obtain ⟨d', hd', rfl⟩ := Option.map_eq_some_iff.mp hf
  have hname : d'.dottedName = name := by simpa using List.find?_some hd'
  obtain ⟨d, hd, rfl⟩ := List.mem_map.mp (List.mem_reverse.mp (List.mem_of_find?_eq_some hd'))
  exact ⟨hname, b.source.bytes, c, d, definedBy_of_firstOf hb, hc, (List.mem_filter.mp hd).1, hname, rfl, rfl,
    Unsealing.opened_classDef c.pools d⟩

namespace ClassSource

/-- Either the archive was not looked through yet and no file has changed, or the table is that of the
archive as it was at first. -/
def Sound (s : ClassSource) (first : FileTree) (w : Workspace) : Prop :=
  (s.table? = none ∧ w.files = first) ∨ ∃ a t, (Archive.loadDexEntries s.archive first).1 = .ok a ∧
    s.table? = some t ∧ t.Sound s.mapper.filter a.dexEntries

variable {s s' : ClassSource} {first : FileTree} {w w' : Workspace} {t t' : BatchTable}
  {outcome : Outcome (Option ClassFile)}

lemma readOnly_loadDexEntries (p : Path) : Filing.ReadOnly (Archive.loadDexEntries p) :=
  (Filing.ReadOnly.adapt (Filing.readOnly_read p)).bind fun _ => Filing.readOnly_given _

lemma readOnly_table (s : ClassSource) : Filing.ReadOnly s.table := by
  rw [table]
  split
  · exact fun _ => rfl
  · exact (Filing.ReadOnly.adapt (readOnly_loadDexEntries s.archive)).bind fun a => Filing.readOnly_given _

lemma scan_sound {m : BatchMapper} (hl : m.loader = .decoding) (h : scan m a = .ok t) :
    t.Sound m.filter a.dexEntries :=
  (BatchTable.Sound.empty m.filter).foldlM hl h

lemma Sound.table (h : s.Sound first w) (hl : s.mapper.loader = .decoding) (ht : (s.table w.files).1 = .ok t) :
    ∃ a, (Archive.loadDexEntries s.archive first).1 = .ok a ∧ t.Sound s.mapper.filter a.dexEntries := by
  rw [ClassSource.table] at ht
  rcases h with ⟨hn, hw⟩ | ⟨a, t₀, ha, hs, hsound⟩
  · simp only [hn] at ht
    obtain ⟨a, files₁, ha, hscan⟩ := filing_bind_ok.mp (Prod.ext ht rfl)
    have hload := (Prod.ext_iff.mp (filing_adapt_ok.mp ha)).1
    obtain ⟨hscan, -⟩ := filing_given_ok.mp hscan
    exact ⟨a, hw ▸ hload, scan_sound hl (except_mapError_ok.mp hscan)⟩
  · simp only [hs] at ht
    obtain rfl := Except.ok.inj ht
    exact ⟨a, ha, hsound⟩

inductive Request (s : ClassSource) (name : String) (w : Workspace) :
    Outcome (Option ClassFile) → ClassSource → Workspace → Prop
  | rejected (ha : s.mapper.filter.accepts name = false) : Request s name w (.value none) s w
  | failed {stop : Stop Failure} (ha : s.mapper.filter.accepts name = true)
      (ht : s.table w.files = (.error stop, w.files)) : Request s name w (.ofStop stop) s w
  | absent {t : BatchTable} (ha : s.mapper.filter.accepts name = true)
      (ht : s.table w.files = (.ok t, w.files)) (hb : t.batch? name = none) :
      Request s name w (.failure (.illegalState (.notFound name s.archive.text))) { s with table? := some t } w
  | found {t t' : BatchTable} {b : Batch} {loaded : Outcome Loaded} {w' : Workspace}
      (ha : s.mapper.filter.accepts name = true) (ht : s.table w.files = (.ok t, w.files))
      (hb : t.batch? name = some b) (hm : t.materialize b w = ((loaded, t'), w')) :
      Request s name w (loaded.map fun l => l.resolve? name) { s with table? := some t' } w'

lemma get_rejected (ha : s.mapper.filter.accepts name = false) (w : Workspace) :
    s.get name w = ((.value none, s), w) := by
  rw [get, if_neg (Bool.eq_false_iff.mp ha)]
  rfl

lemma get_failed {stop : Stop Failure} (ha : s.mapper.filter.accepts name = true)
    (ht : s.table w.files = (.error stop, w.files)) : s.get name w = ((.ofStop stop, s), w) := by
  simp only [get, ha, if_true, Bind.bind, StateT.bind, Workspace.filing, ht]
  rfl

lemma get_absent (ha : s.mapper.filter.accepts name = true) (ht : s.table w.files = (.ok t, w.files))
    (hb : t.batch? name = none) : s.get name w =
      ((.failure (.illegalState (.notFound name s.archive.text)), { s with table? := some t }), w) := by
  simp only [get, ha, if_true, Bind.bind, StateT.bind, Workspace.filing, ht, hb]
  rfl

lemma get_found {b : Batch} {loaded : Outcome Loaded} (ha : s.mapper.filter.accepts name = true)
    (ht : s.table w.files = (.ok t, w.files)) (hb : t.batch? name = some b)
    (hm : t.materialize b w = ((loaded, t'), w')) :
    s.get name w = ((loaded.map fun l => l.resolve? name, { s with table? := some t' }), w') := by
  simp only [get, ha, if_true, Bind.bind, StateT.bind, Workspace.filing, ht, hb, hm]
  rfl

lemma request_get (s : ClassSource) (name : String) (w : Workspace) :
    Request s name w (s.get name w).1.1 (s.get name w).1.2 (s.get name w).2 := by
  cases ha : s.mapper.filter.accepts name with
  | false =>
    rw [get_rejected ha]
    exact .rejected ha
  | true =>
    have hfiles := readOnly_table s w.files
    rcases ht : s.table w.files with ⟨stop | t, files₁⟩
    · rw [ht] at hfiles
      obtain rfl : files₁ = w.files := hfiles
      rw [get_failed ha ht]
      exact .failed ha ht
    · rw [ht] at hfiles
      obtain rfl : files₁ = w.files := hfiles
      cases hb : t.batch? name with
      | none =>
        rw [get_absent ha ht hb]
        exact .absent ha ht hb
      | some b =>
        rcases hm : t.materialize b w with ⟨⟨loaded, t'⟩, w'⟩
        rw [get_found ha ht hb hm]
        exact .found ha ht hb hm

lemma Request.same (hr : s.Request name w outcome s' w') : s'.archive = s.archive ∧ s'.mapper = s.mapper := by
  cases hr with
  | rejected => exact ⟨rfl, rfl⟩
  | failed => exact ⟨rfl, rfl⟩
  | absent => exact ⟨rfl, rfl⟩
  | found => exact ⟨rfl, rfl⟩

theorem Sound.request (h : s.Sound first w) (hl : s.mapper.loader = .decoding)
    (hr : s.Request name w outcome s' w') : s'.Sound first w' := by
  cases hr with
  | rejected => exact h
  | failed => exact h
  | @absent t ha ht hb =>
    obtain ⟨a, hload, hsound⟩ := h.table hl (Prod.ext_iff.mp ht).1
    exact .inr ⟨a, t, hload, rfl, hsound⟩
  | @found t t' b loaded w' ha ht hb hm =>
    obtain ⟨a, hload, hsound⟩ := h.table hl (Prod.ext_iff.mp ht).1
    exact .inr ⟨a, t', hload, rfl, (hsound.materialize (BatchTable.mem_of_batch? hb) hm).2⟩

theorem Sound.served {f : ClassFile} (h : s.Sound first w) (hl : s.mapper.loader = .decoding)
    (hr : s.Request name w (.value (some f)) s' w') : s.mapper.filter.accepts name = true ∧
      ∃ a, (Archive.loadDexEntries s.archive first).1 = .ok a ∧ f.OpenedFrom a name := by
  generalize ho : Outcome.value (some f) = outcome at hr
  cases hr with
  | rejected => cases ho
  | @failed stop => cases stop <;> cases ho
  | absent => cases ho
  | @found t t' b loaded w' ha ht hb hm =>
    obtain ⟨a, hload, hsound⟩ := h.table hl (Prod.ext_iff.mp ht).1
    have hvalue := (hsound.materialize (BatchTable.mem_of_batch? hb) hm).1
    refine ⟨ha, a, hload, ?_⟩
    cases loaded with
    | value x => exact (hvalue x rfl).resolve (hsound.serves.source name b hb) (Outcome.value.inj ho).symm
    | failure fault => cases ho
    | crash text => cases ho

def after (s : ClassSource) : List String → StateM Workspace ClassSource
  | [] => pure s
  | name :: names => do
    let (_, s) ← s.get name
    s.after names

lemma Sound.after {names : List String} (h : s.Sound first w) (hl : s.mapper.loader = .decoding)
    (ha : s.after names w = (s', w')) :
    s'.archive = s.archive ∧ s'.mapper = s.mapper ∧ s'.Sound first w' := by
  induction names generalizing s w with
  | nil =>
    cases ha
    exact ⟨rfl, rfl, h⟩
  | cons name names ih =>
    have hr := request_get s name w
    obtain ⟨harchive, hmapper⟩ := hr.same
    obtain ⟨harchive', hmapper', hs'⟩ := ih (h.request hl hr) (hmapper ▸ hl) ha
    exact ⟨harchive'.trans harchive, hmapper'.trans hmapper, hs'⟩

/-- Whatever was asked for before, a class that is served is the class of its name that the archive defines
first, and may be subclassed. -/
theorem get_sound {settings : Settings} {archive : Path} {files : FileTree} {loads : List LoadCall}
    {claims claims' : Cache.Claims} {source : ClassSource} {history : List String} {f : ClassFile}
    (hs : ofSettings settings .decoding archive files claims = .ok (source, claims'))
    (hh : source.after history ⟨files, loads⟩ = (s, w)) (hg : (s.get name w).1.1 = .value (some f)) :
    settings.filter.accepts name = true ∧ ∃ a, (Archive.loadDexEntries archive files).1 = .ok a ∧
      f.OpenedFrom a name ∧ f.Unsealed := by
  obtain ⟨_, -, hs⟩ := except_bind_ok.mp hs
  obtain ⟨rfl, -⟩ := Prod.mk.inj (Except.ok.inj hs)
  obtain ⟨harchive, hmapper, hsound⟩ := Sound.after (.inl ⟨rfl, rfl⟩) rfl hh
  have hr := request_get s name w
  rw [hg] at hr
  obtain ⟨haccepts, a, ha, hf⟩ := hsound.served (by rw [hmapper]) hr
  rw [hmapper] at haccepts
  rw [harchive] at ha
  exact ⟨haccepts, a, ha, hf, hf.unsealed⟩

open Container (sample openedSample)

def appFiles (dex : Bytes) : FileTree := ⟨[(["app.apk"], .file (Archive.dexFile dex))]⟩

def appArchive (dex : Bytes) : Archive := Archive.empty.insert Cache.Entry.dexName ⟨dex, some .stored⟩

def sampleFiles : FileTree := appFiles sample.file

def sampleArchive : Archive := appArchive sample.file

def sampleSettings : Settings := ⟨1, ["android."], ⟨"/cache"⟩⟩

def sampleLayout : Cache.Layout := ⟨⟨"/cache/app-629b959d21cd"⟩⟩

def sampleSource : ClassSource := ⟨⟨"/app.apk"⟩, ⟨⟨["android."]⟩, 1, sampleLayout, .decoding⟩, none⟩

def appTable (dex : Bytes) (name : String) : BatchTable :=
  sampleSource.mapper.add ⟨Cache.Entry.dexName, dex⟩ .empty [name]

def appBatch (dex : Bytes) (name : String) : Batch :=
  sampleSource.mapper.batch ⟨Cache.Entry.dexName, dex⟩ 1 [name]

def appDirectories (dex : Bytes) : FileTree :=
  ⟨[(["cache", "app-629b959d21cd"], .directory), (["cache"], .directory)] ++ (appFiles dex).nodes⟩

def appStored (dex stored : Bytes) : FileTree :=
  ⟨(["cache", "app-629b959d21cd", "classes1.zip"], .file (Archive.dexFile stored)) :: (appDirectories dex).nodes⟩

section App

variable {dex stored : Bytes}

lemma canonical_appFiles (dex : Bytes) : (appFiles dex).canonical ⟨"/app.apk"⟩ = ⟨"/app.apk"⟩ := by
  have hc : (Path.mk "/app.apk").components = [.root, .name "app.apk"] := by decide
  have hw : (appFiles dex).walk? [] [.root, .name "app.apk"] = some ["app.apk"] := by
    simp [FileTree.walk?, FileTree.node?, Path.Component.step, appFiles]
  rw [FileTree.canonical, hc, hw]
  decide

lemma ofSettings_appFiles (dex : Bytes) : ofSettings sampleSettings .decoding ⟨"/app.apk"⟩ (appFiles dex) .empty =
    .ok (sampleSource, ⟨[⟨sampleLayout.dir, 1⟩]⟩) := by
  have hkey : Cache.Layout.key ⟨"/app.apk"⟩ = "629b959d21cd" := by decide +kernel
  have hdir : Cache.Layout.baseDir (appFiles dex) ⟨"/cache"⟩ ⟨"/app.apk"⟩ = sampleLayout.dir := by
    rw [Cache.Layout.baseDir, canonical_appFiles, hkey]
    decide
  have hclaim : Cache.Layout.forArchive (appFiles dex) ⟨"/cache"⟩ ⟨"/app.apk"⟩ .empty =
      (sampleLayout, ⟨[⟨sampleLayout.dir, 1⟩]⟩) := by
    rw [Cache.Layout.forArchive, hdir]
    rfl
  refine except_bind_ok.mpr ⟨(), rfl, ?_⟩
  simp only [sampleSettings, hclaim]
  rfl

lemma stores_appFiles (hl : stored.length < UInt32.size) :
    BatchTask.Stores (sampleLayout.entry 1) stored (appFiles dex) (appStored dex stored) := by
  have he : sampleLayout.entry 1 =
      ⟨⟨"/cache/app-629b959d21cd/classes1.zip"⟩, ⟨"/cache/app-629b959d21cd/classes1.zip.dex"⟩⟩ := by
    decide
  rw [he]
  exact ⟨Cache.Entry.store_ok_iff.mpr ⟨hl, appDirectories dex, appStored dex stored, rfl, rfl, rfl⟩, rfl, _, rfl⟩

lemma loadDexEntries_appFiles (hlen : 44 + dex.length < UInt32.size) :
    Archive.loadDexEntries ⟨"/app.apk"⟩ (appFiles dex) = (.ok (appArchive dex), appFiles dex) := by
  have hr : (appFiles dex).read ⟨"/app.apk"⟩ = .ok (Archive.dexFile dex) := rfl
  exact Archive.readFile_ok.mpr ⟨_, hr, Archive.decode_dexFile (by decide) hlen, rfl⟩

lemma dexEntries_appArchive (dex : Bytes) : (appArchive dex).dexEntries = [(Cache.Entry.dexName, dex)] := by
  have hi : DexEntry.index? Cache.Entry.dexName = some 1 := by decide
  have hl : (appArchive dex).toList = [(Cache.Entry.dexName, ⟨dex, some .stored⟩)] := rfl
  simp [Archive.dexEntries, hl, hi]

lemma scannable_appArchive {names : List String} (hn : Scan.classNames dex = .ok names) :
    ∀ p ∈ (appArchive dex).dexEntries, ∃ names, Scan.classNames p.2 = .ok names := by
  rw [dexEntries_appArchive]
  exact List.forall_mem_singleton.mpr ⟨_, hn⟩

lemma definedBy_appArchive (hd : Declares dex name) : DefinedBy (appArchive dex) name dex := by
  have hfirst : FirstOf (appArchive dex).dexEntries name ⟨Cache.Entry.dexName, dex⟩ :=
    ⟨[], [], dexEntries_appArchive dex, hd, fun other ho => nomatch ho⟩
  exact definedBy_of_firstOf hfirst

lemma scan_appArchive (hn : Scan.classNames dex = .ok [name])
    (ha : sampleSource.mapper.filter.accepts name = true) :
    scan sampleSource.mapper (appArchive dex) = .ok (appTable dex name) := by
  have hm : sampleSource.mapper.map ⟨Cache.Entry.dexName, dex⟩ .empty = .ok (appTable dex name) := by
    refine except_bind_ok.mpr ⟨_, hn, ?_⟩
    simp only [List.filter_cons, List.filter_nil, ha, BatchTable.contains, BatchTable.empty,
      Std.TreeMap.contains_emptyc, Bool.not_false, Bool.and_self, if_true, batches, List.take_nil, List.drop_nil]
    rfl
  rw [scan, dexEntries_appArchive]
  exact except_bind_ok.mpr ⟨_, hm, rfl⟩

lemma table_appFiles (hlen : 44 + dex.length < UInt32.size) (hn : Scan.classNames dex = .ok [name])
    (ha : sampleSource.mapper.filter.accepts name = true) :
    sampleSource.table (appFiles dex) = (.ok (appTable dex name), appFiles dex) :=
  filing_bind_ok.mpr ⟨_, appFiles dex, filing_adapt_ok.mpr (loadDexEntries_appFiles hlen),
    filing_given_ok.mpr ⟨except_mapError_ok.mpr (scan_appArchive hn ha), rfl⟩⟩

lemma batch?_appTable (dex : Bytes) (name : String) : (appTable dex name).batch? name = some (appBatch dex name) := by
  rw [appTable, BatchTable.batch?_add .empty, if_pos List.mem_cons_self]
  rfl

end App

lemma overhead_sample : 44 + sample.file.length < UInt32.size := by
  have hl := Container.length_file_sample
  rw [UInt32.size]
  omega

lemma table_sample : sampleSource.table sampleFiles = (.ok (appTable sample.file "p.A"), sampleFiles) :=
  table_appFiles overhead_sample classNames_sample (by decide)

lemma run_sample : ∃ w,
    (sampleSource.mapper.task ⟨Cache.Entry.dexName, sample.file⟩ 1 ["Lp/A;"]).run ⟨sampleFiles, []⟩ =
      (.value (.ofContainer openedSample), w) := by
  have hl := Container.length_file_openedSample
  have hlen : 44 + openedSample.file.length < UInt32.size := by
    rw [UInt32.size]
    omega
  have he : Unsealing.container (sample.select ["Lp/A;"]) = openedSample := rfl
  have hrun := BatchTask.run_eq (t := sampleSource.mapper.task ⟨Cache.Entry.dexName, sample.file⟩ 1 ["Lp/A;"])
    (w := ⟨sampleFiles, []⟩) rfl Container.decode_file_sample
    (Container.ordered_sample.withClasses (List.filter_subset_self _))
  simp only [BatchMapper.task, he] at hrun
  exact hrun hlen (stores_appFiles (Nat.lt_trans hl (by decide)))

lemma materialize_sample :
    ((appTable sample.file "p.A").materialize (appBatch sample.file "p.A") ⟨sampleFiles, []⟩).1.1 =
      .value (.ofContainer openedSample) := by
  obtain ⟨w, hrun⟩ := run_sample
  have hdescriptors : ["p.A"].map (fun name => (ClassName.ofDotted name).descriptor) = ["Lp/A;"] := by decide
  rw [← hdescriptors] at hrun
  rw [appBatch, BatchTable.materialize_batch hrun]
  rfl

lemma get_sample : ∃ f, (sampleSource.get "p.A" ⟨sampleFiles, []⟩).1.1 = .value (some f) := by
  have hloaded := materialize_sample
  rcases hm : (appTable sample.file "p.A").materialize (appBatch sample.file "p.A") ⟨sampleFiles, []⟩ with
    ⟨⟨loaded, t⟩, w⟩
  rw [hm] at hloaded
  obtain rfl : loaded = .value (.ofContainer openedSample) := hloaded
  have hg := get_found (s := sampleSource) (w := ⟨sampleFiles, []⟩) (by decide) table_sample (batch?_appTable _ _) hm
  rw [hg]
  exact ⟨_, rfl⟩

theorem get_sound_sample : ∃ f, (sampleSource.get "p.A" ⟨sampleFiles, []⟩).1.1 = .value (some f) ∧
    sampleSettings.filter.accepts "p.A" = true ∧ ∃ a, (Archive.loadDexEntries ⟨"/app.apk"⟩ sampleFiles).1 = .ok a ∧
      f.OpenedFrom a "p.A" ∧ f.Unsealed := by
  obtain ⟨f, hf⟩ := get_sample
  have hh : sampleSource.after ["android.os.Build"] ⟨sampleFiles, []⟩ = (sampleSource, ⟨sampleFiles, []⟩) := rfl
  exact ⟨f, hf, get_sound (ofSettings_appFiles sample.file) hh hf⟩

end ClassSource

end DexUnseal
