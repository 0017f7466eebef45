import DexUnseal.Proofs.ClassSource.History

/-! The dex files of an archive in the order of their numbers, which is all that decides what a class comes from. -/

namespace DexUnseal

open Dex
open Archive (DexEntry.index? DexEntry.spelling Entry)

namespace Archive

variable {a b : Archive} {sources more : List (String × Bytes)}

def Precedes (x y : String × Bytes) : Prop :=
  ∃ m n, DexEntry.index? x.1 = some m ∧ DexEntry.index? y.1 = some n ∧ m < n

structure InOrder (a : Archive) (sources : List (String × Bytes)) : Prop where
  mem_iff : ∀ file data, (file, data) ∈ sources ↔
    DexEntry.index? file ≠ none ∧ ∃ e, a.entry? file = some e ∧ e.data = data
  increasing : sources.Pairwise Precedes

/-- Whatever else the archives hold. -/
def SameDex (a b : Archive) : Prop :=
  ∀ file, DexEntry.index? file ≠ none → (a.entry? file).map (·.data) = (b.entry? file).map (·.data)

lemma Precedes.asymm {x y : String × Bytes} (h : Precedes x y) (h' : Precedes y x) : x = y := by
  obtain ⟨m, n, hm, hn, hlt⟩ := h
  obtain ⟨n', m', hn', hm', hlt'⟩ := h'
  obtain rfl := Option.some.inj (hm.symm.trans hm')
  obtain rfl := Option.some.inj (hn.symm.trans hn')
  exact absurd (UInt32.lt_trans hlt hlt') (UInt32.lt_irrefl m)

lemma nodup_of_pairwise (h : sources.Pairwise Precedes) : sources.Nodup := by
  refine h.imp ?_
  rintro x y ⟨m, n, hm, hn, hlt⟩ rfl
  obtain rfl := Option.some.inj (hm.symm.trans hn)
  exact UInt32.lt_irrefl m hlt

lemma InOrder.unique (h : a.InOrder sources) (h' : a.InOrder more) : sources = more := by
  have hmem (x : String × Bytes) : x ∈ sources ↔ x ∈ more := (h.mem_iff x.1 x.2).trans (h'.mem_iff x.1 x.2).symm
  have hperm := (List.perm_ext_iff_of_nodup (nodup_of_pairwise h.increasing) (nodup_of_pairwise h'.increasing)).mpr hmem
  exact hperm.eq_of_pairwise (fun _ _ _ _ => Precedes.asymm) h.increasing h'.increasing

lemma SameDex.inOrder (h : a.SameDex b) (hs : a.InOrder sources) : b.InOrder sources := by
  refine ⟨fun file data => (hs.mem_iff file data).trans (and_congr_right fun hn => ?_), hs.increasing⟩
  have hmap (a : Archive) : (∃ e, a.entry? file = some e ∧ e.data = data) ↔
      (a.entry? file).map (·.data) = some data := Option.map_eq_some_iff.symm
  rw [hmap, hmap, h file hn]

lemma pairwise_ne_numbered (a : Archive) : (numbered a).Pairwise fun x y => x.1 ≠ y.1 := by
  have hnames : a.toList.Pairwise fun x y => x.1 ≠ y.1 := List.pairwise_map.mp (map_fst_toList a ▸ nodup_names a)
  refine hnames.filterMap _ fun x y hxy u hu v hv huv => hxy ?_
  obtain ⟨m, hm, rfl⟩ := Option.map_eq_some_iff.mp hu
  obtain ⟨n, hn, rfl⟩ := Option.map_eq_some_iff.mp hv
  obtain rfl : m = n := huv
  exact DexEntry.index?_injective hm hn

theorem inOrder_dexEntries (a : Archive) : a.InOrder a.dexEntries := by
  have hperm := List.mergeSort_perm (numbered a) fun x y => x.1 ≤ y.1
  have hne := (hperm.pairwise_iff fun h => h.symm).mpr (pairwise_ne_numbered a)
  have hmem (x : UInt32 × String × Bytes) : x ∈ (numbered a).mergeSort (fun x y => x.1 ≤ y.1) ↔ x ∈ numbered a :=
    hperm.mem_iff
  refine ⟨fun file data => ?_, List.pairwise_map.mpr ?_⟩
  · simp only [dexEntries, List.mem_map, Prod.exists, Prod.mk.injEq, Option.ne_none_iff_exists']
    constructor
    · rintro ⟨number, _, _, hx, rfl, rfl⟩
      obtain ⟨e, he, hdata, hn⟩ := mem_numbered.mp ((hmem _).mp hx)
      exact ⟨⟨number, hn⟩, e, he, hdata⟩
    · rintro ⟨⟨number, hn⟩, e, he, hdata⟩
      exact ⟨number, file, data, (hmem _).mpr (mem_numbered.mpr ⟨e, he, hdata, hn⟩), rfl, rfl⟩
  · refine List.Pairwise.imp_of_mem ?_ ((pairwise_mergeSort_numbered a).and hne)
    rintro ⟨m, file, data⟩ ⟨n, other, otherData⟩ hx hy ⟨hle, hne⟩
    obtain ⟨-, -, -, hm⟩ := mem_numbered.mp ((hmem _).mp hx)
    obtain ⟨-, -, -, hn⟩ := mem_numbered.mp ((hmem _).mp hy)
    exact ⟨m, n, hm, hn, UInt32.lt_of_le_of_ne hle hne⟩

lemma inOrder_iff : a.InOrder sources ↔ sources = a.dexEntries :=
  ⟨fun h => h.unique (inOrder_dexEntries a), fun h => h ▸ inOrder_dexEntries a⟩

lemma SameDex.dexEntries_eq (h : a.SameDex b) : a.dexEntries = b.dexEntries :=
  inOrder_iff.mp (h.inOrder (inOrder_dexEntries a))

end Archive

namespace ClassSource

variable {a : Archive} {m : BatchMapper} {t : BatchTable} {name : String}

lemma definedBy_of_batch? {b : Batch} (ht : scan m a = .ok t) (hb : t.batch? name = some b) :
    DefinedBy a name b.source.bytes := by
  obtain ⟨declared, h⟩ := mapped_scan ht
  exact definedBy_of_firstOf (h.first b (BatchTable.mem_of_batch? hb) name (h.lists.mem_names hb))

/-- A number has one spelling, and nothing else is a number. So the dex files of an archive stand in one order, that
of their numbers; a class comes from the first of them that declares it; and neither hangs on other entries. -/
theorem mapping_order : (∀ file number, DexEntry.index? file = some number ↔
      number ≠ 0 ∧ file = DexEntry.spelling number) ∧
    (∀ file, DexEntry.index? file = none ↔ ∀ number, number ≠ 0 → file ≠ DexEntry.spelling number) ∧
    ∀ a : Archive, (∀ sources, a.InOrder sources ↔ sources = a.dexEntries) ∧
      (∀ b, a.SameDex b → a.dexEntries = b.dexEntries ∧ ∀ m, scan m a = scan m b) ∧
      ∀ m t name b, scan m a = .ok t → t.batch? name = some b → DefinedBy a name b.source.bytes := by
  refine ⟨fun file number => Archive.DexEntry.index?_iff, fun file => Archive.DexEntry.index?_eq_none_iff, fun a => ?_⟩
  refine ⟨fun sources => Archive.inOrder_iff, fun b hb => ⟨hb.dexEntries_eq, fun m => ?_⟩, fun m t name b => ?_⟩
  · rw [scan, hb.dexEntries_eq, scan]
  · exact definedBy_of_batch?

open Container (sample)
open BatchTable (repeatedSample oneByOne)

/-- By their names the two dex files would come the other way round. -/
def twoDex : Archive :=
  (Archive.empty.insert "classes10.dex" ⟨repeatedSample.file, none⟩).insert "classes2.dex" ⟨sample.file, none⟩

def twoDexSources : List (String × Bytes) :=
  [("classes2.dex", sample.file), ("classes10.dex", repeatedSample.file)]

lemma index?_classes2 : DexEntry.index? "classes2.dex" = some 2 := by decide +kernel

lemma index?_classes10 : DexEntry.index? "classes10.dex" = some 10 := by decide +kernel

lemma index?_resources : DexEntry.index? "resources.arsc" = none := by decide +kernel

lemma inOrder_twoDex : twoDex.InOrder twoDexSources := by
  refine ⟨fun file data => ?_, List.pairwise_pair.mpr ⟨2, 10, index?_classes2, index?_classes10, by decide⟩⟩
  have hempty : Archive.empty.entry? file = none := Std.TreeMap.getElem?_emptyc
  rw [twoDex, Archive.entry?_insert, Archive.entry?_insert, hempty, twoDexSources, List.mem_pair]
  constructor
  · rintro (h | h)
    · obtain ⟨rfl, rfl⟩ := Prod.mk.inj h
      exact ⟨index?_classes2 ▸ Option.some_ne_none 2, _, if_pos rfl, rfl⟩
    · obtain ⟨rfl, rfl⟩ := Prod.mk.inj h
      exact ⟨index?_classes10 ▸ Option.some_ne_none 10, _, if_neg (by decide), rfl⟩
  · rintro ⟨-, e, he, rfl⟩
    split at he
    · rename_i hfile
      exact .inl (Prod.ext hfile.symm (congrArg Entry.data (Option.some.inj he).symm))
    · split at he
      · rename_i hfile
        exact .inr (Prod.ext hfile.symm (congrArg Entry.data (Option.some.inj he).symm))
      · cases he

theorem mapping_order_sample : twoDex.InOrder twoDexSources ∧ twoDexSources = twoDex.dexEntries ∧
    twoDex.SameDex (twoDex.insert "resources.arsc" ⟨[], none⟩) ∧
    twoDex.dexEntries = Archive.dexEntries (twoDex.insert "resources.arsc" ⟨[], none⟩) ∧
    ∃ t b, scan oneByOne twoDex = .ok t ∧ t.batch? "p.A" = some b ∧ DefinedBy twoDex "p.A" b.source.bytes := by
  obtain ⟨-, -, h⟩ := mapping_order
  obtain ⟨horder, hsame, hfirst⟩ := h twoDex
  have he := (horder twoDexSources).mp inOrder_twoDex
  have hother : twoDex.SameDex (twoDex.insert "resources.arsc" ⟨[], none⟩) := by
    intro file hn
    have hfile : "resources.arsc" ≠ file := fun hfile => hn (hfile ▸ index?_resources)
    rw [Archive.entry?_insert, if_neg hfile]
  have hscans : ∀ p ∈ twoDexSources, ∃ names, Scan.classNames p.2 = .ok names :=
    List.forall_mem_cons.mpr ⟨⟨_, classNames_sample⟩,
      List.forall_mem_singleton.mpr ⟨_, BatchTable.classNames_repeatedSample⟩⟩
  obtain ⟨t, ht⟩ := BatchTable.exists_foldlM (m := oneByOne) hscans .empty
  have hscan : scan oneByOne twoDex = .ok t := by
    rw [scan, ← he]
    exact ht
  obtain ⟨declared, hmapped⟩ := mapped_scan hscan
  have hmem : ("classes2.dex", sample.file) ∈ twoDex.dexEntries := by
    rw [← he]
    exact List.mem_cons_self
  have hlisted : "p.A" ∈ t.listed :=
    hmapped.mem_listed.mpr ⟨by decide, _, hmem, _, classNames_sample, List.mem_cons_self⟩
  obtain ⟨b, hb⟩ := hmapped.lists.leads hlisted
  exact ⟨inOrder_twoDex, he, hother, (hsame _ hother).1, t, b, hscan, hb, hfirst oneByOne t "p.A" b hscan hb⟩

end ClassSource

end DexUnseal
