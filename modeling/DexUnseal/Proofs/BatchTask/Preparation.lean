import DexUnseal.Proofs.BatchTask
import DexUnseal.Proofs.Cache.Layout
import DexUnseal.Proofs.ClassSource

/-! What a batch does to the files before its loader is called, and what the loader finds. -/

namespace DexUnseal

open Dex

variable {files files' : FileTree}

namespace Filing

variable {places : List Location} {below : Location} {p : Path}

lemma keeps_write (hp : p.location ∈ places) (bytes : Bytes) : Keeps (FileTree.Frame places below) (write p bytes) :=
  keeps_change .refl fun _ _ h => FileTree.frame_of_write hp h

lemma keeps_removeIfPresent (hp : p.location ∈ places) : Keeps (FileTree.Frame places below) (removeIfPresent p) := by
  refine keeps_change .refl fun files files' h => ?_
  have hremoved : removeIfPresent p files = (.ok (), files') := filing_change_ok.mpr h
  obtain rfl | hr := removeIfPresent_ok hremoved
  · exact .refl files'
  · exact FileTree.frame_of_remove hp hr

lemma node?_of_removeIfPresent (h : removeIfPresent p files = (.ok (), files')) : files'.node? p.location = none := by
  rw [removeIfPresent, filing_change_ok] at h
  cases hr : files.remove p with
  | ok removed =>
    obtain rfl : removed = files' := by simpa [hr, Pure.pure, Except.pure] using h
    obtain ⟨hp, rfl⟩ := FileTree.remove_ok hr
    exact FileTree.node?_erase_self files hp
  | error fault =>
    simp only [hr] at h
    split at h
    · obtain rfl := Except.ok.inj h
      exact FileTree.node?_of_remove_notFound hr ‹_›
    · cases h

end Filing

namespace Cache.Entry

variable {e : Entry} {dex : Bytes}

def Frame (e : Entry) : FileTree → FileTree → Prop :=
  FileTree.Frame [e.source.location, e.optimized.location] e.source.location.dropLast

/-- What a loader is promised: the source is an archive of the dex file alone, stored as it is, and there is no
optimized file. -/
structure Ready (e : Entry) (dex : Bytes) (files : FileTree) : Prop where
  source : ∃ image, files.read e.source = .ok image ∧
    (Archive.empty.insert dexName ⟨dex, some .stored⟩).encode = .ok image
  load : 44 + dex.length < UInt32.size →
    Archive.load e.source files = (.ok (Archive.empty.insert dexName ⟨dex, some .stored⟩), files)
  optimized : files.exists? e.optimized = false

lemma keeps_store (e : Entry) (dex : Bytes) : Filing.Keeps e.Frame (e.store dex) := by
  have hsave (a : Archive) : Filing.Keeps e.Frame (a.save e.source) :=
    Filing.Keeps.bind FileTree.Frame.trans (Filing.keeps_createDirectories _).adapt fun _ =>
      Filing.Keeps.bind FileTree.Frame.trans (Filing.keeps_given .refl _) fun bytes =>
        (Filing.keeps_write List.mem_cons_self bytes).adapt
  exact Filing.Keeps.bind FileTree.Frame.trans (Filing.keeps_given .refl _) fun a =>
    Filing.Keeps.bind FileTree.Frame.trans (hsave a).adapt fun _ =>
      (Filing.keeps_removeIfPresent (List.mem_cons_of_mem _ List.mem_cons_self)).adapt

lemma ready_of_store (hne : e.source.location ≠ e.optimized.location) (h : e.store dex files = (.ok (), files')) :
    e.Ready dex files' := by
  obtain ⟨hl, files₁, files₂, -, hwrite, hremove⟩ := store_ok_iff.mp h
  have hread : files'.read e.source = .ok (Archive.dexFile dex) := by
    have hread₂ := FileTree.read_of_write hwrite
    obtain rfl | hr := Filing.removeIfPresent_ok hremove
    · exact hread₂
    · obtain ⟨-, rfl⟩ := FileTree.remove_ok hr
      rw [FileTree.read_ok] at hread₂ ⊢
      rwa [FileTree.node?_erase_of_ne files₂ hne]
  refine ⟨⟨_, hread, Archive.encode_ofDex.mpr ⟨hl, rfl⟩⟩, fun hlen => ?_, ?_⟩
  · exact Archive.readFile_ok.mpr ⟨_, hread, Archive.decode_dexFile rfl hlen, rfl⟩
  · rw [FileTree.exists?, Filing.node?_of_removeIfPresent hremove]
    rfl

end Cache.Entry

lemma ClassFile.isSome_resolve?_iff {c : Container} {name : String} :
    (resolve? c name).isSome = true ↔ ∃ d ∈ c.classes, d.dottedName = name := by
  rw [resolve?, Option.isSome_map, List.find?_isSome]
  simp only [List.mem_reverse, decide_eq_true_eq]

namespace BatchTask

/-- A batch that cannot be opened leaves everything as it is. Any other is written first, which changes its two files
at most and makes the directories above them. If that fails the loader is not called; otherwise it is called once, it
finds the files as it may expect them, and the batch ends as its loader does. -/
theorem run_prepared (t : BatchTask) (w : Workspace) :
    (∀ fault, t.opened = .error fault → t.run w = (.failure (.dex fault), w)) ∧
      ∀ dex, t.opened = .ok dex →
        (∃ files, t.entry.Frame w.files files ∧ ((∃ failure, t.run w = (.failure failure, ⟨files, w.loads⟩)) ∨
          t.entry.Ready dex files ∧ t.run w = ((t.loader t.entry files).1,
            ⟨(t.loader t.entry files).2, w.loads ++ [⟨t.entry.source, true, false⟩]⟩))) ∧
        (t.loader = .decoding → ∀ loaded w', t.run w = (.value loaded, w') →
          w'.files.read t.entry.optimized = .ok dex ∧ ∃ c, Container.decode t.source.bytes = .ok c ∧
            ∀ name, (loaded.resolve? name).isSome = true ↔
              ∃ d ∈ (Unsealing.container (c.select t.descriptors)).classes, d.dottedName = name) := by
  refine ⟨fun fault h => by simp only [run, h]; rfl, fun dex ho => ⟨?_, fun hl loaded w' h => ?_⟩⟩
  · have hframe := Cache.Entry.keeps_store t.entry dex w.files
    rw [run_of_opened ho]
    rcases hs : t.entry.store dex w.files with ⟨failure | _, files⟩
    · rw [hs] at hframe
      exact ⟨files, hframe, .inl ⟨failure, rfl⟩⟩
    · rw [hs] at hframe
      have hready : t.entry.Ready dex files :=
        Cache.Entry.ready_of_store (Cache.Layout.location_source_ne_optimized t.layout t.index) hs
      have hsource : files.exists? t.entry.source = true := by
        obtain ⟨image, hread, -⟩ := hready.source
        rw [FileTree.exists?, (FileTree.read_ok.mp hread).2]
        rfl
      refine ⟨files, hframe, .inr ⟨hready, ?_⟩⟩
      simp only [Workspace.load, hsource, hready.optimized]
  · obtain ⟨hread, c, hc, rfl⟩ := run_decoding hl ho h
    exact ⟨hread, c, hc, fun name => ClassFile.isSome_resolve?_iff⟩

def sampleTask : BatchTask :=
  ClassSource.sampleSource.mapper.task ⟨Cache.Entry.dexName, Container.sample.file⟩ 1 ["Lp/A;"]

def emptyTask : BatchTask := { sampleTask with source := ⟨Cache.Entry.dexName, []⟩ }

lemma opened_sampleTask : sampleTask.opened = .ok Container.openedSample.file :=
  opened_eq Container.decode_file_sample (Container.ordered_sample.withClasses (List.filter_subset_self _))
    (Nat.lt_trans Container.length_file_openedSample (by decide))

theorem run_prepared_sample : ∃ files loaded w', sampleTask.entry.Ready Container.openedSample.file files ∧
    sampleTask.run ⟨ClassSource.sampleFiles, []⟩ = (.value loaded, w') ∧
      w'.loads = [⟨sampleTask.entry.source, true, false⟩] ∧
        w'.files.read sampleTask.entry.optimized = .ok Container.openedSample.file ∧
          ∃ fault, emptyTask.run w' = (.failure (.dex fault), w') := by
  obtain ⟨w', hrun⟩ := ClassSource.run_sample
  have hrun : sampleTask.run ⟨ClassSource.sampleFiles, []⟩ = _ := hrun
  obtain ⟨⟨files, -, hend⟩, hloaded⟩ :=
    (run_prepared sampleTask ⟨ClassSource.sampleFiles, []⟩).2 _ opened_sampleTask
  obtain ⟨failure, hfailed⟩ | ⟨hready, hended⟩ := hend
  · cases (Prod.mk.inj (hrun.symm.trans hfailed)).1
  · refine ⟨files, _, w', hready, hrun, ?_, (hloaded rfl _ w' hrun).1, _, (run_prepared emptyTask w').1 _ rfl⟩
    rw [(Prod.mk.inj (hrun.symm.trans hended)).2]
    rfl

end BatchTask

end DexUnseal
