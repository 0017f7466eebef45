import DexUnseal.BatchTask
import DexUnseal.Proofs.Archive.File
import DexUnseal.Proofs.Archive.SingleEntry
import DexUnseal.Proofs.Dex.Rebuilding

/-! A batch is loaded as it was opened. -/

namespace DexUnseal

open Dex

variable {files files' : FileTree} {loaded : Loaded}

lemma Filing.removeIfPresent_ok {p : Path} (h : removeIfPresent p files = (.ok (), files')) :
    files' = files ∨ files.remove p = .ok files' := by
  rw [removeIfPresent, filing_change_ok] at h
  cases hr : files.remove p with
  | ok removed => exact .inr (by simpa [hr, Pure.pure, Except.pure] using h)
  | error fault =>
    simp only [hr] at h
    split at h
    · exact .inl (Except.ok.inj h).symm
    · cases h

namespace Cache.Entry

variable {e : Entry} {dex : Bytes}

lemma store_ok_iff : e.store dex files = (.ok (), files') ↔ dex.length < UInt32.size ∧ ∃ files₁ files₂,
    files.createDirectories e.source.location.dropLast = .ok files₁ ∧
    files₁.write e.source (Archive.dexFile dex) = .ok files₂ ∧
    Filing.removeIfPresent e.optimized files₂ = (.ok (), files') := by
  constructor
  · intro h
    obtain ⟨a, files₀, ha, hstore⟩ := filing_bind_ok.mp h
    obtain ⟨⟨⟩, files₂, hsave, hremove⟩ := filing_bind_ok.mp hstore
    rw [filing_given_ok, except_mapError_ok, Archive.replace_dexName] at ha
    obtain ⟨ha, rfl⟩ := ha
    obtain rfl := Except.ok.inj ha
    obtain ⟨image, files₁, hcreate, hencode, hwrite⟩ := Archive.saveWith_ok.mp (filing_adapt_ok.mp hsave)
    obtain ⟨hl, rfl⟩ := Archive.encode_ofDex.mp hencode
    exact ⟨hl, files₁, files₂, hcreate, hwrite, filing_adapt_ok.mp hremove⟩
  · rintro ⟨hl, files₁, files₂, hcreate, hwrite, hremove⟩
    have hsave : (Archive.ofDex dex).save e.source files = (.ok (), files₂) :=
      Archive.saveWith_ok.mpr ⟨_, files₁, hcreate, Archive.encode_ofDex.mpr ⟨hl, rfl⟩, hwrite⟩
    have ha := except_mapError_ok (g := fun fault => Failure.input (.name fault)).mpr (Archive.replace_dexName dex)
    exact filing_bind_ok.mpr ⟨_, files, filing_given_ok.mpr ⟨ha, rfl⟩,
      filing_bind_ok.mpr ⟨(), files₂, filing_adapt_ok.mpr hsave, filing_adapt_ok.mpr hremove⟩⟩

/-- The source file may be gone after all, if it was taken for the file that is cleared away, but it is
not another one. -/
lemma read_of_store (h : e.store dex files = (.ok (), files')) {bytes : Bytes} (hr : files'.read e.source = .ok bytes) :
    bytes = Archive.dexFile dex := by
  obtain ⟨-, files₁, files₂, -, hwrite, hremove⟩ := store_ok_iff.mp h
  have hr₂ : files₂.read e.source = .ok bytes := by
    rcases Filing.removeIfPresent_ok hremove with rfl | hremoved
    · exact hr
    · exact FileTree.read_of_remove hremoved hr
  rw [FileTree.read_of_write hwrite] at hr₂
  exact (Except.ok.inj hr₂).symm

end Cache.Entry

namespace Loader

lemma ofFiling_value {steps : Cache.Entry → Filing (Stop Failure) Loaded} {e : Cache.Entry} :
    ofFiling steps e files = (.value loaded, files') ↔ steps e files = (.ok loaded, files') := by
  rw [ofFiling]
  rcases steps e files with ⟨stop | x, files₁⟩
  · refine ⟨fun h => ?_, fun h => ?_⟩
    · cases stop with
      | fault failure => cases (Prod.ext_iff.mp h).1
      | crash text => cases (Prod.ext_iff.mp h).1
    · cases (Prod.ext_iff.mp h).1
  · refine ⟨fun h => ?_, fun h => ?_⟩
    · cases h
      rfl
    · cases h
      rfl

lemma decoding_value {e : Cache.Entry} (h : decoding e files = (.value loaded, files')) :
    ∃ bytes a entry c, files.read e.source = .ok bytes ∧ Archive.decode bytes = .ok a ∧
      a.entry? Cache.Entry.dexName = some entry ∧ Container.decode entry.data = .ok c ∧
        files.write e.optimized entry.data = .ok files' ∧ loaded = .ofContainer c := by
  obtain ⟨a, files₁, ha, hentry⟩ := filing_bind_ok.mp (ofFiling_value.mp h)
  obtain ⟨bytes, hr, hd, rfl⟩ := Archive.readFile_ok.mp (filing_adapt_ok.mp ha)
  cases he : a.entry? Cache.Entry.dexName with
  | none =>
    simp only [he] at hentry
    cases (Prod.ext_iff.mp hentry).1
  | some entry =>
    simp only [he] at hentry
    obtain ⟨c, files₃, hc, hloaded⟩ := filing_bind_ok.mp hentry
    obtain ⟨⟨⟩, files₄, hw, hpure⟩ := filing_bind_ok.mp hloaded
    rw [filing_given_ok, except_mapError_ok] at hc
    obtain ⟨hc, rfl⟩ := hc
    obtain ⟨hl, rfl⟩ := Prod.mk.inj hpure
    exact ⟨bytes, a, entry, c, hr, hd, he, hc, filing_change_ok.mp (filing_adapt_ok.mp hw), (Except.ok.inj hl).symm⟩

lemma ofFiling_crash {steps : Cache.Entry → Filing (Stop Failure) Loaded} {e : Cache.Entry} {payload : Payload}
    (h : (ofFiling steps e files).1 = .crash payload) : ∃ text, (steps e files).1 = .error (.crash text) := by
  rw [ofFiling] at h
  rcases hs : steps e files with ⟨(fault | text) | x, files₁⟩
  · simp only [hs] at h
    cases h
  · exact ⟨text, rfl⟩
  · simp only [hs] at h
    cases h

/-- The only step that can crash is that of loading the archive. -/
lemma decoding_crash {e : Cache.Entry} {payload : Payload} (h : (decoding e files).1 = .crash payload) :
    ∃ text, (Archive.load e.source files).1 = .error (.crash text) := by
  obtain ⟨text, h⟩ := ofFiling_crash h
  rcases filing_bind_error h with h | ⟨a, files₁, -, h⟩
  · rw [filing_adapt] at h
    rcases hload : (Archive.load e.source files).1 with (fault | text') | a
    · rw [hload] at h
      cases h
    · exact ⟨text', rfl⟩
    · rw [hload] at h
      cases h
  · cases he : a.entry? Cache.Entry.dexName with
    | none =>
      simp only [he] at h
      cases h
    | some entry =>
      simp only [he] at h
      rcases filing_bind_error h with h | ⟨c, files₂, -, h⟩
      · exact absurd h except_mapError_fault_ne_crash
      · rcases filing_bind_error h with h | ⟨_, files₃, -, h⟩
        · rw [filing_adapt] at h
          exact absurd h except_mapError_fault_ne_crash
        · cases h

lemma decoding_eq {e : Cache.Entry} {dex : Bytes} {c : Container} (hr : files.read e.source = .ok (Archive.dexFile dex))
    (hlen : 44 + dex.length < UInt32.size) (hc : Container.decode dex = .ok c)
    (hw : files.write e.optimized dex = .ok files') : decoding e files = (.value (.ofContainer c), files') := by
  have hload : Archive.load e.source files =
      (.ok (Archive.empty.insert Cache.Entry.dexName ⟨dex, some .stored⟩), files) :=
    Archive.readFile_ok.mpr ⟨_, hr, Archive.decode_dexFile rfl hlen, rfl⟩
  apply ofFiling_value.mpr
  refine filing_bind_ok.mpr ⟨_, files, filing_adapt_ok.mpr hload, ?_⟩
  rw [Archive.entry?_insert_self]
  exact filing_bind_ok.mpr ⟨c, files, filing_given_ok.mpr ⟨except_mapError_ok.mpr hc, rfl⟩,
    filing_bind_ok.mpr ⟨(), files', filing_adapt_ok.mpr (filing_change_ok.mpr hw), rfl⟩⟩

/-- What is read of an archive beyond the limit of its offset fields is too short for a dex file. -/
lemma decoding_overlong {e : Cache.Entry} {dex : Bytes} (hr : files.read e.source = .ok (Archive.dexFile dex))
    (hsize : dex.length < UInt32.size) (hlong : UInt32.size ≤ 44 + dex.length) :
    ∃ failure files', decoding e files = (.failure failure, files') := by
  rcases h : decoding e files with ⟨loaded | failure | payload, files'⟩
  · obtain ⟨bytes, a, entry, c, hbytes, ha, he, hc, -⟩ := decoding_value h
    obtain rfl := Except.ok.inj (hr.symm.trans hbytes)
    have hshort := Archive.length_entry?_decode_dexFile hsize hlong ha he
    have hheader := Container.size_le_of_decode hc
    rw [Header.size] at hheader
    omega
  · exact ⟨failure, files', rfl⟩
  · obtain ⟨text, hcrash⟩ := decoding_crash (congrArg Prod.fst h)
    obtain ⟨bytes, hbytes, hcrash⟩ := Archive.readFile_crash.mp hcrash
    obtain rfl := Except.ok.inj (hr.symm.trans hbytes)
    exact absurd hcrash (Archive.decode_dexFile_ne_crash hsize)

end Loader

lemma Workspace.load_value {loader : Loader} {e : Cache.Entry} {w w' : Workspace}
    (h : load loader e w = (.value loaded, w')) : loader e w.files = (.value loaded, w'.files) := by
  obtain ⟨hl, rfl⟩ := Prod.mk.inj h
  exact Prod.ext hl rfl

namespace BatchTask

variable {t : BatchTask} {w w' : Workspace}

lemma wellFormed_opened {c : Container} (h : Container.decode t.source.bytes = .ok c) :
    (Unsealing.container (c.select t.descriptors)).WellFormed :=
  (Container.Derived.opened (.select .refl t.descriptors)).wellFormed (Container.decode_wellFormed h).1

lemma opened_ok {dex : Bytes} (h : t.opened = .ok dex) (hl : dex.length < UInt32.size) : ∃ c,
    Container.decode t.source.bytes = .ok c ∧
    Container.decode dex = .ok (Unsealing.container (c.select t.descriptors)) := by
  obtain ⟨c, hc, he⟩ := except_bind_ok.mp h
  obtain ⟨ho, rfl⟩ := Container.encode_ok he
  exact ⟨c, hc, Container.decode_file (wellFormed_opened hc) ho.sorted hl⟩

lemma run_of_opened {dex : Bytes} (h : t.opened = .ok dex) : t.run w =
    match t.entry.store dex w.files with
    | (.error failure, files) => (.failure failure, { w with files })
    | (.ok (), files) => Workspace.load t.loader t.entry { w with files } := by
  rcases hs : t.entry.store dex w.files with ⟨_ | _, files⟩
  · simp only [run, h, Bind.bind, StateT.bind, Workspace.filing, hs]
    rfl
  · simp only [run, h, Bind.bind, StateT.bind, Workspace.filing, hs]

lemma run_decoding {dex : Bytes} (hl : t.loader = .decoding) (ho : t.opened = .ok dex)
    (h : t.run w = (.value loaded, w')) : w'.files.read t.entry.optimized = .ok dex ∧
      ∃ c, Container.decode t.source.bytes = .ok c ∧
        loaded = .ofContainer (Unsealing.container (c.select t.descriptors)) := by
  rw [run_of_opened ho] at h
  rcases hs : t.entry.store dex w.files with ⟨_ | _, files₁⟩
  · rw [hs] at h
    cases (Prod.ext_iff.mp h).1
  · rw [hs, hl] at h
    obtain ⟨bytes, a, entry, c, hr, ha, he, hc, hw, rfl⟩ := Loader.decoding_value (Workspace.load_value h)
    have hsize := (Cache.Entry.store_ok_iff.mp hs).1
    obtain rfl := Cache.Entry.read_of_store hs hr
    have hdata : entry.data = dex := by
      refine (Archive.entry?_decode_dexFile hsize ha he).resolve_right fun hshort => ?_
      have hheader := Container.size_le_of_decode hc
      rw [Header.size] at hheader
      omega
    obtain ⟨c₀, hc₀, hd⟩ := opened_ok ho hsize
    rw [hdata] at hc hw
    rw [hd] at hc
    exact ⟨FileTree.read_of_write hw, c₀, hc₀, by rw [Except.ok.inj hc]⟩

theorem run_value (hl : t.loader = .decoding) (h : t.run w = (.value loaded, w')) : ∃ c,
    Container.decode t.source.bytes = .ok c ∧ loaded = .ofContainer (Unsealing.container (c.select t.descriptors)) := by
  cases ho : t.opened with
  | error fault =>
    simp only [run, ho] at h
    cases (Prod.ext_iff.mp h).1
  | ok dex => exact (run_decoding hl ho h).2

structure Stores (e : Cache.Entry) (dex : Bytes) (files files' : FileTree) : Prop where
  store : e.store dex files = (.ok (), files')
  read : files'.read e.source = .ok (Archive.dexFile dex)
  write : ∃ files'', files'.write e.optimized dex = .ok files''

lemma opened_eq {c : Container} (hc : Container.decode t.source.bytes = .ok c)
    (ho : (c.select t.descriptors).Ordered)
    (hlen : (Unsealing.container (c.select t.descriptors)).file.length < UInt32.size) :
    t.opened = .ok (Unsealing.container (c.select t.descriptors)).file :=
  except_bind_ok.mpr ⟨c, hc, Container.encode_eq_file (wellFormed_opened hc) ho.opened hlen⟩

/-- As long as nothing is in the way of the files, a batch of classes that can be encoded gets loaded. -/
theorem run_eq {c : Container} (hl : t.loader = .decoding) (hc : Container.decode t.source.bytes = .ok c)
    (ho : (c.select t.descriptors).Ordered)
    (hlen : 44 + (Unsealing.container (c.select t.descriptors)).file.length < UInt32.size) {files' : FileTree}
    (hf : Stores t.entry (Unsealing.container (c.select t.descriptors)).file w.files files') :
    ∃ w', t.run w = (.value (.ofContainer (Unsealing.container (c.select t.descriptors))), w') := by
  obtain ⟨files'', hwrite⟩ := hf.write
  have hd := Container.decode_file (wellFormed_opened hc) ho.opened.sorted (by omega)
  rw [run_of_opened (opened_eq hc ho (by omega)), hf.store, hl]
  simp only [Workspace.load, Loader.decoding_eq hf.read hlen hd hwrite]
  exact ⟨_, rfl⟩

/-- If the dex file of a batch can be stored, but not together with the 44 bytes before it in the archive, nothing is
loaded. -/
theorem run_overlong {c : Container} (hl : t.loader = .decoding) (hc : Container.decode t.source.bytes = .ok c)
    (ho : (c.select t.descriptors).Ordered)
    (hsize : (Unsealing.container (c.select t.descriptors)).file.length < UInt32.size)
    (hlong : UInt32.size ≤ 44 + (Unsealing.container (c.select t.descriptors)).file.length) {files' : FileTree}
    (hf : Stores t.entry (Unsealing.container (c.select t.descriptors)).file w.files files') :
    ∃ failure w', t.run w = (.failure failure, w') := by
  obtain ⟨failure, files'', hload⟩ := Loader.decoding_overlong hf.read hsize hlong
  rw [run_of_opened (opened_eq hc ho hsize), hf.store, hl]
  simp only [Workspace.load, hload]
  exact ⟨failure, _, rfl⟩

end BatchTask

end DexUnseal
