import DexUnseal.Proofs.Archive.RoundTrip

/-! Loading some entries of an archive: what it asks of the others, and what is found. -/

namespace DexUnseal.Archive

namespace Listing

variable {f : Image} {l : Listing} {wanted : String → Bool} {x : String × Entry}

def key? (l : Listing) : Option String :=
  if l.isDirectory then none else l.enclosed?.bind fun path => (EntryName.ofPath path).toOption

/-- What is asked of every entry, wanted or not: it can be opened, and a name that does not lead out of the archive is
one that archives take. -/
structure Passes (f : Image) (l : Listing) : Prop where
  opens : ∃ offset, l.payloadOffset f = .ok offset
  named : l.isDirectory = false → ∀ path, l.enclosed? = some path → ∃ name, EntryName.ofPath path = .ok name

def Holds (f : Image) (l : Listing) (x : String × Entry) : Prop :=
  l.key? = some x.1 ∧ ∃ offset data, l.payloadOffset f = .ok offset ∧ l.data f offset = .ok data ∧
    x.2 = ⟨data, Compression.ofCode? l.method⟩

def isWanted (wanted : String → Bool) (l : Listing) : Bool := l.key?.any wanted

def isDex : Listing → Bool := isWanted fun name => (DexEntry.index? name).isSome

lemma entry?_ok_iff {r : Option (String × Entry)} : l.entry? f wanted = .ok r ↔
    l.Passes f ∧ if l.isWanted wanted then ∃ x, r = some x ∧ l.Holds f x else r = none := by
  cases ho : l.payloadOffset f with
  | error fault =>
    have hpasses : ¬ l.Passes f := by
      rintro ⟨⟨offset, hoffset⟩, -⟩
      cases ho.symm.trans hoffset
    simp [ho, entry?, hpasses, Bind.bind, Except.bind]
  | ok offset =>
    have hopens : ∃ offset, l.payloadOffset f = .ok offset := ⟨offset, ho⟩
    -- left out: nothing more is asked, and it has no name
    have hleft (hk : l.key? = none) (hn : l.isDirectory = false → ∀ path, l.enclosed? = some path →
        ∃ name, EntryName.ofPath path = .ok name) : (Except.ok none : Except (Stop Fault) _) = .ok r ↔
          l.Passes f ∧ if l.isWanted wanted then ∃ x, r = some x ∧ l.Holds f x else r = none := by
      rw [isWanted, hk, Option.any_none, if_neg Bool.false_ne_true, Except.ok.injEq, eq_comm]
      exact (and_iff_right ⟨hopens, hn⟩).symm
    unfold entry?
    rw [ho, except_ok_bind]
    cases hd : l.isDirectory with
    | true => exact hleft (by rw [key?, hd, if_pos rfl]) fun h => absurd (hd.symm.trans h) (by decide)
    | false =>
      cases he : l.enclosed? with
      | none =>
        exact hleft (by rw [key?, hd, he]; rfl) fun _ path h => by rw [he] at h; cases h
      | some path =>
        have hnamed (name : String) (hname : EntryName.ofPath path = .ok name) : l.Passes f := by
          refine ⟨hopens, fun _ other h => ?_⟩
          rw [he] at h
          exact ⟨name, Option.some.inj h ▸ hname⟩
        cases hp : EntryName.ofPath path with
        | error fault =>
          have hpasses : ¬ l.Passes f := by
            intro h
            obtain ⟨name, hname⟩ := h.named hd path he
            cases hp.symm.trans hname
          simp [hp, hpasses, throw, throwThe, MonadExceptOf.throw]
        | ok name =>
          have hk : l.key? = some name := by
            rw [key?, hd, he, Option.bind_some, hp]
            rfl
          simp only [hp, Bool.false_eq_true, if_false]
          rw [and_iff_right (hnamed name hp), isWanted, hk, Option.any_some]
          split
          · rw [except_bind_ok]
            constructor
            · rintro ⟨data, hdata, hr⟩
              exact ⟨_, (Except.ok.inj hr).symm, hk, offset, data, ho, except_mapError_ok.mp hdata, rfl⟩
            · rintro ⟨⟨other, e⟩, rfl, hother, offset', data, ho', hdata, rfl⟩
              obtain rfl := Except.ok.inj (ho.symm.trans ho')
              obtain rfl := Option.some.inj (hk.symm.trans hother)
              exact ⟨data, except_mapError_ok.mpr hdata, rfl⟩
          · exact Except.ok.injEq none r ▸ eq_comm

end Listing

variable {f : Image} {wanted : String → Bool} {a b : Archive} {listings : List Listing} {bytes : Bytes}
  {found : List (String × Entry)}

lemma forall₂_entry?_iff : (∃ all, List.Forall₂ (fun l r => l.entry? f wanted = .ok r) listings all ∧
      all.reduceOption = found) ↔
    (∀ l ∈ listings, l.Passes f) ∧
      List.Forall₂ (Listing.Holds f) (listings.filter (Listing.isWanted wanted)) found := by
  induction listings generalizing found with
  | nil => simp [eq_comm]
  | cons l listings ih =>
    rw [List.forall_mem_cons]
    by_cases hw : l.isWanted wanted = true
    · rw [List.filter_cons_of_pos hw]
      constructor
      · rintro ⟨_, ⟨⟩, rfl⟩
        rename_i r all hr hall
        obtain ⟨hpasses, hr⟩ := Listing.entry?_ok_iff.mp hr
        rw [if_pos hw] at hr
        obtain ⟨x, rfl, hx⟩ := hr
        obtain ⟨hrest, hholds⟩ := ih.mp ⟨all, hall, rfl⟩
        rw [List.reduceOption_cons_of_some]
        exact ⟨⟨hpasses, hrest⟩, .cons hx hholds⟩
      · rintro ⟨⟨hpasses, hrest⟩, hholds⟩
        cases hholds with
        | @cons _ x _ _ hx hholds =>
          obtain ⟨all, hall, rfl⟩ := ih.mpr ⟨hrest, hholds⟩
          have hr : l.entry? f wanted = .ok (some x) := by
            rw [Listing.entry?_ok_iff, if_pos hw]
            exact ⟨hpasses, x, rfl, hx⟩
          exact ⟨some x :: all, .cons hr hall, List.reduceOption_cons_of_some x all⟩
    · rw [List.filter_cons_of_neg hw]
      constructor
      · rintro ⟨_, ⟨⟩, rfl⟩
        rename_i r all hr hall
        obtain ⟨hpasses, hr⟩ := Listing.entry?_ok_iff.mp hr
        rw [if_neg hw] at hr
        obtain ⟨hrest, hholds⟩ := ih.mp ⟨all, hall, rfl⟩
        rw [hr, List.reduceOption_cons_of_none]
        exact ⟨⟨hpasses, hrest⟩, hholds⟩
      · rintro ⟨⟨hpasses, hrest⟩, hholds⟩
        obtain ⟨all, hall, rfl⟩ := ih.mpr ⟨hrest, hholds⟩
        have hr : l.entry? f wanted = .ok none := by
          rw [Listing.entry?_ok_iff, if_neg hw]
          exact ⟨hpasses, rfl⟩
        exact ⟨none :: all, .cons hr hall, List.reduceOption_cons_of_none all⟩

lemma decodeOnly_ok_iff : decodeOnly wanted bytes = .ok b ↔
    ∃ listings, Listing.ofImage (.ofBytes bytes) = .ok listings ∧ (∀ l ∈ listings, l.Passes (.ofBytes bytes)) ∧
      ∃ found, List.Forall₂ (Listing.Holds (.ofBytes bytes)) (listings.filter (Listing.isWanted wanted)) found ∧
        b = empty.insertAll found := by
  refine decodeOnly_ok.trans (exists_congr fun listings => and_congr_right fun _ => collect_ok.trans ?_)
  constructor
  · rintro ⟨all, hall, rfl⟩
    obtain ⟨hpasses, hholds⟩ := forall₂_entry?_iff.mp ⟨all, hall, rfl⟩
    exact ⟨hpasses, _, hholds, rfl⟩
  · rintro ⟨hpasses, found, hholds, rfl⟩
    obtain ⟨all, hall, rfl⟩ := forall₂_entry?_iff.mpr ⟨hpasses, hholds⟩
    exact ⟨all, hall, rfl⟩

lemma decodeOnly_of_decode (h : decode bytes = .ok a) : ∃ b, decodeOnly wanted bytes = .ok b ∧
    ∀ name, b.entry? name = if wanted name then a.entry? name else none := by
  obtain ⟨listings, hlistings, hpasses, found, hfound, rfl⟩ := decodeOnly_ok_iff.mp h
  refine ⟨_, decodeOnly_ok_iff.mpr ⟨listings, hlistings, hpasses, found.filter fun x => wanted x.1, ?_, rfl⟩,
    entry?_insertAll_filter wanted found⟩
  have hboth : (listings.filter (Listing.isWanted fun _ => true)).filter (Listing.isWanted wanted) =
      listings.filter (Listing.isWanted wanted) := by
    rw [List.filter_filter]
    refine List.filter_congr fun l _ => ?_
    cases hk : l.key? <;> simp [Listing.isWanted, hk]
  rw [← hboth]
  refine forall₂_filter hfound fun l x hx => ?_
  rw [Listing.isWanted, hx.1, Option.any_some]

/-- The entries of dex files are found if they can be read and all entries, the others as well, can be opened and have
names that archives take. Nothing else of the others matters, so whoever can load all entries gets the same ones. -/
theorem loadDexEntries_iff {p : Path} {files : FileTree} (hread : files.read p = .ok bytes) :
    (∀ b files', loadDexEntries p files = (.ok b, files') ↔ files' = files ∧
      ∃ listings, Listing.ofImage (.ofBytes bytes) = .ok listings ∧ (∀ l ∈ listings, l.Passes (.ofBytes bytes)) ∧
        ∃ found, List.Forall₂ (Listing.Holds (.ofBytes bytes)) (listings.filter Listing.isDex) found ∧
          b = empty.insertAll found) ∧
      ∀ a, load p files = (.ok a, files) → ∃ b, loadDexEntries p files = (.ok b, files) ∧
        ∀ name, b.entry? name = if (DexEntry.index? name).isSome then a.entry? name else none := by
  have hdecode {decode : Bytes → Except (Stop Fault) Archive} {b : Archive} {files' : FileTree} :
      readFile decode p files = (.ok b, files') ↔ files' = files ∧ decode bytes = .ok b := by
    refine readFile_ok.trans ⟨?_, fun ⟨hf, hb⟩ => ⟨bytes, hread, hb, hf⟩⟩
    rintro ⟨found, hfound, hb, hf⟩
    obtain rfl := Except.ok.inj (hread.symm.trans hfound)
    exact ⟨hf, hb⟩
  refine ⟨fun b files' => hdecode.trans (and_congr_right fun _ => decodeOnly_ok_iff), fun a ha => ?_⟩
  obtain ⟨b, hb, hentries⟩ := decodeOnly_of_decode (hdecode.mp ha).2
  exact ⟨b, hdecode.mpr ⟨rfl, hb⟩, hentries⟩

theorem loadDexEntries_iff_sample : ∃ bytes a b, (filesWith bytes).read ⟨"out.apk"⟩ = .ok bytes ∧
    load ⟨"out.apk"⟩ (filesWith bytes) = (.ok a, filesWith bytes) ∧
      loadDexEntries ⟨"out.apk"⟩ (filesWith bytes) = (.ok b, filesWith bytes) ∧
        ∀ name, b.entry? name = if (DexEntry.index? name).isSome then a.entry? name else none := by
  obtain ⟨bytes, -, hok⟩ : ∃ bytes, sample.encode = .ok bytes ∧ (decode bytes).isOk = true :=
    ⟨_, rfl, by decide +kernel⟩
  cases ha : decode bytes with
  | error fault =>
    rw [ha] at hok
    cases hok
  | ok a =>
    have hread : (filesWith bytes).read ⟨"out.apk"⟩ = .ok bytes := rfl
    have hload := readFile_ok.mpr ⟨bytes, hread, ha, rfl⟩
    obtain ⟨b, hb, hentries⟩ := (loadDexEntries_iff hread).2 a hload
    exact ⟨bytes, a, b, hread, hload, hb, hentries⟩

/-- An entry has AES parameters, and yet is not marked as encrypted. -/
def Unmarked (bytes : Bytes) : Prop :=
  ∃ listings, Listing.ofImage (.ofBytes bytes) = .ok listings ∧ ∃ l ∈ listings, l.hasAes = true ∧ l.isEncrypted = false

lemma Listing.not_isEncrypted {start : Nat} {l : Listing} (h : l.payloadStart f = .ok start) :
    l.isEncrypted = false := by
  rw [payloadStart, except_guard_ok] at h
  exact Bool.eq_false_iff.mpr h.1

lemma unmarked_of_crash {p : Path} {files : FileTree} {text : String}
    (h : (loadDexEntries p files).1 = .error (.crash text)) : ∃ bytes, files.read p = .ok bytes ∧ Unmarked bytes := by
  obtain ⟨bytes, hread, hdecode⟩ := readFile_crash.mp h
  obtain ⟨before, l, after, hl, -, hcrash⟩ := decodeOnly_crash.mp hdecode
  obtain ⟨⟨start, hstart⟩, haes, -⟩ := Listing.payloadOffset_crash.mp hcrash
  exact ⟨bytes, hread, _, hl, l, List.mem_append_right before List.mem_cons_self, haes, Listing.not_isEncrypted hstart⟩

def unmarkedFile : Bytes :=
  [0x50, 0x4b, 3, 4, 20, 0, 0, 0, 0, 0, 0, 0, 0, 0, 0, 0, 0, 0, 0, 0, 0, 0, 0, 0, 0, 0, 1, 0, 0, 0, 0x61,
    0x50, 0x4b, 1, 2, 20, 0, 20, 0, 0, 0, 0, 0, 0, 0, 0, 0, 0, 0, 0, 0, 0, 0, 0, 0, 0, 0, 0, 0, 1, 0, 11, 0, 0, 0,
    0, 0, 0, 0, 0, 0, 0, 0, 0, 0, 0, 0, 0x61, 1, 0x99, 7, 0, 2, 0, 0x41, 0x45, 3, 0, 0,
    0x50, 0x4b, 5, 6, 0, 0, 0, 0, 1, 0, 1, 0, 58, 0, 0, 0, 31, 0, 0, 0, 0, 0]

lemma decodeDexEntries_unmarkedFile : decodeDexEntries unmarkedFile = .error (.crash Listing.passwordCrash) := by
  have h : (match decodeDexEntries unmarkedFile with
      | .error (.crash text) => some text
      | _ => none) = some Listing.passwordCrash := by decide +kernel
  split at h
  · rename_i text hcrash
    rw [hcrash, Option.some.inj h]
  · cases h

def crossed : Archive := (empty.insert "classes.dex" ⟨[1, 2, 3], none⟩).insert "a/../b" ⟨[], none⟩

theorem decodeDexEntries_crossed : ∃ bytes listings, crossed.encode = .ok bytes ∧
    Listing.ofImage (.ofBytes bytes) = .ok listings ∧ listings.map Listing.key? = [none, some "classes.dex"] ∧
      (∀ l ∈ listings, l.isDex = true → ∃ x, l.Holds (.ofBytes bytes) x) ∧ ∀ b, decodeDexEntries bytes ≠ .ok b := by
  let dex (name : String) : Bool := (DexEntry.index? name).isSome
  obtain ⟨bytes, hencode, hfail, hkeys, hreads⟩ : ∃ bytes, crossed.encode = .ok bytes ∧
      (decodeDexEntries bytes).isOk = false ∧
      (Listing.ofImage (.ofBytes bytes)).toOption.map (fun listings => listings.map Listing.key?) =
        some [none, some "classes.dex"] ∧
      (Listing.ofImage (.ofBytes bytes)).toOption.all (fun listings => listings.all fun l =>
        !l.isDex || (l.entry? (.ofBytes bytes) dex).isOk) = true :=
    ⟨_, rfl, by decide +kernel, by decide +kernel, by decide +kernel⟩
  cases hlistings : Listing.ofImage (.ofBytes bytes) with
  | error fault =>
    rw [hlistings] at hkeys
    cases hkeys
  | ok listings =>
    rw [hlistings] at hkeys hreads
    refine ⟨bytes, listings, hencode, hlistings, Option.some.inj hkeys, fun l hl hdex => ?_, fun b hb => ?_⟩
    · have hread := List.all_eq_true.mp hreads l hl
      rw [hdex, Bool.not_true, Bool.false_or] at hread
      cases he : l.entry? (.ofBytes bytes) dex with
      | error fault =>
        rw [he] at hread
        cases hread
      | ok r =>
        obtain ⟨-, hr⟩ := Listing.entry?_ok_iff.mp he
        have hwanted : l.isWanted dex = true := hdex
        rw [if_pos hwanted] at hr
        obtain ⟨x, -, hx⟩ := hr
        exact ⟨x, hx⟩
    · rw [hb] at hfail
      cases hfail

end DexUnseal.Archive
