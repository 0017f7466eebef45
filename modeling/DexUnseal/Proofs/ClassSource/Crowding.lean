import DexUnseal.Proofs.ClassSource.Completeness
import DexUnseal.Proofs.Dex.Uniform

/-! A class is lost although its dex file can be encoded, because the dex file and what stands before it in its archive
are together too long for the offset fields there. -/

namespace DexUnseal

open Dex

lemma ClassName.replaceChar_of_notMem {old new : Char} {text : String} (h : old ∉ text.toList) :
    replaceChar old new text = text := by
  rw [← String.toList_inj, toList_replaceChar]
  refine (List.map_congr_left fun c hc => ?_).trans text.toList.map_id
  rw [if_neg (ne_of_mem_of_not_mem hc h)]
  rfl

namespace ClassFilter

lemma occursIn_eq_false {c : Char} {part name : List Char} (h : c ∉ name) : occursIn (c :: part) name = false := by
  induction name with
  | nil => rfl
  | cons d rest ih =>
    rw [List.mem_cons, not_or] at h
    rw [occursIn, ih h.2, List.isPrefixOf_cons_cons, beq_eq_false_iff_ne.mpr h.1]
    rfl

lemma isGenerated_eq_false {name : String} (h : '.' ∉ name.toList) : isGenerated name = false := by
  have hsuffix (part : List Char) : ('.' :: part).isSuffixOf name.toList = false := by
    refine Bool.eq_false_iff.mpr fun hs => h ?_
    exact (List.isSuffixOf_iff_suffix.mp hs).subset List.mem_cons_self
  have hr : ".R".toList = '.' :: ['R'] := rfl
  have hd : ".R$".toList = '.' :: ['R', '$'] := rfl
  have hb : ".BuildConfig".toList = '.' :: "BuildConfig".toList := rfl
  rw [isGenerated, hr, hd, hb, hsuffix, hsuffix, occursIn_eq_false h]
  rfl

end ClassFilter

namespace Dex.Container

variable {c : Container} {text : String}

lemma Uniform.withClasses (h : c.Uniform text) {classes : List ClassDef} (hs : classes ⊆ c.classes) :
    (c.withClasses classes).Uniform text :=
  ⟨h.strings, h.protos, h.callSites, fun d hd => h.classes d (hs hd)⟩

lemma Uniform.opened (h : c.Uniform text) : Unsealing.container c = c := by
  have hclasses : c.classes.map (Unsealing.classDef (Unsealing.InnerClassKeys.ofPools? c.pools)) = c.classes := by
    refine (List.map_congr_left fun d hd => ?_).trans c.classes.map_id
    have hflags : AccessFlags.withoutFinal ⟨1⟩ = ⟨1⟩ := by decide
    rw [h.classes d hd]
    cases Unsealing.InnerClassKeys.ofPools? c.pools <;>
      simp [Unsealing.classDef, ClassDef.bare, Unsealing.directory, hflags, Directory.empty]
  rw [Unsealing.container, hclasses, Container.withClasses]

def crowd (n : ClassName) (count : Nat) : Container where
  magic := sample.magic
  pools :=
    { strings := List.replicate count (.decoded n.descriptor), types := [0]
      protos := [], fields := [], methods := [], handles := [], callSites := [] }
  classes := [.bare n.descriptor]

variable {n : ClassName} {count : Nat}

lemma uniform_crowd (n : ClassName) (count : Nat) : (crowd n count).Uniform n.descriptor where
  strings _ hs := List.eq_of_mem_replicate hs
  protos := rfl
  callSites := rfl
  classes _ hd := List.mem_singleton.mp hd

lemma wellFormed_crowd (hcount : 0 < count) : (crowd n count).WellFormed := by
  obtain ⟨k, rfl⟩ := Nat.exists_eq_succ_of_ne_zero (Nat.ne_of_gt hcount)
  have htext : (crowd n (k + 1)).pools.typeDescriptor? 0 = some n.descriptor := rfl
  refine ⟨rfl, ⟨fun s hs => ?_, fun t ht => ?_, nofun, nofun, nofun, nofun⟩, fun d hd => ?_⟩
  · rw [List.eq_of_mem_replicate hs]
    trivial
  · rw [List.mem_singleton.mp ht]
    rfl
  · rw [List.mem_singleton.mp hd]
    exact ⟨htext, nofun, nofun, ⟨nofun, nofun, nofun, nofun⟩, nofun⟩

lemma size_crowd (n : ClassName) (count : Nat) (classes : List ClassDef) :
    IdSections.size ((crowd n count).withClasses classes).pools ((crowd n count).withClasses classes).classes.length =
      count * 4 + 4 + classes.length * 32 := by
  simp [IdSections.size, crowd, Container.withClasses]

lemma length_idRuns_crowd (hcount : 0 < count) (classes : List ClassDef) (ids : IdSections) :
    (Placing.idRuns ((crowd n count).withClasses classes).pools ((crowd n count).withClasses classes).classes.length
      ids).length = 3 + min 1 classes.length := by
  have hone (kind : ItemKind) (count : Nat) (offset : UInt32) :
      (Placing.idRun kind count offset).length = min 1 count := by
    rw [Placing.idRun]
    split
    · simp [*]
    · rw [List.length_singleton]
      omega
  simp only [Placing.idRuns, List.length_append, List.length_cons, hone]
  simp [crowd, Container.withClasses]
  omega

lemma length_encode_fill (k : Nat) : (StringData.decoded (ClassName.mk (Text.fill k)).descriptor).encode.length =
    (Leb128.encode (UInt32.ofNat (k + 2))).length + (k + 3) := by
  have hchars : (ClassName.mk (Text.fill k)).descriptor.toList = 'L' :: (List.replicate k 'a' ++ [';']) := by
    simp [ClassName.descriptor, Text.toList_fill]
  have hunits : Text.ModifiedUtf8.unitCount (ClassName.mk (Text.fill k)).descriptor = k + 2 := by
    rw [Text.ModifiedUtf8.unitCount_eq, hchars]
    simp [List.countP_replicate]
  have hbytes : (Text.ModifiedUtf8.encode (ClassName.mk (Text.fill k)).descriptor).length = k + 2 := by
    have hletter : (Text.ModifiedUtf8.encodeChar 'a').length = 1 := by decide
    have hfirst : (Text.ModifiedUtf8.encodeChar 'L').length = 1 := by decide
    have hlast : (Text.ModifiedUtf8.encodeChar ';').length = 1 := by decide
    rw [Text.ModifiedUtf8.encode, hchars, List.length_flatMap]
    simp [hletter, hfirst, hlast]
    omega
  rw [StringData.encode, List.length_append, List.length_append, hunits, hbytes, List.length_singleton, Nat.add_assoc]

lemma length_file_crowd {k : Nat} (hcount : 0 < count) {classes : List ClassDef}
    (hs : classes ⊆ (crowd ⟨Text.fill k⟩ count).classes) : ∃ padding ≤ 3, ∃ runs ≤ 2,
      ((crowd ⟨Text.fill k⟩ count).withClasses classes).file.length = 112 + (count * 4 + 4 + classes.length * 32) +
        (count * ((Leb128.encode (UInt32.ofNat (k + 2))).length + (k + 3)) + padding +
          (4 + 12 * (3 + min 1 classes.length + runs))) := by
  obtain ⟨padding, hpadding, runs, hruns, hlength⟩ := ((uniform_crowd ⟨Text.fill k⟩ count).withClasses hs).length_file
  have hstrings : ((crowd ⟨Text.fill k⟩ count).withClasses classes).pools.strings.length = count :=
    List.length_replicate
  refine ⟨padding, hpadding, runs, hruns, ?_⟩
  rw [hlength, hstrings, size_crowd, length_idRuns_crowd hcount, length_encode_fill, Header.size]

/-- Written, it lacks less than 44 bytes to the end of what words can tell. -/
def crowded : Container := crowd ⟨Text.fill 132424⟩ 32431

lemma length_file_crowded {classes : List ClassDef} (hs : classes ⊆ crowded.classes) (hl : classes.length ≤ 1) :
    (crowded.withClasses classes).file.length < UInt32.size ∧
      (classes.length = 1 → UInt32.size ≤ 44 + (crowded.withClasses classes).file.length) := by
  obtain ⟨padding, hpadding, runs, hruns, hlength⟩ := length_file_crowd (by decide) hs
  have hunits : (Leb128.encode (UInt32.ofNat (132424 + 2))).length = 3 := by decide
  rw [hunits] at hlength
  have hsize : UInt32.size = 4294967296 := rfl
  rw [crowded, hlength, hsize]
  omega

def crowdedFile : Bytes := crowded.compactFile (ClassName.mk (Text.fill 132424)).descriptor

lemma uniform_crowded : crowded.Uniform (ClassName.mk (Text.fill 132424)).descriptor := uniform_crowd _ _

lemma length_crowdedFile : 44 + crowdedFile.length < UInt32.size := by
  have hle := uniform_crowded.length_compactFile_le
  have hids := size_crowd ⟨Text.fill 132424⟩ 32431 crowded.classes
  have hunits : (Leb128.encode (UInt32.ofNat (132424 + 2))).length = 3 := by decide
  have hsize : UInt32.size = 4294967296 := rfl
  have hheader : Header.size = 112 := rfl
  have hone : crowded.classes.length = 1 := rfl
  rw [length_encode_fill, hunits, hheader] at hle
  change IdSections.size crowded.pools crowded.classes.length = _ at hids
  rw [crowdedFile, hsize]
  omega

lemma wellFormed_crowded : crowded.WellFormed := by
  have hcount : 0 < 32431 := by decide
  exact wellFormed_crowd hcount

lemma decode_crowdedFile : decode crowdedFile = .ok crowded := by
  have hlength := length_crowdedFile
  rw [crowdedFile] at hlength ⊢
  exact uniform_crowded.decode_compactFile wellFormed_crowded (by omega)

end Dex.Container

namespace ClassSource

open Container (crowded crowdedFile)

lemma notMem_fill {c : Char} (hc : c ≠ 'a') (k : Nat) : c ∉ (Text.fill k).toList := by
  rw [Text.toList_fill, List.mem_replicate]
  exact fun h => hc h.2

lemma accepts_fill (k : Nat) : sampleSource.mapper.filter.accepts (Text.fill (k + 2)) = true := by
  have hchars : (Text.fill (k + 2)).toList = 'a' :: 'a' :: List.replicate k 'a' := Text.toList_fill (k + 2)
  have hgenerated := ClassFilter.isGenerated_eq_false (notMem_fill (c := '.') (by decide) (k + 2))
  have hprefix : "android.".toList.isPrefixOf (Text.fill (k + 2)).toList = false := by rw [hchars]; rfl
  have hstarts : sampleSource.mapper.filter.disallowed = ["android."] := rfl
  rw [ClassFilter.accepts, hgenerated, hstarts, List.any_cons, hprefix]
  rfl

lemma ofDescriptor?_fill (k : Nat) :
    ClassName.ofDescriptor? (ClassName.mk (Text.fill (k + 1))).descriptor = some ⟨Text.fill (k + 1)⟩ := by
  refine ClassName.ofDescriptor?_eq_some_iff.mpr ⟨fun he => ?_, rfl⟩
  have hl := congrArg String.toList he
  rw [Text.toList_fill] at hl
  cases hl

lemma dottedName_crowded : crowded.classes.map (·.dottedName) = [Text.fill 132424] := by
  have hname : (ClassDef.bare (ClassName.mk (Text.fill 132424)).descriptor).dottedName = Text.fill 132424 := by
    rw [ClassDef.dottedName, ClassDef.bare, ofDescriptor?_fill, Option.map_some, Option.getD_some, ClassName.dotted,
      ClassName.replaceChar_of_notMem (notMem_fill (by decide) _)]
  exact congrArg (fun name => [name]) hname

lemma classNames_crowdedFile : Scan.classNames crowdedFile = .ok [Text.fill 132424] := by
  rw [← dottedName_crowded]
  refine classNames_of_decode Container.decode_crowdedFile fun d hd => ?_
  rw [Container.uniform_crowded.classes d hd, ClassDef.bare, ofDescriptor?_fill]
  rfl

lemma servable_crowded : Servable crowdedFile crowded where
  decode := Container.decode_crowdedFile
  distinct := List.nodup_singleton _
  slashed d hd := by
    rw [Container.uniform_crowded.classes d hd, ClassDef.bare, ClassName.dot_mem_descriptor_iff]
    exact notMem_fill (by decide) _
  ordered := Container.uniform_crowded.ordered
  fits descriptors := by
    have hsub : crowded.classes.filter (fun d => d.descriptor ∈ descriptors) ⊆ crowded.classes :=
      List.filter_subset_self _
    rw [Container.select, (Container.uniform_crowded.withClasses hsub).opened]
    exact (Container.length_file_crowded hsub (List.length_filter_le _ _)).1

lemma lists_crowded {listed : List String}
    (hl : Lists sampleSource.mapper (appArchive crowdedFile) (Text.fill 132424) listed) :
    listed = [Text.fill 132424] := by
  have hone : Lists sampleSource.mapper (appArchive crowdedFile) (Text.fill 132424) [Text.fill 132424] :=
    ⟨_, scan_appArchive classNames_crowdedFile (accepts_fill _), by
      rw [BatchTable.listed?, batch?_appTable, Option.map_some]; rfl⟩
  exact hl.unique hone

lemma not_roomy_crowded : ¬ Roomy crowded [Text.fill 132424] := by
  have hsame : crowded.withClasses crowded.classes = crowded := rfl
  have hdotted : (ClassName.ofDotted (Text.fill 132424)).descriptor = (ClassName.mk (Text.fill 132424)).descriptor := by
    rw [ClassName.ofDotted, ClassName.replaceChar_of_notMem (notMem_fill (by decide) _)]
  have hall : crowded.classes.filter (fun d => d.descriptor ∈ descriptors [Text.fill 132424]) = crowded.classes := by
    refine List.filter_eq_self.mpr fun d hd => ?_
    rw [Container.uniform_crowded.classes d hd, ClassDef.bare, descriptors, List.map_singleton, hdotted]
    exact decide_eq_true List.mem_cons_self
  have hlong := (Container.length_file_crowded (List.Subset.refl crowded.classes) (Nat.le_refl 1)).2 rfl
  rw [hsame] at hlong
  rw [Roomy, stored, Container.select, hall, hsame, Container.uniform_crowded.opened]
  exact Nat.not_lt.mpr hlong

/-- Of a dex file in good order a class is not served, not even by the first request. -/
theorem crowded_lost :
    (∀ p ∈ (appArchive crowdedFile).dexEntries, ∃ names, Scan.classNames p.2 = .ok names) ∧
    sampleSource.mapper.filter.accepts (Text.fill 132424) = true ∧
    DefinedBy (appArchive crowdedFile) (Text.fill 132424) crowdedFile ∧ Servable crowdedFile crowded ∧
    ∃ outcome, Answers ⟨"/app.apk"⟩ sampleSource.mapper (appArchive crowdedFile) (Text.fill 132424) outcome ∧
      ∃ failure, outcome = .failure failure := by
  have hscannable := scannable_appArchive classNames_crowdedFile
  have haccepts : sampleSource.mapper.filter.accepts (Text.fill 132424) = true := accepts_fill _
  have hdefined : DefinedBy (appArchive crowdedFile) (Text.fill 132424) crowdedFile :=
    definedBy_appArchive ⟨_, classNames_crowdedFile, List.mem_cons_self⟩
  have hload := congrArg Prod.fst (loadDexEntries_appFiles Container.length_crowdedFile)
  have hfiled := filed_appFiles servable_crowded Container.length_crowdedFile classNames_crowdedFile haccepts
  have hanswers : Answers ⟨"/app.apk"⟩ sampleSource.mapper (appArchive crowdedFile) (Text.fill 132424) _ :=
    .get [] [] (ofSettings_appFiles crowdedFile) rfl hload rfl trivial (hfiled _)
  refine ⟨hscannable, haccepts, hdefined, servable_crowded, _, hanswers, ?_⟩
  obtain ⟨_, -, -, listed, hl, -, -, hlost⟩ := hanswers.of_servable hscannable haccepts hdefined servable_crowded
  rw [lists_crowded hl] at hlost
  exact hlost not_roomy_crowded

end ClassSource

end DexUnseal
