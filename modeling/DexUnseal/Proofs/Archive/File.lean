import DexUnseal.Archive.File
import DexUnseal.Proofs.FileTree
import DexUnseal.Proofs.Steps

/-! Archives as files: what comes of reading and writing one. -/

namespace DexUnseal

lemma Filing.keeps_createDirectories {places : List Location} (below : Location) :
    Keeps (FileTree.Frame places below) (createDirectories below) := by
  refine Keeps.bind FileTree.Frame.trans (keeps_change .refl fun files files' h => ?_) fun _ =>
    keeps_forM .refl FileTree.Frame.trans fun l hl =>
      keeps_change .refl fun _ _ h => FileTree.frame_of_createDirectory (FileTree.prefix_of_mem_way hl) h
  obtain ⟨⟨⟩, -, hfiles⟩ := except_bind_ok.mp h
  obtain rfl := Except.ok.inj hfiles
  exact .refl files

namespace Archive

variable {files files' : FileTree} {p : Path} {a : Archive}

section Read

variable {decode : Bytes → Except (Stop Fault) Archive}

lemma readFile_eq (decode : Bytes → Except (Stop Fault) Archive) (p : Path) (files : FileTree) :
    readFile decode p files = ((files.read p).mapError (fun fault => .fault (.io fault)) >>= decode, files) := by
  simp only [readFile, Bind.bind, ExceptT.bind, ExceptT.mk, StateT.bind, filing_adapt, Filing.read]
  cases files.read p with
  | error fault => rfl
  | ok bytes => rfl

lemma readFile_ok : readFile decode p files = (.ok a, files') ↔
    ∃ bytes, files.read p = .ok bytes ∧ decode bytes = .ok a ∧ files' = files := by
  rw [readFile_eq, Prod.mk.injEq, except_bind_ok, eq_comm (a := files)]
  simp only [except_mapError_ok, exists_and_right, ← and_assoc]

lemma readFile_crash {text : String} : (readFile decode p files).1 = .error (.crash text) ↔
    ∃ bytes, files.read p = .ok bytes ∧ decode bytes = .error (.crash text) := by
  rw [readFile_eq, except_bind_error]
  cases files.read p with
  | error fault => simp [Except.mapError]
  | ok bytes => simp [Except.mapError]

end Read

lemma saveWith_ok {deflate : Bytes → Bytes} : a.saveWith deflate p files = (.ok (), files') ↔
    ∃ bytes files₁, files.createDirectories p.location.dropLast = .ok files₁ ∧ a.encodeWith deflate = .ok bytes ∧
      files₁.write p bytes = .ok files' := by
  constructor
  · intro h
    obtain ⟨⟨⟩, files₁, hcreate, hfile⟩ := filing_bind_ok.mp h
    obtain ⟨bytes, files₂, hencode, hwrite⟩ := filing_bind_ok.mp hfile
    rw [filing_given_ok, except_mapError_ok] at hencode
    obtain ⟨hencode, rfl⟩ := hencode
    exact ⟨bytes, files₂, filing_createDirectories_ok.mp (filing_adapt_ok.mp hcreate), hencode,
      filing_change_ok.mp (filing_adapt_ok.mp hwrite)⟩
  · rintro ⟨bytes, files₁, hcreate, hencode, hwrite⟩
    refine filing_bind_ok.mpr ⟨(), files₁, filing_adapt_ok.mpr (filing_createDirectories_ok.mpr hcreate), ?_⟩
    exact filing_bind_ok.mpr ⟨bytes, files₁, filing_given_ok.mpr ⟨except_mapError_ok.mpr hencode, rfl⟩,
      filing_adapt_ok.mpr (filing_change_ok.mpr hwrite)⟩

lemma read_of_saveWith {deflate : Bytes → Bytes} (h : a.saveWith deflate p files = (.ok (), files')) :
    ∃ bytes, a.encodeWith deflate = .ok bytes ∧ files'.read p = .ok bytes := by
  obtain ⟨bytes, files₁, -, hencode, hwrite⟩ := saveWith_ok.mp h
  exact ⟨bytes, hencode, FileTree.read_of_write hwrite⟩

/-- An archive that cannot be written has at most led to directories above its place. -/
lemma saveWith_error {deflate : Bytes → Bytes} {fault : InputFault} (h : a.encodeWith deflate = .error fault)
    (p : Path) (files : FileTree) : ∃ fault' files', a.saveWith deflate p files = (.error fault', files') ∧
      FileTree.Frame [] p.location.dropLast files files' ∧
      ∀ files₁, files.createDirectories p.location.dropLast = .ok files₁ → fault' = .input fault := by
  have hkeeps : Filing.Keeps (FileTree.Frame [] p.location.dropLast) (a.saveWith deflate p) := by
    rw [saveWith, h]
    exact Filing.Keeps.bind FileTree.Frame.trans (Filing.keeps_createDirectories _).adapt fun _ files => .refl files
  have hframe := hkeeps files
  rcases hs : a.saveWith deflate p files with ⟨fault' | ⟨⟩, files'⟩
  · rw [hs] at hframe
    refine ⟨fault', files', rfl, hframe, fun files₁ hcreate => ?_⟩
    have hdone : Filing.createDirectories p.location.dropLast files = (.ok (), files₁) :=
      filing_createDirectories_ok.mpr hcreate
    simp only [saveWith, h, Bind.bind, ExceptT.bind, ExceptT.mk, StateT.bind, filing_adapt, hdone] at hs
    exact (Except.error.inj (Prod.mk.inj hs).1).symm
  · obtain ⟨bytes, -, -, hencode, -⟩ := saveWith_ok.mp hs
    cases h.symm.trans hencode

end Archive

end DexUnseal
