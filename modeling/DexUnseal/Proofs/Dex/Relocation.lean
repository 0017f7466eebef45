import DexUnseal.Proofs.Dex.Placement

/-! Debug information, catch handlers and method bodies can be moved to any other place of any other file. -/

namespace DexUnseal.Dex

open Reader

variable {r : Reader α} {x y : α} {pass : Reader Unit} {bytes part file : Bytes} {offset position : Nat}

/-- Bytes that are stepped over wherever they stand, and that cannot be told to end before they do. -/
structure SelfDelimiting (skip : Reader Unit) (bytes : Bytes) : Prop where
  anywhere : ∀ file offset, StandsAt file offset bytes →
    skip (.ofOffset file offset) = .ok ((), .ofOffset file (offset + bytes.length))
  whole : ∀ part, part <+: bytes → part ≠ bytes → ∀ position, ∃ fault, skip ⟨position, part⟩ = .error fault

lemma reads_ofOffset (h : Reads r bytes x) (hs : StandsAt file offset bytes) :
    r (.ofOffset file offset) = .ok (x, .ofOffset file (offset + bytes.length)) := by
  obtain ⟨rest, hr⟩ := hs
  have hrest : file.drop (offset + bytes.length) = rest := by rw [← List.drop_drop, ← hr, List.drop_left]
  rw [Cursor.ofOffset, ← hr, h, Cursor.ofOffset, hrest]

/-- The bytes taken from the part alone would also be taken from the whole, and the reader would stop there. -/
lemma whole_of_read {c : Cursor} (hc : Confined r) (h : Reads r bytes x) (hp : part <+: bytes)
    (hr : r ⟨position, part⟩ = .ok (y, c)) : part = bytes := by
  obtain ⟨taken, hpart, -, ht⟩ := hc _ _ _ hr
  obtain ⟨more, rfl⟩ := hp
  change part = taken ++ c.rest at hpart
  have hwhole := h 0 []
  rw [List.append_nil, hpart, List.append_assoc, ht] at hwhole
  have hrest : c.rest ++ more = [] := congrArg Cursor.rest (Prod.mk.inj (Except.ok.inj hwhole)).2
  rw [(List.append_eq_nil_iff.mp hrest).2, List.append_nil]

lemma Steps.selfDelimiting (hc : Confined pass) (h : Steps pass bytes) : SelfDelimiting pass bytes := by
  refine ⟨fun file offset hs => reads_ofOffset (h.reads hc) hs, fun part hp hne position => ?_⟩
  cases hr : pass ⟨position, part⟩ with
  | error fault => exact ⟨fault, rfl⟩
  | ok result => exact absurd (whole_of_read hc (h.reads hc) hp hr) hne

lemma exists_steps {stop : Cursor} (hc : Confined pass) (h : pass (.ofOffset file offset) = .ok ((), stop)) :
    ∃ bytes, StandsAt file offset bytes ∧ stop = .ofOffset file (offset + bytes.length) ∧ Steps pass bytes := by
  obtain ⟨bytes, hb, -, hr⟩ := hc _ _ _ h
  have hs : StandsAt file offset bytes := ⟨stop.rest, hb.symm⟩
  exact ⟨bytes, hs, (Prod.mk.inj (Except.ok.inj (h.symm.trans (reads_ofOffset hr hs)))).2, Steps.of_reads hr⟩

namespace Handlers

lemma steps_skip (h : Steps (skip start) bytes) (codeStart : Nat) : Steps (skip codeStart) bytes :=
  Steps.of_reads (reads_skip h codeStart)

lemma selfDelimiting (h : Steps (skip start) bytes) (codeStart : Nat) : SelfDelimiting (skip codeStart) bytes :=
  (steps_skip h codeStart).selfDelimiting (confined_skip codeStart)

end Handlers

namespace Code

lemma WellFormed.steps_handlers {code : Code} (h : code.WellFormed) (ht : code.tries ≠ []) :
    Steps (Handlers.skip 0) code.handlers := by
  rcases h.guarded with ⟨hn, -⟩ | ⟨-, -, hs, -⟩
  · exact absurd hn ht
  · exact hs

/-- What is kept as it stands is stepped over anywhere else by as many bytes and not by fewer, so a method body that was
read is read again wherever it is written, with its debug information anywhere in the same file. -/
theorem relocatable :
    (∀ file offset stop, DebugInfo.skip (.ofOffset file offset) = .ok ((), stop) →
      ∃ bytes, StandsAt file offset bytes ∧ stop = .ofOffset file (offset + bytes.length) ∧
        SelfDelimiting DebugInfo.skip bytes) ∧
    (∀ codeStart file offset stop, Handlers.skip codeStart (.ofOffset file offset) = .ok ((), stop) →
      ∃ bytes, StandsAt file offset bytes ∧ stop = .ofOffset file (offset + bytes.length) ∧
        ∀ otherStart, SelfDelimiting (Handlers.skip otherStart) bytes) ∧
    ∀ file offset code stop, read file (.ofOffset file offset) = .ok (code, stop) →
      (∀ bytes ∈ code.debugInfo, SelfDelimiting DebugInfo.skip bytes) ∧
      (code.tries ≠ [] → ∀ codeStart, SelfDelimiting (Handlers.skip codeStart) code.handlers) ∧
      code.checkTries = .ok () ∧
      ∀ other position debugOffset, Placed other code.debugInfo debugOffset →
        StandsAt other position (code.encode debugOffset) → read other (.ofOffset other position) =
          .ok (code, .ofOffset other (position + (code.encode debugOffset).length)) := by
  refine ⟨fun file offset stop h => ?_, fun codeStart file offset stop h => ?_, fun file offset code stop h => ?_⟩
  · obtain ⟨bytes, hs, hstop, hsteps⟩ := exists_steps DebugInfo.confined_skip h
    exact ⟨bytes, hs, hstop, hsteps.selfDelimiting DebugInfo.confined_skip⟩
  · obtain ⟨bytes, hs, hstop, hsteps⟩ := exists_steps (Handlers.confined_skip codeStart) h
    exact ⟨bytes, hs, hstop, Handlers.selfDelimiting hsteps⟩
  · have hw := gives_wellFormed file _ _ _ h
    refine ⟨fun bytes hb => (hw.debugInfo bytes hb).selfDelimiting DebugInfo.confined_skip,
      fun ht => Handlers.selfDelimiting (hw.steps_handlers ht), checkTries_eq_ok_iff.mpr hw.length_tries_le, ?_⟩
    intro other position debugOffset hd hs
    have hdebug := Placing.readDebugInfo_placed hw.debugInfo hd
    exact reads_ofOffset (reads_encode_of_lt hw hdebug (gives_length file _ _ _ h)) hs

def guardedSample : Code := ⟨2, 1, 1, some [5, 0, 7, 0x0e, 0], [0, 0, 0x0e], [⟨0, 2, 1⟩], [1, 0, 2]⟩

def paddedFile : Bytes :=
  [0, 0, 0, 0] ++ [5, 0, 7, 0x0e, 0] ++ [2, 0, 1, 0, 1, 0, 1, 0, 4, 0, 0, 0, 3, 0, 0, 0, 0, 0, 0, 0, 0x0e, 0]
    ++ [0xff, 0xff] ++ [0, 0, 0, 0, 2, 0, 1, 0] ++ [1, 0, 2]

def otherFile : Bytes := List.replicate 4 0xff ++ guardedSample.encode 40 ++ [0xff] ++ [5, 0, 7, 0x0e, 0]

theorem relocatable_guardedSample :
    DebugInfo.skip (.ofOffset paddedFile 4) = .ok ((), .ofOffset paddedFile 9) ∧
    Handlers.skip 9 (.ofOffset paddedFile 41) = .ok ((), .ofOffset paddedFile 44) ∧
    read paddedFile (.ofOffset paddedFile 9) = .ok (guardedSample, .ofOffset paddedFile 44) ∧
    guardedSample.tries ≠ [] ∧ Placed otherFile guardedSample.debugInfo 40 ∧
    StandsAt otherFile 4 (guardedSample.encode 40) ∧
    (∃ bytes, StandsAt paddedFile 4 bytes ∧ SelfDelimiting DebugInfo.skip bytes) ∧
    (∃ bytes, StandsAt paddedFile 41 bytes ∧ SelfDelimiting (Handlers.skip 4) bytes) ∧
    SelfDelimiting (Handlers.skip 4) guardedSample.handlers ∧
    read otherFile (.ofOffset otherFile 4) = .ok (guardedSample, .ofOffset otherFile 39) := by
  have hdebug : DebugInfo.skip (.ofOffset paddedFile 4) = .ok ((), .ofOffset paddedFile 9) := by decide +kernel
  have hhandlers : Handlers.skip 9 (.ofOffset paddedFile 41) = .ok ((), .ofOffset paddedFile 44) := by decide +kernel
  have hread : read paddedFile (.ofOffset paddedFile 9) = .ok (guardedSample, .ofOffset paddedFile 44) := by
    decide +kernel
  have hplaced : Placed otherFile guardedSample.debugInfo 40 := ⟨by decide, by decide⟩
  have hstands : StandsAt otherFile 4 (guardedSample.encode 40) := by decide
  obtain ⟨hskip, hlist, hcode⟩ := relocatable
  obtain ⟨debugInfo, hd, -, hdelimited⟩ := hskip _ _ _ hdebug
  obtain ⟨handlers, hh, -, hany⟩ := hlist _ _ _ _ hhandlers
  obtain ⟨-, hguards, -, hagain⟩ := hcode _ _ _ _ hread
  exact ⟨hdebug, hhandlers, hread, by decide, hplaced, hstands, ⟨debugInfo, hd, hdelimited⟩, ⟨handlers, hh, hany 4⟩,
    hguards (by decide) 4, hagain _ _ _ hplaced hstands⟩

end Code

end DexUnseal.Dex
