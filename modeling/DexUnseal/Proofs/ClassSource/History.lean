import DexUnseal.Proofs.Archive.Selection
import DexUnseal.Proofs.BatchTable.Memory

/-! What becomes of a source over any history of requests, with the files changing in between. -/

namespace DexUnseal.ClassSource

open Dex

inductive Event where
  | request (name : String)
  /-- Somebody else changes the files. -/
  | change (files : FileTree)

structure Moment where
  source : ClassSource
  workspace : Workspace

namespace Moment

def outcome (x : Moment) (name : String) : Outcome (Option ClassFile) := (x.source.get name x.workspace).1.1

lemma outcome_mk (s : ClassSource) (w : Workspace) (name : String) :
    (Moment.mk s w).outcome name = (s.get name w).1.1 := rfl

def after (x : Moment) : Event → Moment
  | .request name => ⟨(x.source.get name x.workspace).1.2, (x.source.get name x.workspace).2⟩
  | .change files => ⟨x.source, { x.workspace with files }⟩

def run (x : Moment) (events : List Event) : Moment := events.foldl after x

def relocate (x : Moment) (archive : Path) : Moment := ⟨{ x.source with archive }, x.workspace⟩

/-- What a request for an accepted name does as long as the archive has not been looked through: it looks through
the archive as it is then, and keeps nothing if that fails or crashes. -/
structure Tries (x : Moment) (name : String) : Prop where
  unreadable : ∀ fault, (Archive.loadDexEntries x.source.archive x.workspace.files).1 = .error (.fault fault) →
    x.outcome name = .failure (.ofArchive fault) ∧ x.after (.request name) = x
  crashed : ∀ text, (Archive.loadDexEntries x.source.archive x.workspace.files).1 = .error (.crash text) →
    x.outcome name = .crash text ∧ x.after (.request name) = x ∧
      ∃ bytes, x.workspace.files.read x.source.archive = .ok bytes ∧ Archive.Unmarked bytes
  malformed : ∀ a before file dex after fault,
    (Archive.loadDexEntries x.source.archive x.workspace.files).1 = .ok a →
    a.dexEntries = before ++ (file, dex) :: after → (∀ p ∈ before, ∃ names, Scan.classNames p.2 = .ok names) →
    Scan.classNames dex = .error fault → x.outcome name = .failure (.dex fault) ∧ x.after (.request name) = x
  scanned : ∀ a, (Archive.loadDexEntries x.source.archive x.workspace.files).1 = .ok a →
    (∀ p ∈ a.dexEntries, ∃ names, Scan.classNames p.2 = .ok names) → ∃ t t', scan x.source.mapper a = .ok t ∧
      (x.after (.request name)).source.table? = some t' ∧ t'.Recalls t

/-- A table is kept, whatever happens later, and it no longer matters where the archive is. -/
structure Settled (x : Moment) (t : BatchTable) : Prop where
  kept : ∀ later, ∃ t', (x.run later).source.table? = some t' ∧ t'.Recalls t
  unread : ∀ archive later, (x.relocate archive).run later = (x.run later).relocate archive ∧
    ∀ name, t.contains name = true → ((x.run later).relocate archive).outcome name = (x.run later).outcome name

/-- What a request for an accepted name gives that leaves a table behind. A name that the table holds belongs to a
batch, whose work has been done, now or earlier; for another name there is no work. -/
structure Answers (x : Moment) (name : String) (t : BatchTable) : Prop where
  absent : t.contains name = false →
    x.outcome name = .failure (.illegalState (.notFound name x.source.archive.text)) ∧
      (x.after (.request name)).workspace = x.workspace ∧ ∀ t₀, x.source.table? = some t₀ → t = t₀
  found : t.contains name = true → ∃ b loaded w, t.batch? name = some b ∧ name ∈ b.names ∧
    b.holder.outcome? = some loaded ∧ loaded = .ofEnding ((b.task x.source.mapper).run w).1 ∧
      x.outcome name = loaded.map fun l => l.resolve? name

structure Steady (x : Moment) (archive : Path) (m : BatchMapper) : Prop where
  archive : x.source.archive = archive
  mapper : x.source.mapper = m
  idle : x.source.table? = none → x.workspace.loads = []
  made : ∀ t, x.source.table? = some t → t.Made m
  logged : ∀ t, x.source.table? = some t → t.Logged m x.workspace

end Moment

variable {s s' : ClassSource} {w w' : Workspace} {a : Archive} {t t' : BatchTable} {name : String} {archive : Path}
  {m : BatchMapper} {outcome : Outcome (Option ClassFile)}

lemma table_scanned (h : s.table? = some t) (files : FileTree) : s.table files = (.ok t, files) := by
  rw [table, h]
  rfl

lemma table_unscanned (h : s.table? = none) (files : FileTree) : s.table files =
    (((Archive.loadDexEntries s.archive files).1.mapError (Stop.map Failure.ofArchive) >>= fun a =>
      (scan s.mapper a).mapError fun fault => .fault (.dex fault)), files) := by
  refine Prod.ext ?_ (readOnly_table s files)
  rw [table, h]
  simp only [Bind.bind, ExceptT.bind, ExceptT.mk, StateT.bind, filing_adapt]
  rcases Archive.loadDexEntries s.archive files with ⟨_ | a, files₁⟩
  · rfl
  · rfl

lemma scan_error {before after : List (String × Bytes)} {file : String} {dex : Bytes} {fault : Fault}
    (he : a.dexEntries = before ++ (file, dex) :: after)
    (hb : ∀ p ∈ before, ∃ names, Scan.classNames p.2 = .ok names) (hf : Scan.classNames dex = .error fault) :
    scan m a = .error fault := by
  obtain ⟨t, ht⟩ := BatchTable.exists_foldlM (m := m) hb .empty
  have hmap : m.map ⟨file, dex⟩ t = .error fault := by
    rw [BatchMapper.map, hf]
    rfl
  change a.dexEntries.foldlM (fun table p => m.map ⟨p.1, p.2⟩ table) .empty = .error fault
  rw [he, List.foldlM_append, ht, except_ok_bind, List.foldlM_cons, hmap]
  rfl

lemma mapped_scan (h : scan m a = .ok t) : ∃ declared, t.Mapped m a.dexEntries declared := by
  obtain ⟨declared, hd⟩ := (BatchTable.Mapped.empty m).foldlM h
  exact ⟨declared, hd⟩

namespace Moment

variable {x : Moment}

lemma Steady.table (h : x.Steady archive m) (ht : x.source.table x.workspace.files = (.ok t, x.workspace.files)) :
    t.Made m ∧ t.Logged m x.workspace ∧ ∀ t₀, x.source.table? = some t₀ → t = t₀ := by
  cases hs : x.source.table? with
  | some known =>
    rw [table_scanned hs] at ht
    cases ht
    exact ⟨h.made t hs, h.logged t hs, fun t₀ h₀ => Option.some.inj h₀⟩
  | none =>
    rw [table_unscanned hs] at ht
    obtain ⟨a, -, hscan⟩ := except_bind_ok.mp (Prod.ext_iff.mp ht).1
    rw [except_mapError_ok, h.mapper] at hscan
    obtain ⟨declared, hm⟩ := mapped_scan hscan
    exact ⟨⟨t, hm.complete, rfl⟩, hm.logged (h.idle hs), fun t₀ h₀ => nomatch h₀⟩

lemma request_failed {stop : Stop Failure} (ha : x.source.mapper.filter.accepts name = true)
    (ht : (x.source.table x.workspace.files).1 = .error stop) :
    x.outcome name = .ofStop stop ∧ x.after (.request name) = x := by
  have hg := get_failed ha (Prod.ext ht (readOnly_table x.source x.workspace.files))
  rw [outcome, after, hg]
  exact ⟨rfl, rfl⟩

lemma Steady.request_ok (h : x.Steady archive m) (ha : m.filter.accepts name = true)
    (ht : x.source.table x.workspace.files = (.ok t, x.workspace.files)) :
    (x.after (.request name)).Steady archive m ∧
      ∃ t', (x.after (.request name)).source.table? = some t' ∧ t'.Recalls t ∧ x.Answers name t' := by
  obtain ⟨hmade, hlogged, hsame⟩ := h.table ht
  have ha' : x.source.mapper.filter.accepts name = true := h.mapper ▸ ha
  cases hb : t.batch? name with
  | none =>
    have hg := get_absent ha' ht hb
    have hafter : x.after (.request name) = ⟨{ x.source with table? := some t }, x.workspace⟩ := by rw [after, hg]
    rw [hafter]
    refine ⟨⟨h.archive, h.mapper, fun hn => (nomatch hn), fun t' ht' => ?_, fun t' ht' => ?_⟩, t, rfl, .refl t, ?_⟩
    · exact Option.some.inj ht' ▸ hmade
    · exact Option.some.inj ht' ▸ hlogged
    · refine ⟨fun _ => ⟨by rw [outcome, hg], by rw [hafter], hsame⟩, fun hn => ?_⟩
      obtain ⟨b, hb'⟩ := hmade.leads hn
      rw [hb] at hb'
      cases hb'
  | some b =>
    rcases hm : t.materialize b x.workspace with ⟨⟨loaded, t'⟩, w'⟩
    have hg := get_found ha' ht hb hm
    have hafter : x.after (.request name) = ⟨{ x.source with table? := some t' }, w'⟩ := by rw [after, hg]
    -- the work may end in a failure or a panic, and is known either way
    obtain ⟨hlogged', hrecalls, hknown⟩ :=
      hlogged.work (BatchTable.mem_of_batch? hb) (BatchTable.work_materialize hm)
    have hmade' := hmade.recalls hrecalls
    obtain ⟨b', hb', hi⟩ := hrecalls.leads hb
    rw [hafter]
    refine ⟨⟨h.archive, h.mapper, fun hn => (nomatch hn), fun t₁ h₁ => ?_, fun t₁ h₁ => ?_⟩, t', rfl, hrecalls, ?_⟩
    · exact Option.some.inj h₁ ▸ hmade'
    · exact Option.some.inj h₁ ▸ hlogged'
    · refine ⟨fun hn => ?_, fun _ => ?_⟩
      · rw [BatchTable.contains_of_batch? hb'] at hn
        cases hn
      · have hmem := BatchTable.mem_of_batch? hb'
        have ho : b'.holder.outcome? = some loaded := by rw [← hlogged'.numbered.outcome?_eq hmem, hi, hknown]
        obtain ⟨w₀, hw₀⟩ := hlogged'.ran b' hmem loaded ho
        exact ⟨b', loaded, w₀, hb', hmade'.mem_names hb', ho, h.mapper ▸ hw₀, by rw [outcome, hg]⟩

theorem Steady.request (h : x.Steady archive m) (name : String) :
    (x.after (.request name)).Steady archive m ∧
      (∀ t, x.source.table? = some t → ∃ t', (x.after (.request name)).source.table? = some t' ∧ t'.Recalls t) ∧
      (m.filter.accepts name = true → ∀ t, (x.after (.request name)).source.table? = some t → x.Answers name t) := by
  cases ha : m.filter.accepts name with
  | false =>
    have hafter : x.after (.request name) = x := by rw [after, get_rejected (h.mapper ▸ ha)]
    rw [hafter]
    exact ⟨h, fun t ht => ⟨t, ht, .refl t⟩, fun hn => nomatch hn⟩
  | true =>
    rcases ht : (x.source.table x.workspace.files).1 with stop | t
    · obtain ⟨-, hafter⟩ := request_failed (h.mapper ▸ ha) ht
      rw [hafter]
      refine ⟨h, fun t ht => ⟨t, ht, .refl t⟩, fun _ t hs => ?_⟩
      rw [table_scanned hs] at ht
      cases ht
    · obtain ⟨hsteady, t', ht', hrecalls, hanswers⟩ :=
        h.request_ok ha (Prod.ext ht (readOnly_table x.source x.workspace.files))
      refine ⟨hsteady, fun t₀ h₀ => ⟨t', ht', ?_⟩, fun _ t₁ h₁ => ?_⟩
      · rw [table_scanned h₀] at ht
        exact Except.ok.inj ht ▸ hrecalls
      · rw [ht'] at h₁
        exact Option.some.inj h₁ ▸ hanswers

theorem Steady.after (h : x.Steady archive m) (event : Event) : (x.after event).Steady archive m ∧
    ∀ t, x.source.table? = some t → ∃ t', (x.after event).source.table? = some t' ∧ t'.Recalls t := by
  cases event with
  | request name => exact ⟨(h.request name).1, (h.request name).2.1⟩
  | change files =>
    refine ⟨⟨h.archive, h.mapper, h.idle, h.made, fun t ht => ?_⟩, fun t ht => ⟨t, ht, .refl t⟩⟩
    obtain ⟨hn, hj, hran, hl⟩ := h.logged t ht
    exact ⟨hn, hj, hran, hl⟩

theorem Steady.run (h : x.Steady archive m) (events : List Event) : (x.run events).Steady archive m ∧
    ∀ t, x.source.table? = some t → ∃ t', (x.run events).source.table? = some t' ∧ t'.Recalls t := by
  induction events generalizing x with
  | nil => exact ⟨h, fun t ht => ⟨t, ht, .refl t⟩⟩
  | cons event events ih =>
    obtain ⟨ha, hkeeps⟩ := h.after event
    obtain ⟨hr, hkeeps'⟩ := ih ha
    refine ⟨hr, fun t ht => ?_⟩
    obtain ⟨t₁, h₁, hrecalls⟩ := hkeeps t ht
    obtain ⟨t₂, h₂, hrecalls'⟩ := hkeeps' t₁ h₁
    exact ⟨t₂, h₂, hrecalls'.trans hrecalls⟩

lemma steady_start (archive : Path) (m : BatchMapper) (files : FileTree) :
    Steady ⟨⟨archive, m, none⟩, ⟨files, []⟩⟩ archive m :=
  ⟨rfl, rfl, fun _ => rfl, fun _ ht => (nomatch ht), fun _ ht => nomatch ht⟩

theorem Steady.tries (h : x.Steady archive m) (ha : m.filter.accepts name = true) (hs : x.source.table? = none) :
    x.Tries name := by
  have ha' : x.source.mapper.filter.accepts name = true := h.mapper ▸ ha
  have ht := congrArg Prod.fst (table_unscanned hs x.workspace.files)
  have hstop (stop : Stop Archive.Fault)
      (hload : (Archive.loadDexEntries x.source.archive x.workspace.files).1 = .error stop) :
      x.outcome name = .ofStop (stop.map .ofArchive) ∧ x.after (.request name) = x :=
    request_failed ha' (by rw [ht, hload]; rfl)
  refine ⟨fun fault => hstop (.fault fault), fun text hload => ?_,
    fun a before file dex after fault hload he hb hf => ?_, fun a hload hscan => ?_⟩
  · obtain ⟨ho, hafter⟩ := hstop (.crash text) hload
    exact ⟨ho, hafter, Archive.unmarked_of_crash hload⟩
  · have htable : (x.source.table x.workspace.files).1 = .error (.fault (.dex fault)) := by
      rw [ht, hload, Except.mapError, except_ok_bind, scan_error he hb hf]
      rfl
    exact request_failed ha' htable
  · obtain ⟨t, hscan⟩ := BatchTable.exists_foldlM (m := x.source.mapper) hscan .empty
    have htable : x.source.table x.workspace.files = (.ok t, x.workspace.files) := by
      refine Prod.ext ?_ (readOnly_table x.source x.workspace.files)
      rw [ht, hload, Except.mapError, except_ok_bind]
      exact except_mapError_ok.mpr hscan
    obtain ⟨-, t', ht', hrecalls, -⟩ := h.request_ok ha htable
    exact ⟨t, t', hscan, ht', hrecalls⟩

lemma relocate_request (ht : x.source.table? = some t) (archive : Path) (name : String) :
    (x.relocate archive).after (.request name) = (x.after (.request name)).relocate archive ∧
      (t.contains name = true → t.Made m → (x.relocate archive).outcome name = x.outcome name) := by
  have ht' : (x.relocate archive).source.table? = some t := ht
  cases ha : x.source.mapper.filter.accepts name with
  | false =>
    have ha' : (x.relocate archive).source.mapper.filter.accepts name = false := ha
    rw [after, after, outcome, outcome, get_rejected ha, get_rejected ha']
    exact ⟨rfl, fun _ _ => rfl⟩
  | true =>
    have ha' : (x.relocate archive).source.mapper.filter.accepts name = true := ha
    cases hb : t.batch? name with
    | none =>
      rw [after, after, get_absent ha (table_scanned ht _) hb, get_absent ha' (table_scanned ht' _) hb]
      refine ⟨rfl, fun hn hmade => ?_⟩
      obtain ⟨b, hb'⟩ := hmade.leads hn
      rw [hb] at hb'
      cases hb'
    | some b =>
      rcases hm : t.materialize b x.workspace with ⟨⟨loaded, t'⟩, w'⟩
      have hm' : t.materialize b (x.relocate archive).workspace = ((loaded, t'), w') := hm
      rw [after, after, outcome, outcome, get_found ha (table_scanned ht _) hb hm,
        get_found ha' (table_scanned ht' _) hb hm']
      exact ⟨rfl, fun _ _ => rfl⟩

lemma Steady.relocate_run (h : x.Steady archive m) (ht : x.source.table? = some t) (elsewhere : Path)
    (events : List Event) : (x.relocate elsewhere).run events = (x.run events).relocate elsewhere := by
  induction events generalizing x t with
  | nil => rfl
  | cons event events ih =>
    obtain ⟨ha, hkeeps⟩ := h.after event
    obtain ⟨t', ht', -⟩ := hkeeps t ht
    have hone : (x.relocate elsewhere).after event = (x.after event).relocate elsewhere := by
      cases event with
      | request name => exact (relocate_request (m := m) ht elsewhere name).1
      | change files => rfl
    change ((x.relocate elsewhere).after event).run events = _
    rw [hone]
    exact ih ha ht'

theorem Steady.settled (h : x.Steady archive m) (ht : x.source.table? = some t) : x.Settled t := by
  refine ⟨fun later => (h.run later).2 t ht, fun elsewhere later => ⟨h.relocate_run ht elsewhere later, ?_⟩⟩
  intro name hn
  obtain ⟨hrun, hkeeps⟩ := h.run later
  obtain ⟨t', ht', hrecalls⟩ := hkeeps t ht
  obtain ⟨b, hb⟩ := (h.made t ht).leads hn
  obtain ⟨b', hb', -⟩ := hrecalls.leads hb
  exact (relocate_request ht' elsewhere name).2 (BatchTable.contains_of_batch? hb') (hrun.made t' ht')

lemma Steady.loadsOf_le (h : x.Steady archive m) (index : Nat) : x.workspace.loadsOf m.layout index ≤ 1 := by
  cases hs : x.source.table? with
  | none =>
    rw [Workspace.loadsOf, h.idle hs, List.countP_nil]
    exact Nat.zero_le 1
  | some t => exact Nat.le_trans ((h.logged t hs).loads index) (Bool.toNat_le _)

lemma Steady.recalled {b : Batch} (h : x.Steady archive m) (ha : m.filter.accepts name = true)
    (ht : (x.after (.request name)).source.table? = some t) (hb : t.batch? name = some b) (later : List Event) :
    ∃ t' loaded, ((x.after (.request name)).run later).source.table? = some t' ∧
      t'.outcome? b.index = some loaded ∧ x.outcome name = loaded.map fun l => l.resolve? name := by
  obtain ⟨hafter, -, hanswers⟩ := h.request name
  obtain ⟨b', loaded, -, hb', -, ho, -, hg⟩ := (hanswers ha t ht).found (BatchTable.contains_of_batch? hb)
  obtain rfl := Option.some.inj (hb.symm.trans hb')
  have hknown := (hafter.logged t ht).numbered.outcome?_eq (BatchTable.mem_of_batch? hb)
  obtain ⟨t', ht', hrecalls⟩ := (hafter.run later).2 t ht
  exact ⟨t', loaded, ht', hrecalls.outcome b.index loaded (hknown.trans ho), hg⟩

end Moment

open Moment in
/-- Over any history, with files that others change in between and with any loader: a rejected name is left alone;
as long as there is no table, every request for an accepted name tries to make one, and keeps nothing if that fails or
crashes; a table stays, and the archive plays no role any more; a name that is not in the table is not found, any other
one gives what the work on its batch came to; and a batch is loaded at most once, so that all requests for its names see
one outcome. -/
theorem get_history (archive : Path) (m : BatchMapper) (files : FileTree) (events : List Event) :
    let start : Moment := ⟨⟨archive, m, none⟩, ⟨files, []⟩⟩
    let x := start.run events
    x.source.archive = archive ∧ x.source.mapper = m ∧
      (∀ name, m.filter.accepts name = false → ∀ w, x.source.get name w = ((.value none, x.source), w)) ∧
      (∀ name, m.filter.accepts name = true → x.source.table? = none → x.Tries name) ∧
      (∀ t, x.source.table? = some t → x.Settled t) ∧
      (∀ name t, m.filter.accepts name = true → (x.after (.request name)).source.table? = some t →
        x.Answers name t) ∧
      (∀ index, x.workspace.loadsOf m.layout index ≤ 1) ∧
      ∃ loaded : Nat → Outcome Loaded, ∀ before name after t b, events = before ++ .request name :: after →
        m.filter.accepts name = true → ((start.run before).after (.request name)).source.table? = some t →
        t.batch? name = some b →
          (start.run before).outcome name = (loaded b.index).map fun l => l.resolve? name := by
  intro start x
  have hx : x.Steady archive m := ((steady_start archive m files).run events).1
  refine ⟨hx.archive, hx.mapper, fun name ha w => get_rejected (hx.mapper ▸ ha) w, fun name => hx.tries,
    fun t => hx.settled, fun name t ha => (hx.request name).2.2 ha t, hx.loadsOf_le, ?_⟩
  -- nothing is forgotten on the way, so what is known at the end explains all answers
  refine ⟨fun index => (x.source.table?.bind fun t => t.outcome? index).getD (.crash ""), ?_⟩
  intro before name after t b he ha ht hb
  have hbefore : (start.run before).Steady archive m := ((steady_start archive m files).run before).1
  obtain ⟨t', loaded, ht', hknown, hg⟩ := hbefore.recalled ha ht hb after
  have hrun : x = ((start.run before).after (.request name)).run after := by
    change start.run events = _
    rw [he, Moment.run, List.foldl_append]
    rfl
  rw [← hrun] at ht'
  simp only [hg, ht', Option.bind_some, hknown, Option.getD_some]

def sampleMissing : Moment := ⟨⟨⟨"/app.apk"⟩, sampleSource.mapper, none⟩, ⟨.empty, []⟩⟩

def sampleFound : Moment := ⟨sampleSource, ⟨sampleFiles, []⟩⟩

theorem get_history_sample : sampleMissing.outcome "p.A" = .failure (.io (.ofSystem .notFound)) ∧
    sampleMissing.run [.request "p.A", .change sampleFiles] = sampleFound ∧
    ∃ t b loaded f, (sampleFound.after (.request "p.A")).source.table? = some t ∧ t.batch? "p.A" = some b ∧
      b.holder.outcome? = some loaded ∧ sampleFound.outcome "p.A" = loaded.map (fun l => l.resolve? "p.A") ∧
      sampleFound.outcome "p.A" = .value (some f) ∧
      (sampleFound.after (.request "p.A")).workspace.loadsOf sampleLayout 1 ≤ 1 := by
  have ha : sampleSource.mapper.filter.accepts "p.A" = true := by decide
  obtain ⟨-, -, -, htries, -⟩ := get_history ⟨"/app.apk"⟩ sampleSource.mapper .empty []
  obtain ⟨hfailed, hkept⟩ := (htries "p.A" ha rfl).unreadable (.io (.ofSystem .notFound)) rfl
  have hkept : sampleMissing.after (.request "p.A") = sampleMissing := hkept
  have hchanged : sampleMissing.after (.change sampleFiles) = sampleFound := rfl
  have hfound : sampleMissing.run [.request "p.A", .change sampleFiles] = sampleFound := by
    rw [Moment.run, List.foldl_cons, hkept, List.foldl_cons, hchanged, List.foldl_nil]
  have hagain : sampleMissing.run [.request "p.A", .change sampleFiles, .request "p.A"] =
      sampleFound.after (.request "p.A") := by
    rw [Moment.run, List.foldl_cons, hkept, List.foldl_cons, hchanged, List.foldl_cons, List.foldl_nil]
  obtain ⟨-, -, -, htries, -, hanswers, -⟩ :=
    get_history ⟨"/app.apk"⟩ sampleSource.mapper .empty [.request "p.A", .change sampleFiles]
  obtain ⟨-, -, -, -, -, -, hloads, -⟩ :=
    get_history ⟨"/app.apk"⟩ sampleSource.mapper .empty [.request "p.A", .change sampleFiles, .request "p.A"]
  rw [← sampleMissing] at htries hanswers hloads
  rw [hfound] at htries hanswers
  rw [hagain] at hloads
  have hload :
      (Archive.loadDexEntries sampleFound.source.archive sampleFound.workspace.files).1 = .ok sampleArchive :=
    congrArg Prod.fst (loadDexEntries_appFiles overhead_sample)
  obtain ⟨-, t, -, ht, -⟩ := (htries "p.A" ha rfl).scanned _ hload (scannable_appArchive classNames_sample)
  obtain ⟨f, hf⟩ := get_sample
  have hf : sampleFound.outcome "p.A" = .value (some f) := by
    rw [sampleFound, Moment.outcome_mk, hf]
  have hanswer := hanswers "p.A" t ha ht
  cases hn : t.contains "p.A" with
  | false => cases hf.symm.trans (hanswer.absent hn).1
  | true =>
    obtain ⟨b, loaded, -, hb, -, ho, -, houtcome⟩ := hanswer.found hn
    exact ⟨hfailed, hfound, t, b, loaded, f, ht, hb, ho, houtcome, hf, hloads 1⟩

/-- Nothing is returned of an archive that cannot be opened for this reason. -/
theorem unmarked_crashes :
    let x : Moment := ⟨sampleSource, ⟨⟨[(["app.apk"], .file Archive.unmarkedFile)]⟩, []⟩⟩
    sampleSource.mapper.filter.accepts "p.A" = true ∧ sampleSource.table? = none ∧
      (∀ a, (Archive.loadDexEntries sampleSource.archive x.workspace.files).1 ≠ .ok a) ∧
      ∀ failure, x.outcome "p.A" ≠ .failure failure := by
  intro x
  have hload : (Archive.loadDexEntries sampleSource.archive x.workspace.files).1 =
      .error (.crash Archive.Listing.passwordCrash) :=
    Archive.readFile_crash.mpr ⟨_, rfl, Archive.decodeDexEntries_unmarkedFile⟩
  have hx := Moment.steady_start ⟨"/app.apk"⟩ sampleSource.mapper x.workspace.files
  have ha : sampleSource.mapper.filter.accepts "p.A" = true := by decide
  refine ⟨ha, rfl, fun a ha => ?_, fun failure hf => ?_⟩
  · rw [hload] at ha
    cases ha
  · obtain ⟨ho, -⟩ := (hx.tries ha rfl).crashed _ hload
    cases hf.symm.trans ho

end DexUnseal.ClassSource
