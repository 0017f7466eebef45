import DexUnseal.Cache.Session
import DexUnseal.Proofs.Cache.Claims
import Mathlib.Data.List.Perm.Basic

/-! The claims of a process are the directories of its layouts, and no two calls get the same one. -/

namespace DexUnseal.Cache

lemma perm_eraseIdx {α : Type} {xs : List α} {number : Nat} {x : α} (h : xs[number]? = some x) :
    xs.Perm (x :: xs.eraseIdx number) := by
  obtain ⟨hlt, rfl⟩ := List.getElem?_eq_some_iff.mp h
  exact (List.getElem_cons_eraseIdx_perm hlt).symm

namespace Session

def holders (s : Session) (dir : Path) : Nat := s.live.countP fun hold => hold.dir.same dir

def holds (s : Session) : List Hold := s.live ++ s.leaving

structure Consistent (s : Session) : Prop where
  counted : ∀ claim ∈ s.claims.claims, claim.holders = s.holders claim.dir
  claimed : ∀ dir, s.claims.contains dir = true ↔ ∃ hold ∈ s.holds, hold.dir.same dir = true
  calls : ∀ hold ∈ s.holds, hold.call < s.calls
  apart : ∀ a ∈ s.holds, ∀ b ∈ s.holds, a.dir.same b.dir = true ↔ a.call = b.call
  gone : ∀ hold ∈ s.leaving, s.holders hold.dir = 0
  once : s.leaving.Pairwise fun a b => a.dir.same b.dir = false

variable {s : Session} {number : Nat} {hold other : Hold} {dir base : Path}

lemma countP_congr_same {d : Path} (live : List Hold) (h : dir.same d = true) :
    live.countP (fun hold => hold.dir.same dir) = live.countP fun hold => hold.dir.same d := by
  have hp : (fun hold : Hold => hold.dir.same dir) = fun hold => hold.dir.same d := by
    funext hold
    rw [Path.same_comm, Path.same_congr h, Path.same_comm]
  rw [hp]

lemma holders_eq_zero : s.holders dir = 0 ↔ ∀ hold ∈ s.live, hold.dir.same dir = false := by
  simp only [holders, List.countP_eq_zero, Bool.not_eq_true]

lemma Consistent.empty : Session.empty.Consistent :=
  ⟨fun _ h => (nomatch h), fun dir => by simp [Session.empty, holds, Claims.contains, Claims.empty],
    fun _ h => (nomatch h), fun _ h => (nomatch h), fun _ h => (nomatch h), .nil⟩

lemma Consistent.apart_of_free (h : s.Consistent) (hf : s.claims.contains dir = false) (hm : hold ∈ s.holds) :
    hold.dir.same dir = false := by
  by_contra hs
  rw [(h.claimed dir).mpr ⟨hold, hm, Bool.eq_true_of_not_eq_false hs⟩] at hf
  cases hf

lemma mem_live (h : hold ∈ s.live) : hold ∈ s.holds := List.mem_append_left _ h

lemma mem_leaving (h : hold ∈ s.leaving) : hold ∈ s.holds := List.mem_append_right _ h

lemma countP_concat (live : List Hold) (hold : Hold) (dir : Path) :
    (live ++ [hold]).countP (fun other => other.dir.same dir) =
      live.countP (fun other => other.dir.same dir) + if hold.dir.same dir then 1 else 0 := by
  rw [List.countP_append, List.countP_singleton]

def claiming (s : Session) (dir : Path) : Session :=
  ⟨⟨⟨dir, 1⟩ :: s.claims.claims⟩, s.calls + 1, s.live ++ [⟨s.calls, ⟨dir⟩⟩], s.leaving⟩

lemma mem_claiming : hold ∈ (s.claiming dir).holds ↔ hold ∈ s.holds ∨ hold = ⟨s.calls, ⟨dir⟩⟩ := by
  simp only [claiming, holds, List.mem_append, List.mem_singleton]
  tauto

lemma holders_claiming (d : Path) : (s.claiming dir).holders d = s.holders d + if dir.same d then 1 else 0 :=
  countP_concat s.live ⟨s.calls, ⟨dir⟩⟩ d

lemma Consistent.claiming (h : s.Consistent) (hf : s.claims.contains dir = false) : (s.claiming dir).Consistent := by
  have hold_ne (hold : Hold) (hm : hold ∈ s.holds) : hold.dir.same dir = false := h.apart_of_free hf hm
  have ne_hold (hold : Hold) (hm : hold ∈ s.holds) : dir.same hold.dir = false := by
    rw [Path.same_comm, hold_ne hold hm]
  have hcontains (d : Path) : (s.claiming dir).claims.contains d = true ↔
      dir.same d = true ∨ s.claims.contains d = true := by
    rw [Session.claiming, Claims.contains, List.any_cons, Bool.or_eq_true, Claims.contains]
  refine ⟨fun claim hc => ?_, fun d => ?_, fun hold hm => ?_, fun a ha b hb => ?_, fun hold hm => ?_, h.once⟩
  · rw [holders_claiming]
    rcases List.mem_cons.mp hc with rfl | hc
    · have hnone : s.holders dir = 0 := holders_eq_zero.mpr fun hold hm => hold_ne hold (mem_live hm)
      rw [hnone, if_pos (Path.same_refl dir)]
    · have hne : dir.same claim.dir = false := by
        by_contra he
        rw [Path.same_comm] at he
        rw [Claims.contains_iff.mpr ⟨claim, hc, Bool.eq_true_of_not_eq_false he⟩] at hf
        cases hf
      rw [h.counted claim hc, hne]
      rfl
  · rw [hcontains, h.claimed]
    constructor
    · rintro (he | ⟨hold, hm, he⟩)
      · exact ⟨_, mem_claiming.mpr (.inr rfl), he⟩
      · exact ⟨hold, mem_claiming.mpr (.inl hm), he⟩
    · rintro ⟨hold, hm, he⟩
      rcases mem_claiming.mp hm with hm | rfl
      · exact .inr ⟨hold, hm, he⟩
      · exact .inl he
  · rcases mem_claiming.mp hm with hm | rfl
    · exact Nat.lt_succ_of_lt (h.calls hold hm)
    · exact Nat.lt_succ_self _
  · rcases mem_claiming.mp ha with ha | rfl <;> rcases mem_claiming.mp hb with hb | rfl
    · exact h.apart a ha b hb
    · exact iff_of_false (ne_true_of_eq_false (hold_ne a ha)) (Nat.ne_of_lt (h.calls a ha))
    · exact iff_of_false (ne_true_of_eq_false (ne_hold b hb)) (Nat.ne_of_gt (h.calls b hb))
    · exact iff_of_true (Path.same_refl _) rfl
  · rw [holders_claiming, h.gone hold hm, ne_hold hold (mem_leaving hm)]
    rfl

lemma Consistent.openArchive (h : s.Consistent) (files : FileTree) (cacheDir archive : Path) :
    (s.openArchive files cacheDir archive).Consistent :=
  h.claiming (Claims.contains_firstFree s.claims (Layout.baseDir files cacheDir archive))

lemma Consistent.clone (h : s.Consistent) (number : Nat) : (s.clone number).Consistent := by
  rw [Session.clone]
  split
  · exact h
  rename_i hold hn
  have hl : hold ∈ s.live := List.mem_of_getElem? hn
  have hmem (other : Hold) : other ∈ (s.live ++ [hold]) ++ s.leaving ↔ other ∈ s.holds := by
    simp only [holds, List.mem_append, List.mem_singleton]
    constructor
    · rintro ((hm | rfl) | hm)
      · exact .inl hm
      · exact .inl hl
      · exact .inr hm
    · exact Or.imp_left .inl
  refine ⟨fun claim hc => ?_, fun d => ?_, fun other hm => ?_, fun a ha b hb => ?_, fun other hm => ?_, h.once⟩
  · obtain ⟨old, ho, hd, hh⟩ := Claims.exists_of_mem_retain hc
    rw [hd, hh, holders, countP_concat, h.counted old ho, holders]
  · rw [Claims.contains_retain, h.claimed]
    exact exists_congr fun other => and_congr_left' (hmem other).symm
  · exact h.calls other ((hmem other).mp hm)
  · exact h.apart a ((hmem a).mp ha) b ((hmem b).mp hb)
  · rw [holders, countP_concat, ← holders, h.gone other hm, holders_eq_zero.mp (h.gone other hm) hold hl]
    rfl

lemma Consistent.counted_lower (h : s.Consistent) (hn : s.live[number]? = some hold) :
    ∀ claim ∈ (s.claims.lower hold.dir).claims,
      claim.holders = (s.live.eraseIdx number).countP fun other => other.dir.same claim.dir := by
  intro claim hc
  obtain ⟨old, ho, hd, hh⟩ := Claims.exists_of_mem_lower hc
  have hcount : s.holders old.dir = (s.live.eraseIdx number).countP (fun other => other.dir.same old.dir) +
      if hold.dir.same old.dir then 1 else 0 := by
    rw [holders, (perm_eraseIdx hn).countP_eq, List.countP_cons]
  rw [hd, hh, h.counted old ho, hcount, Nat.add_sub_cancel]

lemma Consistent.contains_live (h : s.Consistent) (hn : s.live[number]? = some hold) :
    s.claims.contains hold.dir = true :=
  (h.claimed hold.dir).mpr ⟨hold, mem_live (List.mem_of_getElem? hn), Path.same_refl _⟩

lemma Consistent.isHeld_lower (h : s.Consistent) (hn : s.live[number]? = some hold) :
    (s.claims.lower hold.dir).isHeld hold.dir = true ↔
      ∃ other ∈ s.live.eraseIdx number, other.dir.same hold.dir = true := by
  have hd : (s.claims.lower hold.dir).contains hold.dir = true := by
    rw [Claims.contains_lower, h.contains_live hn]
  rw [Claims.isHeld_iff (h.counted_lower hn) (fun p hp => countP_congr_same _ hp) hd, ← Nat.pos_iff_ne_zero,
    List.countP_pos_iff]

lemma mem_holds_iff (hn : s.live[number]? = some hold) :
    other ∈ s.holds ↔ other = hold ∨ other ∈ s.live.eraseIdx number ∨ other ∈ s.leaving := by
  rw [holds, List.mem_append, (perm_eraseIdx hn).mem_iff, List.mem_cons, or_assoc]

lemma Consistent.drop (h : s.Consistent) (number : Nat) : (s.drop number).Consistent := by
  rw [Session.drop]
  split
  · exact h
  rename_i hold hn
  have hl : hold ∈ s.live := List.mem_of_getElem? hn
  have hgone (other : Hold) (hm : other ∈ s.leaving) : (s.live.eraseIdx number).countP
      (fun hold => hold.dir.same other.dir) = 0 := by
    have hz := h.gone other hm
    rw [holders, (perm_eraseIdx hn).countP_eq, List.countP_cons] at hz
    omega
  by_cases hh : (s.claims.lower hold.dir).isHeld hold.dir = true
  · -- Another layout of the directory is left, and stands for the one that is dropped.
    simp only [hh, if_true]
    have hsub (other : Hold) (hm : other ∈ s.live.eraseIdx number ++ s.leaving) : other ∈ s.holds :=
      (mem_holds_iff hn).mpr (.inr (List.mem_append.mp hm))
    refine ⟨h.counted_lower hn, fun d => ?_, fun other hm => h.calls other (hsub other hm),
      fun a ha b hb => h.apart a (hsub a ha) b (hsub b hb), hgone, h.once⟩
    rw [Claims.contains_lower, h.claimed]
    constructor
    · rintro ⟨other, hm, hd⟩
      rcases (mem_holds_iff hn).mp hm with rfl | hm
      · obtain ⟨clone, hc, he⟩ := (h.isHeld_lower hn).mp hh
        exact ⟨clone, List.mem_append_left _ hc, by rw [Path.same_congr he, hd]⟩
      · exact ⟨other, List.mem_append.mpr hm, hd⟩
    · rintro ⟨other, hm, hd⟩
      exact ⟨other, hsub other hm, hd⟩
  · -- Nobody else holds the directory, so the one that is dropped keeps it until it is free.
    have hnone := mt (h.isHeld_lower hn).mpr hh
    simp only [hh]
    have hmem (other : Hold) : other ∈ s.live.eraseIdx number ++ (s.leaving ++ [hold]) ↔ other ∈ s.holds := by
      simp only [mem_holds_iff hn, List.mem_append, List.mem_singleton]
      tauto
    refine ⟨h.counted_lower hn, fun d => ?_, fun other hm => h.calls other ((hmem other).mp hm),
      fun a ha b hb => h.apart a ((hmem a).mp ha) b ((hmem b).mp hb), fun other hm => ?_, ?_⟩
    · rw [Claims.contains_lower, h.claimed]
      exact exists_congr fun other => and_congr_left' (hmem other).symm
    · rcases List.mem_append.mp hm with hm | hm
      · exact hgone other hm
      · obtain rfl := List.mem_singleton.mp hm
        rw [holders, List.countP_eq_zero]
        exact fun clone hc he => hnone ⟨clone, hc, he⟩
    · refine List.pairwise_append.mpr ⟨h.once, List.pairwise_singleton _ _, fun a ha b hb => ?_⟩
      obtain rfl := List.mem_singleton.mp hb
      rw [Path.same_comm]
      exact holders_eq_zero.mp (h.gone a ha) b hl

lemma Consistent.free (h : s.Consistent) (number : Nat) : (s.free number).Consistent := by
  rw [Session.free]
  split
  · exact h
  rename_i hold hn
  have hm : hold ∈ s.leaving := List.mem_of_getElem? hn
  have hsub (other : Hold) (ho : other ∈ s.live ++ s.leaving.eraseIdx number) : other ∈ s.holds := by
    rcases List.mem_append.mp ho with ho | ho
    · exact mem_live ho
    · exact mem_leaving (List.mem_of_mem_eraseIdx ho)
  have hne (other : Hold) (ho : other ∈ s.live ++ s.leaving.eraseIdx number) : hold.dir.same other.dir = false := by
    rcases List.mem_append.mp ho with ho | ho
    · rw [Path.same_comm]
      exact holders_eq_zero.mp (h.gone hold hm) other ho
    · have hp : (hold :: s.leaving.eraseIdx number).Pairwise fun a b => a.dir.same b.dir = false :=
        (perm_eraseIdx hn).pairwise h.once fun {a b} hab => by rw [Path.same_comm, hab]
      exact (List.pairwise_cons.mp hp).1 other ho
  refine ⟨fun claim hc => h.counted claim (List.mem_filter.mp hc).1, fun d => ?_,
    fun other ho => h.calls other (hsub other ho), fun a ha b hb => h.apart a (hsub a ha) b (hsub b hb),
    fun other ho => h.gone other (List.mem_of_mem_eraseIdx ho), h.once.sublist (List.eraseIdx_sublist _ _)⟩
  rw [Claims.contains_free, h.claimed]
  constructor
  · rintro ⟨⟨other, ho, hd⟩, hf⟩
    refine ⟨other, ?_, hd⟩
    rcases List.mem_append.mp ho with ho | ho
    · exact List.mem_append_left _ ho
    · rcases List.mem_cons.mp ((perm_eraseIdx hn).mem_iff.mp ho) with rfl | ho
      · rw [hf] at hd
        cases hd
      · exact List.mem_append_right _ ho
  · rintro ⟨other, ho, hd⟩
    refine ⟨⟨other, hsub other ho, hd⟩, ?_⟩
    rw [Path.same_comm, ← Path.same_congr hd, Path.same_comm, hne other ho]

theorem Consistent.apply (h : s.Consistent) (event : Event) : (s.apply event).Consistent := by
  cases event with
  | openArchive files cacheDir archive => exact h.openArchive files cacheDir archive
  | clone number => exact h.clone number
  | drop number => exact h.drop number
  | free number => exact h.free number

theorem Consistent.run (h : s.Consistent) (events : List Event) : (s.run events).Consistent := by
  induction events generalizing s with
  | nil => exact h
  | cons event events ih => exact ih (h.apply event)

/-- The second step of the drop of the last layout of a directory. -/
def Frees (s : Session) (event : Event) (dir : Path) : Prop :=
  ∃ number hold, event = .free number ∧ s.leaving[number]? = some hold ∧ hold.dir.same dir = true

lemma frees_iff (hd : s.claims.contains dir = true) (event : Event) :
    (s.apply event).claims.contains dir = false ↔ s.Frees event dir := by
  have hkept (hk : (s.apply event).claims.contains dir = true) (hf : ¬ s.Frees event dir) :
      (s.apply event).claims.contains dir = false ↔ s.Frees event dir :=
    iff_of_false (ne_false_of_eq_true hk) hf
  cases event with
  | openArchive files cacheDir archive =>
    refine hkept (Claims.contains_acquire.mpr (.inr hd)) ?_
    rintro ⟨number, hold, he, -⟩
    cases he
  | clone number =>
    refine hkept ?_ ?_
    · rw [Session.apply, Session.clone]
      split
      · exact hd
      · exact Claims.contains_retain.trans hd
    · rintro ⟨number, hold, he, -⟩
      cases he
  | drop number =>
    refine hkept ?_ ?_
    · rw [Session.apply, Session.drop]
      split
      · exact hd
      · exact Claims.contains_lower.trans hd
    · rintro ⟨number, hold, he, -⟩
      cases he
  | free number =>
    rw [Session.apply, Session.free]
    split
    · rename_i hn
      refine iff_of_false (ne_false_of_eq_true hd) ?_
      rintro ⟨number, hold, he, hm, -⟩
      cases he
      rw [hn] at hm
      cases hm
    · rename_i hold hn
      rw [← Bool.not_eq_true, Claims.contains_free, not_and, Bool.not_eq_false]
      constructor
      · intro hs
        exact ⟨number, hold, rfl, hn, hs hd⟩
      · rintro ⟨number, hold', he, hm, hs⟩ -
        cases he
        rw [hn] at hm
        cases hm
        exact hs

lemma Consistent.isHeld_lower_iff_call (h : s.Consistent) (hn : s.live[number]? = some hold) :
    (s.claims.lower hold.dir).isHeld hold.dir = true ↔ ∃ other ∈ s.live.eraseIdx number, other.call = hold.call := by
  have hl : hold ∈ s.live := List.mem_of_getElem? hn
  rw [h.isHeld_lower hn]
  refine exists_congr fun other => and_congr_right fun ho => ?_
  exact h.apart other (mem_live (List.mem_of_mem_eraseIdx ho)) hold (mem_live hl)

lemma Consistent.leaving_drop (h : s.Consistent) (hn : s.live[number]? = some hold) : (s.drop number).leaving =
    if ∃ other ∈ s.live.eraseIdx number, other.call = hold.call then s.leaving else s.leaving ++ [hold] := by
  rw [Session.drop, hn]
  simp only [h.isHeld_lower_iff_call hn]

lemma Consistent.release_drop (h : s.Consistent) (hn : s.live[number]? = some hold) : s.claims.release hold.dir =
    if ∃ other ∈ s.live.eraseIdx number, other.call = hold.call then (s.drop number).claims
    else ((s.drop number).free s.leaving.length).claims := by
  simp only [Claims.release, ← h.isHeld_lower_iff_call hn]
  split
  · simp [Session.drop, hn]
  · rename_i hh
    simp [Session.drop, Session.free, hn, hh]

/-- However layouts are opened, cloned and dropped, the directories claimed are those of the layouts that have not
been dropped to the end; each call has a directory of its own, which can be claimed again after the drop of its last
layout and no sooner; and a call gets the directory it asks for, or else the first numbered one that is free, and is
live and claimed from then on. -/
theorem claimed_while_held (events : List Event) :
    let s := empty.run events
    (∀ dir, s.claims.contains dir = true ↔ ∃ hold ∈ s.live ++ s.leaving, hold.dir.same dir = true) ∧
      (∀ a ∈ s.live ++ s.leaving, ∀ b ∈ s.live ++ s.leaving, a.dir.same b.dir = true ↔ a.call = b.call) ∧
      (∀ dir, s.claims.contains dir = true →
        ∀ event, (s.apply event).claims.contains dir = false ↔ s.Frees event dir) ∧
      (∀ number hold, s.live[number]? = some hold → (s.drop number).leaving =
        if ∃ other ∈ s.live.eraseIdx number, other.call = hold.call then s.leaving else s.leaving ++ [hold]) ∧
      (∀ hold ∈ s.leaving, ∀ other ∈ s.live, other.call ≠ hold.call) ∧
      (∀ files cacheDir archive,
        let base := Layout.baseDir files cacheDir archive
        let dir := (Layout.forArchive files cacheDir archive s.claims).1.dir
        if s.claims.contains base then
          ∃ k, IsLeast {k | 2 ≤ k ∧ s.claims.contains (Claims.numbered base k) = false} k ∧
            dir = Claims.numbered base k
        else dir = base) ∧
      (∀ files cacheDir archive,
        let layout := (Layout.forArchive files cacheDir archive s.claims).1
        let next := s.openArchive files cacheDir archive
        s.claims.contains layout.dir = false ∧ next.live = s.live ++ [⟨s.calls, layout⟩] ∧ next.leaving = s.leaving ∧
          ∀ dir, next.claims.contains dir = true ↔ layout.dir.same dir = true ∨ s.claims.contains dir = true) ∧
      ∀ number hold, s.live[number]? = some hold → s.claims.release hold.dir =
        if ∃ other ∈ s.live.eraseIdx number, other.call = hold.call then (s.drop number).claims
        else ((s.drop number).free s.leaving.length).claims := by
  intro s
  have h : s.Consistent := Consistent.empty.run events
  refine ⟨h.claimed, h.apart, fun dir hd event => frees_iff hd event, fun number hold hn => h.leaving_drop hn,
    fun hold hm other ho hc => ?_, fun files cacheDir archive => Claims.firstFree_spec s.claims _,
    fun files cacheDir archive => ⟨?_, rfl, rfl, fun dir => Claims.contains_acquire⟩,
    fun number hold hn => h.release_drop hn⟩
  · have hs := (h.apart other (mem_live ho) hold (mem_leaving hm)).mpr hc
    rw [holders_eq_zero.mp (h.gone hold hm) other ho] at hs
    cases hs
  · exact Claims.contains_firstFree s.claims (Layout.baseDir files cacheDir archive)

lemma run_concat (s : Session) (events : List Event) (event : Event) :
    s.run (events ++ [event]) = (s.run events).apply event := by
  rw [run, List.foldl_append]
  rfl

def openApp : Event := .openArchive .empty ⟨"/cache"⟩ ⟨"/app.apk"⟩

def appDir : Path := ⟨"/cache/app-629b959d21cd"⟩

lemma baseDir_app : Layout.baseDir .empty ⟨"/cache"⟩ ⟨"/app.apk"⟩ = appDir := by decide +kernel

lemma run_openApp : empty.run [openApp, openApp, .clone 0, .drop 0] =
    ⟨⟨[⟨Claims.numbered appDir 2, 1⟩, ⟨appDir, 1⟩]⟩, 2, [⟨1, ⟨Claims.numbered appDir 2⟩⟩, ⟨0, ⟨appDir⟩⟩], []⟩ := by
  have hfirst : Claims.empty.firstFree appDir = appDir := by decide
  have hsecond : (Claims.mk [⟨appDir, 1⟩]).firstFree appDir = Claims.numbered appDir 2 := by decide
  simp only [run, List.foldl_cons, List.foldl_nil, openApp, apply, openArchive, Layout.forArchive, baseDir_app,
    Claims.acquire, empty, hfirst]
  simp only [Claims.empty, hsecond]
  rfl

theorem claimed_while_held_openApp : ∃ s dropped freed : Session,
    empty.run [openApp, openApp, .clone 0, .drop 0] = s ∧
      empty.run [openApp, openApp, .clone 0, .drop 0, .drop 1] = dropped ∧
      empty.run [openApp, openApp, .clone 0, .drop 0, .drop 1, .free 0] = freed ∧
      s.live.map (·.dir) = [Claims.numbered appDir 2, appDir] ∧ s.claims.contains appDir = true ∧
      dropped.leaving.map (·.dir) = [appDir] ∧ dropped.claims.contains appDir = true ∧
      freed.claims.contains appDir = false ∧
      (Layout.forArchive .empty ⟨"/cache"⟩ ⟨"/app.apk"⟩ freed.claims).1.dir = appDir := by
  have hs := claimed_while_held [openApp, openApp, .clone 0, .drop 0]
  have hdropped := claimed_while_held [openApp, openApp, .clone 0, .drop 0, .drop 1]
  have hfreed := claimed_while_held [openApp, openApp, .clone 0, .drop 0, .drop 1, .free 0]
  have hdrop := run_concat empty [openApp, openApp, .clone 0, .drop 0] (.drop 1)
  have hfree := run_concat empty [openApp, openApp, .clone 0, .drop 0, .drop 1] (.free 0)
  have hrun := run_openApp
  simp only [List.cons_append, List.nil_append] at hdrop hfree
  generalize empty.run [openApp, openApp, .clone 0, .drop 0] = s at *
  generalize empty.run [openApp, openApp, .clone 0, .drop 0, .drop 1] = dropped at *
  generalize empty.run [openApp, openApp, .clone 0, .drop 0, .drop 1, .free 0] = freed at *
  obtain ⟨hclaimed, -, -, hlast, -⟩ := hs
  obtain ⟨hclaimed', -, hfrees, -⟩ := hdropped
  obtain ⟨-, -, -, -, -, hnext, -⟩ := hfreed
  have hlive : s.live = [⟨1, ⟨Claims.numbered appDir 2⟩⟩, ⟨0, ⟨appDir⟩⟩] := congrArg live hrun
  have hnone : ¬ ∃ other ∈ s.live.eraseIdx 1, other.call = 0 := by
    rw [hlive]
    rintro ⟨other, ho, hc⟩
    rw [List.mem_singleton.mp ho] at hc
    cases hc
  have hleaving : dropped.leaving = [⟨0, ⟨appDir⟩⟩] := by
    have hleft := hlast 1 ⟨0, ⟨appDir⟩⟩ (by rw [hlive]; rfl)
    rw [if_neg hnone, hrun] at hleft
    rw [hdrop, hrun]
    exact hleft
  have hkept : dropped.claims.contains appDir = true :=
    (hclaimed' appDir).mpr ⟨⟨0, ⟨appDir⟩⟩, List.mem_append_right _ (hleaving ▸ List.mem_cons_self), Path.same_refl _⟩
  have hgone : freed.claims.contains appDir = false := by
    rw [hfree]
    exact (hfrees appDir hkept (.free 0)).mpr ⟨0, ⟨0, ⟨appDir⟩⟩, rfl, by rw [hleaving]; rfl, Path.same_refl _⟩
  refine ⟨s, dropped, freed, rfl, rfl, rfl, by rw [hlive]; rfl, ?_, by rw [hleaving]; rfl, hkept, hgone, ?_⟩
  · refine (hclaimed appDir).mpr ⟨⟨0, ⟨appDir⟩⟩, List.mem_append_left _ ?_, Path.same_refl _⟩
    rw [hlive]
    exact List.mem_cons_of_mem _ List.mem_cons_self
  · have hbase := hnext .empty ⟨"/cache"⟩ ⟨"/app.apk"⟩
    simp only [baseDir_app, hgone] at hbase
    exact hbase

end Session

end DexUnseal.Cache
