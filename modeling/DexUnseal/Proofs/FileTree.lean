import DexUnseal.Filing
import DexUnseal.Proofs.Path
import Mathlib.Tactic.Lemma

/-! A file reads as it was written, as long as it is there, and the other files stay as they are. -/

namespace DexUnseal.FileTree

variable {t t' : FileTree} {l k : Location} {p q : Path} {bytes : Bytes}

lemma lookup_filter_ne (nodes : List (Location × FileNode)) (h : l ≠ k) :
    (nodes.filter (·.1 ≠ k)).lookup l = nodes.lookup l := by
  induction nodes with
  | nil => rfl
  | cons node nodes ih =>
    obtain ⟨location, n⟩ := node
    by_cases hk : location = k
    · subst hk
      have hl : (l == location) = false := beq_eq_false_iff_ne.mpr h
      simp only [List.filter_cons, ne_eq, not_true_eq_false, decide_false, Bool.false_eq_true, if_false]
      rw [List.lookup_cons, hl]
      exact ih
    · simp only [List.filter_cons, hk, ne_eq, not_false_eq_true, decide_true, if_true]
      rw [List.lookup_cons, List.lookup_cons, ih]

lemma lookup_filter_self (nodes : List (Location × FileNode)) : (nodes.filter (·.1 ≠ l)).lookup l = none := by
  rw [List.lookup_eq_none_iff]
  intro node hnode
  have hne : node.1 ≠ l := by simpa using (List.mem_filter.mp hnode).2
  exact bne_iff_ne.mpr hne.symm

lemma node?_set_self (t : FileTree) (h : l ≠ []) (n : FileNode) : (t.set l n).node? l = some n := by
  simp [node?, set, h]

lemma node?_erase_self (t : FileTree) (h : l ≠ []) : (t.erase l).node? l = none := by
  rw [node?, if_neg h]
  exact lookup_filter_self t.nodes

lemma node?_erase_of_ne (t : FileTree) (h : l ≠ k) : (t.erase k).node? l = t.node? l := by
  unfold node?
  split
  · rfl
  · exact lookup_filter_ne t.nodes h

lemma node?_set_of_ne (t : FileTree) (h : l ≠ k) (n : FileNode) : (t.set k n).node? l = t.node? l := by
  unfold node?
  split
  · rfl
  · have hk : (l == k) = false := beq_eq_false_iff_ne.mpr h
    rw [set, List.lookup_cons, hk]
    exact lookup_filter_ne t.nodes h

lemma read_ok : t.read p = .ok bytes ↔ checkNames p.location = .ok () ∧ t.node? p.location = some (.file bytes) := by
  rw [read]
  cases checkNames p.location with
  | error fault => simp [Bind.bind, Except.bind]
  | ok _ =>
    cases hn : t.node? p.location with
    | none => simp [Bind.bind, Except.bind]
    | some n => cases n <;> simp [Bind.bind, Except.bind, Pure.pure, Except.pure]

lemma write_ok (h : t.write p bytes = .ok t') :
    checkNames p.location = .ok () ∧ p.location ≠ [] ∧ t' = t.set p.location (.file bytes) := by
  rw [write] at h
  cases hc : checkNames p.location with
  | error fault => simp [hc, Bind.bind, Except.bind] at h
  | ok _ =>
    have hroot (hl : p.location = []) : t.node? p.location = some .directory := by simp [node?, hl]
    simp only [hc, Bind.bind, Except.bind] at h
    cases hn : t.node? p.location with
    | none =>
      simp only [hn] at h
      split at h
      · exact ⟨rfl, fun hl => by simp [hroot hl] at hn, (Except.ok.inj h).symm⟩
      · simp at h
    | some n =>
      cases n with
      | directory => simp [hn] at h
      | file old =>
        simp only [hn] at h
        exact ⟨rfl, fun hl => by simp [hroot hl] at hn, (Except.ok.inj h).symm⟩

theorem read_of_write (h : t.write p bytes = .ok t') : t'.read p = .ok bytes := by
  obtain ⟨hc, hl, rfl⟩ := write_ok h
  exact read_ok.mpr ⟨hc, node?_set_self t hl _⟩

lemma remove_ok (h : t.remove q = .ok t') : q.location ≠ [] ∧ t' = t.erase q.location := by
  rw [remove] at h
  cases hc : checkNames q.location with
  | error fault => simp [hc, Bind.bind, Except.bind] at h
  | ok _ =>
    cases hn : t.node? q.location with
    | none => simp [hc, hn, Bind.bind, Except.bind] at h
    | some n =>
      cases n with
      | directory => simp [hc, hn, Bind.bind, Except.bind] at h
      | file old =>
        simp only [hc, hn, Bind.bind, Except.bind] at h
        exact ⟨fun hl => by simp [node?, hl] at hn, (Except.ok.inj h).symm⟩

theorem read_of_remove (h : t.remove q = .ok t') (hr : t'.read p = .ok bytes) : t.read p = .ok bytes := by
  obtain ⟨hq, rfl⟩ := remove_ok h
  obtain ⟨hc, hn⟩ := read_ok.mp hr
  by_cases he : p.location = q.location
  · rw [he, node?_erase_self t hq] at hn
    cases hn
  · rw [node?_erase_of_ne t he] at hn
    exact read_ok.mpr ⟨hc, hn⟩

lemma node?_of_remove_notFound {fault : IoFault} (h : t.remove q = .error fault) (hk : fault.kind = .notFound) :
    t.node? q.location = none := by
  rw [remove] at h
  cases hc : checkNames q.location with
  | error other =>
    simp only [hc, Bind.bind, Except.bind] at h
    obtain rfl := Except.error.inj h
    rw [checkNames] at hc
    split at hc
    · obtain rfl := Except.error.inj hc
      cases hk
    · cases hc
  | ok _ =>
    cases hn : t.node? q.location with
    | none => rfl
    | some n =>
      cases n with
      | directory =>
        simp only [hc, hn, Bind.bind, Except.bind] at h
        obtain rfl := Except.error.inj h
        cases hk
      | file old => simp [hc, hn, Bind.bind, Except.bind, Pure.pure, Except.pure] at h

/-- All is as it was, but at some places, and but for directories on the way down that were not there. -/
def Frame (places : List Location) (below : Location) (t t' : FileTree) : Prop :=
  ∀ l ∉ places, t'.node? l = t.node? l ∨ l <+: below ∧ t.node? l = none ∧ t'.node? l = some .directory

variable {places : List Location} {below : Location}

lemma Frame.refl (t : FileTree) : Frame places below t t := fun _ _ => .inl rfl

lemma Frame.trans (t t' t'' : FileTree) (h : Frame places below t t') (h' : Frame places below t' t'') :
    Frame places below t t'' := by
  intro l hl
  obtain hs | ⟨hp, hn, hd⟩ := h l hl
  · rw [← hs]
    exact h' l hl
  · -- a directory that was made is there, so it is not made again
    obtain hs' | ⟨-, hn', -⟩ := h' l hl
    · exact .inr ⟨hp, hn, hs'.trans hd⟩
    · rw [hd] at hn'
      cases hn'

lemma frame_of_write (hp : p.location ∈ places) (h : t.write p bytes = .ok t') : Frame places below t t' := by
  obtain ⟨-, -, rfl⟩ := write_ok h
  refine fun l hl => .inl (node?_set_of_ne t ?_ _)
  rintro rfl
  exact hl hp

lemma frame_of_remove (hq : q.location ∈ places) (h : t.remove q = .ok t') : Frame places below t t' := by
  obtain ⟨-, rfl⟩ := remove_ok h
  refine fun l hl => .inl (node?_erase_of_ne t ?_)
  rintro rfl
  exact hl hq

lemma frame_of_createDirectory (hl : l <+: below) (h : t.createDirectory l = .ok t') : Frame places below t t' := by
  rw [createDirectory] at h
  cases hn : t.node? l with
  | some n =>
    cases n with
    | directory =>
      simp only [hn] at h
      obtain rfl := Except.ok.inj h
      exact .refl t
    | file old => simp [hn] at h
  | none =>
    simp only [hn] at h
    split at h
    · cases h
    · obtain rfl := Except.ok.inj h
      intro k _
      by_cases hk : k = l
      · subst hk
        refine .inr ⟨hl, hn, node?_set_self t (fun he => ?_) _⟩
        simp [node?, he] at hn
      · exact .inl (node?_set_of_ne t hk _)

lemma prefix_of_mem_way (h : k ∈ way l) : k <+: l := by
  induction l generalizing k with
  | nil => cases h
  | cons name rest ih =>
    rcases List.mem_cons.mp h with rfl | h
    · exact List.prefix_append [name] rest
    · obtain ⟨k, hk, rfl⟩ := List.mem_map.mp h
      exact List.cons_prefix_cons.mpr ⟨rfl, ih hk⟩

end DexUnseal.FileTree

namespace DexUnseal.Path

lemma location_join (p : Path) {name : String} (hs : '/' ∉ name.toList) (hn : IsName name.toList) :
    (p.join ⟨name⟩).location = p.location ++ [name] := by
  rw [location, components_join p hs hn, List.foldl_append]
  rfl

end DexUnseal.Path
