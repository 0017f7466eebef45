import DexUnseal.Proofs.Cache.Layout
import DexUnseal.Proofs.ClassSource.Completeness

/-! Work on batches changes nothing in a table but outcomes that were not known, and calls the loader once
for each batch at most. -/

namespace DexUnseal

def Batch.reset (b : Batch) : Batch := { b with holder := { b.holder with outcome? := none } }

def Workspace.loadsOf (w : Workspace) (layout : Cache.Layout) (index : Nat) : Nat :=
  w.loads.countP fun call => call.source = (layout.entry index).source

lemma BatchTask.loads_run (t : BatchTask) (w : Workspace) : (t.run w).2.loads = w.loads ∨
    ∃ call : LoadCall, call.source = t.entry.source ∧ (t.run w).2.loads = w.loads ++ [call] := by
  rw [run]
  cases t.opened with
  | error fault => exact .inl rfl
  | ok dex =>
    simp only [Bind.bind, StateT.bind, Workspace.filing]
    rcases t.entry.store dex w.files with ⟨_ | _, files⟩
    · exact .inl rfl
    · exact .inr ⟨_, rfl, rfl⟩

lemma BatchTask.loadsOf_run (t : BatchTask) (w : Workspace) (index : Nat) :
    (t.run w).2.loadsOf t.layout index ≤ w.loadsOf t.layout index + if index = t.index then 1 else 0 := by
  rw [Workspace.loadsOf, Workspace.loadsOf]
  rcases t.loads_run w with hl | ⟨call, hc, hl⟩
  · rw [hl]
    exact Nat.le_add_right _ _
  · rw [hl, List.countP_append, List.countP_singleton, hc, entry]
    split
    · rename_i hs
      rw [if_pos (Cache.Layout.source_injective (of_decide_eq_true hs)).symm]
    · exact Nat.add_le_add_left (Nat.zero_le _) _

namespace BatchTable

def reset (t : BatchTable) : BatchTable := { t with batches := t.batches.map Batch.reset }

def outcome? (t : BatchTable) (index : Nat) : Option (Outcome Loaded) := do
  let b ← t.batches.find? fun b => b.index = index
  b.holder.outcome?

variable {t t' : BatchTable} {m : BatchMapper} {b : Batch} {w w' : Workspace} {name : String} {index : Nat}
  {outcome : Outcome Loaded} {holder : Holder Workspace Loaded}

lemma batch?_reset (t : BatchTable) (name : String) : t.reset.batch? name = (t.batch? name).map Batch.reset :=
  batch?_map (f := Batch.reset) (fun _ => rfl) t name

lemma exists_batch?_of_reset (hr : t'.reset = t.reset) (hb : t.batch? name = some b) :
    ∃ b', t'.batch? name = some b' ∧ b'.reset = b.reset := by
  have h : (t'.batch? name).map Batch.reset = some b.reset := by
    rw [← batch?_reset, hr, batch?_reset, hb, Option.map_some]
  exact Option.map_eq_some_iff.mp h

lemma Numbered.find?_index (h : t.Numbered) (hb : b ∈ t.batches) :
    t.batches.find? (fun b' => b'.index = b.index) = some b := by
  obtain ⟨b', hf⟩ : ∃ b', t.batches.find? (fun b' => b'.index = b.index) = some b' := by
    rw [← Option.isSome_iff_exists, List.find?_isSome]
    exact ⟨b, hb, decide_eq_true rfl⟩
  have hi : b'.index = b.index := by simpa using List.find?_some hf
  rw [hf, h.eq_of_index (List.mem_of_find?_eq_some hf) hb hi]

lemma Numbered.outcome?_eq (h : t.Numbered) (hb : b ∈ t.batches) : t.outcome? b.index = b.holder.outcome? := by
  rw [outcome?, h.find?_index hb, Option.bind_eq_bind, Option.bind_some]

lemma Numbered.reset_setHolder (h : t.Numbered) (hb : b ∈ t.batches)
    (hh : Batch.reset { b with holder } = b.reset) : (t.setHolder b.index holder).reset = t.reset := by
  rw [BatchTable.reset, BatchTable.reset, BatchTable.setHolder, List.map_map]
  congr 1
  refine List.map_congr_left fun b₀ hb₀ => ?_
  rw [Function.comp_apply]
  split
  · rename_i hi
    rw [h.eq_of_index hb₀ hb hi]
    exact hh
  · rfl

lemma Numbered.outcome?_setHolder (h : t.Numbered) (hb : b ∈ t.batches) (index : Nat) :
    (t.setHolder b.index holder).outcome? index = if index = b.index then holder.outcome? else t.outcome? index := by
  simp only [outcome?, BatchTable.setHolder, find?_map_index index_withHolder, Option.bind_eq_bind]
  by_cases he : index = b.index
  · rw [he, h.find?_index hb, if_pos rfl, Option.map_some, Option.bind_some, if_pos rfl]
  · rw [if_neg he]
    cases hf : t.batches.find? (fun b' => b'.index = index) with
    | none => rfl
    | some b' =>
      have hb' : b'.index = index := by simpa using List.find?_some hf
      rw [Option.map_some, Option.bind_some, Option.bind_some, if_neg (hb' ▸ he)]

inductive Work (t : BatchTable) (b : Batch) (w : Workspace) : Outcome Loaded → BatchTable → Workspace → Prop
  | known {outcome : Outcome Loaded} (ho : b.holder.outcome? = some outcome) :
      Work t b w outcome (t.setHolder b.index b.holder) w
  | done {ending : Ending Loaded} {w' : Workspace} (ho : b.holder.outcome? = none)
      (hj : b.holder.job w = (ending, w')) :
      Work t b w (.ofEnding ending)
        (t.setHolder b.index { b.holder with outcome? := some (.ofEnding ending) }) w'

lemma work_materialize (hm : t.materialize b w = ((outcome, t'), w')) : t.Work b w outcome t' w' := by
  rcases hh : b.holder.materialize w with ⟨⟨outcome₁, holder⟩, w₁⟩
  simp only [BatchTable.materialize, Bind.bind, StateT.bind, hh] at hm
  cases hm
  rw [Holder.materialize] at hh
  cases ho : b.holder.outcome? with
  | some known =>
    simp only [ho] at hh
    cases hh
    exact .known ho
  | none =>
    rcases hj : b.holder.job w with ⟨ending, w₂⟩
    simp only [ho, Bind.bind, StateT.bind, hj] at hh
    cases hh
    exact .done ho hj

/-- What is known of batches is how their own work ended, and it is known of all that were loaded. -/
structure Logged (t : BatchTable) (m : BatchMapper) (w : Workspace) : Prop where
  numbered : t.Numbered
  job : ∀ b ∈ t.batches, b.holder.job = (b.task m).run
  ran : ∀ b ∈ t.batches, ∀ outcome, b.holder.outcome? = some outcome →
    ∃ w₀, outcome = .ofEnding ((b.task m).run w₀).1
  loads : ∀ index, w.loadsOf m.layout index ≤ (t.outcome? index).isSome.toNat

structure Recalls (t' t : BatchTable) : Prop where
  reset : t'.reset = t.reset
  outcome : ∀ index outcome, t.outcome? index = some outcome → t'.outcome? index = some outcome

lemma Recalls.refl (t : BatchTable) : t.Recalls t := ⟨rfl, fun _ _ h => h⟩

lemma Recalls.trans {t₁ t₂ t₃ : BatchTable} (h : t₃.Recalls t₂) (h' : t₂.Recalls t₁) : t₃.Recalls t₁ :=
  ⟨h.reset.trans h'.reset, fun index outcome ho => h.outcome index outcome (h'.outcome index outcome ho)⟩

lemma Logged.setHolder (h : t.Logged m w) (hb : b ∈ t.batches) (hj : holder.job = b.holder.job)
    (hran : ∀ outcome, holder.outcome? = some outcome → ∃ w₀, outcome = .ofEnding ((b.task m).run w₀).1)
    (hl : ∀ index, w'.loadsOf m.layout index ≤
      (if index = b.index then holder.outcome? else t.outcome? index).isSome.toNat) :
    (t.setHolder b.index holder).Logged m w' := by
  refine ⟨h.numbered.setHolder, fun b₁ hb₁ => ?_, fun b₁ hb₁ outcome ho => ?_, fun index => ?_⟩
  · obtain ⟨b₀, hb₀, rfl⟩ := mem_setHolder hb₁
    split
    · rename_i hi
      obtain rfl := h.numbered.eq_of_index hb₀ hb hi
      exact hj.trans (h.job b₀ hb)
    · exact h.job b₀ hb₀
  · obtain ⟨b₀, hb₀, rfl⟩ := mem_setHolder hb₁
    split at ho
    · rename_i hi
      obtain rfl := h.numbered.eq_of_index hb₀ hb hi
      rw [if_pos rfl]
      exact hran outcome ho
    · rename_i hi
      rw [if_neg hi]
      exact h.ran b₀ hb₀ outcome ho
  · rw [h.numbered.outcome?_setHolder hb]
    exact hl index

theorem Logged.work (h : t.Logged m w) (hb : b ∈ t.batches) (hw : t.Work b w outcome t' w') :
    t'.Logged m w' ∧ t'.Recalls t ∧ t'.outcome? b.index = some outcome := by
  have hknown := h.numbered.outcome?_eq hb
  cases hw with
  | known ho =>
    refine ⟨h.setHolder hb rfl (h.ran b hb) fun index => ?_, ⟨h.numbered.reset_setHolder hb rfl, ?_⟩, ?_⟩
    · have hl := h.loads index
      split
      · rename_i hi
        rw [hi, hknown] at hl
        rwa [hi]
      · exact hl
    · intro index outcome' ho'
      rw [h.numbered.outcome?_setHolder hb]
      split
      · rename_i hi
        rwa [hi, hknown] at ho'
      · exact ho'
    · rw [h.numbered.outcome?_setHolder hb, if_pos rfl, ho]
  | @done ending w' ho hj =>
    rw [h.job b hb] at hj
    refine ⟨h.setHolder hb rfl (fun outcome' ho' => ⟨w, ?_⟩) fun index => ?_,
      ⟨h.numbered.reset_setHolder hb rfl, ?_⟩, ?_⟩
    · rw [hj, Option.some.inj ho']
    · have hl := h.loads index
      have hrun := (b.task m).loadsOf_run w index
      rw [hj] at hrun
      change w'.loadsOf m.layout index ≤ w.loadsOf m.layout index + if index = b.index then 1 else 0 at hrun
      by_cases hi : index = b.index
      · rw [hi, hknown, ho] at hl
        rw [hi] at hrun ⊢
        simpa [Nat.le_zero.mp hl] using hrun
      · rw [if_neg hi] at hrun ⊢
        exact Nat.le_trans hrun hl
    · intro index outcome' ho'
      rw [h.numbered.outcome?_setHolder hb, if_neg]
      · exact ho'
      · rintro rfl
        rw [hknown, ho] at ho'
        cases ho'
    · rw [h.numbered.outcome?_setHolder hb, if_pos rfl]

lemma Mapped.logged {sources : List (String × Bytes)} {declared : List (List String)}
    (h : t.Mapped m sources declared) (hw : w.loads = []) : t.Logged m w := by
  have hunknown (b : Batch) (hb : b ∈ t.batches) : b.holder.outcome? = none := by
    rw [h.made b hb]
    rfl
  refine ⟨h.lists.numbered, h.complete.job, fun b hb outcome ho => ?_, fun index => ?_⟩
  · rw [hunknown b hb] at ho
    cases ho
  · rw [Workspace.loadsOf, hw, List.countP_nil]
    exact Nat.zero_le _

/-- The table, but for what is known of the batches, is one in which every name leads to its own batch. -/
def Made (t : BatchTable) (m : BatchMapper) : Prop := ∃ t₀ : BatchTable, t₀.Complete m ∧ t.reset = t₀.reset

lemma Made.leads (h : t.Made m) (hn : t.contains name = true) : ∃ b, t.batch? name = some b := by
  obtain ⟨t₀, hc, hr⟩ := h
  have hn₀ : t₀.contains name = true := by
    rw [← hn]
    exact (congrArg (fun t : BatchTable => t.contains name) hr).symm
  obtain ⟨b₀, hb₀⟩ := hc.leads name hn₀
  obtain ⟨b, hb, -⟩ := exists_batch?_of_reset hr hb₀
  exact ⟨b, hb⟩

lemma Made.mem_names (h : t.Made m) (hb : t.batch? name = some b) : name ∈ b.names := by
  obtain ⟨t₀, hc, hr⟩ := h
  obtain ⟨b₀, hb₀, he⟩ := exists_batch?_of_reset hr.symm hb
  change name ∈ b.reset.names
  rw [← he]
  exact hc.listed name b₀ hb₀

lemma Made.recalls (h : t.Made m) (hr : t'.Recalls t) : t'.Made m := by
  obtain ⟨t₀, hc, hr₀⟩ := h
  exact ⟨t₀, hc, hr.reset.trans hr₀⟩

lemma Recalls.leads (h : t'.Recalls t) (hb : t.batch? name = some b) :
    ∃ b', t'.batch? name = some b' ∧ b'.index = b.index := by
  obtain ⟨b', hb', he⟩ := exists_batch?_of_reset h.reset hb
  refine ⟨b', hb', ?_⟩
  change b'.reset.index = b.reset.index
  rw [he]

end BatchTable

end DexUnseal
