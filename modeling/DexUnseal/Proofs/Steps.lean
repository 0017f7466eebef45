import DexUnseal.Filing
import DexUnseal.Stop
import Mathlib.Data.List.Forall2

/-! Steps that may fail, one after the other. -/

namespace DexUnseal

lemma except_ok_bind (x : α) (f : α → Except ε β) : (Except.ok x >>= f) = f x := rfl

lemma except_bind_ok {result : Except ε α} {f : α → Except ε β} {y : β} :
    result >>= f = .ok y ↔ ∃ x, result = .ok x ∧ f x = .ok y := by
  cases result <;> simp [Bind.bind, Except.bind]

lemma except_bind_error {result : Except ε α} {f : α → Except ε β} {fault : ε} :
    result >>= f = .error fault ↔ result = .error fault ∨ ∃ x, result = .ok x ∧ f x = .error fault := by
  cases result <;> simp [Bind.bind, Except.bind]

lemma except_guard_ok {condition : Prop} [Decidable condition] {fault : ε} {f : Unit → Except ε α} {y : α} :
    (if condition then throw fault >>= f else f ()) = .ok y ↔ ¬ condition ∧ f () = .ok y := by
  split <;> simp [*, throw, throwThe, MonadExceptOf.throw, Bind.bind, Except.bind]

lemma mapM_ok {f : α → Except ε β} {xs : List α} {ys : List β} :
    xs.mapM f = .ok ys ↔ List.Forall₂ (fun x y => f x = .ok y) xs ys := by
  induction xs generalizing ys with
  | nil => simp [Pure.pure, Except.pure, eq_comm]
  | cons x xs ih =>
    rw [List.mapM_cons, List.forall₂_cons_left_iff]
    cases hx : f x with
    | error fault => simp [Bind.bind, Except.bind]
    | ok y =>
      cases hm : xs.mapM f with
      | error fault =>
        simp only [← ih, hm, Bind.bind, Except.bind]
        simp
      | ok ys' =>
        simp only [← ih, hm, Bind.bind, Except.bind]
        simp [Pure.pure, Except.pure, eq_comm]

lemma forM_ok {f : α → Except ε Unit} {xs : List α} : xs.forM f = .ok () ↔ ∀ x ∈ xs, f x = .ok () := by
  induction xs with
  | nil => simp [Pure.pure, Except.pure]
  | cons x xs ih =>
    rw [List.forall_mem_cons, ← ih]
    constructor
    · intro h
      obtain ⟨⟨⟩, hx, hxs⟩ := except_bind_ok.mp h
      exact ⟨hx, hxs⟩
    · exact fun h => except_bind_ok.mpr ⟨(), h.1, h.2⟩

lemma forM_error {f : α → Except ε Unit} {xs : List α} {fault : ε} : xs.forM f = .error fault ↔
    ∃ before x after, xs = before ++ x :: after ∧ (∀ y ∈ before, f y = .ok ()) ∧ f x = .error fault := by
  induction xs with
  | nil => simp [Pure.pure, Except.pure]
  | cons x xs ih =>
    refine except_bind_error.trans ⟨?_, ?_⟩
    · rintro (hx | ⟨⟨⟩, hx, hxs⟩)
      · exact ⟨[], x, xs, rfl, by simp, hx⟩
      · obtain ⟨before, y, after, rfl, hbefore, hy⟩ := ih.mp hxs
        exact ⟨x :: before, y, after, rfl, List.forall_mem_cons.mpr ⟨hx, hbefore⟩, hy⟩
    · rintro ⟨before, y, after, hxs, hbefore, hy⟩
      cases before with
      | nil =>
        obtain ⟨rfl, rfl⟩ := List.cons.inj hxs
        exact .inl hy
      | cons z before =>
        obtain ⟨rfl, rfl⟩ := List.cons.inj hxs
        obtain ⟨hx, hbefore⟩ := List.forall_mem_cons.mp hbefore
        exact .inr ⟨(), hx, ih.mpr ⟨before, y, after, rfl, hbefore, hy⟩⟩

lemma except_mapError_ok {result : Except ε α} {g : ε → δ} {x : α} : result.mapError g = .ok x ↔ result = .ok x := by
  cases result <;> simp [Except.mapError]

lemma except_mapError_fault_ne_crash {result : Except ε α} {g : ε → δ} {text : String} :
    result.mapError (fun fault => Stop.fault (g fault)) ≠ .error (.crash text) := by
  cases result <;> simp [Except.mapError]

variable {steps : Filing ε α} {files files' : FileTree}

lemma filing_bind (f : α → Filing ε β) {result : Except ε α} {files₁ : FileTree} (h : steps files = (result, files₁)) :
    (steps >>= f) files = ExceptT.bindCont f result files₁ := by
  simp only [Bind.bind, ExceptT.bind, ExceptT.mk, StateT.bind, h]

lemma filing_bind_ok {f : α → Filing ε β} {y : β} :
    (steps >>= f) files = (.ok y, files') ↔
      ∃ x files₁, steps files = (.ok x, files₁) ∧ f x files₁ = (.ok y, files') := by
  rcases hs : steps files with ⟨result, files₁⟩
  rw [filing_bind f hs]
  cases result with
  | error fault =>
    refine ⟨fun h => ?_, ?_⟩
    · cases (Prod.ext_iff.mp h).1
    · rintro ⟨_, _, hx, -⟩
      cases (Prod.ext_iff.mp hx).1
  | ok x =>
    refine ⟨fun h => ⟨x, files₁, rfl, h⟩, ?_⟩
    rintro ⟨_, _, hx, h⟩
    cases hx
    exact h

lemma filing_bind_error {f : α → Filing ε β} {fault : ε} (h : ((steps >>= f) files).1 = .error fault) :
    (steps files).1 = .error fault ∨ ∃ x files₁, steps files = (.ok x, files₁) ∧ (f x files₁).1 = .error fault := by
  rcases hs : steps files with ⟨result, files₁⟩
  rw [filing_bind f hs] at h
  cases result with
  | error fault =>
    cases h
    exact .inl rfl
  | ok x => exact .inr ⟨x, files₁, rfl, h⟩

lemma filing_adapt (g : ε → δ) (steps : Filing ε α) (files : FileTree) :
    ExceptT.adapt g steps files = ((steps files).1.mapError g, (steps files).2) := rfl

lemma filing_adapt_ok {g : ε → δ} {x : α} :
    ExceptT.adapt g steps files = (.ok x, files') ↔ steps files = (.ok x, files') := by
  rw [filing_adapt, Prod.ext_iff, Prod.ext_iff, except_mapError_ok]

lemma filing_given_ok {result : Except ε α} {x : α} :
    Filing.given result files = (.ok x, files') ↔ result = .ok x ∧ files' = files := by
  refine ⟨fun h => ?_, ?_⟩
  · cases h
    exact ⟨rfl, rfl⟩
  · rintro ⟨rfl, rfl⟩
    rfl

lemma filing_change_ok {f : FileTree → Except IoFault FileTree} :
    Filing.change f files = (.ok (), files') ↔ f files = .ok files' := by
  rw [Filing.change]
  cases f files with
  | error fault =>
    refine ⟨fun h => ?_, fun h => ?_⟩
    · cases (Prod.ext_iff.mp h).1
    · cases h
  | ok changed =>
    refine ⟨fun h => ?_, fun h => ?_⟩
    · cases h
      rfl
    · cases h
      rfl

lemma filing_forM_change_ok {f : α → FileTree → Except IoFault FileTree} {xs : List α} :
    (xs.forM fun x => Filing.change (f x)) files = (.ok (), files') ↔
      xs.foldlM (fun files x => f x files) files = .ok files' := by
  induction xs generalizing files with
  | nil =>
    refine ⟨fun h => ?_, fun h => ?_⟩
    · cases h
      rfl
    · cases h
      rfl
  | cons x xs ih =>
    refine filing_bind_ok.trans ?_
    rw [List.foldlM_cons, except_bind_ok]
    constructor
    · rintro ⟨⟨⟩, files₁, hx, hxs⟩
      exact ⟨files₁, filing_change_ok.mp hx, ih.mp hxs⟩
    · rintro ⟨files₁, hx, hxs⟩
      exact ⟨(), files₁, filing_change_ok.mpr hx, ih.mpr hxs⟩

lemma filing_createDirectories_ok {l : Location} :
    Filing.createDirectories l files = (.ok (), files') ↔ files.createDirectories l = .ok files' := by
  refine filing_bind_ok.trans (Iff.trans ?_ except_bind_ok.symm)
  constructor
  · rintro ⟨⟨⟩, files₁, hchecked, hmake⟩
    obtain ⟨⟨⟩, hcheck, hfiles⟩ := except_bind_ok.mp (filing_change_ok.mp hchecked)
    obtain rfl := Except.ok.inj hfiles
    exact ⟨(), hcheck, filing_forM_change_ok.mp hmake⟩
  · rintro ⟨⟨⟩, hcheck, hmake⟩
    exact ⟨(), files, filing_change_ok.mpr (except_bind_ok.mpr ⟨(), hcheck, rfl⟩), filing_forM_change_ok.mpr hmake⟩

namespace Filing

variable {R : FileTree → FileTree → Prop} {steps : Filing ε α}

/-- Whether a step succeeds or not, the files before and after it are related. -/
def Keeps (R : FileTree → FileTree → Prop) (steps : Filing ε α) : Prop := ∀ files, R files (steps files).2

lemma Keeps.bind {f : α → Filing ε β} (ht : ∀ x y z, R x y → R y z → R x z) (h : Keeps R steps)
    (hf : ∀ x, Keeps R (f x)) : Keeps R (steps >>= f) := by
  intro files
  have hfiles := h files
  simp only [Bind.bind, ExceptT.bind, ExceptT.mk, StateT.bind]
  rcases hs : steps files with ⟨_ | x, files₁⟩
  · rw [hs] at hfiles
    exact hfiles
  · rw [hs] at hfiles
    exact ht _ _ _ hfiles (hf x files₁)

lemma Keeps.adapt {g : ε → δ} (h : Keeps R steps) : Keeps R (ExceptT.adapt g steps : Filing δ α) :=
  fun files => h files

lemma keeps_given (hr : ∀ x, R x x) (result : Except ε α) : Keeps R (given result) := fun files => hr files

lemma keeps_change {f : FileTree → Except IoFault FileTree} (hr : ∀ x, R x x)
    (h : ∀ files files', f files = .ok files' → R files files') : Keeps R (change f) := by
  intro files
  rw [change]
  cases hf : f files with
  | error fault => exact hr files
  | ok files' => exact h files files' hf

lemma keeps_forM {f : β → Filing ε Unit} {xs : List β} (hr : ∀ x, R x x) (ht : ∀ x y z, R x y → R y z → R x z)
    (h : ∀ x ∈ xs, Keeps R (f x)) : Keeps R (xs.forM f) := by
  induction xs with
  | nil => exact fun files => hr files
  | cons x xs ih =>
    obtain ⟨hx, hxs⟩ := List.forall_mem_cons.mp h
    exact Keeps.bind ht hx fun _ => ih hxs

def ReadOnly (steps : Filing ε α) : Prop := ∀ files, (steps files).2 = files

lemma ReadOnly.bind {f : α → Filing ε β} (h : ReadOnly steps) (hf : ∀ x, ReadOnly (f x)) :
    ReadOnly (steps >>= f) :=
  Keeps.bind (R := fun files files' => files' = files) (fun _ _ _ hxy hyz => hyz.trans hxy) h hf

lemma ReadOnly.adapt {g : ε → δ} (h : ReadOnly steps) : ReadOnly (ExceptT.adapt g steps : Filing δ α) :=
  fun files => h files

lemma readOnly_given (result : Except ε α) : ReadOnly (given result) := fun _ => rfl

lemma readOnly_read (p : Path) : ReadOnly (read p) := fun _ => rfl

end Filing

end DexUnseal
