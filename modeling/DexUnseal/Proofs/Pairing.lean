import Mathlib.Data.List.Forall2
import Mathlib.Data.List.ReduceOption
import Mathlib.Data.List.Zip
import Mathlib.Data.Option.Basic

/-! Lists and options that correspond place by place. -/

namespace DexUnseal

variable {R : α → β → Prop} {xs : List α} {ys : List β}

lemma forall₂_swap (h : List.Forall₂ R xs ys) : List.Forall₂ (fun y x => R x y) ys xs := by
  induction h with
  | nil => exact .nil
  | cons hx _ ih => exact .cons hx ih

lemma forall₂_right {P : β → Prop} (h : List.Forall₂ R xs ys) (hp : ∀ x y, R x y → P y) : ∀ y ∈ ys, P y := by
  induction h with
  | nil => simp
  | cons hx _ ih => exact List.forall_mem_cons.mpr ⟨hp _ _ hx, ih⟩

lemma forall₂_exists_right (h : List.Forall₂ R xs ys) {x : α} (hx : x ∈ xs) : ∃ y ∈ ys, R x y := by
  induction h with
  | nil => cases hx
  | @cons a b _ _ ha _ ih =>
    rcases List.mem_cons.mp hx with rfl | hx
    · exact ⟨b, List.mem_cons_self, ha⟩
    · obtain ⟨y, hy, hr⟩ := ih hx
      exact ⟨y, List.mem_cons_of_mem b hy, hr⟩

lemma forall₂_and_right {P : β → Prop} :
    List.Forall₂ (fun x y => R x y ∧ P y) xs ys ↔ List.Forall₂ R xs ys ∧ ∀ y ∈ ys, P y := by
  constructor
  · exact fun h => ⟨h.imp fun _ _ hxy => hxy.1, forall₂_right h fun _ _ hxy => hxy.2⟩
  · rintro ⟨h, hp⟩
    induction h with
    | nil => exact .nil
    | cons hx _ ih =>
      obtain ⟨hy, hys⟩ := List.forall_mem_cons.mp hp
      exact .cons ⟨hx, hy⟩ (ih hys)

lemma forall₂_filter {P : α → Bool} {Q : β → Bool} (h : List.Forall₂ R xs ys) (hpq : ∀ x y, R x y → P x = Q y) :
    List.Forall₂ R (xs.filter P) (ys.filter Q) := by
  induction h with
  | nil => exact .nil
  | cons hx _ ih =>
    rw [List.filter_cons, List.filter_cons, hpq _ _ hx]
    split
    · exact .cons hx ih
    · exact ih

lemma exists_forall₂ {S : β → γ → Prop} {T : α → γ → Prop} (h : List.Forall₂ R xs ys)
    (hst : ∀ x ∈ xs, ∀ y ∈ ys, R x y → ∃ z, S y z ∧ T x z) :
    ∃ zs, List.Forall₂ S ys zs ∧ List.Forall₂ T xs zs := by
  induction h with
  | nil => exact ⟨[], .nil, .nil⟩
  | @cons x y xs ys hx _ ih =>
    obtain ⟨z, hs, ht⟩ := hst x List.mem_cons_self y List.mem_cons_self hx
    obtain ⟨zs, hss, hts⟩ := ih fun x hx y hy => hst x (List.mem_cons_of_mem _ hx) y (List.mem_cons_of_mem _ hy)
    exact ⟨z :: zs, .cons hs hss, .cons ht hts⟩

lemma forall₂_imp_mem {P : α → Prop} {S : α → β → Prop} (h : List.Forall₂ R xs ys) (hp : ∀ x ∈ xs, P x)
    (hs : ∀ x y, P x → R x y → S x y) : List.Forall₂ S xs ys :=
  ((List.forall₂_and_left _ _).mpr ⟨hp, h⟩).imp fun x y hxy => hs x y hxy.1 hxy.2

lemma forall₂_trans {S : β → γ → Prop} {T : α → γ → Prop} {zs : List γ} (h : List.Forall₂ R xs ys)
    (h' : List.Forall₂ S ys zs) (ht : ∀ x y z, R x y → S y z → T x z) : List.Forall₂ T xs zs := by
  induction h generalizing zs with
  | nil => cases h'; exact .nil
  | cons hx _ ih =>
    cases h' with
    | cons hy hys => exact .cons (ht _ _ _ hx hy) (ih hys)

lemma forall₂_comp {S : β → γ → Prop} {zs : List γ} (h : List.Forall₂ R xs ys) (h' : List.Forall₂ S ys zs) :
    List.Forall₂ (fun x z => ∃ y, R x y ∧ S y z) xs zs :=
  forall₂_trans h h' fun _ y _ hx hy => ⟨y, hx, hy⟩

lemma forall₂_map_zip {S : β → γ → Prop} {T : α → δ × γ → Prop} {f : β → δ} {zs : List γ}
    (h : List.Forall₂ R xs ys) (h' : List.Forall₂ S ys zs) (ht : ∀ x y z, R x y → S y z → T x (f y, z)) :
    List.Forall₂ T xs ((ys.map f).zip zs) := by
  induction h generalizing zs with
  | nil => exact .nil
  | cons hx _ ih =>
    cases h' with
    | cons hy hys => exact .cons (ht _ _ _ hx hy) (ih hys)

lemma forall₂_zip_left (h : List.Forall₂ R xs ys) : List.Forall₂ (fun p x => p.1 = x ∧ R x p.2) (xs.zip ys) xs := by
  induction h with
  | nil => exact .nil
  | cons hx _ ih => exact .cons ⟨rfl, hx⟩ ih

lemma forall₂_of_zip {S : α × β → γ → Prop} {zs : List γ} (h : List.Forall₂ R xs ys)
    (h' : List.Forall₂ S (xs.zip ys) zs) : List.Forall₂ (fun x z => ∃ y, R x y ∧ S (x, y) z) xs zs := by
  induction h generalizing zs with
  | nil => cases h'; exact .nil
  | cons hx _ ih =>
    cases h' with
    | cons hz hzs => exact .cons ⟨_, hx, hz⟩ (ih hzs)

lemma forall₂_zip_right {S : α → γ → Prop} {zs : List γ} (h : List.Forall₂ R xs ys) (h' : List.Forall₂ S xs zs) :
    List.Forall₂ (fun x p => R x p.1 ∧ S x p.2) xs (ys.zip zs) := by
  induction h generalizing zs with
  | nil => exact .nil
  | cons hx _ ih =>
    cases h' with
    | cons hz hzs => exact .cons ⟨hx, hz⟩ (ih hzs)

lemma lookup_zip_of_mem [BEq α] [LawfulBEq α] (h : List.Forall₂ R xs ys) {x : α} (hx : x ∈ xs) :
    ∃ y, (xs.zip ys).lookup x = some y ∧ R x y := by
  induction h with
  | nil => simp at hx
  | @cons a b _ _ ha _ ih =>
    by_cases he : x = a
    · subst he
      exact ⟨b, by simp, ha⟩
    · obtain ⟨y, hy, hr⟩ := ih ((List.mem_cons.mp hx).resolve_left he)
      exact ⟨y, by simpa [List.lookup_cons, beq_false_of_ne he] using hy, hr⟩

lemma lookup_zip_of_notMem [BEq α] [LawfulBEq α] {x : α} (hx : x ∉ xs) (ys : List β) :
    (xs.zip ys).lookup x = none := by
  rw [List.lookup_eq_none_iff]
  intro p hp
  simp only [bne_iff_ne, ne_eq]
  rintro rfl
  exact hx (List.of_mem_zip hp).1

lemma forall₂_append_left {ws xs : List α} (h : List.Forall₂ R (ws ++ xs) ys) :
    List.Forall₂ R ws (ys.take ws.length) ∧ List.Forall₂ R xs (ys.drop ws.length) := by
  induction ws generalizing ys with
  | nil => exact ⟨.nil, h⟩
  | cons w ws ih =>
    cases h with
    | cons hw h => exact ⟨.cons hw (ih h).1, (ih h).2⟩

lemma optionRel_trans {S : β → γ → Prop} {T : α → γ → Prop} {x : Option α} {y : Option β} {z : Option γ}
    (h : Option.Rel R x y) (h' : Option.Rel S y z) (ht : ∀ a b c, R a b → S b c → T a c) : Option.Rel T x z := by
  cases h with
  | none => cases h'; exact .none
  | some hx =>
    cases h' with
    | some hy => exact .some (ht _ _ _ hx hy)

lemma optionRel_imp_mem {P : α → Prop} {S : α → β → Prop} {x : Option α} {y : Option β} (h : Option.Rel R x y)
    (hp : ∀ a ∈ x, P a) (hs : ∀ a b, P a → R a b → S a b) : Option.Rel S x y := by
  cases h with
  | some hr => exact .some (hs _ _ (hp _ rfl) hr)
  | none => exact .none

lemma optionRel_map {R : α → β → Prop} {f : α → β} (h : ∀ x, R x (f x)) (x : Option α) : Option.Rel R x (x.map f) := by
  cases x with
  | none => exact .none
  | some x => exact .some (h x)

lemma length_filterMap_zip {f : α × β → Option γ} {p : α → Bool} (h : List.Forall₂ R xs ys)
    (hf : ∀ x, (f x).isSome = p x.1) : ((xs.zip ys).filterMap f).length = xs.countP p := by
  have hc : (xs.zip ys).countP (fun x => (f x).isSome) = ((xs.zip ys).map (·.1)).countP p := by
    rw [List.countP_map]
    exact List.countP_congr fun x _ => by rw [hf]; rfl
  rw [List.length_filterMap_eq_countP, hc, List.map_fst_zip (Nat.le_of_eq h.length_eq)]

lemma length_flatMap_zip {f : α × β → List γ} {g : α → List δ} (h : List.Forall₂ R xs ys)
    (hf : ∀ x y, R x y → (f (x, y)).length = (g x).length) :
    ((xs.zip ys).flatMap f).length = (xs.flatMap g).length := by
  induction h with
  | nil => rfl
  | cons hx _ ih =>
    rw [List.zip_cons_cons, List.flatMap_cons, List.flatMap_cons, List.length_append, List.length_append, hf _ _ hx, ih]

lemma forall₂_toList {x : Option α} {y : Option β} (h : Option.Rel R x y) : List.Forall₂ R x.toList y.toList := by
  cases h with
  | some hr => exact .cons hr .nil
  | none => exact .nil

lemma forall₂_reduceOption {xs : List (Option α)} {ys : List (Option β)} (h : List.Forall₂ (Option.Rel R) xs ys) :
    List.Forall₂ R xs.reduceOption ys.reduceOption :=
  List.rel_filterMap (fun _ _ hr => hr) h

lemma forall₂_flatMap {S : γ → δ → Prop} {f : α → List γ} {g : β → List δ} (h : List.Forall₂ R xs ys)
    (hs : ∀ x y, R x y → List.Forall₂ S (f x) (g y)) : List.Forall₂ S (xs.flatMap f) (ys.flatMap g) :=
  List.rel_flatMap h fun _ _ => hs _ _

end DexUnseal
