import DexUnseal.Dex.AnnotationSet
import DexUnseal.Dex.DataSection
import DexUnseal.Proofs.Dex.AnnotationSet

/-! Items that are placed in the data section stay where they are, so their offsets are right for the
whole file once all of it is laid out. -/

namespace DexUnseal.Dex

open Reader

def ItemKind.MapOnly (kind : ItemKind) : Prop := kind = .callSiteId ∨ kind = .methodHandle

instance (kind : ItemKind) : Decidable kind.MapOnly := inferInstanceAs (Decidable (_ ∨ _))

namespace DataSection

structure Grows (d e : DataSection) : Prop where
  base : e.base = d.base
  bytes : d.bytes.toList <+: e.bytes.toList

lemma Grows.refl (d : DataSection) : d.Grows d := ⟨rfl, List.prefix_rfl⟩

lemma Grows.trans {d e f : DataSection} (h : d.Grows e) (h' : e.Grows f) : d.Grows f :=
  ⟨h'.base.trans h.base, h.bytes.trans h'.bytes⟩

def Plain (d : DataSection) : Prop := ∀ run ∈ d.runs, ¬ run.kind.MapOnly

/-- The section starts where the rest of the file ends, and words can hold its offsets. -/
structure Follows (d : DataSection) (front : Bytes) : Prop where
  base : d.base.toNat = front.length
  pos : 0 < front.length
  bound : front.length + d.bytes.size < UInt32.size

variable {d final : DataSection} {front : Bytes}

lemma Grows.size_le (h : d.Grows final) : d.bytes.size ≤ final.bytes.size := by
  simpa using h.bytes.length_le

lemma toNat_position (hf : final.Follows front) (h : d.Grows final) :
    d.position.toNat = front.length + d.bytes.size := by
  have hb := hf.base
  have hs := hf.bound
  have hle := h.size_le
  rw [position, ← h.base, UInt32.toNat_add, hb, UInt32.toNat_ofNat_of_lt' (by omega), Nat.mod_eq_of_lt]
  exact Nat.lt_of_le_of_lt (by omega) hs

lemma Plain.countItem {kind : ItemKind} (h : d.Plain) (hk : ¬ kind.MapOnly) : (d.countItem kind).Plain := by
  rw [DataSection.countItem]
  split
  · rename_i run runs hr
    have hp : ∀ run' ∈ run :: runs, ¬ run'.kind.MapOnly := hr ▸ h
    split
    · exact List.forall_mem_cons.mpr ⟨(List.forall_mem_cons.mp hp).1, (List.forall_mem_cons.mp hp).2⟩
    · exact List.forall_mem_cons.mpr ⟨hk, hp⟩
  · exact List.forall_mem_cons.mpr ⟨hk, by simp⟩

lemma grows_align (alignment : UInt32) (d : DataSection) : d.Grows (d.align alignment) :=
  ⟨rfl, by simp [align]⟩

lemma grows_append (bytes : Bytes) (d : DataSection) : d.Grows (d.append bytes) :=
  ⟨rfl, by simp [append]⟩

lemma base_countItem (kind : ItemKind) (d : DataSection) : (d.countItem kind).base = d.base := by
  rw [DataSection.countItem]
  split <;> [split; skip] <;> rfl

lemma bytes_countItem (kind : ItemKind) (d : DataSection) : (d.countItem kind).bytes = d.bytes := by
  rw [DataSection.countItem]
  split <;> [split; skip] <;> rfl

lemma position_countItem (kind : ItemKind) (d : DataSection) : (d.countItem kind).position = d.position := by
  rw [position, base_countItem, bytes_countItem, position]

lemma grows_countItem (kind : ItemKind) (d : DataSection) : d.Grows (d.countItem kind) :=
  ⟨base_countItem kind d, bytes_countItem kind d ▸ List.prefix_rfl⟩

end DataSection

namespace Placing

/-- An action only adds to the section, and its result is right for whatever the section grows into. -/
def Ensures (final : DataSection) (action : Placing α) (P : α → Prop) : Prop :=
  ∀ d, d.Plain → (action.run d).2.Plain ∧ d.Grows (action.run d).2 ∧
    ((action.run d).2.Grows final → P (action.run d).1)

variable {final : DataSection} {front : Bytes} {action : Placing α} {P : α → Prop}

lemma Ensures.pure {x : α} (h : P x) : Ensures final (Pure.pure x) P :=
  fun d hd => ⟨hd, .refl d, fun _ => h⟩

lemma Ensures.bind {f : α → Placing β} {Q : β → Prop} (h : Ensures final action P)
    (hf : ∀ x, Ensures final (f x) fun y => P x → Q y) : Ensures final (action >>= f) Q := by
  intro d hd
  obtain ⟨hp, hg, hx⟩ := h d hd
  obtain ⟨hp', hg', hy⟩ := hf (action.run d).1 (action.run d).2 hp
  exact ⟨hp', hg.trans hg', fun hfinal => hy hfinal (hx (hg'.trans hfinal))⟩

lemma Ensures.mono {Q : α → Prop} (h : Ensures final action P) (hq : ∀ x, P x → Q x) : Ensures final action Q :=
  fun d hd => ⟨(h d hd).1, (h d hd).2.1, fun hfinal => hq _ ((h d hd).2.2 hfinal)⟩

lemma Ensures.map {f : α → β} {Q : β → Prop} (h : Ensures final action fun x => Q (f x)) :
    Ensures final (f <$> action) Q := by
  rw [← bind_pure_comp]
  exact h.bind fun x => .pure id

lemma Ensures.mapM {f : α → Placing β} {R : α → β → Prop} {xs : List α}
    (h : ∀ x ∈ xs, Ensures final (f x) (R x)) : Ensures final (xs.mapM f) (List.Forall₂ R xs) := by
  induction xs with
  | nil => exact .pure .nil
  | cons x xs ih =>
    rw [List.mapM_cons]
    have hx := List.forall_mem_cons.mp h
    exact hx.1.bind fun y => (ih hx.2).bind fun ys => .pure fun hys hy => .cons hy hys

lemma Ensures.optionMapM {f : α → Placing β} {R : α → β → Prop} {x : Option α}
    (h : ∀ a ∈ x, Ensures final (f a) (R a)) : Ensures final (x.mapM f) (Option.Rel R x) := by
  cases x with
  | none => exact .pure .none
  | some a => exact Ensures.map (f := Option.some) ((h a rfl).mono fun _ hy => .some hy)

lemma start_spec (kind : ItemKind) (hk : ¬ kind.MapOnly) (d : DataSection) (hd : d.Plain) :
    ((start kind).run d).2.Plain ∧ d.Grows ((start kind).run d).2 ∧
      ((start kind).run d).1 = ((start kind).run d).2.position := by
  have ha := DataSection.grows_align kind.alignment d
  have hc := DataSection.grows_countItem kind (d.align kind.alignment)
  have hp : (d.align kind.alignment).Plain := hd
  exact ⟨hp.countItem hk, ha.trans hc, (DataSection.position_countItem kind _).symm⟩

lemma standsAt_of_grows {d : DataSection} {item : Bytes} (hf : final.Follows front)
    (h : (d.append item).Grows final) :
    d.position ≠ 0 ∧ StandsAt (front ++ final.bytes.toList) d.position.toNat item := by
  have hp := DataSection.toNat_position hf ((DataSection.grows_append item d).trans h)
  refine ⟨fun hz => ?_, ?_⟩
  · have hpos := hf.pos
    rw [hz] at hp
    simp at hp
    omega
  · obtain ⟨rest, hr⟩ := h.bytes
    have hl : (front ++ d.bytes.toList).length = d.position.toNat := by simp [hp]
    have hs := standsAt_append (front ++ d.bytes.toList) item rest
    rw [hl] at hs
    simpa [← hr, DataSection.append] using hs

lemma run_placeFrom (kind : ItemKind) (item : DataSection → Bytes) (d : DataSection) :
    (placeFrom kind item).run d =
      (((start kind).run d).1, ((start kind).run d).2.append (item ((start kind).run d).2)) := rfl

theorem ensures_placeFrom (kind : ItemKind) {item : DataSection → Bytes} (hk : ¬ kind.MapOnly)
    (hf : final.Follows front) : Ensures final (placeFrom kind item) fun offset =>
      ∃ d, d.Plain ∧ offset ≠ 0 ∧ StandsAt (front ++ final.bytes.toList) offset.toNat (item d) := by
  intro d hd
  obtain ⟨hp, hg, ho⟩ := start_spec kind hk d hd
  rw [run_placeFrom]
  refine ⟨hp, hg.trans (DataSection.grows_append _ _), fun h => ⟨_, hp, ?_⟩⟩
  have hs := standsAt_of_grows hf h
  rwa [← ho] at hs

theorem ensures_place (kind : ItemKind) {item : Bytes} (hk : ¬ kind.MapOnly) (hf : final.Follows front) :
    Ensures final (place kind item) fun offset =>
      offset ≠ 0 ∧ StandsAt (front ++ final.bytes.toList) offset.toNat item :=
  (ensures_placeFrom kind hk hf).mono fun _ ⟨_, _, ho⟩ => ho

theorem ensures_placeIf (kind : ItemKind) {item : Option Bytes} (hk : ¬ kind.MapOnly) (hf : final.Follows front) :
    Ensures final (placeIf kind item) (Placed (front ++ final.bytes.toList) item) := by
  cases item with
  | none => exact .pure rfl
  | some item => exact ensures_place kind hk hf

lemma Ensures.keyed {f : α → Placing β} {R : α → β → Prop} {xs : List (UInt32 × α)}
    (h : ∀ x, Ensures final (f x) (R x)) :
    Ensures final (xs.mapM fun (idx, x) => return (idx, ← f x)) (List.Forall₂ (Directory.Keyed R) xs) :=
  .mapM fun x _ => (h x.2).bind fun _ => .pure fun hy => ⟨rfl, hy⟩

lemma Ensures.directoryMapM {f : α → Placing β} {R : α → β → Prop} {d : Directory α}
    (h : ∀ x, Ensures final (f x) (R x)) : Ensures final (d.mapM f) (d.Rel R) := by
  have hp : ∀ sets : List (Option α), Ensures final (sets.mapM (·.mapM f)) (List.Forall₂ (Option.Rel R) sets) :=
    fun sets => .mapM fun x _ => .optionMapM fun a _ => h a
  refine Ensures.bind (.optionMapM fun a _ => h a) fun ofClass => ?_
  refine Ensures.bind (.keyed h) fun ofFields => Ensures.bind (.keyed h) fun ofMethods => ?_
  exact Ensures.bind (.keyed hp) fun ofParameters => .pure fun hp hm hf hc => ⟨hc, hf, hm, hp⟩

def Returns (action : Placing α) (P : α → Prop) : Prop := ∀ d, P (action.run d).1

lemma Returns.pure {x : α} (h : P x) : Returns (Pure.pure x) P := fun _ => h

lemma Returns.bind {f : α → Placing β} {Q : β → Prop} (h : Returns action P) (hf : ∀ x, P x → Returns (f x) Q) :
    Returns (action >>= f) Q :=
  fun d => hf _ (h d) _

lemma Returns.after {f : α → Placing β} {Q : β → Prop} (h : ∀ x, Returns (f x) Q) : Returns (action >>= f) Q :=
  fun d => h (action.run d).1 _

lemma Returns.mono {Q : α → Prop} (h : Returns action P) (hq : ∀ x, P x → Q x) : Returns action Q :=
  fun d => hq _ (h d)

lemma returns_mapM (f : α → Placing β) (xs : List α) : Returns (xs.mapM f) (·.length = xs.length) := by
  induction xs with
  | nil => exact .pure rfl
  | cons x xs ih =>
    rw [List.mapM_cons]
    exact .after fun y => ih.bind fun ys hys => .pure (by simp [hys])

end Placing

end DexUnseal.Dex
