import DexUnseal.Proofs.Dex.Placing
import DexUnseal.Proofs.Dex.Tiling

/-! What is placed in the data section, item by item. -/

namespace DexUnseal.Dex

abbrev Content := ItemKind × Bytes

def Item.content (i : Item) : Content := (i.kind, i.bytes)

inductive DataSection.Lays : DataSection → List Item → DataSection → Prop
  | nil (d : DataSection) : Lays d [] d
  | cons {d e : DataSection} {i : Item} {items : List Item}
      (offset : i.offset = ((Placing.place i.kind i.bytes).run d).1)
      (tail : Lays ((Placing.place i.kind i.bytes).run d).2 items e) : Lays d (i :: items) e

namespace DataSection

variable {d e f : DataSection} {items more : List Item} {i : Item} {kind : ItemKind} {bytes : Bytes}

lemma Lays.append (h : d.Lays items e) (h' : e.Lays more f) : d.Lays (items ++ more) f := by
  induction h with
  | nil => exact h'
  | cons offset _ ih => exact .cons offset (ih h')

lemma Lays.grows (h : d.Lays items e) : d.Grows e := by
  induction h with
  | nil d => exact .refl d
  | @cons d _ i _ _ _ ih =>
    refine Grows.trans ?_ ih
    exact (grows_align i.kind.alignment d).trans ((grows_countItem i.kind _).trans (grows_append i.bytes _))

lemma base_align (alignment : UInt32) (d : DataSection) : (d.align alignment).base = d.base := rfl

lemma run_place (kind : ItemKind) (bytes : Bytes) (d : DataSection) : (Placing.place kind bytes).run d =
    ((d.align kind.alignment).position, ((d.align kind.alignment).countItem kind).append bytes) := rfl

lemma alignment_cases (kind : ItemKind) : kind.alignment = 1 ∨ kind.alignment = 4 := by
  cases kind <;> decide

lemma padding_one (position : UInt32) : padding 1 position = 0 := by
  have hm : position % 1 = 0 := by
    rw [← UInt32.toNat_inj, UInt32.toNat_mod]
    exact Nat.mod_one _
  simp [padding, alignUp, hm]

lemma padding_four_le (position : UInt32) : padding 4 position ≤ 3 := by
  have hlast : (position + 3).toNat = (position.toNat + 3) % 4294967296 := UInt32.toNat_add ..
  have hrest : ((position + 3) % 4).toNat = (position + 3).toNat % 4 := UInt32.toNat_mod ..
  have hle : (position + 3) % 4 ≤ position + 3 := UInt32.le_iff_toNat_le.mpr (hrest ▸ Nat.mod_le _ _)
  have htarget : (alignUp 4 position).toNat = (position + 3).toNat - (position + 3).toNat % 4 := by
    rw [← hrest, ← UInt32.toNat_sub_of_le _ _ hle]
    rfl
  have hlt := position.toNat_lt
  simp only [padding]
  split
  · rename_i hup
    rw [UInt32.toNat_sub_of_le _ _ (UInt32.le_of_lt hup)]
    rw [UInt32.lt_iff_toNat_lt] at hup
    omega
  · exact Nat.zero_le 3

lemma padding_spec {position : UInt32} (h : position.toNat + kind.alignment.toNat ≤ UInt32.size) :
    padding kind.alignment position < kind.alignment.toNat ∧
      kind.alignment.toNat ∣ position.toNat + padding kind.alignment position := by
  obtain ha | ha := alignment_cases kind
  · simp [ha, padding_one]
  · have hfour : (4 : UInt32).toNat = 4 := rfl
    rw [ha, hfour, UInt32.size] at h
    have hlast : (position + (4 - 1)).toNat = position.toNat + 3 := by
      rw [UInt32.toNat_add]
      exact Nat.mod_eq_of_lt (by simp; omega)
    have hle : (position + (4 - 1)) % 4 ≤ position + (4 - 1) := by
      rw [UInt32.le_iff_toNat_le, UInt32.toNat_mod]
      exact Nat.mod_le _ _
    have htarget : (alignUp 4 position).toNat = (position.toNat + 3) - (position.toNat + 3) % 4 := by
      rw [alignUp, UInt32.toNat_sub_of_le _ _ hle, UInt32.toNat_mod, hlast, hfour]
    rw [ha, hfour]
    simp only [padding]
    split
    · rename_i hlt
      rw [UInt32.toNat_sub_of_le _ _ (UInt32.le_of_lt hlt), htarget]
      omega
    · rename_i hge
      rw [UInt32.lt_iff_toNat_lt, htarget] at hge
      omega

lemma base_run_place (kind : ItemKind) (bytes : Bytes) (d : DataSection) :
    ((Placing.place kind bytes).run d).2.base = d.base :=
  (grows_countItem kind (d.align kind.alignment)).base

lemma bytes_run_place (kind : ItemKind) (bytes : Bytes) (d : DataSection) :
    ((Placing.place kind bytes).run d).2.bytes.toList =
      d.bytes.toList ++ (List.replicate (padding kind.alignment d.position) 0 ++ bytes) := by
  simp [run_place, append, bytes_countItem, align]

lemma Lays.tiles (h : d.Lays items e) (hlen : d.base.toNat + e.bytes.size < UInt32.size)
    (hs : ∀ i ∈ items, i.kind.alignment.toNat ≤ i.bytes.length) :
    ∃ new, e.bytes.toList = d.bytes.toList ++ new ∧ Tiles (d.base.toNat + d.bytes.size) items new := by
  induction h with
  | nil d => exact ⟨[], (List.append_nil _).symm, .nil _⟩
  | @cons d e i items offset tail ih =>
    obtain ⟨hi, hitems⟩ := List.forall_mem_cons.mp hs
    have hbytes := bytes_run_place i.kind i.bytes d
    have hle := tail.grows.size_le
    rw [← base_run_place i.kind i.bytes d] at hlen
    obtain ⟨new, hnew, htiles⟩ := ih hlen hitems
    set next := ((Placing.place i.kind i.bytes).run d).2
    have hbase : next.base = d.base := base_run_place i.kind i.bytes d
    have hsize : next.bytes.size = d.bytes.size + padding i.kind.alignment d.position + i.bytes.length := by
      rw [← Array.length_toList, hbytes]
      simp [Nat.add_assoc]
    rw [hbase] at hlen htiles
    have hposition : d.position.toNat = d.base.toNat + d.bytes.size := toNat_add_ofNat (by omega)
    obtain ⟨hpadded, haligned⟩ := @padding_spec i.kind d.position (by omega)
    have hoffset : i.offset.toNat = d.base.toNat + d.bytes.size + padding i.kind.alignment d.position := by
      have hpad : (d.align i.kind.alignment).bytes.size = d.bytes.size + padding i.kind.alignment d.position := by
        rw [← Array.length_toList]
        simp [align]
      rw [offset, run_place, position, toNat_add_ofNat (by rw [hpad, base_align]; omega), hpad, base_align,
        Nat.add_assoc]
    refine ⟨List.replicate (padding i.kind.alignment d.position) 0 ++ (i.bytes ++ new), ?_,
      .cons hoffset hpadded ?_ ?_⟩
    · rw [hnew, hbytes]
      simp only [List.append_assoc]
    · rwa [hoffset, ← hposition]
    · have hstop : i.stop = d.base.toNat + next.bytes.size := by
        rw [Item.stop, hoffset, hsize]
        omega
      rwa [hstop]

/-- The runs, the latest first, tell of the items so far. -/
structure Tells (d : DataSection) (items : List Item) : Prop where
  described : ∃ parts, List.Forall₂ Describes d.runs parts ∧ parts.reverse.flatten = items
  separate : d.runs.IsChain (·.kind ≠ ·.kind)

lemma runs_countItem (kind : ItemKind) (d : DataSection) :
    (∃ run runs, d.runs = run :: runs ∧ run.kind = kind ∧
      (d.countItem kind).runs = { run with count := run.count + 1 } :: runs) ∨
    ((∀ run ∈ d.runs.head?, run.kind ≠ kind) ∧ (d.countItem kind).runs = ⟨kind, 1, d.position⟩ :: d.runs) := by
  rw [countItem]
  split
  · rename_i run runs hr
    split
    · exact .inl ⟨run, runs, hr, ‹_›, rfl⟩
    · exact .inr ⟨by simpa [hr], by rw [hr]⟩
  · rename_i hr
    exact .inr ⟨by simp [hr], by rw [hr]⟩

lemma Tells.countItem (h : d.Tells items) (hk : i.kind = kind) (ho : i.offset = d.position) :
    (d.countItem kind).Tells (items ++ [i]) := by
  obtain ⟨⟨parts, hparts, rfl⟩, hchain⟩ := h
  obtain ⟨run, runs, hd, hrun, hr⟩ | ⟨hnew, hr⟩ := runs_countItem kind d
  · rw [hd] at hparts hchain
    cases hparts with
    | @cons _ part _ parts hpart hparts =>
    refine ⟨⟨(part ++ [i]) :: parts, ?_, ?_⟩, ?_⟩
    · rw [hr]
      exact .cons (hpart.concat (hk.trans hrun.symm)) hparts
    · simp
    · rw [hr]
      exact List.isChain_cons.mpr (List.isChain_cons.mp hchain)
  · refine ⟨⟨[i] :: parts, ?_, by simp⟩, ?_⟩
    · rw [hr]
      exact .cons ⟨by simp [hk], rfl, by simp [ho]⟩ hparts
    · rw [hr]
      exact List.isChain_cons.mpr ⟨fun run hrun => (hnew run hrun).symm, hchain⟩

lemma Tells.align (h : d.Tells items) (alignment : UInt32) : (d.align alignment).Tells items :=
  ⟨h.described, h.separate⟩

lemma Tells.runs_countItem_of_new (h : d.Tells items) (hk : ∀ i ∈ items, i.kind ≠ kind) :
    (d.countItem kind).runs = ⟨kind, 1, d.position⟩ :: d.runs := by
  obtain ⟨⟨parts, hparts, rfl⟩, -⟩ := h
  obtain ⟨run, runs, hd, hrun, -⟩ | ⟨-, hr⟩ := runs_countItem kind d
  · obtain ⟨i, hi, he, -⟩ := exists_item hparts (hd ▸ List.mem_cons_self)
    rw [← (List.reverse_perm parts).flatten.mem_iff] at hi
    exact absurd (he.trans hrun) (hk i hi)
  · exact hr

lemma tells_empty (base : UInt32) : (empty base).Tells [] := ⟨⟨[], .nil, rfl⟩, .nil⟩

lemma Lays.tells (h : d.Lays items e) {before : List Item} (hd : d.Tells before) : e.Tells (before ++ items) := by
  induction h generalizing before with
  | nil d => simpa using hd
  | @cons d e i items offset _ ih =>
    have hcount := (hd.align i.kind.alignment).countItem (i := i) rfl offset
    have hplaced : ((Placing.place i.kind i.bytes).run d).2.Tells (before ++ [i]) := ⟨hcount.described, hcount.separate⟩
    simpa using ih hplaced

end DataSection

namespace Directory

def sets (d : Directory σ) : List σ :=
  d.ofClass.toList ++ d.ofFields.map (·.2) ++ d.ofMethods.map (·.2) ++
    d.ofParameters.flatMap fun member => member.2.flatMap (·.toList)

lemma Rel.sets {R : σ → τ → Prop} {d : Directory σ} {e : Directory τ} (h : d.Rel R e) :
    List.Forall₂ R d.sets e.sets := by
  have hmembers : ∀ {ds : List (UInt32 × σ)} {es : List (UInt32 × τ)}, List.Forall₂ (Keyed R) ds es →
      List.Forall₂ R (ds.map (·.2)) (es.map (·.2)) :=
    fun hm => List.rel_map (fun _ _ hk => hk.2) hm
  refine List.rel_append (List.rel_append (List.rel_append (forall₂_toList h.ofClass) (hmembers h.ofFields))
    (hmembers h.ofMethods)) (forall₂_flatMap h.ofParameters fun _ _ hk => ?_)
  exact forall₂_flatMap hk.2 fun _ _ hr => forall₂_toList hr

end Directory

namespace Placing

/-- An action places items, and whatever they end up among, something holds of their contents and of its result. -/
def Emits (action : Placing α) (Q : List Content → List Item → α → Prop) : Prop :=
  ∀ d, ∃ new, d.Lays new (action.run d).2 ∧ ∀ items, new ⊆ items → Q (new.map Item.content) items (action.run d).1

variable {action : Placing α} {Q : List Content → List Item → α → Prop} {R : α → List Item → β → Prop}
  {contents : α → List Content} {f : α → Placing β}

lemma Emits.pure {x : α} (h : ∀ items, Q [] items x) : Emits (Pure.pure x) Q :=
  fun d => ⟨[], .nil d, fun items _ => h items⟩

lemma Emits.bind {S : List Content → List Item → β → Prop} (h : Emits action Q)
    (hf : ∀ x front, Emits (f x) fun back items y => Q front items x → S (front ++ back) items y) :
    Emits (action >>= f) S := by
  intro d
  obtain ⟨new, hnew, hq⟩ := h d
  obtain ⟨more, hmore, hs⟩ := hf (action.run d).1 (new.map Item.content) (action.run d).2
  refine ⟨new ++ more, hnew.append hmore, fun items hi => ?_⟩
  obtain ⟨hfront, hback⟩ := List.append_subset.mp hi
  rw [List.map_append]
  exact hs items hback (hq items hfront)

lemma Emits.mono {S : List Content → List Item → α → Prop} (h : Emits action Q)
    (hs : ∀ cs items x, Q cs items x → S cs items x) : Emits action S := by
  intro d
  obtain ⟨new, hnew, hq⟩ := h d
  exact ⟨new, hnew, fun items hi => hs _ _ _ (hq items hi)⟩

lemma emits_place (kind : ItemKind) (bytes : Bytes) : Emits (place kind bytes) fun cs items offset =>
    cs = [(kind, bytes)] ∧ ⟨kind, offset, bytes⟩ ∈ items := by
  intro d
  refine ⟨[⟨kind, ((place kind bytes).run d).1, bytes⟩], .cons rfl (.nil _), fun items hi => ⟨rfl, ?_⟩⟩
  exact hi List.mem_cons_self

def Found (items : List Item) (kind : ItemKind) (item : Option Bytes) (offset : UInt32) : Prop :=
  match item with
  | some bytes => ⟨kind, offset, bytes⟩ ∈ items
  | none => offset = 0

lemma emits_placeIf (kind : ItemKind) (item : Option Bytes) : Emits (placeIf kind item) fun cs items offset =>
    cs = item.toList.map (kind, ·) ∧ Found items kind item offset := by
  cases item with
  | none => exact .pure fun _ => ⟨rfl, rfl⟩
  | some bytes => exact emits_place kind bytes

lemma Emits.mapM {xs : List α} (h : ∀ x ∈ xs, Emits (f x) fun cs items y => cs = contents x ∧ R x items y) :
    Emits (xs.mapM f) fun cs items ys =>
      cs = xs.flatMap contents ∧ List.Forall₂ (fun x y => R x items y) xs ys := by
  induction xs with
  | nil => exact .pure fun _ => ⟨rfl, .nil⟩
  | cons x xs ih =>
    rw [List.mapM_cons]
    obtain ⟨hx, hxs⟩ := List.forall_mem_cons.mp h
    refine hx.bind fun y front => (ih hxs).bind fun ys back => .pure ?_
    rintro items ⟨rfl, hys⟩ ⟨rfl, hy⟩
    exact ⟨by simp, .cons hy hys⟩

lemma Emits.optionMapM {x : Option α} (h : ∀ a, Emits (f a) fun cs items y => cs = contents a ∧ R a items y) :
    Emits (x.mapM f) fun cs items y =>
      cs = x.toList.flatMap contents ∧ Option.Rel (fun a b => R a items b) x y := by
  cases x with
  | none => exact .pure fun _ => ⟨rfl, .none⟩
  | some a =>
    refine Emits.bind (h a) fun y front => .pure ?_
    rintro items ⟨rfl, hy⟩
    exact ⟨by simp, .some hy⟩

lemma Emits.keyed {xs : List (UInt32 × α)} (h : ∀ x, Emits (f x) fun cs items y => cs = contents x ∧ R x items y) :
    Emits (xs.mapM fun (idx, x) => return (idx, ← f x)) fun cs items ys =>
      cs = (xs.map (·.2)).flatMap contents ∧ List.Forall₂ (Directory.Keyed fun x y => R x items y) xs ys := by
  rw [List.flatMap_map]
  refine Emits.mapM fun x _ => (h x.2).bind fun y front => .pure ?_
  rintro items ⟨rfl, hy⟩
  exact ⟨List.append_nil _, rfl, hy⟩

lemma Emits.directoryMapM {d : Directory α} (h : ∀ x, Emits (f x) fun cs items y => cs = contents x ∧ R x items y) :
    Emits (d.mapM f) fun cs items e => cs = d.sets.flatMap contents ∧ d.Rel (fun x y => R x items y) e := by
  have hsets : ∀ sets : List (Option α), Emits (sets.mapM (·.mapM f)) fun cs items ys =>
      cs = sets.flatMap (fun x => x.toList.flatMap contents) ∧
        List.Forall₂ (Option.Rel fun x y => R x items y) sets ys :=
    fun sets => .mapM fun _ _ => .optionMapM h
  refine Emits.bind (.optionMapM h) fun ofClass _ => Emits.bind (.keyed h) fun ofFields _ => ?_
  refine Emits.bind (.keyed h) fun ofMethods _ => Emits.bind (.keyed hsets) fun ofParameters _ => .pure ?_
  rintro items ⟨rfl, hp⟩ ⟨rfl, hm⟩ ⟨rfl, hf⟩ ⟨rfl, hc⟩
  refine ⟨?_, hc, hf, hm, hp⟩
  simp [Directory.sets, List.flatMap_assoc, List.flatMap_map]

end Placing

end DexUnseal.Dex
