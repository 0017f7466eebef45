import DexUnseal.Dex.DataSection
import DexUnseal.Proofs.Bytes
import DexUnseal.Proofs.Pairing
import Mathlib.Data.List.Chain
import Mathlib.Data.List.Pairwise

/-! Files as items one after the other, and runs of items of one kind. -/

namespace DexUnseal.Dex

structure Item where
  kind : ItemKind
  offset : UInt32
  bytes : Bytes

def Item.stop (i : Item) : Nat := i.offset.toNat + i.bytes.length

lemma toNat_add_ofNat {a : UInt32} {n : Nat} (h : a.toNat + n < UInt32.size) :
    (a + UInt32.ofNat n).toNat = a.toNat + n := by
  rw [UInt32.toNat_add, UInt32.toNat_ofNat_of_lt' (by omega), Nat.mod_eq_of_lt h]

lemma ItemKind.alignment_pos (kind : ItemKind) : 0 < kind.alignment.toNat := by
  cases kind <;> decide

/-- Bytes from a place on are items, each behind as many zeros as its alignment takes. -/
inductive Tiles : (place : Nat) → List Item → Bytes → Prop
  | nil (place : Nat) : Tiles place [] []
  | cons {place padding : Nat} {i : Item} {items : List Item} {rest : Bytes}
      (offset : i.offset.toNat = place + padding) (padded : padding < i.kind.alignment.toNat)
      (aligned : i.kind.alignment.toNat ∣ i.offset.toNat) (tail : Tiles i.stop items rest) :
      Tiles place (i :: items) (List.replicate padding 0 ++ (i.bytes ++ rest))

structure Describes (run : MapItem) (items : List Item) : Prop where
  kind : ∀ i ∈ items, i.kind = run.kind
  count : run.count = UInt32.ofNat items.length
  first : items.head?.map (·.offset) = some run.offset

variable {place : Nat} {items more : List Item} {bytes moreBytes : Bytes} {i : Item}

lemma Tiles.append (h : Tiles place items bytes) (h' : Tiles (place + bytes.length) more moreBytes) :
    Tiles place (items ++ more) (bytes ++ moreBytes) := by
  induction h with
  | nil => simpa using h'
  | @cons place padding i items rest offset padded aligned _ ih =>
    have hstop : i.stop + rest.length = place + (List.replicate padding (0 : UInt8) ++ (i.bytes ++ rest)).length := by
      simp only [Item.stop, offset, List.length_append, List.length_replicate]
      omega
    rw [← hstop] at h'
    rw [List.cons_append, List.append_assoc, List.append_assoc]
    exact .cons offset padded aligned (ih h')

lemma Tiles.le_offset (h : Tiles place items bytes) : ∀ i ∈ items, place ≤ i.offset.toNat := by
  induction h with
  | nil => simp
  | @cons place padding i items rest offset _ _ _ ih =>
    refine List.forall_mem_cons.mpr ⟨by omega, fun j hj => ?_⟩
    have hle := ih j hj
    rw [Item.stop] at hle
    omega

lemma Tiles.pairwise (h : Tiles place items bytes) : items.Pairwise fun i j => i.stop ≤ j.offset.toNat := by
  induction h with
  | nil => exact .nil
  | cons _ _ _ tail ih => exact .cons (fun j hj => tail.le_offset j hj) ih

lemma Tiles.stop_le (h : Tiles place items bytes) {j : Item} (hi : i ∈ items) (hj : j ∈ items)
    (hlt : i.offset < j.offset) : i.stop ≤ j.offset.toNat := by
  obtain ⟨m, hm, rfl⟩ := List.mem_iff_getElem.mp hi
  obtain ⟨n, hn, rfl⟩ := List.mem_iff_getElem.mp hj
  have hp := List.pairwise_iff_getElem.mp h.pairwise
  rcases Nat.lt_trichotomy m n with hmn | rfl | hnm
  · exact hp m n hm hn hmn
  · exact absurd hlt (UInt32.lt_irrefl _)
  · have hle := hp n m hn hm hnm
    rw [Item.stop] at hle
    rw [UInt32.lt_iff_toNat_lt] at hlt
    omega

lemma Tiles.increasing (h : Tiles place items bytes) (hs : ∀ i ∈ items, i.kind.alignment.toNat ≤ i.bytes.length) :
    items.Pairwise fun i j => i.offset < j.offset := by
  refine h.pairwise.imp_of_mem fun {i j} hi _ hle => ?_
  have hpos := Nat.lt_of_lt_of_le i.kind.alignment_pos (hs i hi)
  rw [Item.stop] at hle
  rw [UInt32.lt_iff_toNat_lt]
  omega

lemma Tiles.aligned (h : Tiles place items bytes) : ∀ i ∈ items, i.kind.alignment.toNat ∣ i.offset.toNat := by
  induction h with
  | nil => simp
  | cons _ _ aligned _ ih => exact List.forall_mem_cons.mpr ⟨aligned, ih⟩

lemma Tiles.standsAt (h : Tiles place items bytes) {front : Bytes} (hf : front.length = place) :
    ∀ i ∈ items, StandsAt (front ++ bytes) i.offset.toNat i.bytes := by
  induction h generalizing front with
  | nil => simp
  | @cons place padding i items rest offset _ _ _ ih =>
    have hplace : (front ++ List.replicate padding 0).length = i.offset.toNat := by
      rw [List.length_append, List.length_replicate, hf, offset]
    refine List.forall_mem_cons.mpr ⟨?_, fun j hj => ?_⟩
    · rw [← List.append_assoc, ← hplace]
      exact standsAt_append _ _ _
    · have hstop : (front ++ (List.replicate padding 0 ++ i.bytes)).length = i.stop := by
        rw [← List.append_assoc, List.length_append, hplace, Item.stop]
      simpa only [List.append_assoc] using ih hstop j hj

lemma Tiles.length_le (h : Tiles place items bytes) (hs : ∀ i ∈ items, i.kind.alignment.toNat ≤ i.bytes.length) :
    items.length ≤ bytes.length := by
  induction h with
  | nil => exact Nat.le_refl _
  | @cons _ _ i _ _ _ _ _ _ ih =>
    obtain ⟨hi, hitems⟩ := List.forall_mem_cons.mp hs
    have hpos := i.kind.alignment_pos
    have hrest := ih hitems
    simp only [List.length_cons, List.length_append]
    omega

lemma Describes.ne_nil {run : MapItem} (h : Describes run items) : items ≠ [] := by
  rintro rfl
  cases h.first

lemma Describes.concat {run : MapItem} (h : Describes run items) (hi : i.kind = run.kind) :
    Describes { run with count := run.count + 1 } (items ++ [i]) where
  kind j hj := by
    rcases List.mem_append.mp hj with hj | hj
    · exact h.kind j hj
    · exact List.mem_singleton.mp hj ▸ hi
  count := by
    rw [h.count, List.length_append, UInt32.ofNat_add]
    rfl
  first := by
    obtain ⟨j, rest, rfl⟩ := List.exists_cons_of_ne_nil h.ne_nil
    exact h.first

variable {runs : List MapItem} {parts : List (List Item)}

lemma sublist_of_describes (h : List.Forall₂ Describes runs parts) :
    (runs.map fun run => (run.kind, run.offset)).Sublist (parts.flatten.map fun i => (i.kind, i.offset)) := by
  induction h with
  | nil => exact .slnil
  | @cons run part runs parts hrun _ ih =>
    obtain ⟨i, rest, rfl⟩ := List.exists_cons_of_ne_nil hrun.ne_nil
    have hkind := hrun.kind i List.mem_cons_self
    have hoffset : i.offset = run.offset := Option.some.inj hrun.first
    rw [List.flatten_cons, List.cons_append, List.map_cons, List.map_cons, hkind, hoffset, List.map_append]
    exact .cons_cons _ (ih.trans (List.sublist_append_right _ _))

lemma sublist_kinds (h : List.Forall₂ Describes runs parts) :
    (runs.map (·.kind)).Sublist (parts.flatten.map (·.kind)) := by
  have hs := (sublist_of_describes h).map (·.1)
  rwa [List.map_map, List.map_map] at hs

lemma sublist_offsets (h : List.Forall₂ Describes runs parts) :
    (runs.map (·.offset)).Sublist (parts.flatten.map (·.offset)) := by
  have hs := (sublist_of_describes h).map (·.2)
  rwa [List.map_map, List.map_map] at hs

lemma exists_run (h : List.Forall₂ Describes runs parts) (hi : i ∈ parts.flatten) :
    ∃ run ∈ runs, run.kind = i.kind := by
  obtain ⟨part, hpart, hmem⟩ := List.mem_flatten.mp hi
  obtain ⟨run, hrun, hd⟩ := forall₂_exists_right (forall₂_swap h) hpart
  exact ⟨run, hrun, (hd.kind i hmem).symm⟩

lemma exists_item (h : List.Forall₂ Describes runs parts) {run : MapItem} (hr : run ∈ runs) :
    ∃ i ∈ parts.flatten, i.kind = run.kind ∧ i.offset = run.offset := by
  obtain ⟨part, hpart, hd⟩ := forall₂_exists_right h hr
  obtain ⟨i, rest, rfl⟩ := List.exists_cons_of_ne_nil hd.ne_nil
  refine ⟨i, List.mem_flatten.mpr ⟨_, hpart, List.mem_cons_self⟩, hd.kind i List.mem_cons_self, ?_⟩
  exact Option.some.inj hd.first

lemma count_eq (h : List.Forall₂ Describes runs parts) (hn : (runs.map (·.kind)).Nodup) :
    ∀ run ∈ runs, run.count = UInt32.ofNat (parts.flatten.countP (·.kind = run.kind)) := by
  induction h with
  | nil => simp
  | @cons run part runs parts hrun hruns ih =>
    obtain ⟨hnew, hn⟩ := List.nodup_cons.mp hn
    refine List.forall_mem_cons.mpr ⟨?_, fun other hother => ?_⟩
    · have hpart : part.countP (·.kind = run.kind) = part.length :=
        List.countP_eq_length.mpr fun i hi => decide_eq_true (hrun.kind i hi)
      have hrest : parts.flatten.countP (·.kind = run.kind) = 0 := by
        refine List.countP_eq_zero.mpr fun i hi hk => hnew ?_
        obtain ⟨other, hother, he⟩ := exists_run hruns hi
        exact List.mem_map.mpr ⟨other, hother, he.trans (of_decide_eq_true hk)⟩
      rw [List.flatten_cons, List.countP_append, hpart, hrest, Nat.add_zero, hrun.count]
    · have hpart : part.countP (·.kind = other.kind) = 0 := by
        refine List.countP_eq_zero.mpr fun i hi hk => hnew ?_
        exact List.mem_map.mpr ⟨other, hother, (of_decide_eq_true hk).symm.trans (hrun.kind i hi)⟩
      rw [List.flatten_cons, List.countP_append, hpart, Nat.zero_add, ih hn other hother]

def ItemKind.rank : ItemKind → Nat
  | header => 0
  | stringId => 1
  | typeId => 2
  | protoId => 3
  | fieldId => 4
  | methodId => 5
  | classDef => 6
  | callSiteId => 7
  | methodHandle => 8
  | stringData => 9
  | typeList => 10
  | encodedArray => 11
  | annotationItem => 12
  | annotationSet => 13
  | annotationSetList => 14
  | annotationDirectory => 15
  | debugInfo => 16
  | code => 17
  | classData => 18
  | mapList => 19

lemma ItemKind.eq_of_rank {kind kind' : ItemKind} (h : kind.rank = kind'.rank) : kind = kind' := by
  cases kind <;> cases kind' <;> first | rfl | cases h

lemma ItemKind.eq_of_typeCode {kind kind' : ItemKind} (h : kind.typeCode = kind'.typeCode) : kind = kind' := by
  cases kind <;> cases kind' <;> first | rfl | exact absurd h (by decide)

lemma pairwise_rank_lt {kinds : List ItemKind} (h : kinds.Pairwise (·.rank ≤ ·.rank)) (hc : kinds.IsChain (· ≠ ·)) :
    kinds.Pairwise (·.rank < ·.rank) := by
  have : IsTrans ItemKind (·.rank < ·.rank) := ⟨fun _ _ _ => Nat.lt_trans⟩
  rw [← List.isChain_iff_pairwise]
  induction kinds with
  | nil => exact .nil
  | cons kind kinds ih =>
    obtain ⟨hle, hs⟩ := List.pairwise_cons.mp h
    obtain ⟨hne, hc⟩ := List.isChain_cons.mp hc
    refine List.isChain_cons.mpr ⟨fun next hn => ?_, ih hs hc⟩
    exact Nat.lt_of_le_of_ne (hle next (List.mem_of_mem_head? hn)) fun he => hne next hn (ItemKind.eq_of_rank he)

end DexUnseal.Dex
