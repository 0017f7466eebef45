import DexUnseal.Dex.Reader
import DexUnseal.Proofs.Bytes
import DexUnseal.Proofs.Leb128
import Mathlib.Data.List.Forall2
import Mathlib.Data.Option.Basic

/-! Which bytes a reader takes. A reader that reads some bytes at all reads them wherever they stand
and whatever follows them, so readers compose as the bytes do. -/

namespace DexUnseal.Dex.Reader

/-- From any cursor before `bytes` the reader gives `x` and stops right behind them. -/
def Reads (r : Reader α) (bytes : Bytes) (x : α) : Prop :=
  ∀ position rest, r ⟨position, bytes ++ rest⟩ = .ok (x, ⟨position + bytes.length, rest⟩)

variable {r : Reader α} {bytes more : Bytes} {x : α}

lemma Reads.pure (x : α) : Reads (Pure.pure x) [] x := fun _ _ => rfl

lemma bind_eq {c c' : Cursor} (h : r c = .ok (x, c')) (f : α → Reader β) : (r >>= f) c = f x c' := by
  simp only [Bind.bind, StateT.bind, Except.bind, h]

lemma Reads.bind {f : α → Reader β} {y : β} (h : Reads r bytes x) (hf : Reads (f x) more y) :
    Reads (r >>= f) (bytes ++ more) y := by
  intro position rest
  rw [List.append_assoc, bind_eq (h position (more ++ rest)), hf, List.length_append, Nat.add_assoc]

lemma Reads.then {f : α → Reader β} {y : β} (h : Reads r bytes x) (hf : Reads (f x) [] y) :
    Reads (r >>= f) bytes y := by
  simpa only [List.append_nil] using h.bind hf

lemma Reads.skip {f : α → Reader β} {y : β} (h : Reads r [] x) (hf : Reads (f x) bytes y) :
    Reads (r >>= f) bytes y :=
  h.bind hf

lemma Reads.map (f : α → β) (h : Reads r bytes x) : Reads (f <$> r) bytes (f x) := by
  intro position rest
  simp only [Functor.map, StateT.map, h position rest]
  rfl

lemma Reads.discard (h : Reads r bytes x) : Reads (discard r) bytes () := h.map _

lemma Reads.refuseIf {condition : Prop} [Decidable condition] (h : ¬ condition) (cause : Cause) :
    Reads (refuseIf condition cause) [] () := by
  rw [Reader.refuseIf, if_neg h]
  exact Reads.pure ()

lemma Reads.lift {result : Except Fault α} (h : result = .ok x) : Reads (liftM result) [] x := by
  intro position rest
  rw [h]
  rfl

lemma cursor_bind (f : Cursor → Reader α) (c : Cursor) : (Reader.cursor >>= f) c = f c c := rfl

lemma Reads.cursor {f : Cursor → Reader α} (h : ∀ c, bytes <+: c.rest → Reads (f c) bytes x) :
    Reads (Reader.cursor >>= f) bytes x :=
  fun position rest => h ⟨position, bytes ++ rest⟩ (List.prefix_append bytes rest) position rest

lemma Reads.within (context : Context) (h : Reads r bytes x) : Reads (within context r) bytes x := by
  intro position rest
  rw [Reader.within, h]
  rfl

lemma take?_append (n position : Nat) (rest : Bytes) (h : bytes.length = n) :
    Cursor.take? n ⟨position, bytes ++ rest⟩ = some (⟨bytes, h⟩, ⟨position + n, rest⟩) := by
  subst h
  simp [Cursor.take?]

lemma reads_number (primitive : Primitive) (bytes : Bytes) :
    Reads (number primitive bytes.length) bytes (Bytes.ofLittleEndian bytes) := by
  intro position rest
  rw [number, take?_append _ _ _ rfl]

lemma reads_u8 (b : UInt8) : Reads u8 [b] b := by
  have h := (reads_number .u1 [b]).map UInt8.ofNat
  simpa [u8, Bytes.ofLittleEndian] using h

lemma reads_u16 (v : UInt16) : Reads u16 (Bytes.word16 v) v := by
  have h := (reads_number .u2 (Bytes.word16 v)).map UInt16.ofNat
  simpa only [u16, Bytes.ofLittleEndian_word16, UInt16.ofNat_toNat, Bytes.length_word16] using h

lemma reads_u32 (v : UInt32) : Reads u32 (Bytes.word32 v) v := by
  have h := (reads_number .u4 (Bytes.word32 v)).map UInt32.ofNat
  simpa only [u32, Bytes.ofLittleEndian_word32, UInt32.ofNat_toNat, Bytes.length_word32] using h

lemma reads_block (b : Block n) : Reads (block n) b.val b := by
  intro position rest
  rw [block, take?_append _ _ _ b.property, b.property]

lemma reads_uleb128 (v : UInt32) : Reads uleb128 (Leb128.encode v) v := by
  intro position rest
  simp only [uleb128, Leb128.decode_encode]

lemma reads_counted {item : Nat → Reader α} {parts : List Bytes} {xs : List α}
    (h : List.Forall₂ (fun part x => ∀ i, Reads (item i) part x) parts xs) (first : Nat) :
    Reads (counted item first xs.length) parts.flatten xs := by
  induction h generalizing first with
  | nil => exact Reads.pure []
  | cons hx _ ih => exact (hx first).bind ((ih (first + 1)).then (Reads.pure _))

lemma reads_repeated {item : Reader α} {parts : List Bytes} {xs : List α}
    (h : List.Forall₂ (fun part x => Reads item part x) parts xs) :
    Reads (repeated item xs.length) parts.flatten xs :=
  reads_counted (h.imp fun _ _ hx _ => hx) 0

lemma reads_repeated_flatMap {item : Reader α} (encode : α → Bytes) {xs : List α}
    (h : ∀ x ∈ xs, Reads item (encode x) x) : Reads (repeated item xs.length) (xs.flatMap encode) xs := by
  rw [List.flatMap_def]
  refine reads_repeated (List.forall₂_map_left_iff.mpr ?_)
  exact List.forall₂_same.mpr h

lemma Reads.readAt {file : Bytes} {offset : Nat} (h : Reads r bytes x) (hs : StandsAt file offset bytes) :
    readAt r file offset = .ok x := by
  obtain ⟨rest, hr⟩ := hs
  have hc := h offset rest
  rw [hr] at hc
  simp only [Reader.readAt, StateT.run', Cursor.ofOffset, hc]
  rfl

/-- Where an item stands; one that is left out has offset zero. -/
def Placed (file : Bytes) (item : Option Bytes) (offset : UInt32) : Prop :=
  match item with
  | none => offset = 0
  | some bytes => offset ≠ 0 ∧ StandsAt file offset.toNat bytes

lemma readUnlessZero_placed {default : α} {file : Bytes} {item : Option Bytes} {offset : UInt32}
    (h : Placed file item offset) (hd : item = none → x = default) (hr : ∀ bytes ∈ item, Reads r bytes x) :
    readUnlessZero r default file offset = .ok x := by
  cases item with
  | none =>
    obtain rfl : offset = 0 := h
    rw [hd rfl]
    rfl
  | some bytes =>
    rw [readUnlessZero, if_neg h.1]
    exact (hr bytes rfl).readAt h.2

lemma optional_some {find : UInt32 → Except Fault α} {offset : UInt32} (hz : offset ≠ 0)
    (h : find offset = .ok x) : optional find offset = .ok (some x) := by
  simp [optional, hz, h, Functor.map, Except.map]

lemma optional_eq {find : UInt32 → Except Fault α} {x : Option α} {offset : Option UInt32}
    (h : Option.Rel (fun a o => o ≠ 0 ∧ find o = .ok a) x offset) :
    optional find (offset.getD 0) = .ok x := by
  cases h with
  | none => rfl
  | some ha => exact optional_some ha.1 ha.2

end DexUnseal.Dex.Reader
