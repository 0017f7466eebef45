import DexUnseal.Proofs.Dex.Reads
import DexUnseal.Proofs.Steps

/-! What holds of the values that a reader gives, and what the bytes it takes have to do with them. -/

namespace DexUnseal.Dex.Reader

lemma bind_ok {r : Reader α} {f : α → Reader β} {c c' : Cursor} {y : β}
    (h : (r >>= f) c = .ok (y, c')) : ∃ x c₁, r c = .ok (x, c₁) ∧ f x c₁ = .ok (y, c') := by
  simp only [Bind.bind, StateT.bind, Except.bind] at h
  cases hr : r c with
  | error fault => simp [hr] at h
  | ok result => exact ⟨result.1, result.2, rfl, by simpa [hr] using h⟩

lemma pure_ok {x y : α} {c c' : Cursor} (h : (Pure.pure x : Reader α) c = .ok (y, c')) : x = y ∧ c = c' :=
  Prod.mk.inj (Except.ok.inj h)

lemma map_ok {r : Reader α} {f : α → β} {c c' : Cursor} {y : β}
    (h : (f <$> r) c = .ok (y, c')) : ∃ x, r c = .ok (x, c') ∧ f x = y := by
  simp only [Functor.map, StateT.map, Bind.bind, Except.bind, Pure.pure, Except.pure] at h
  cases hr : r c with
  | error fault => simp [hr] at h
  | ok result =>
    obtain ⟨rfl, rfl⟩ : f result.1 = y ∧ result.2 = c' := by simpa [hr] using h
    exact ⟨result.1, rfl, rfl⟩

lemma readAt_ok {r : Reader α} {file : Bytes} {offset : Nat} {x : α} :
    readAt r file offset = .ok x ↔ ∃ c', r (.ofOffset file offset) = .ok (x, c') := by
  simp only [Reader.readAt, StateT.run']
  cases r (.ofOffset file offset) with
  | error fault => simp [Functor.map, Except.map]
  | ok result => simp [Functor.map, Except.map, Prod.ext_iff]

lemma inContext_ok {context : Context} {result : Except Fault α} {x : α} :
    inContext context result = .ok x ↔ result = .ok x := by
  cases result <;> simp [inContext, Except.mapError]

lemma readUnlessZero_ok {P : α → Prop} {r : Reader α} {default x : α} {file : Bytes} {offset : UInt32}
    (h : readUnlessZero r default file offset = .ok x) (hd : P default)
    (hr : ∀ o, readAt r file o = .ok x → P x) : P x := by
  rw [readUnlessZero] at h
  split at h
  · obtain rfl : default = x := by simpa [Pure.pure, Except.pure] using h
    exact hd
  · exact hr _ h

lemma optional_ok {find : UInt32 → Except Fault α} {offset : UInt32} {x : Option α}
    (h : optional find offset = .ok x) : ∀ a ∈ x, ∃ o, find o = .ok a := by
  rw [optional] at h
  split at h
  · obtain rfl : none = x := by simpa [Pure.pure, Except.pure] using h
    simp
  · cases hf : find offset with
    | error fault => simp [hf, Functor.map, Except.map] at h
    | ok a =>
      obtain rfl : some a = x := by simpa [hf, Functor.map, Except.map] using h
      rintro _ ⟨⟩
      exact ⟨offset, hf⟩

/-- Two readers that differ in their faults at most. -/
def Alike (r s : Reader α) : Prop := ∀ c x c', r c = .ok (x, c') ↔ s c = .ok (x, c')

lemma Alike.rfl {r : Reader α} : Alike r r := fun _ _ _ => Iff.rfl

lemma Alike.bind {s : Reader α} {f g : α → Reader β} (h : Alike r s) (hf : ∀ x, Alike (f x) (g x)) :
    Alike (r >>= f) (s >>= g) := by
  intro c y c'
  constructor
  · intro hy
    obtain ⟨x, c₁, hx, hy⟩ := bind_ok hy
    rw [bind_eq ((h c x c₁).mp hx)]
    exact (hf x c₁ y c').mp hy
  · intro hy
    obtain ⟨x, c₁, hx, hy⟩ := bind_ok hy
    rw [bind_eq ((h c x c₁).mpr hx)]
    exact (hf x c₁ y c').mpr hy

lemma Alike.map {s : Reader α} (f : α → β) (h : Alike r s) : Alike (f <$> r) (f <$> s) := by
  rw [← bind_pure_comp, ← bind_pure_comp]
  exact h.bind fun _ => Alike.rfl

lemma Alike.within (context : Context) (r : Reader α) : Alike (within context r) r := by
  intro c x c'
  rw [Reader.within, inContext_ok]

lemma Alike.cursor {r : Reader α} {f : Cursor → Reader α} (h : ∀ start, Alike (f start) r) :
    Alike (Reader.cursor >>= f) r :=
  fun c x c' => h c c x c'

lemma Alike.counted {item item' : Nat → Reader α} (h : ∀ i j, Alike (item i) (item' j)) (first first' count : Nat) :
    Alike (counted item first count) (counted item' first' count) := by
  induction count generalizing first first' with
  | zero => exact Alike.rfl
  | succ count ih =>
    exact (h first first').bind fun x => (ih (first + 1) (first' + 1)).bind fun xs => Alike.rfl

lemma Alike.reads {s : Reader α} {bytes : Bytes} {x : α} (h : Alike r s) : Reads r bytes x ↔ Reads s bytes x :=
  forall₂_congr fun _ _ => h _ _ _

def Gives (r : Reader α) (P : α → Prop) : Prop := ∀ c x c', r c = .ok (x, c') → P x

variable {r : Reader α} {P : α → Prop} {Q : β → Prop}

lemma Gives.trivial (r : Reader α) : Gives r fun _ => True := fun _ _ _ _ => True.intro

lemma Gives.pure {x : α} (h : P x) : Gives (Pure.pure x) P := by
  rintro c y c' hy
  obtain ⟨rfl, -⟩ := pure_ok hy
  exact h

lemma Gives.bind {f : α → Reader β} (h : Gives r P) (hf : ∀ x, P x → Gives (f x) Q) :
    Gives (r >>= f) Q := by
  intro c y c' hy
  obtain ⟨x, c₁, hx, hy⟩ := bind_ok hy
  exact hf x (h c x c₁ hx) c₁ y c' hy

lemma Gives.after {f : α → Reader β} (h : ∀ x, Gives (f x) Q) : Gives (r >>= f) Q :=
  (Gives.trivial r).bind fun x _ => h x

lemma Gives.map {f : α → β} (h : Gives r fun x => Q (f x)) : Gives (f <$> r) Q := by
  intro c y c' hy
  obtain ⟨x, hx, rfl⟩ := map_ok hy
  exact h c x c' hx

lemma Gives.mono {S : α → Prop} (h : Gives r P) (hs : ∀ x, P x → S x) : Gives r S :=
  fun c x c' hx => hs x (h c x c' hx)

lemma Gives.lift {result : Except Fault α} (h : ∀ x, result = .ok x → P x) : Gives (liftM result) P := by
  intro c x c' hx
  cases result with
  | error fault => simp [liftM, monadLift, MonadLift.monadLift, StateT.lift] at hx
  | ok y =>
    obtain ⟨rfl, -⟩ : y = x ∧ c = c' := by
      simpa [liftM, monadLift, MonadLift.monadLift, StateT.lift, bind, Except.bind, pure, Except.pure] using hx
    exact h y rfl

lemma Gives.fail (cause : Cause) : Gives (fail cause) P := fun _ _ _ h => by simp [Reader.fail] at h

lemma Gives.failHere (cause : Nat → Cause) : Gives (failHere cause) P :=
  fun _ _ _ h => by simp [Reader.failHere] at h

lemma Gives.refuseIf (condition : Prop) [Decidable condition] (cause : Cause) :
    Gives (refuseIf condition cause) fun _ => ¬ condition := by
  rw [Reader.refuseIf]
  split
  · exact Gives.fail cause
  · exact Gives.pure ‹_›

lemma Gives.within (context : Context) (h : Gives r P) : Gives (within context r) P :=
  fun c x c' hx => h c x c' ((Alike.within context r c x c').mp hx)

lemma Gives.counted {item : Nat → Reader α} (h : ∀ i, Gives (item i) P) (first count : Nat) :
    Gives (counted item first count) fun xs => xs.length = count ∧ ∀ x ∈ xs, P x := by
  induction count generalizing first with
  | zero => exact Gives.pure ⟨rfl, by simp⟩
  | succ count ih =>
    refine (h first).bind fun x hx => (ih (first + 1)).bind fun xs hxs => Gives.pure ?_
    exact ⟨by simp [hxs.1], List.forall_mem_cons.mpr ⟨hx, hxs.2⟩⟩

lemma Gives.repeated (h : Gives r P) (count : Nat) :
    Gives (repeated r count) fun xs => xs.length = count ∧ ∀ x ∈ xs, P x :=
  Gives.counted (fun _ => h) 0 count

lemma Gives.readAt (h : Gives r P) {file : Bytes} {offset : Nat} {x : α} (hx : readAt r file offset = .ok x) :
    P x := by
  obtain ⟨c', hr⟩ := readAt_ok.mp hx
  exact h _ _ _ hr

def Confined (r : Reader α) : Prop :=
  ∀ c x c', r c = .ok (x, c') → ∃ bytes, c.rest = bytes ++ c'.rest ∧
    c'.position = c.position + bytes.length ∧ Reads r bytes x

lemma Confined.length_le (h : Confined r) {c c' : Cursor} {x : α} (hx : r c = .ok (x, c')) :
    c'.rest.length ≤ c.rest.length := by
  obtain ⟨bytes, hb, -, -⟩ := h c x c' hx
  rw [hb, List.length_append]
  omega

lemma Confined.pure (x : α) : Confined (Pure.pure x : Reader α) := by
  intro c y c' hy
  obtain ⟨rfl, rfl⟩ := pure_ok hy
  exact ⟨[], rfl, rfl, Reads.pure x⟩

lemma Confined.bind {f : α → Reader β} (h : Confined r) (hf : ∀ x, Confined (f x)) : Confined (r >>= f) := by
  intro c y c' hy
  obtain ⟨x, c₁, hx, hy⟩ := bind_ok hy
  obtain ⟨bytes, hb, hp, hr⟩ := h c x c₁ hx
  obtain ⟨more, hm, hq, hs⟩ := hf x c₁ y c' hy
  refine ⟨bytes ++ more, by rw [hb, hm, List.append_assoc], ?_, hr.bind hs⟩
  rw [hq, hp, List.length_append, Nat.add_assoc]

lemma Confined.map {f : α → β} (h : Confined r) : Confined (f <$> r) := by
  intro c y c' hy
  obtain ⟨x, hx, rfl⟩ := map_ok hy
  obtain ⟨bytes, hb, hp, hr⟩ := h c x c' hx
  exact ⟨bytes, hb, hp, hr.map f⟩

lemma Confined.discard (h : Confined r) : Confined (discard r) := h.map

lemma Alike.confined {s : Reader α} (h : Alike r s) (hs : Confined s) : Confined r := by
  intro c x c' hx
  obtain ⟨bytes, hb, hp, hr⟩ := hs c x c' ((h c x c').mp hx)
  exact ⟨bytes, hb, hp, h.reads.mpr hr⟩

lemma Confined.counted {item : Nat → Reader α} (h : ∀ i, Confined (item i)) (first count : Nat) :
    Confined (counted item first count) := by
  induction count generalizing first with
  | zero => exact Confined.pure []
  | succ count ih => exact (h first).bind fun x => (ih (first + 1)).bind fun xs => Confined.pure _

lemma Confined.repeated (h : Confined r) (count : Nat) : Confined (repeated r count) :=
  Confined.counted (fun _ => h) 0 count

lemma u8_ok {c c' : Cursor} {b : UInt8} (h : u8 c = .ok (b, c')) :
    c.rest = b :: c'.rest ∧ c'.position = c.position + 1 := by
  obtain ⟨n, hn, rfl⟩ := map_ok h
  rcases hc : c.rest with _ | ⟨b, rest⟩
  · simp [number, Cursor.take?, hc] at hn
    split at hn <;> simp at hn
  · simp [number, Cursor.take?, hc, Bytes.ofLittleEndian] at hn
    obtain ⟨rfl, rfl⟩ := hn
    simp

lemma confined_u8 : Confined u8 := by
  intro c b c' h
  obtain ⟨hb, hp⟩ := u8_ok h
  exact ⟨[b], hb, hp, reads_u8 b⟩

lemma confined_uleb128 : Confined uleb128 := by
  intro c v c' h
  rw [uleb128] at h
  split at h
  · rename_i value number rest hd
    obtain ⟨rfl, rfl⟩ := Prod.mk.inj (Except.ok.inj h)
    obtain ⟨hn, hb⟩ := Leb128.decode_eq_some_iff.mp hd
    refine ⟨number, hb, rfl, fun position rest => ?_⟩
    rw [uleb128, Leb128.decode_eq_some_iff.mpr ⟨hn, rfl⟩]
  · cases h

lemma confined_sleb128 : Confined sleb128 := by
  intro c v c' h
  simp only [sleb128, Leb128.decodeSigned] at h
  cases hc : Leb128.cut Leb128.maxLength c.rest with
  | none => simp [hc] at h
  | some cut =>
    obtain ⟨number, rest⟩ := cut
    obtain ⟨rfl, rfl⟩ := by simpa [hc] using h
    obtain ⟨hi, ho⟩ := Leb128.cut_append hc
    exact ⟨number, hi, rfl, fun position rest => by simp [sleb128, Leb128.decodeSigned, ho rest]⟩

end DexUnseal.Dex.Reader
