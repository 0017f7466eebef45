import DexUnseal.Dex.Machine
import DexUnseal.Proofs.Dex.Results

/-! Reading on words meets no hazard, and it gives what reading by cursors gives. Both are one relation
between the two, which goes through the steps of a reader; the progress of a reader is a part of it. -/

namespace DexUnseal.Dex.Machine

variable {image : Image} {ix : Nat}

def Forward (image : Image) (ix ix' : Nat) : Prop := ix < ix' ∧ ix' ≤ image.val.length

def Onward (image : Image) (ix ix' : Nat) : Prop := ix' = ix ∨ Forward image ix ix'

/-- The same value, with the cursor at the same place, or the same fault. -/
inductive Agrees (image : Image) (moved : Nat → Prop) :
    Except Halt (α × Nat) → Except Fault (α × Cursor) → Prop
  | ok {x : α} {ix' : Nat} : moved ix' → Agrees image moved (.ok (x, ix')) (.ok (x, .ofOffset image.val ix'))
  | fault (f : Fault) : Agrees image moved (.error (.fault f)) (.error f)

def Follows (image : Image) (m : Machine α) (r : Reader α) : Prop :=
  ∀ ix < 2 ^ 63, Agrees image (Onward image ix) (m image ix) (r (.ofOffset image.val ix))

def Advances (image : Image) (m : Machine α) (r : Reader α) : Prop :=
  ∀ ix < 2 ^ 63, Agrees image (Forward image ix) (m image ix) (r (.ofOffset image.val ix))

def Yields (image : Image) (m : Machine α) (result : Except Fault α) : Prop := m image = given result image

lemma Onward.bounded {ix' : Nat} (h : Onward image ix ix') (hix : ix < 2 ^ 63) : ix' < 2 ^ 63 := by
  obtain rfl | ⟨-, hle⟩ := h
  · exact hix
  · exact Nat.lt_of_le_of_lt hle image.property

lemma Forward.trans_onward {ix' ix'' : Nat} (h : Forward image ix ix') (h' : Onward image ix' ix'') :
    Forward image ix ix'' := by
  obtain rfl | ⟨hlt, hle⟩ := h'
  · exact h
  · exact ⟨Nat.lt_trans h.1 hlt, hle⟩

lemma Onward.trans {ix' ix'' : Nat} (h : Onward image ix ix') (h' : Onward image ix' ix'') : Onward image ix ix'' := by
  obtain rfl | hm := h
  · exact h'
  · exact .inr (hm.trans_onward h')

lemma Onward.trans_forward {ix' ix'' : Nat} (h : Onward image ix ix') (h' : Forward image ix' ix'') :
    Forward image ix ix'' := by
  obtain rfl | ⟨hlt, -⟩ := h
  · exact h'
  · exact ⟨Nat.lt_trans hlt h'.1, h'.2⟩

section Steps

variable {m : Machine α} {f : α → Machine β} {g : Unit → Machine β}

lemma bind_eq {x : α} {ix' : Nat} (h : m image ix = .ok (x, ix')) : (m >>= f) image ix = f x image ix' := by
  simp only [Bind.bind, ReaderT.bind, StateT.bind, Except.bind, h]

lemma position_bind {f : Nat → Machine β} : (position >>= f) image ix = f ix image ix := rfl

lemma file_bind {f : Bytes → Machine β} : (file >>= f) image ix = f image.val image ix := rfl

lemma rest_bind {f : Bytes → Machine β} : (rest >>= f) image ix = f (image.val.drop ix) image ix := rfl

lemma refuseIf_bind {condition : Prop} [Decidable condition] {cause : Cause} (h : ¬ condition) :
    refuseIf condition cause >>= g = g () := by
  rw [refuseIf, if_neg h, pure_bind]

lemma haltIf_bind {condition : Prop} [Decidable condition] {hazard : Hazard} (h : ¬ condition) :
    haltIf condition hazard >>= g = g () := by
  rw [haltIf, if_neg h, pure_bind]

lemma add_eq {bits a b : Nat} (h : a + b < 2 ^ bits) : add bits a b = pure (a + b) := haltIf_bind (Nat.not_le.mpr h)

lemma sub_eq {a b : Nat} (h : b ≤ a) : sub a b = pure (a - b) := haltIf_bind (Nat.not_lt.mpr h)

lemma mul_eq {bits a b : Nat} (h : a * b < 2 ^ bits) : mul bits a b = pure (a * b) := haltIf_bind (Nat.not_le.mpr h)

lemma shiftLeft_eq {bits n count : Nat} (h : count < bits) :
    shiftLeft bits n count = pure ((n <<< count) % 2 ^ bits) :=
  haltIf_bind (Nat.not_le.mpr h)

lemma shiftRight_eq {bits n count : Nat} (h : count < bits) : shiftRight bits n count = pure (n >>> count) :=
  haltIf_bind (Nat.not_le.mpr h)

lemma shiftRightSigned_eq {bits n count : Nat} (h : count < bits) :
    shiftRightSigned bits n count = pure ((n : Int).bmod (2 ^ bits) >>> count) :=
  haltIf_bind (Nat.not_le.mpr h)

lemma slice_eq {bytes : Bytes} {start stop : Nat} (h : start ≤ stop) (hs : stop ≤ bytes.length) :
    slice bytes start stop = pure ((bytes.take stop).drop start) :=
  haltIf_bind (by omega)

lemma index_eq {bytes : Bytes} {i : Nat} (h : i < bytes.length) : index bytes i = pure bytes[i] := by
  rw [index, List.getElem?_eq_getElem h]

lemma copy_eq {n : Nat} {bytes : Bytes} (h : bytes.length = n) : copy n bytes = pure ⟨bytes, h⟩ := dif_pos h

lemma advance_bind {n : Nat} (h : ix + n < 2 ^ 64) : (advance n >>= g) image ix = g () image (ix + n) := by
  have ha : advance n image ix = .ok ((), ix + n) := by
    rw [advance, position_bind, add_eq h, pure_bind]
    rfl
  exact bind_eq ha

end Steps

variable {m : Machine α} {r : Reader α}

lemma Agrees.ok_iff {moved : Nat → Prop} {result : Except Halt (α × Nat)} {expected : Except Fault (α × Cursor)}
    (h : Agrees image moved result expected) {x : α} {ix : Nat} :
    result = .ok (x, ix) ↔ expected = .ok (x, .ofOffset image.val ix) := by
  cases h with
  | ok _ =>
    rw [Except.ok.injEq, Except.ok.injEq, Prod.mk.injEq, Prod.mk.injEq]
    refine and_congr_right fun _ => ⟨congrArg _, congrArg Cursor.position⟩
  | fault f => exact ⟨fun h => (nomatch h), fun h => (nomatch h)⟩

lemma Agrees.eq {moved : Nat → Prop} {result : Except Halt (α × Nat)} {expected : Except Fault (α × Cursor)}
    (h : Agrees image moved result expected) :
    result = (expected.map fun (x, c) => (x, c.position)).mapError Halt.fault := by
  cases h <;> rfl

lemma Agrees.mono {P Q : Nat → Prop} {a : Except Halt (α × Nat)} {b : Except Fault (α × Cursor)}
    (h : Agrees image P a b) (hq : ∀ ix', P ix' → Q ix') : Agrees image Q a b := by
  cases h with
  | ok hp => exact .ok (hq _ hp)
  | fault f => exact .fault f

lemma Agrees.moved {P : Nat → Prop} {a : Except Halt (α × Nat)} {x : α} {c : Cursor}
    (h : Agrees image P a (.ok (x, c))) : ∃ ix', P ix' := by
  cases h with
  | ok hp => exact ⟨_, hp⟩

lemma Agrees.bind {P Q : Nat → Prop} {f : α → Machine β} {g : α → Reader β}
    (h : Agrees image P (m image ix) (r (.ofOffset image.val ix)))
    (hf : ∀ x ix', P ix' → r (.ofOffset image.val ix) = .ok (x, .ofOffset image.val ix') →
      Agrees image Q (f x image ix') (g x (.ofOffset image.val ix'))) :
    Agrees image Q ((m >>= f) image ix) ((r >>= g) (.ofOffset image.val ix)) := by
  simp only [Bind.bind, ReaderT.bind, StateT.bind, Except.bind]
  generalize m image ix = a at h
  generalize r (.ofOffset image.val ix) = b at h hf
  cases h with
  | ok hp => exact hf _ _ hp rfl
  | fault f => exact .fault f

lemma Agrees.map {P : Nat → Prop} (f : α → β) (h : Agrees image P (m image ix) (r (.ofOffset image.val ix))) :
    Agrees image P ((f <$> m) image ix) ((f <$> r) (.ofOffset image.val ix)) := by
  rw [← bind_pure_comp, ← bind_pure_comp]
  exact h.bind fun _ _ hm _ => .ok hm

lemma Advances.follows (h : Advances image m r) : Follows image m r :=
  fun ix hix => (h ix hix).mono fun _ => .inr

lemma Follows.pure (x : α) : Follows image (Pure.pure x) (Pure.pure x) := fun _ _ => .ok (.inl rfl)

lemma Follows.bind {f : α → Machine β} {g : α → Reader β} (h : Follows image m r)
    (hf : ∀ x, Follows image (f x) (g x)) : Follows image (m >>= f) (r >>= g) :=
  fun ix hix => (h ix hix).bind fun x ix' hm _ => (hf x ix' (hm.bounded hix)).mono fun _ => hm.trans

lemma Follows.bind_gives {P : α → Prop} {f : α → Machine β} {g : α → Reader β} (h : Follows image m r)
    (hr : Reader.Gives r P) (hf : ∀ x, P x → Follows image (f x) (g x)) : Follows image (m >>= f) (r >>= g) :=
  fun ix hix => (h ix hix).bind fun x ix' hm hx =>
    (hf x (hr _ _ _ hx) ix' (hm.bounded hix)).mono fun _ => hm.trans

lemma Advances.bind {f : α → Machine β} {g : α → Reader β} (h : Advances image m r)
    (hf : ∀ x, Follows image (f x) (g x)) : Advances image (m >>= f) (r >>= g) :=
  fun ix hix => (h ix hix).bind fun x ix' hm _ =>
    (hf x ix' (Onward.bounded (.inr hm) hix)).mono fun _ => hm.trans_onward

lemma Follows.bind_advances {f : α → Machine β} {g : α → Reader β} (h : Follows image m r)
    (hf : ∀ x, Advances image (f x) (g x)) : Advances image (m >>= f) (r >>= g) :=
  fun ix hix => (h ix hix).bind fun x ix' hm _ => (hf x ix' (hm.bounded hix)).mono fun _ => hm.trans_forward

lemma Follows.map (f : α → β) (h : Follows image m r) : Follows image (f <$> m) (f <$> r) :=
  fun ix hix => (h ix hix).map f

lemma Advances.map (f : α → β) (h : Advances image m r) : Advances image (f <$> m) (f <$> r) :=
  fun ix hix => (h ix hix).map f

lemma Follows.discard (h : Follows image m r) : Follows image (discard m) (discard r) := h.map _

lemma Advances.discard (h : Advances image m r) : Advances image (discard m) (discard r) := h.map _

lemma advances_failHere (cause : Nat → Cause) :
    Advances image (failHere cause : Machine α) (Reader.failHere cause) :=
  fun _ _ => .fault _

lemma advances_fail (cause : Cause) : Advances image (fail cause : Machine α) (Reader.fail cause) :=
  fun _ _ => .fault _

lemma follows_refuseIf (condition : Prop) [Decidable condition] (cause : Cause) :
    Follows image (refuseIf condition cause) (Reader.refuseIf condition cause) := by
  rw [refuseIf, Reader.refuseIf]
  split
  · exact (advances_fail cause).follows
  · exact .pure ()

lemma Advances.position {f : Nat → Machine β} {g : Cursor → Reader β}
    (h : ∀ start, Advances image (f start) (g (.ofOffset image.val start))) :
    Advances image (Machine.position >>= f) (Reader.cursor >>= g) :=
  fun ix hix => h ix ix hix

lemma Agrees.within {P : Nat → Prop} (context : Context)
    (h : Agrees image P (m image ix) (r (.ofOffset image.val ix))) :
    Agrees image P (within context m image ix) (Reader.within context r (.ofOffset image.val ix)) := by
  rw [Machine.within, Reader.within, inContext]
  generalize m image ix = a at h
  generalize r (.ofOffset image.val ix) = b at h
  cases h with
  | ok hp => exact .ok hp
  | fault f => exact .fault _

lemma Advances.within (context : Context) (h : Advances image m r) :
    Advances image (within context m) (Reader.within context r) :=
  fun ix hix => (h ix hix).within context

lemma Agrees.advancing {P : Nat → Prop} (h : Agrees image P (m image ix) (r (.ofOffset image.val ix)))
    (hp : ∀ ix', P ix' → Forward image ix ix') :
    Agrees image P (advancing m image ix) (r (.ofOffset image.val ix)) := by
  rw [Machine.advancing, position_bind, ← bind_pure r]
  refine h.bind fun x ix' hm _ => ?_
  obtain ⟨hlt, hle⟩ := hp ix' hm
  have hwatched : ¬ (ix' ≤ ix ∨ image.val.length < ix') := not_or.mpr ⟨Nat.not_le.mpr hlt, Nat.not_lt.mpr hle⟩
  rw [position_bind, file_bind, haltIf_bind hwatched]
  exact .ok hm

lemma Advances.advancing (h : Advances image m r) : Advances image (advancing m) r :=
  fun ix hix => (h ix hix).advancing fun _ => id

lemma countIteration_bind {done : Nat} {g : Unit → Machine β} (h : done < image.val.length) :
    (countIteration done >>= g) image ix = g () image ix := by
  have hc : countIteration done image ix = .ok ((), ix) := by
    rw [countIteration, file_bind, haltIf, if_neg (Nat.not_le.mpr h)]
    rfl
  exact bind_eq hc

lemma agrees_iterations {step : Nat → σ → Machine (α × σ)} (step' : Nat → σ → Reader (α × σ))
    (all : Nat → Nat → σ → Reader (List α)) (hnone : ∀ i s, all i 0 s = Pure.pure [])
    (hmore : ∀ i n s, all i (n + 1) s = do
      let (x, s) ← step' i s
      let xs ← all (i + 1) n s
      return x :: xs)
    {done left : Nat} {s : σ} (h : ∀ i < done + left, ∀ s, Advances image (step i s) (step' i s))
    (hix : ix < 2 ^ 63) (hdone : done ≤ ix) :
    Agrees image (Onward image ix) (iterations step done left s image ix)
      (all done left s (.ofOffset image.val ix)) := by
  -- Each iteration takes a byte, so no more of them are done than there are bytes before the cursor.
  induction left generalizing done ix s with
  | zero =>
    rw [hnone]
    exact .ok (.inl rfl)
  | succ left ih =>
    have hstep := (h done (by omega) s).advancing ix hix
    rw [hmore]
    refine hstep.bind ?_
    rintro ⟨x, s⟩ ix₁ ⟨hlt, hle⟩ -
    dsimp only
    have hix₁ : ix₁ < 2 ^ 63 := Nat.lt_of_le_of_lt hle image.property
    rw [countIteration_bind (by omega)]
    have hrest : Agrees image (Onward image ix₁) (iterations step (done + 1) left s image ix₁)
        (all (done + 1) left s (.ofOffset image.val ix₁)) := ih (fun i hi => h i (by omega)) hix₁ (by omega)
    refine hrest.bind fun xs ix₂ hm _ => ?_
    exact .ok (Onward.trans (.inr ⟨hlt, hle⟩) hm)

lemma follows_loop {item : Nat → Machine α} {item' : Nat → Reader α} {count : Nat}
    (h : ∀ i < count, Advances image (item i) (item' i)) :
    Follows image (loop item count) (Reader.counted item' 0 count) := by
  intro ix hix
  refine agrees_iterations (fun i () => (·, ()) <$> item' i) (fun i n () => Reader.counted item' i n)
    (fun _ _ => rfl) (fun i n s => ?_) (fun i hi s => ?_) hix (Nat.zero_le ix)
  · rw [bind_map_left]
    rfl
  · exact (h i (by omega)).map _

lemma Advances.repeated (h : Advances image m r) (count : Nat) :
    Follows image (repeated m count) (Reader.repeated r count) :=
  follows_loop fun _ _ => h

lemma bind_ok {f : α → Machine β} {y : β} {ix' : Nat} (h : (m >>= f) image ix = .ok (y, ix')) :
    ∃ x ix₁, m image ix = .ok (x, ix₁) ∧ f x image ix₁ = .ok (y, ix') := by
  simp only [Bind.bind, ReaderT.bind, StateT.bind, Except.bind] at h
  cases hm : m image ix with
  | error halted => simp [hm] at h
  | ok result => exact ⟨result.1, result.2, rfl, by simpa [hm] using h⟩

lemma haltIf_ok {condition : Prop} [Decidable condition] {hazard : Hazard} {ix' : Nat}
    (h : haltIf condition hazard image ix = .ok ((), ix')) : ¬ condition ∧ ix' = ix := by
  rw [haltIf] at h
  split at h
  · cases h
  · cases h
    exact ⟨‹_›, rfl⟩

lemma advancing_ok {x : α} {ix' : Nat} (h : advancing m image ix = .ok (x, ix')) : Forward image ix ix' := by
  rw [advancing, position_bind] at h
  obtain ⟨y, ix₁, -, h⟩ := bind_ok h
  rw [position_bind, file_bind] at h
  obtain ⟨⟨⟩, ix₂, hw, h⟩ := bind_ok h
  cases h
  obtain ⟨hn, rfl⟩ := haltIf_ok hw
  exact ⟨by omega, by omega⟩

/-- A loop that goes through has taken a byte in each iteration, whatever is read in them. -/
theorem iterations_ok {step : Nat → σ → Machine (α × σ)} {done left : Nat} {s : σ} {xs : List α} {ix' : Nat}
    (h : iterations step done left s image ix = .ok (xs, ix')) :
    ix + left ≤ ix' ∧ (ix' = ix ∨ ix' ≤ image.val.length) := by
  induction left generalizing done s ix xs with
  | zero =>
    cases h
    exact ⟨Nat.le_refl _, .inl rfl⟩
  | succ left ih =>
    obtain ⟨⟨x, s⟩, ix₁, hstep, h⟩ := bind_ok h
    obtain ⟨⟨⟩, ix₂, hcount, h⟩ := bind_ok h
    obtain ⟨ys, ix₃, hrest, h⟩ := bind_ok h
    obtain ⟨hlt, hle⟩ := advancing_ok hstep
    cases h
    rw [countIteration, file_bind] at hcount
    obtain ⟨-, rfl⟩ := haltIf_ok hcount
    obtain ⟨hl, hr⟩ := ih hrest
    exact ⟨by omega, .inr (by omega)⟩

lemma Yields.bind_ok {result : Except Fault α} {f : α → Except Fault β} {f' : α → Machine β}
    (h : Yields image m result) (hf : ∀ x, result = .ok x → Yields image (f' x) (f x)) :
    Yields image (m >>= f') (result >>= f) := by
  funext ix
  have hm := congrFun h ix
  cases result with
  | error fault =>
    simp only [Bind.bind, ReaderT.bind, StateT.bind, hm]
    rfl
  | ok x =>
    rw [bind_eq hm]
    exact congrFun (hf x rfl) ix

lemma Yields.bind {result : Except Fault α} {f : α → Except Fault β} {f' : α → Machine β}
    (h : Yields image m result) (hf : ∀ x, Yields image (f' x) (f x)) :
    Yields image (m >>= f') (result >>= f) :=
  h.bind_ok fun x _ => hf x

lemma Yields.pure (x : α) : Yields image (Pure.pure x) (Pure.pure x) := rfl

lemma Yields.fail (cause : Cause) : Yields image (fail cause : Machine α) (throw (.ofCause cause)) := rfl

lemma Yields.map (f : α → β) {result : Except Fault α} (h : Yields image m result) :
    Yields image (f <$> m) (f <$> result) := by
  rw [← bind_pure_comp, ← bind_pure_comp]
  exact h.bind fun x => .pure (f x)

lemma Yields.mapM {f : α → Machine β} {f' : α → Except Fault β} (h : ∀ x, Yields image (f x) (f' x)) (xs : List α) :
    Yields image (xs.mapM f) (xs.mapM f') := by
  induction xs with
  | nil => exact .pure []
  | cons x xs ih =>
    rw [List.mapM_cons, List.mapM_cons]
    exact (h x).bind fun y => ih.bind fun ys => .pure (y :: ys)

lemma Yields.within (context : Context) {result : Except Fault α} (h : Yields image m result) :
    Yields image (within context m) (inContext context result) := by
  funext ix
  rw [Machine.within, h]
  cases result <;> rfl

lemma Yields.follows {result : Except Fault α} (h : Yields image m result) :
    Follows image m (liftM result) := by
  intro ix _
  rw [h]
  cases result with
  | error fault => exact .fault fault
  | ok x => exact .ok (.inl rfl)

lemma Agrees.readAt {P : Nat → Prop} {offset : Nat}
    (h : Agrees image P (m image offset) (r (.ofOffset image.val offset))) :
    Yields image (readAt offset m) (r.readAt image.val offset) := by
  funext ix
  rw [Machine.readAt, Reader.readAt, StateT.run']
  generalize m image offset = a at h
  generalize r (.ofOffset image.val offset) = b at h
  cases h <;> rfl

lemma Follows.readAt (h : Follows image m r) {offset : Nat} (ho : offset < 2 ^ 63) :
    Yields image (readAt offset m) (r.readAt image.val offset) :=
  (h offset ho).readAt

lemma offset_lt (offset : UInt32) : offset.toNat < 2 ^ 63 := Nat.lt_trans offset.toNat_lt (by decide)

lemma Follows.unlessZero (h : Follows image m r) (default : α) (offset : UInt32) :
    Yields image (unlessZero m default offset) (r.readUnlessZero default image.val offset) := by
  rw [Machine.unlessZero, Reader.readUnlessZero]
  split
  · exact .pure default
  · exact h.readAt (offset_lt offset)

lemma Yields.optional {find : UInt32 → Machine α} {find' : UInt32 → Except Fault α}
    (h : ∀ offset, Yields image (find offset) (find' offset)) (offset : UInt32) :
    Yields image (optional find offset) (Reader.optional find' offset) := by
  rw [Machine.optional, Reader.optional]
  split
  · exact .pure none
  · exact (h offset).map some

end DexUnseal.Dex.Machine
