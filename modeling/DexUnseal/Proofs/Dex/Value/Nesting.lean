import DexUnseal.Proofs.Dex.Machine.Values
import DexUnseal.Proofs.Dex.Value.Reading
import DexUnseal.Proofs.Dex.Value.Writing

/-!
How deep values may be nested. The count goes up by two for each array or annotation, once for its list and once for
the members of it, so half as many levels are read as the limit says.
-/

namespace DexUnseal.Dex

namespace Reader

/-- The reader does not get further than to a place inside of `bytes`, whatever follows them. -/
def Stops (r : Reader α) (bytes : Bytes) (cause : Nat → Cause) (place : Nat) : Prop :=
  ∀ position rest, r ⟨position, bytes ++ rest⟩ = .error (.ofCause (cause (position + place)))

variable {r : Reader α} {bytes more : Bytes} {cause : Nat → Cause} {place : Nat} {x : α}

lemma stops_failHere (cause : Nat → Cause) (bytes : Bytes) : Stops (failHere cause : Reader α) bytes cause 0 :=
  fun _ _ => rfl

lemma Stops.append (h : Stops r bytes cause place) (more : Bytes) : Stops r (bytes ++ more) cause place := by
  intro position rest
  rw [List.append_assoc]
  exact h position (more ++ rest)

lemma Stops.bind (h : Stops r bytes cause place) (f : α → Reader β) : Stops (r >>= f) bytes cause place := by
  intro position rest
  simp only [Bind.bind, StateT.bind, Except.bind, h position rest]

lemma Reads.stops {f : α → Reader β} (h : Reads r bytes x) (hf : Stops (f x) more cause place) :
    Stops (r >>= f) (bytes ++ more) cause (bytes.length + place) := by
  intro position rest
  rw [List.append_assoc, bind_eq (h position (more ++ rest)), hf, Nat.add_assoc]

lemma stops_counted {encode : α → Bytes} {before after : List α} (hb : ∀ y ∈ before, Reads r (encode y) y)
    (hx : Stops r (encode x) cause place) (first : Nat) :
    Stops (counted (fun _ => r) first (before ++ x :: after).length) ((before ++ x :: after).flatMap encode) cause
      ((before.flatMap encode).length + place) := by
  induction before generalizing first with
  | nil =>
    rw [List.nil_append, List.flatMap_cons, List.flatMap_nil, List.length_nil, Nat.zero_add]
    exact (hx.append _).bind _
  | cons y before ih =>
    obtain ⟨hy, hb⟩ := List.forall_mem_cons.mp hb
    rw [List.cons_append, List.flatMap_cons, List.flatMap_cons, List.length_append, Nat.add_assoc]
    exact hy.stops ((ih hb (first + 1)).bind _)

end Reader

open Reader

def RefusedAt (write : Writer) (read : Reader α) (cause : Nat → Cause) (place : Nat) : Prop :=
  ∀ buffer, ∃ bytes, write buffer = (bytes.length, buffer ++ bytes) ∧ ∀ suffix,
    read (.ofOffset (buffer ++ bytes ++ suffix) buffer.length) = .error (.ofCause (cause (buffer.length + place)))

lemma Reader.Stops.refusedAt {write : Writer} {read : Reader α} {bytes : Bytes} {cause : Nat → Cause} {place : Nat}
    (h : Stops read bytes cause place) (hw : write.Appends bytes) : RefusedAt write read cause place := by
  refine fun buffer => ⟨bytes, hw buffer, fun suffix => ?_⟩
  rw [Cursor.ofOffset, List.append_assoc, List.drop_left]
  exact h buffer.length suffix

lemma exists_first {p : α → Prop} {xs : List α} (h : ∃ x ∈ xs, p x) :
    ∃ before x after, xs = before ++ x :: after ∧ (∀ y ∈ before, ¬ p y) ∧ p x := by
  classical
  obtain ⟨x, hx⟩ := Option.isSome_iff_exists.mp (List.find?_isSome.mpr (by simpa using h) : (xs.find? p).isSome)
  obtain ⟨hp, before, after, rfl, hb⟩ := List.find?_eq_some_iff_append.mp hx
  exact ⟨before, x, after, rfl, by simpa using hb, by simpa using hp⟩

namespace Value

variable {room : Nat} {v : Value}

lemma Fits.of_array {values : List Value} (h : (Value.array values).Fits) (hv : v ∈ values) : v.Fits :=
  fun _ x hx => h _ x (.array hv hx)

lemma Fits.of_annotated {a : Annotation} (h : (Value.annotated a).Fits) {e : Element} (he : e ∈ a.elements) :
    e.value.Fits :=
  fun _ x hx => h _ x (.annotated he hx)

def StopsInside (room : Nat) (v : Value) : Prop :=
  ∃ place x, v.Has room x ∧ StandsAt v.encode place x.encode ∧ Stops (readWithin room) v.encode .nestingTooDeep place

lemma stops_array {before after : List Value} {place : Nat} (hn : (before ++ v :: after).length < UInt32.size)
    (hb : ∀ u ∈ before, Reads (readWithin room) u.encode u)
    (hv : Stops (readWithin room) v.encode .nestingTooDeep place) :
    Stops (readWithin (room + 1)) (Value.array (before ++ v :: after)).encode .nestingTooDeep
      (1 + ((Leb128.encode (UInt32.ofNat (before ++ v :: after).length)).length +
        ((before.flatMap encode).length + place))) := by
  apply (reads_u8 0x1c).stops
  apply Stops.bind
  apply (reads_uleb128 _).stops
  rw [UInt32.toNat_ofNat_of_lt' hn, encodeEach_eq]
  exact stops_counted hb hv 0

lemma stopsInside_array {before after : List Value} (hf : (Value.array (before ++ v :: after)).Fits)
    (hb : ∀ u ∈ before, u.height ≤ room) (hv : StopsInside room v) :
    StopsInside (room + 1) (.array (before ++ v :: after)) := by
  obtain ⟨place, x, hx, hstands, hstops⟩ := hv
  have hreads : ∀ u ∈ before, Reads (readWithin room) u.encode u := fun u hu =>
    reads_of_fits (hb u hu) (hf.of_array (List.mem_append_left _ hu))
  refine ⟨_, x, .array (List.mem_append_right _ List.mem_cons_self) hx, ?_,
    stops_array (hf 0 _ (.self _)) hreads hstops⟩
  have hmember := hstands.behind (before.flatMap encode) (after.flatMap encode)
  have hwhole := (hmember.behind (Leb128.encode (UInt32.ofNat (before ++ v :: after).length)) []).behind [0x1c] []
  simpa [encode, encodeEach_eq] using hwhole

lemma stops_element {nameIdx : UInt32} {place : Nat} (h : Stops (readWithin room) v.encode .nestingTooDeep place) :
    Stops (do return (⟨← uleb128, ← readWithin room⟩ : Element)) (Element.mk nameIdx v).encode .nestingTooDeep
      ((Leb128.encode nameIdx).length + place) := by
  rw [Element.encode]
  exact (reads_uleb128 nameIdx).stops (h.bind _)

lemma stops_annotated {typeIdx nameIdx : UInt32} {before after : List Element} {place : Nat}
    (hn : (before ++ ⟨nameIdx, v⟩ :: after).length < UInt32.size)
    (hb : ∀ e ∈ before, Reads (readWithin room) e.value.encode e.value)
    (hv : Stops (readWithin room) v.encode .nestingTooDeep place) :
    Stops (readWithin (room + 1)) (Value.annotated ⟨typeIdx, before ++ ⟨nameIdx, v⟩ :: after⟩).encode .nestingTooDeep
      (1 + ((Leb128.encode typeIdx).length +
        ((Leb128.encode (UInt32.ofNat (before ++ ⟨nameIdx, v⟩ :: after).length)).length +
          ((before.flatMap Element.encode).length + ((Leb128.encode nameIdx).length + place))))) := by
  rw [encode, Annotation.encode, List.append_assoc]
  apply (reads_u8 0x1d).stops
  apply Stops.bind
  apply (reads_uleb128 typeIdx).stops
  apply (reads_uleb128 _).stops
  apply Stops.bind
  rw [UInt32.toNat_ofNat_of_lt' hn, Element.encodeEach_eq]
  exact stops_counted (fun e he => reads_element (hb e he)) (stops_element hv) 0

lemma stopsInside_annotated {typeIdx nameIdx : UInt32} {before after : List Element}
    (hf : (Value.annotated ⟨typeIdx, before ++ ⟨nameIdx, v⟩ :: after⟩).Fits)
    (hb : ∀ e ∈ before, e.value.height ≤ room) (hv : StopsInside room v) :
    StopsInside (room + 1) (.annotated ⟨typeIdx, before ++ ⟨nameIdx, v⟩ :: after⟩) := by
  obtain ⟨place, x, hx, hstands, hstops⟩ := hv
  have hreads : ∀ e ∈ before, Reads (readWithin room) e.value.encode e.value := fun e he =>
    reads_of_fits (hb e he) (hf.of_annotated (List.mem_append_left _ he))
  refine ⟨_, x, .annotated (List.mem_append_right _ List.mem_cons_self) hx, ?_,
    stops_annotated (hf 0 _ (.self _)) hreads hstops⟩
  have hmember := hstands.behind (Leb128.encode nameIdx) []
  have hlist := hmember.behind (before.flatMap Element.encode) (after.flatMap Element.encode)
  have hwhole := ((hlist.behind (Leb128.encode (UInt32.ofNat (before ++ ⟨nameIdx, v⟩ :: after).length)) []).behind
    (Leb128.encode typeIdx) []).behind [0x1d] []
  simpa [encode, Annotation.encode, Element.encodeEach_eq, Element.encode] using hwhole

theorem stopsInside_of_height (hv : room < v.height) (hf : v.Fits) : StopsInside room v := by
  -- what comes before the first member that is too high is read, and then there is one unit of room less for that
  induction room generalizing v with
  | zero => exact ⟨0, v, .self v, List.prefix_refl _, stops_failHere _ _⟩
  | succ room ih =>
    cases v with
    | array values =>
      rw [height, Nat.add_lt_add_iff_right, ← Nat.not_le, heightEach_le_iff] at hv
      obtain ⟨before, v, after, rfl, hb, hv⟩ := exists_first (by simpa using hv : ∃ v ∈ values, room < v.height)
      have hmem : v ∈ before ++ v :: after := List.mem_append_right _ List.mem_cons_self
      exact stopsInside_array hf (fun u hu => Nat.le_of_not_lt (hb u hu)) (ih hv (hf.of_array hmem))
    | annotated a =>
      obtain ⟨typeIdx, elements⟩ := a
      rw [height, Nat.add_lt_add_iff_right, ← Nat.not_le, Annotation.height_le_iff] at hv
      obtain ⟨before, ⟨nameIdx, v⟩, after, rfl, hb, hv⟩ :=
        exists_first (by simpa using hv : ∃ e ∈ elements, room < e.value.height)
      have hmem : (⟨nameIdx, v⟩ : Element) ∈ before ++ ⟨nameIdx, v⟩ :: after :=
        List.mem_append_right _ List.mem_cons_self
      exact stopsInside_annotated hf (fun u hu => Nat.le_of_not_lt (hb u hu)) (ih hv (hf.of_annotated hmem))
    | _ => simp [height] at hv

lemma height_le_room_iff {counter : Nat} :
    v.height ≤ Value.room counter ↔ ∀ depth x, v.Has depth x → counter + 2 * depth ≤ nestingLimit := by
  have hlimit : nestingLimit = 64 := rfl
  have hpos := v.height_pos
  constructor
  · intro h depth x hx
    have hlt := hx.depth_lt
    rw [Value.room] at h
    omega
  · intro h
    have h₀ := h 0 v (.self v)
    rw [Value.room, show (nestingLimit + 2 - counter) / 2 = (nestingLimit - counter) / 2 + 1 by omega]
    refine height_le_of_depth fun depth x hx => ?_
    have hx := h depth x hx
    omega

lemma RoundTrips.height_le {n : Nat} (h : RoundTrips v.write (readWithin n) v) : v.height ≤ n := by
  obtain ⟨bytes, -, hread⟩ := h []
  exact gives_height n _ _ _ (hread [])

lemma valueAt_ok_iff {image : Image} {position counter : Nat} (hc : counter ≤ nestingLimit) (hf : v.Fits)
    (hs : StandsAt image.val position v.encode) :
    Machine.valueAt counter image position = .ok (v, position + v.encode.length) ↔ v.height ≤ Value.room counter := by
  have hpos : position < 2 ^ 63 := by
    have hlen := List.IsPrefix.length_le hs
    have hv := encode_length_pos v
    have himage := image.property
    rw [List.length_drop] at hlen
    omega
  have hadvances : Machine.Advances image (Machine.valueAt counter) (readWithin (Value.room counter)) :=
    Machine.advances_valueAt (by omega)
  rw [(hadvances position hpos).ok_iff]
  constructor
  · exact gives_height _ _ _ _
  · intro hv
    obtain ⟨rest, hrest⟩ := hs
    have hdrop : rest = image.val.drop (position + v.encode.length) := by
      rw [← List.drop_drop, ← hrest, List.drop_left]
    have hread := reads_of_fits hv hf position rest
    rwa [hrest, hdrop] at hread

/-- Values are read as they are written if twice the number of arrays and annotations around each node is within the
limit. Otherwise the reader stops at a node with one more of them around it than half of the limit. -/
theorem nesting_counts_twice (h : v.Fits) :
    (RoundTrips v.write read v ↔ ∀ depth x, v.Has depth x → 2 * depth ≤ nestingLimit) ∧
      (∀ depth x, v.Has depth x → nestingLimit < 2 * depth →
        ∃ place deepest, v.Has (nestingLimit / 2 + 1) deepest ∧ StandsAt v.encode place deepest.encode ∧
          RefusedAt v.write read .nestingTooDeep place) ∧
      ∀ (image : Image) (position counter : Nat), counter ≤ nestingLimit →
        StandsAt image.val position v.encode →
        (Machine.valueAt counter image position = .ok (v, position + v.encode.length) ↔
          ∀ depth x, v.Has depth x → counter + 2 * depth ≤ nestingLimit) := by
  have hroom : v.height ≤ Value.room 0 ↔ ∀ depth x, v.Has depth x → 2 * depth ≤ nestingLimit := by
    have hroom := @height_le_room_iff v 0
    simpa only [Nat.zero_add] using hroom
  refine ⟨?_, fun depth x hx hdeep => ?_, fun image position counter hc hs => ?_⟩
  · rw [← hroom]
    exact ⟨RoundTrips.height_le, fun hv => .intro v.appends_write (reads_of_fits hv h)⟩
  · have hv : Value.room 0 < v.height := Nat.lt_of_not_le fun hv => Nat.not_lt.mpr (hroom.mp hv depth x hx) hdeep
    obtain ⟨place, deepest, hdeepest, hstands, hstops⟩ := stopsInside_of_height hv h
    exact ⟨place, deepest, hdeepest, hstands, hstops.refusedAt v.appends_write⟩
  · rw [valueAt_ok_iff hc h hs, height_le_room_iff]

def wrapped : (levels : Nat) → Value
  | 0 => .null
  | levels + 1 => .array [wrapped levels]

lemma height_wrapped (levels : Nat) : (wrapped levels).height = levels + 1 := by
  induction levels with
  | zero => rfl
  | succ levels ih => rw [wrapped, height, heightEach, heightEach, ih, Nat.max_zero]

lemma has_wrapped (levels : Nat) : (wrapped levels).Has levels .null := by
  induction levels with
  | zero => exact .self _
  | succ levels ih => exact .array (List.mem_singleton_self _) ih

lemma wrapped_depth_le {levels depth : Nat} {x : Value} (h : (wrapped levels).Has depth x) : depth ≤ levels :=
  Nat.le_of_lt_succ (Nat.lt_of_lt_of_eq h.depth_lt (height_wrapped levels))

def wrappedImage : Dex.Image := ⟨(wrapped 32).encode, by decide⟩

theorem nesting_counts_twice_wrapped : RoundTrips (wrapped 32).write read (wrapped 32) ∧
    Machine.valueAt 0 wrappedImage 0 = .ok (wrapped 32, 0 + (wrapped 32).encode.length) ∧
    ∃ place deepest, (wrapped 33).Has 33 deepest ∧ StandsAt (wrapped 33).encode place deepest.encode ∧
      RefusedAt (wrapped 33).write read .nestingTooDeep place := by
  have hfits₃₂ : (wrapped 32).Fits := fits_of_length (by decide)
  have hfits₃₃ : (wrapped 33).Fits := fits_of_length (by decide)
  have hdepth : ∀ depth x, (wrapped 32).Has depth x → 2 * depth ≤ nestingLimit := fun depth x hx =>
    Nat.mul_le_mul_left 2 (wrapped_depth_le hx)
  refine ⟨(nesting_counts_twice hfits₃₂).1.mpr hdepth, ?_, ?_⟩
  · apply ((nesting_counts_twice hfits₃₂).2.2 wrappedImage 0 0 (Nat.zero_le _) (List.prefix_refl _)).mpr
    simpa only [Nat.zero_add] using hdepth
  · exact (nesting_counts_twice hfits₃₃).2.1 33 .null (has_wrapped 33) (by decide)

lemma stops_wrapped (levels more : Nat) :
    Stops (readWithin levels) (wrapped (more + levels)).encode .nestingTooDeep (2 * levels) := by
  induction levels with
  | zero => exact stops_failHere _ _
  | succ levels ih =>
    have hcount : (Leb128.encode (UInt32.ofNat [wrapped (more + levels)].length)).length = 1 := rfl
    have hplace : 1 + ((Leb128.encode (UInt32.ofNat [wrapped (more + levels)].length)).length + (0 + 2 * levels)) =
        2 * (levels + 1) := by omega
    rw [← hplace]
    have hone : [wrapped (more + levels)].length < UInt32.size := by simp [UInt32.size]
    exact @stops_array levels (wrapped (more + levels)) [] [] _ hone (fun _ h => absurd h List.not_mem_nil) ih

/-- 33 arrays around a value are no more than the limit, and yet they are not read. -/
theorem wrapped_refused : (∀ depth x, (wrapped 33).Has depth x → depth ≤ nestingLimit) ∧
    read (.ofOffset ((wrapped 33).write []).2 0) = .error (.ofCause (.nestingTooDeep 66)) := by
  refine ⟨fun depth x hx => Nat.le_trans (wrapped_depth_le hx) (by decide), ?_⟩
  rw [(wrapped 33).appends_write []]
  have hstops := stops_wrapped 33 0 0 []
  rwa [List.append_nil] at hstops

end Value

end DexUnseal.Dex
