import DexUnseal.Proofs.Dex.Results

/-! Readers and grammars: which bytes a reader takes, said by a relation between bytes and what they stand for. -/

namespace DexUnseal.Dex.Reader

/-- The reader takes the words of a grammar off its input, wherever they stand, and nothing else. -/
structure Accepts (r : Reader α) (G : Bytes → α → Prop) : Prop where
  confined : Confined r
  reads_iff : ∀ bytes x, Reads r bytes x ↔ G bytes x

variable {r : Reader α} {G H : Bytes → α → Prop} {bytes : Bytes} {x : α}

/-- Where its bytes end the input, such a reader shows all that it does. -/
lemma Confined.reads_iff (h : Confined r) : Reads r bytes x ↔ r ⟨0, bytes⟩ = .ok (x, ⟨bytes.length, []⟩) := by
  constructor
  · intro hr
    have hx := hr 0 []
    rwa [List.append_nil, Nat.zero_add] at hx
  · intro hx
    obtain ⟨front, hb, -, hr⟩ := h _ _ _ hx
    rw [List.append_nil] at hb
    rwa [show bytes = front from hb]

lemma Accepts.ok_iff (h : Accepts r G) {c c' : Cursor} : r c = .ok (x, c') ↔
    ∃ bytes, G bytes x ∧ c.rest = bytes ++ c'.rest ∧ c'.position = c.position + bytes.length := by
  constructor
  · intro hx
    obtain ⟨bytes, hb, hp, hr⟩ := h.confined c x c' hx
    exact ⟨bytes, (h.reads_iff bytes x).mp hr, hb, hp⟩
  · rintro ⟨bytes, hg, hb, hp⟩
    have hr := (h.reads_iff bytes x).mpr hg c.position c'.rest
    rwa [← hb, ← hp] at hr

lemma Accepts.congr (h : Accepts r G) (hG : ∀ bytes x, G bytes x ↔ H bytes x) : Accepts r H :=
  ⟨h.confined, fun bytes x => (h.reads_iff bytes x).trans (hG bytes x)⟩

lemma Accepts.pure (x : α) : Accepts (Pure.pure x) fun bytes y => bytes = [] ∧ y = x := by
  refine ⟨Confined.pure x, fun bytes y => ⟨fun h => ?_, ?_⟩⟩
  · obtain ⟨hx, hc⟩ := pure_ok ((Confined.pure x).reads_iff.mp h)
    exact ⟨congrArg Cursor.rest hc, hx.symm⟩
  · rintro ⟨rfl, rfl⟩
    exact Reads.pure y

lemma Accepts.bind {f : α → Reader β} {F : α → Bytes → β → Prop} (h : Accepts r G) (hf : ∀ x, Accepts (f x) (F x)) :
    Accepts (r >>= f) fun bytes y => ∃ front back x, bytes = front ++ back ∧ G front x ∧ F x back y := by
  have hconfined : Confined (r >>= f) := h.confined.bind fun x => (hf x).confined
  refine ⟨hconfined, fun bytes y => ⟨fun hy => ?_, ?_⟩⟩
  · obtain ⟨x, c, hx, hc⟩ := bind_ok (hconfined.reads_iff.mp hy)
    obtain ⟨front, hg, hfront, -⟩ := h.ok_iff.mp hx
    obtain ⟨back, hF, hback, -⟩ := (hf x).ok_iff.mp hc
    rw [hback, List.append_nil] at hfront
    exact ⟨front, back, x, hfront, hg, hF⟩
  · rintro ⟨front, back, x, rfl, hg, hF⟩
    exact ((h.reads_iff front x).mpr hg).bind (((hf x).reads_iff back y).mpr hF)

lemma Accepts.map {f : α → β} (h : Accepts r G) : Accepts (f <$> r) fun bytes y => ∃ x, G bytes x ∧ y = f x := by
  have hconfined : Confined (f <$> r) := h.confined.map
  refine ⟨hconfined, fun bytes y => ⟨fun hy => ?_, ?_⟩⟩
  · obtain ⟨x, hx, rfl⟩ := map_ok (hconfined.reads_iff.mp hy)
    exact ⟨x, (h.reads_iff bytes x).mp (h.confined.reads_iff.mpr hx), rfl⟩
  · rintro ⟨x, hg, rfl⟩
    exact ((h.reads_iff bytes x).mpr hg).map f

lemma Accepts.then {f : α → β} (h : Accepts r G) :
    Accepts (r >>= fun x => Pure.pure (f x)) fun bytes y => ∃ x, G bytes x ∧ y = f x := by
  rw [bind_pure_comp]
  exact h.map

lemma accepts_failHere (cause : Nat → Cause) : Accepts (failHere cause : Reader α) fun _ _ => False :=
  ⟨fun _ _ _ h => (nomatch h), fun _ _ => ⟨fun h => (nomatch h 0 []), False.elim⟩⟩

lemma accepts_u8 : Accepts u8 fun bytes b => bytes = [b] := by
  refine ⟨confined_u8, fun bytes b => ⟨fun h => ?_, ?_⟩⟩
  · exact (u8_ok (confined_u8.reads_iff.mp h)).1
  · rintro rfl
    exact reads_u8 b

lemma accepts_uleb128 : Accepts uleb128 Leb128.Spells := by
  refine ⟨confined_uleb128, fun bytes v => ⟨fun h => ?_, fun h position rest => ?_⟩⟩
  · have hx := confined_uleb128.reads_iff.mp h
    rw [uleb128] at hx
    split at hx
    · rename_i value number rest hd
      obtain ⟨rfl, hc⟩ := Prod.mk.inj (Except.ok.inj hx)
      obtain ⟨hn, hb⟩ := Leb128.decode_eq_some_iff.mp hd
      rw [show rest = [] from congrArg Cursor.rest hc, List.append_nil] at hb
      rwa [show bytes = number from hb]
    · cases hx
  · have hd : Leb128.decode (bytes ++ rest) = some (v, bytes, rest) := Leb128.decode_eq_some_iff.mpr ⟨h, rfl⟩
    rw [uleb128, hd]

lemma Accepts.counted {item : Nat → Reader α} (h : ∀ i, Accepts (item i) G) (first count : Nat) :
    Accepts (counted item first count) fun bytes xs =>
      xs.length = count ∧ ∃ words, bytes = words.flatten ∧ List.Forall₂ G words xs := by
  induction count generalizing first with
  | zero =>
    refine (Accepts.pure []).congr fun bytes xs => ⟨?_, ?_⟩
    · rintro ⟨rfl, rfl⟩
      exact ⟨rfl, [], rfl, .nil⟩
    · rintro ⟨hl, words, rfl, hw⟩
      obtain rfl := List.length_eq_zero_iff.mp hl
      cases hw
      exact ⟨rfl, rfl⟩
  | succ count ih =>
    refine ((h first).bind fun x => (ih (first + 1)).bind fun xs => Accepts.pure _).congr fun bytes all => ⟨?_, ?_⟩
    · rintro ⟨word, rest, x, rfl, hg, front, _, xs, rfl, ⟨rfl, words, rfl, hw⟩, rfl, rfl⟩
      exact ⟨rfl, word :: words, by rw [List.append_nil, List.flatten_cons], .cons hg hw⟩
    · rintro ⟨hl, words, rfl, hw⟩
      cases hw with
      | nil => cases hl
      | @cons word x words xs hg hw =>
        refine ⟨word, words.flatten, x, List.flatten_cons, hg, words.flatten, [], xs, ?_, ?_, rfl, rfl⟩
        · rw [List.append_nil]
        · exact ⟨Nat.succ.inj hl, words, rfl, hw⟩

lemma Accepts.repeated (h : Accepts r G) (count : Nat) : Accepts (repeated r count) fun bytes xs =>
    xs.length = count ∧ ∃ words, bytes = words.flatten ∧ List.Forall₂ G words xs :=
  Accepts.counted (fun _ => h) 0 count

end DexUnseal.Dex.Reader
