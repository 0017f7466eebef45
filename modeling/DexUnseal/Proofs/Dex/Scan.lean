import DexUnseal.Dex.Scan
import DexUnseal.Proofs.ClassName
import DexUnseal.Proofs.Dex.RoundTrip

/-! The names of the classes of a file are those of the classes that decoding gives. -/

namespace DexUnseal.Dex

open Reader

namespace Reader

def Takes (r : Reader α) (n : Nat) : Prop := ∀ c x c', r c = .ok (x, c') → c' = ⟨c.position + n, c.rest.drop n⟩

variable {r : Reader α} {n : Nat}

lemma Takes.pure (x : α) : Takes (Pure.pure x) 0 := by
  intro c y c' hy
  obtain ⟨-, rfl⟩ := pure_ok hy
  rfl

lemma Takes.bind {f : α → Reader β} {m : Nat} (h : Takes r m) (hf : ∀ x, Takes (f x) n) : Takes (r >>= f) (m + n) := by
  intro c y c' hy
  obtain ⟨x, c₁, hx, hy⟩ := bind_ok hy
  obtain rfl := h c x c₁ hx
  rw [hf x _ y c' hy, List.drop_drop, Nat.add_assoc]

lemma Takes.lift (result : Except Fault α) : Takes (liftM result : Reader α) 0 := by
  intro c x c' hx
  cases result with
  | error fault => simp [liftM, monadLift, MonadLift.monadLift, StateT.lift] at hx
  | ok y =>
    obtain ⟨-, rfl⟩ : y = x ∧ c = c' := by
      simpa [liftM, monadLift, MonadLift.monadLift, StateT.lift, Bind.bind, Except.bind, Pure.pure,
        Except.pure] using hx
    rfl

lemma Takes.after {f : α → Reader β} (h : Takes r 0) (hf : ∀ x, Takes (f x) n) : Takes (r >>= f) n := by
  have hb := h.bind hf
  rwa [Nat.zero_add] at hb

lemma Takes.refuseIf (condition : Prop) [Decidable condition] (cause : Cause) : Takes (refuseIf condition cause) 0 := by
  rw [Reader.refuseIf]
  split
  · exact fun c x c' h => by simp [Reader.fail] at h
  · exact Takes.pure ()

lemma Takes.within (context : Context) (h : Takes r n) : Takes (within context r) n :=
  fun c x c' hx => h c x c' ((Alike.within context r c x c').mp hx)

lemma takes_u32 : Takes u32 4 := by
  intro c v c' h
  obtain ⟨k, hk, -⟩ := map_ok h
  rw [number] at hk
  cases ht : c.take? 4 with
  | none =>
    simp only [ht] at hk
    split at hk <;> cases hk
  | some result =>
    obtain ⟨front, c₁⟩ := result
    obtain ⟨-, rfl⟩ : Bytes.ofLittleEndian front.val = k ∧ c₁ = c' := by simpa [ht] using hk
    rw [Cursor.take?] at ht
    split at ht
    · exact (Prod.mk.inj (Option.some.inj ht)).2.symm
    · cases ht

lemma counted_getElem? {item : Nat → Reader α} (h : ∀ i, Takes (item i) n) {first count i : Nat} {c c' : Cursor}
    {xs : List α} (hr : counted item first count c = .ok (xs, c')) (hi : i < count) : ∃ x c₁, xs[i]? = some x ∧
      item (first + i) ⟨c.position + i * n, c.rest.drop (i * n)⟩ = .ok (x, c₁) := by
  induction count generalizing first i c c' xs with
  | zero => exact absurd hi (Nat.not_lt_zero i)
  | succ count ih =>
    obtain ⟨y, c₁, hy, hrest⟩ := bind_ok hr
    obtain ⟨ys, c₂, hys, hp⟩ := bind_ok hrest
    obtain rfl : y :: ys = xs := (Prod.mk.inj (Except.ok.inj hp)).1
    cases i with
    | zero => exact ⟨y, c₁, rfl, by simpa using hy⟩
    | succ i =>
      obtain rfl := h first c y c₁ hy
      obtain ⟨x, c₃, hx, hitem⟩ := ih hys (Nat.lt_of_succ_lt_succ hi)
      have hc : (⟨c.position + (i + 1) * n, c.rest.drop ((i + 1) * n)⟩ : Cursor) =
          ⟨c.position + n + i * n, (c.rest.drop n).drop (i * n)⟩ := by
        rw [List.drop_drop, Nat.succ_mul, Nat.add_comm (i * n) n, Nat.add_assoc]
      have hn : first + (i + 1) = first + 1 + i := by omega
      refine ⟨x, c₃, hx, ?_⟩
      rw [hc, hn]
      exact hitem

lemma readAt_counted {item : Nat → Reader α} (h : ∀ i, Takes (item i) n) {file : Bytes} {offset count i : Nat}
    {xs : List α} (hr : (counted item 0 count).readAt file offset = .ok xs) (hi : i < count) :
    ∃ x, xs[i]? = some x ∧ (item i).readAt file (offset + i * n) = .ok x := by
  obtain ⟨c', hc⟩ := readAt_ok.mp hr
  obtain ⟨x, c₁, hx, hitem⟩ := counted_getElem? h hc hi
  refine ⟨x, hx, readAt_ok.mpr ⟨c₁, ?_⟩⟩
  rw [← hitem, Nat.zero_add, Cursor.ofOffset, Cursor.ofOffset, List.drop_drop]

lemma readAt_first {f : α → Reader β} {g : β → α} {file : Bytes} {offset : Nat} {y : β}
    (hg : ∀ x, Gives (f x) fun y => g y = x) (h : (r >>= f).readAt file offset = .ok y) :
    r.readAt file offset = .ok (g y) := by
  obtain ⟨c', hc⟩ := readAt_ok.mp h
  obtain ⟨x, c₁, hx, hy⟩ := bind_ok hc
  obtain rfl := hg x c₁ y c' hy
  exact readAt_ok.mpr ⟨c₁, hx⟩

end Reader

variable {file : Bytes} {pools : Pools}

lemma takes_classDef (file : Bytes) (pools : Pools) : Takes (ClassDef.read file pools) Scan.classDefSize := by
  have hd (classIdx : UInt32) : Takes (ClassDef.typeDescriptor pools classIdx) 0 := by
    rw [ClassDef.typeDescriptor]
    split
    · exact Takes.pure _
    · exact fun c x c' h => by simp [fail] at h
  have ht : Takes (ClassDef.read file pools) (4 + (4 + (4 + (4 + (4 + (4 + (4 + (4 + 0)))))))) := by
    apply takes_u32.bind fun classIdx => (hd classIdx).after fun _ => takes_u32.bind fun _ => ?_
    apply takes_u32.bind fun _ => takes_u32.bind fun _ => takes_u32.bind fun _ => takes_u32.bind fun _ => ?_
    apply takes_u32.bind fun _ => takes_u32.bind fun _ => (Takes.lift _).after fun _ => ?_
    apply (Takes.lift _).after fun _ => (Takes.lift _).after fun _ => (Takes.lift _).after fun _ => Takes.pure _
  exact ht

lemma classIdx_first {d : ClassDef} {offset : Nat} (h : (ClassDef.read file pools).readAt file offset = .ok d) :
    u32.readAt file offset = .ok d.classIdx := by
  refine readAt_first (fun classIdx => ?_) h
  refine Gives.after fun _ => Gives.after fun _ => Gives.after fun _ => Gives.after fun _ => Gives.after fun _ => ?_
  refine Gives.after fun _ => Gives.after fun _ => Gives.after fun _ => Gives.after fun _ => Gives.after fun _ => ?_
  exact Gives.after fun _ => Gives.after fun _ => Gives.pure rfl

lemma takes_string (file : Bytes) (number : Nat) : Takes (Pools.readString file number) 4 :=
  takes_u32.bind fun _ => Takes.lift _

lemma takes_type (strings : List StringData) : Takes (Pools.readType strings) 4 :=
  takes_u32.bind fun _ => (Takes.refuseIf _ _).after fun _ => Takes.pure _

lemma type_first {strings : List StringData} {t : UInt32} {offset : Nat}
    (h : (Pools.readType strings).readAt file offset = .ok t) : u32.readAt file offset = .ok t :=
  readAt_first (g := id) (fun _ => Gives.after fun _ => Gives.pure rfl) h

lemma string_first {number : Nat} {s : StringData} {offset : Nat}
    (h : (Pools.readString file number).readAt file offset = .ok s) :
    ∃ place, u32.readAt file offset = .ok place ∧ StringData.read.readAt file place.toNat = .ok s := by
  obtain ⟨c', hc⟩ := readAt_ok.mp h
  obtain ⟨place, c₁, hplace, hs⟩ := bind_ok hc
  have hg : Gives (liftM (inContext (.string number) (StringData.read.readAt file place.toNat)) : Reader StringData)
      fun s => StringData.read.readAt file place.toNat = .ok s := Gives.lift fun _ hs => inContext_ok.mp hs
  exact ⟨place, readAt_ok.mpr ⟨c₁, hplace⟩, hg c₁ s c' hs⟩

lemma StringData.eq_decoded {s : StringData} {text : String} (h : s.text? = some text) : s = .decoded text := by
  cases s with
  | decoded text' => rw [Option.some.inj h]
  | raw units bytes => cases h

structure SectionWords (file : Bytes) (h : Header) (pools : Pools) : Prop where
  typeCount : pools.types.length = h.types.size.toNat
  stringCount : pools.strings.length = h.strings.size.toNat
  type : ∀ i t, pools.types[i]? = some t → u32.readAt file (h.types.offset.toNat + i * 4) = .ok t
  string : ∀ i s, pools.strings[i]? = some s → ∃ place,
    u32.readAt file (h.strings.offset.toNat + i * 4) = .ok place ∧ StringData.read.readAt file place.toNat = .ok s

lemma lt_of_getElem?_eq {xs : List α} {i count : Nat} {x : α} (hx : xs[i]? = some x) (hl : xs.length = count) :
    i < count :=
  hl ▸ (List.getElem?_eq_some_iff.mp hx).1

lemma sectionWords {h : Header} (hp : Pools.read file h = .ok pools) : SectionWords file h pools := by
  obtain ⟨strings, hs, hp⟩ := except_bind_ok.mp hp
  obtain ⟨types, ht, hp⟩ := except_bind_ok.mp hp
  obtain ⟨protos, -, hp⟩ := except_bind_ok.mp hp
  obtain ⟨fields, -, hp⟩ := except_bind_ok.mp hp
  obtain ⟨methods, -, hp⟩ := except_bind_ok.mp hp
  obtain ⟨⟨callSites, handles⟩, -, hp⟩ := except_bind_ok.mp hp
  obtain rfl := Except.ok.inj hp
  have hcount : strings.length = h.strings.size.toNat :=
    ((Gives.counted (fun i => Gives.trivial (Pools.readString file i)) 0 _).readAt hs).1
  have htypes : types.length = h.types.size.toNat :=
    ((Gives.trivial (Pools.readType strings)).repeated _ |>.readAt ht).1
  refine ⟨htypes, hcount, fun i t hi => ?_, fun i s hi => ?_⟩
  · obtain ⟨x, hx, hr⟩ := readAt_counted (fun _ => takes_type strings) ht (lt_of_getElem?_eq hi htypes)
    obtain rfl := Option.some.inj (hi.symm.trans hx)
    exact type_first hr
  · obtain ⟨x, hx, hr⟩ := readAt_counted (takes_string file) hs (lt_of_getElem?_eq hi hcount)
    obtain rfl := Option.some.inj (hi.symm.trans hx)
    exact string_first hr

lemma className_eq {h : Header} {number : Nat} {d : ClassDef} (hs : SectionWords file h pools)
    (hw : pools.typeDescriptor? d.classIdx = some d.descriptor)
    (hd : u32.readAt file (h.classes.offset.toNat + number * Scan.classDefSize) = .ok d.classIdx) :
    Scan.className file h number = match ClassName.ofDescriptor? d.descriptor with
      | some name => .ok name.dotted
      | none => .error (.ofCause (.notAClass number (.decoded d.descriptor))) := by
  obtain ⟨stringIdx, ht, hstring⟩ := Option.bind_eq_some_iff.mp hw
  obtain ⟨s, hi, htext⟩ := Option.bind_eq_some_iff.mp hstring
  obtain ⟨place, hplace, hread⟩ := hs.string _ s hi
  have htype : ¬ h.types.size ≤ d.classIdx := by
    rw [UInt32.not_le]
    exact lt_of_getElem?_eq ht hs.typeCount
  have hindex : ¬ h.strings.size ≤ stringIdx := by
    rw [UInt32.not_le]
    exact lt_of_getElem?_eq hi hs.stringCount
  have hdecoded : s = .decoded d.descriptor := StringData.eq_decoded htext
  simp only [Scan.className, hd, except_ok_bind, if_neg htype, hs.type _ _ ht, if_neg hindex, hplace, hread, htext,
    Option.bind_some]
  rw [hdecoded]
  cases ClassName.ofDescriptor? d.descriptor <;> rfl

lemma classNamesFrom_eq {h : Header} {names : List String} {first : Nat}
    (hn : ∀ i name, names[i]? = some name → Scan.className file h (first + i) = .ok name) :
    Scan.classNamesFrom file h first names.length = .ok names := by
  induction names generalizing first with
  | nil => rfl
  | cons name names ih =>
    have hrest : Scan.classNamesFrom file h (first + 1) names.length = .ok names := by
      apply ih
      intro i other hi
      have ho := hn (i + 1) other hi
      rwa [Nat.add_left_comm, Nat.add_comm] at ho
    exact except_bind_ok.mpr ⟨name, hn 0 name rfl, except_bind_ok.mpr ⟨names, hrest, rfl⟩⟩

lemma classNamesFrom_error {h : Header} {fault : Fault} {first count i : Nat}
    (hb : ∀ j < i, ∃ name, Scan.className file h (first + j) = .ok name)
    (hf : Scan.className file h (first + i) = .error fault) (hi : i < count) :
    Scan.classNamesFrom file h first count = .error fault := by
  induction count generalizing first i with
  | zero => exact absurd hi (Nat.not_lt_zero i)
  | succ count ih =>
    cases i with
    | zero =>
      rw [Nat.add_zero] at hf
      rw [Scan.classNamesFrom, hf]
      rfl
    | succ i =>
      obtain ⟨name, hname⟩ := hb 0 (Nat.succ_pos i)
      rw [Nat.add_zero] at hname
      have hrest : Scan.classNamesFrom file h (first + 1) count = .error fault := by
        refine ih (fun j hj => ?_) ?_ (Nat.lt_of_succ_lt_succ hi)
        · obtain ⟨other, ho⟩ := hb (j + 1) (Nat.succ_lt_succ hj)
          exact ⟨other, by rwa [Nat.add_left_comm, Nat.add_comm] at ho⟩
        · rwa [Nat.add_left_comm, Nat.add_comm] at hf
      rw [Scan.classNamesFrom, hname, except_ok_bind, hrest]
      rfl

structure ClassWords (file : Bytes) (h : Header) (c : Container) : Prop where
  header : (Header.read file).readAt file 0 = .ok h
  count : c.classes.length = h.classes.size.toNat
  pools : SectionWords file h c.pools
  descriptor : ∀ d ∈ c.classes, c.pools.typeDescriptor? d.classIdx = some d.descriptor
  classIdx : ∀ i d, c.classes[i]? = some d →
    u32.readAt file (h.classes.offset.toNat + i * Scan.classDefSize) = .ok d.classIdx

lemma classWords {c : Container} (h : Container.decode file = .ok c) : ∃ header, ClassWords file header c := by
  have hw := (Container.decode_wellFormed h).1.classes
  obtain ⟨header, hh, h⟩ := except_bind_ok.mp h
  obtain ⟨pools, hp, h⟩ := except_bind_ok.mp h
  obtain ⟨classes, hc, h⟩ := except_bind_ok.mp h
  obtain rfl := Except.ok.inj h
  have hcount : classes.length = header.classes.size.toNat :=
    ((Gives.counted (fun i => Gives.trivial (within (.classDef i) (ClassDef.read file pools))) 0 _).readAt hc).1
  refine ⟨header, hh, hcount, sectionWords hp, fun d hd => (hw d hd).descriptor, fun i d hi => ?_⟩
  obtain ⟨x, hx, hr⟩ := readAt_counted (fun i => (takes_classDef file pools).within (.classDef i)) hc
    (lt_of_getElem?_eq hi hcount)
  obtain rfl := Option.some.inj (hi.symm.trans hx)
  obtain ⟨c₁, hread⟩ := readAt_ok.mp hr
  exact classIdx_first (readAt_ok.mpr ⟨c₁, (Alike.within _ _ _ _ _).mp hread⟩)

lemma ClassWords.className {header : Header} {c : Container} (hw : ClassWords file header c) {number : Nat}
    {d : ClassDef} (hd : c.classes[number]? = some d) : Scan.className file header (0 + number) =
      match ClassName.ofDescriptor? d.descriptor with
      | some name => .ok name.dotted
      | none => .error (.ofCause (.notAClass number (.decoded d.descriptor))) := by
  rw [Nat.zero_add]
  exact className_eq hw.pools (hw.descriptor d (List.mem_of_getElem? hd)) (hw.classIdx number d hd)

theorem classNames_of_decode {c : Container} (h : Container.decode file = .ok c)
    (hn : ∀ d ∈ c.classes, (ClassName.ofDescriptor? d.descriptor).isSome) :
    Scan.classNames file = .ok (c.classes.map (·.dottedName)) := by
  obtain ⟨header, hw⟩ := classWords h
  refine except_bind_ok.mpr ⟨header, hw.header, ?_⟩
  rw [← hw.count, ← List.length_map (·.dottedName)]
  apply classNamesFrom_eq
  intro i name hi
  rw [List.getElem?_map] at hi
  obtain ⟨d, hd, rfl⟩ := Option.map_eq_some_iff.mp hi
  obtain ⟨name, hname⟩ := Option.isSome_iff_exists.mp (hn d (List.mem_of_getElem? hd))
  rw [hw.className hd]
  simp [ClassDef.dottedName, hname]

theorem classNames_error {c : Container} {before after : List ClassDef} {d : ClassDef}
    (h : Container.decode file = .ok c) (hc : c.classes = before ++ d :: after)
    (hb : ∀ d' ∈ before, (ClassName.ofDescriptor? d'.descriptor).isSome)
    (hn : ClassName.ofDescriptor? d.descriptor = none) :
    Scan.classNames file = .error (.ofCause (.notAClass before.length (.decoded d.descriptor))) := by
  obtain ⟨header, hw⟩ := classWords h
  have hd : c.classes[before.length]? = some d := by simp [hc]
  have hlt := lt_of_getElem?_eq hd hw.count
  have hfrom : Scan.classNamesFrom file header 0 header.classes.size.toNat =
      .error (.ofCause (.notAClass before.length (.decoded d.descriptor))) := by
    refine classNamesFrom_error (fun i hi => ?_) ?_ hlt
    · have hd' : c.classes[i]? = some before[i] := by
        rw [hc, List.getElem?_append_left hi, List.getElem?_eq_getElem hi]
      obtain ⟨name, hname⟩ := Option.isSome_iff_exists.mp (hb _ (List.getElem_mem hi))
      exact ⟨name.dotted, by rw [hw.className hd', hname]⟩
    · rw [hw.className hd, hn]
  rw [Scan.classNames, hw.header, except_ok_bind, hfrom]

lemma exists_unnamed {classes : List ClassDef} (h : ¬ ∀ d ∈ classes, (ClassName.ofDescriptor? d.descriptor).isSome) :
    ∃ before d after, classes = before ++ d :: after ∧
      (∀ d' ∈ before, (ClassName.ofDescriptor? d'.descriptor).isSome) ∧
      ClassName.ofDescriptor? d.descriptor = none := by
  obtain ⟨d, hd⟩ : ∃ d, classes.find? (fun d => (ClassName.ofDescriptor? d.descriptor).isNone) = some d := by
    rw [← Option.isSome_iff_exists, List.find?_isSome]
    simpa using h
  obtain ⟨hn, before, after, hc, hb⟩ := List.find?_eq_some_iff_append.mp hd
  exact ⟨before, d, after, hc, fun d' hd' => by simpa using hb d' hd', by simpa using hn⟩

theorem isSome_of_classNames {c : Container} {names : List String} (h : Container.decode file = .ok c)
    (hn : Scan.classNames file = .ok names) : ∀ d ∈ c.classes, (ClassName.ofDescriptor? d.descriptor).isSome := by
  by_contra hsome
  obtain ⟨before, d, after, hc, hb, hnone⟩ := exists_unnamed hsome
  rw [classNames_error h hc hb hnone] at hn
  cases hn

lemma eq_of_classNames {c : Container} {names : List String} (h : Container.decode file = .ok c)
    (hn : Scan.classNames file = .ok names) : names = c.classes.map (·.dottedName) :=
  (Except.ok.inj ((classNames_of_decode h (isSome_of_classNames h hn)).symm.trans hn)).symm

lemma slash_not_mem_of_classNames {c : Container} {names : List String} (h : Container.decode file = .ok c)
    (hn : Scan.classNames file = .ok names) : ∀ name ∈ names, '/' ∉ name.toList := by
  rw [eq_of_classNames h hn, List.forall_mem_map]
  intro d hd
  obtain ⟨n, hd⟩ := Option.isSome_iff_exists.mp (isSome_of_classNames h hn d hd)
  rw [ClassDef.dottedName, hd, Option.map_some, Option.getD_some]
  exact ClassName.old_not_mem_replaceChar (by decide) n.path

lemma descriptor_ofDotted_eq_iff {c : Container} {names : List String} {name : String} {d : ClassDef}
    (h : Container.decode file = .ok c) (hn : Scan.classNames file = .ok names) (hname : name ∈ names)
    (hd : d ∈ c.classes) :
    (ClassName.ofDotted name).descriptor = d.descriptor ↔ d.dottedName = name ∧ '.' ∉ d.descriptor.toList := by
  obtain ⟨n, hsome⟩ := Option.isSome_iff_exists.mp (isSome_of_classNames h hn d hd)
  rw [ClassName.descriptor_ofDotted_eq_iff hsome (slash_not_mem_of_classNames h hn name hname), ClassDef.dottedName,
    hsome, Option.map_some, Option.getD_some]

lemma descriptor_dottedName_iff {c : Container} {names : List String} {d : ClassDef}
    (h : Container.decode file = .ok c) (hn : Scan.classNames file = .ok names) (hd : d ∈ c.classes) :
    (ClassName.ofDotted d.dottedName).descriptor = d.descriptor ↔ '.' ∉ d.descriptor.toList := by
  rw [descriptor_ofDotted_eq_iff h hn (eq_of_classNames h hn ▸ List.mem_map_of_mem hd) hd]
  exact and_iff_right rfl

/-- The scan does what decoding and naming the classes would do: it gives the names of all classes in their order,
unless a class has no name, of which the first is reported. -/
theorem classNames_agree {c : Container} (h : Container.decode file = .ok c) :
    ((∀ d ∈ c.classes, ClassName.IsDescriptor d.descriptor) →
      Scan.classNames file = .ok (c.classes.map (·.dottedName))) ∧
    (¬ (∀ d ∈ c.classes, ClassName.IsDescriptor d.descriptor) → ∃ before d after,
      c.classes = before ++ d :: after ∧ (∀ d' ∈ before, ClassName.IsDescriptor d'.descriptor) ∧
      ¬ ClassName.IsDescriptor d.descriptor ∧
      Scan.classNames file = .error (.ofCause (.notAClass before.length (.decoded d.descriptor)))) := by
  simp only [← ClassName.isSome_ofDescriptor?_iff]
  refine ⟨classNames_of_decode h, fun hn => ?_⟩
  obtain ⟨before, d, after, hc, hb, hnone⟩ := exists_unnamed hn
  exact ⟨before, d, after, hc, hb, by rw [hnone]; exact Bool.false_ne_true, classNames_error h hc hb hnone⟩

open Container (sample)

lemma classNames_sample : Scan.classNames sample.file = .ok ["p.A"] :=
  classNames_of_decode Container.decode_file_sample (by decide)

def twinSample (classIdx : UInt32) (descriptor : String) : Container :=
  { sample with classes := sample.classes ++ sample.classes.map fun d => { d with classIdx, descriptor } }

lemma decode_file_twinSample {classIdx : UInt32} {descriptor : String}
    (ht : sample.pools.typeDescriptor? classIdx = some descriptor)
    (hlen : (twinSample classIdx descriptor).file.length < UInt32.size) :
    Container.decode (twinSample classIdx descriptor).file = .ok (twinSample classIdx descriptor) := by
  have hw := Container.wellFormed_sample
  have hs := Container.ordered_sample.sorted
  refine Container.decode_file ⟨hw.magic, hw.pools, List.forall_mem_append.mpr ⟨hw.classes, ?_⟩⟩ ?_ hlen
  · refine List.forall_mem_map.mpr fun d hd => ?_
    have hd := hw.classes d hd
    exact ⟨ht, hd.interfaces, hd.code, hd.annotations, hd.staticValues⟩
  · exact List.forall_mem_append.mpr ⟨hs, List.forall_mem_map.mpr fun d hd => hs d hd⟩

lemma length_file_twinSample_void : (twinSample 2 "V").file.length < 2048 := by
  rw [Container.length_file, Container.size_dataSection]
  decide +kernel

theorem classNames_agree_sample :
    (∀ d ∈ sample.classes, ClassName.IsDescriptor d.descriptor) ∧ Scan.classNames sample.file = .ok ["p.A"] ∧
      ¬ (∀ d ∈ (twinSample 2 "V").classes, ClassName.IsDescriptor d.descriptor) ∧
      Scan.classNames (twinSample 2 "V").file = .error (.ofCause (.notAClass 1 (.decoded "V"))) := by
  have hnamed : ∀ d ∈ sample.classes, ClassName.IsDescriptor d.descriptor := by
    intro d hd
    obtain rfl := List.mem_singleton.mp hd
    exact ⟨"p/A", by decide, rfl⟩
  have hvoid : ¬ ClassName.IsDescriptor "V" := by
    rw [← ClassName.isSome_ofDescriptor?_iff]
    decide
  have hmisnamed : ¬ ∀ d ∈ (twinSample 2 "V").classes, ClassName.IsDescriptor d.descriptor := fun hall =>
    hvoid (hall _ (List.mem_append_right _ List.mem_cons_self))
  refine ⟨hnamed, (classNames_agree Container.decode_file_sample).1 hnamed, hmisnamed, ?_⟩
  have hdecode := decode_file_twinSample rfl (Nat.lt_trans length_file_twinSample_void (by decide))
  obtain ⟨before, d, after, hc, hb, hd, herror⟩ := (classNames_agree hdecode).2 hmisnamed
  match before, hb, hc with
  | [], _, hc =>
    obtain ⟨rfl, -⟩ := List.cons.inj hc
    exact absurd (hnamed _ List.mem_cons_self) hd
  | [_], _, hc =>
    obtain ⟨rfl, -⟩ := List.cons.inj (List.cons.inj hc).2
    exact herror
  | _ :: d' :: _, hb, hc =>
    obtain ⟨rfl, -⟩ := List.cons.inj (List.cons.inj hc).2
    exact absurd (hb _ (List.mem_cons_of_mem _ List.mem_cons_self)) hvoid

end DexUnseal.Dex
