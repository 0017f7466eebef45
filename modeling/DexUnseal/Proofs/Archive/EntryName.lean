import DexUnseal.Archive.Contents
import DexUnseal.Proofs.Path
import DexUnseal.Proofs.Steps
import DexUnseal.Proofs.Text.CodePage437

/-! Which names entries can have, and which of them are read as they were written. -/

namespace DexUnseal

lemma mem_intercalate {α : Type u} {x sep : α} {parts : List (List α)} (h : x ∈ [sep].intercalate parts) :
    x = sep ∨ ∃ part ∈ parts, x ∈ part := by
  induction parts with
  | nil => cases h
  | cons part parts ih =>
    cases parts with
    | nil =>
      rw [List.intercalate_singleton] at h
      exact .inr ⟨part, List.mem_cons_self, h⟩
    | cons next parts =>
      rw [List.intercalate_cons_cons, List.append_assoc, List.mem_append, List.mem_append, List.mem_singleton] at h
      rcases h with h | h | h
      · exact .inr ⟨part, List.mem_cons_self, h⟩
      · exact .inl h
      · refine (ih h).imp_right ?_
        rintro ⟨other, ho, hx⟩
        exact ⟨other, List.mem_cons_of_mem part ho, hx⟩

namespace Archive

open DexUnseal.Path (IsName pieces)

namespace EntryName

variable {p : Path} {name : String}

def slashed (part : List Char) : List Char := part.map fun c => if c = '\\' then '/' else c

lemma toList_withSlashes (text : String) : (withSlashes text).toList = slashed text.toList := by
  rw [withSlashes, String.toList_ofList, slashed]

lemma slashed_eq {part : List Char} (h : '\\' ∉ part) : slashed part = part := by
  have hid : ∀ c ∈ part, (if c = '\\' then '/' else c) = id c := by
    intro c hc
    rw [if_neg, id]
    rintro rfl
    exact h hc
  rw [slashed, List.map_congr_left hid, List.map_id]

lemma mem_slashed {part : List Char} {c : Char} (h : c ∈ slashed part) : c ≠ '\\' ∧ (c = '/' ∨ c ∈ part) := by
  obtain ⟨d, hd, rfl⟩ := List.mem_map.mp h
  split
  · exact ⟨by decide, .inl rfl⟩
  · exact ⟨‹_›, .inr hd⟩

/-- A root can only be the first component; of the others a parent decides. -/
lemma parts_eq (path : Path) {components : List Path.Component} (h : .root ∉ components) : parts path components =
    if .parent ∈ components then .error .parent
    else .ok ((components.filterMap Path.Component.name?).map withSlashes) := by
  induction components with
  | nil => rfl
  | cons component components ih =>
    have ih := ih fun hr => h (List.mem_cons_of_mem _ hr)
    cases component with
    | root => exact absurd List.mem_cons_self h
    | parent => rw [if_pos List.mem_cons_self, parts]; rfl
    | current =>
      rw [parts, ih, List.filterMap_cons_none rfl]
      simp
    | name text =>
      rw [parts, ih]
      by_cases hp : .parent ∈ components
      · simp [hp, Bind.bind, Except.bind]
      · simp [hp, Path.Component.name?, Bind.bind, Except.bind, Pure.pure, Except.pure]

def fault? (p : Path) : Option NameFault :=
  if p.isAbsolute then some (.absolute p.text)
  else if .parent ∈ p.components then some .parent
  else if p.names = [] then some .empty
  else none

lemma ofPath_of_fault? {fault : NameFault} (h : fault? p = some fault) : ofPath p = .error fault := by
  rw [fault?] at h
  split at h
  · rename_i ha
    obtain rfl := Option.some.inj h
    obtain ⟨rest, hr⟩ := Path.components_of_isAbsolute ha
    rw [ofPath, hr]
    rfl
  · rename_i ha
    have hparts := parts_eq p (Path.root_notMem_components (by simpa using ha))
    split at h
    · rename_i hp
      obtain rfl := Option.some.inj h
      rw [ofPath, hparts, if_pos hp]
      rfl
    · rename_i hp
      split at h
      · rename_i hn
        obtain rfl := Option.some.inj h
        rw [ofPath, hparts, if_neg hp, ← Path.names, hn]
        rfl
      · cases h

lemma ofPath_of_no_fault (h : fault? p = none) : p.names ≠ [] ∧
    ofPath p = .ok (String.intercalate "/" (p.names.map withSlashes)) := by
  rw [fault?] at h
  split at h
  · cases h
  · rename_i ha
    have hparts := parts_eq p (Path.root_notMem_components (by simpa using ha))
    split at h
    · cases h
    · rename_i hp
      split at h
      · cases h
      · rename_i hn
        rw [if_neg hp, ← Path.names] at hparts
        refine ⟨hn, except_bind_ok.mpr ⟨_, hparts, except_guard_ok.mpr ⟨?_, rfl⟩⟩⟩
        rwa [List.isEmpty_iff, List.map_eq_nil_iff]

lemma fault?_eq_none_iff : fault? p = none ↔ ∃ name, ofPath p = .ok name := by
  cases h : fault? p with
  | none => exact ⟨fun _ => ⟨_, (ofPath_of_no_fault h).2⟩, fun _ => rfl⟩
  | some fault => simp [ofPath_of_fault? h]

lemma toList_joined (names : List String) : (String.intercalate "/" (names.map withSlashes)).toList =
    ['/'].intercalate (names.map fun text => slashed text.toList) := by
  rw [String.toList_intercalate, List.map_map]
  congr 1
  exact List.map_congr_left fun text _ => toList_withSlashes text

lemma ofPath_ok (h : ofPath p = .ok name) : ∃ texts : List (List Char), texts ≠ [] ∧
    (∀ part ∈ texts, IsName part ∧ part ∈ pieces p.text.toList) ∧
      name.toList = ['/'].intercalate (texts.map slashed) := by
  obtain ⟨hn, he⟩ := ofPath_of_no_fault (fault?_eq_none_iff.mpr ⟨name, h⟩)
  obtain rfl := Except.ok.inj (h.symm.trans he)
  refine ⟨p.names.map String.toList, by rwa [Ne, List.map_eq_nil_iff], fun part hp => ?_, ?_⟩
  · obtain ⟨text, ht, rfl⟩ := List.mem_map.mp hp
    obtain ⟨piece, hpiece, hname, rfl⟩ := Path.mem_components_name (Path.mem_names.mp ht)
    rw [String.toList_ofList]
    exact ⟨hname, hpiece⟩
  · rw [toList_joined, List.map_map]
    rfl

lemma mem_of_ofPath (h : ofPath p = .ok name) {c : Char} (hc : c ∈ name.toList) :
    c ≠ '\\' ∧ (c = '/' ∨ c ∈ p.text.toList) := by
  obtain ⟨texts, -, ht, hname⟩ := ofPath_ok h
  rw [hname] at hc
  rcases mem_intercalate hc with rfl | ⟨part, hp, hc⟩
  · exact ⟨by decide, .inl rfl⟩
  · obtain ⟨text, htext, rfl⟩ := List.mem_map.mp hp
    obtain ⟨hne, hc⟩ := mem_slashed hc
    exact ⟨hne, hc.imp_right fun hc => (Path.mem_of_mem_pieces (ht text htext).2 hc).1⟩

lemma isName_of_ofPath (h : ofPath p = .ok name) (hb : '\\' ∉ p.text.toList) :
    ∀ piece ∈ pieces name.toList, IsName piece := by
  obtain ⟨texts, hn, ht, hname⟩ := ofPath_ok h
  have hmem (part : List Char) (hp : part ∈ texts) {c : Char} (hc : c ∈ part) : c ∈ p.text.toList ∧ c ≠ '/' :=
    Path.mem_of_mem_pieces (ht part hp).2 hc
  have hid : ∀ part ∈ texts, slashed part = id part := fun part hp => slashed_eq fun hc => hb (hmem part hp hc).1
  have hslashed : texts.map slashed = texts := by rw [List.map_congr_left hid, List.map_id]
  rw [hname, hslashed, Path.pieces_intercalate hn fun part hp hc => (hmem part hp hc).2 rfl]
  exact fun piece hp => (ht piece hp).1

lemma ofPath_eq (h : ∀ piece ∈ pieces p.text.toList, IsName piece) (hb : '\\' ∉ p.text.toList) :
    ofPath p = .ok p.text := by
  have hnames := Path.names_of_isName h
  have hfault : fault? p = none := by
    rw [fault?, if_neg (by simp [Path.isAbsolute_of_isName h]), if_neg, if_neg]
    · rw [hnames, List.map_eq_nil_iff]
      exact Path.pieces_ne_nil p.text.toList
    · simp [Path.components_of_isName h]
  have hid : ∀ piece ∈ pieces p.text.toList, slashed (String.ofList piece).toList = id piece := by
    intro piece hp
    rw [String.toList_ofList]
    exact slashed_eq fun hc => hb (Path.mem_of_mem_pieces hp hc).1
  rw [(ofPath_of_no_fault hfault).2]
  congr 1
  rw [← String.toList_inj, toList_joined, hnames, List.map_map, Function.comp_def, List.map_congr_left hid,
    List.map_id]
  exact Path.intercalate_pieces p.text.toList

structure Tidy (name : String) : Prop where
  parts : ∀ part ∈ pieces name.toList, IsName part
  backslash : '\\' ∉ name.toList
  zero : '\x00' ∉ name.toList

instance (name : String) : Decidable (Tidy name) :=
  decidable_of_iff ((∀ part ∈ pieces name.toList, IsName part) ∧ '\\' ∉ name.toList ∧ '\x00' ∉ name.toList)
    ⟨fun ⟨hp, hb, hz⟩ => ⟨hp, hb, hz⟩, fun h => ⟨h.parts, h.backslash, h.zero⟩⟩

/-- A name that looks the same in UTF-8 and in the code page that archives are read in. -/
structure Plain (name : String) : Prop extends Tidy name where
  ascii : ∀ c ∈ name.toList, c.toNat < 0x80

instance (name : String) : Decidable (Plain name) :=
  have : Decidable (∀ c ∈ name.toList, c.toNat < 0x80) := List.decidableBAll _ _
  decidable_of_iff (Tidy name ∧ ∀ c ∈ name.toList, c.toNat < 0x80)
    ⟨fun ⟨ht, ha⟩ => ⟨ht, ha⟩, fun h => ⟨h.toTidy, h.ascii⟩⟩

open Text.CodePage437 (seen)

lemma flatMap_seen_intercalate (parts : List (List Char)) :
    (['/'].intercalate parts).flatMap seen = ['/'].intercalate (parts.map fun part => part.flatMap seen) := by
  induction parts with
  | nil => rfl
  | cons part parts ih =>
    cases parts with
    | nil => simp only [List.intercalate_singleton, List.map_cons, List.map_nil]
    | cons next parts =>
      have hslash : ['/'].flatMap seen = ['/'] :=
        Text.CodePage437.flatMap_seen_ascii (List.forall_mem_singleton.mpr (by decide))
      simp only [List.map_cons, List.intercalate_cons_cons, List.flatMap_append, hslash] at ih ⊢
      rw [ih]

lemma pieces_flatMap_seen (cs : List Char) :
    pieces (cs.flatMap seen) = (pieces cs).map fun part => part.flatMap seen := by
  have h := flatMap_seen_intercalate (pieces cs)
  rw [Path.intercalate_pieces] at h
  rw [h, Path.pieces_intercalate]
  · rw [Ne, List.map_eq_nil_iff]
    exact Path.pieces_ne_nil cs
  · intro part hp
    obtain ⟨piece, hpiece, rfl⟩ := List.mem_map.mp hp
    rw [Text.CodePage437.mem_flatMap_seen_iff (by decide)]
    exact fun hc => (Path.mem_of_mem_pieces hpiece hc).2 rfl

lemma isName_flatMap_seen {part : List Char} (h : IsName part) : IsName (part.flatMap seen) := by
  by_cases ha : ∀ c ∈ part, c.toNat < 0x80
  · rwa [Text.CodePage437.flatMap_seen_ascii ha]
  · simp only [not_forall, Nat.not_lt] at ha
    obtain ⟨c, hc, hother⟩ := ha
    obtain ⟨-, d, hd, hother⟩ := Text.CodePage437.flatMap_seen_other ⟨c, hc, hother⟩
    refine ⟨List.ne_nil_of_mem hd, fun he => ?_, fun he => ?_⟩
    · rw [he] at hd
      obtain rfl := List.mem_singleton.mp hd
      exact absurd hother (by decide)
    · rw [he] at hd
      have hdot : d = '.' := by simpa using hd
      subst hdot
      exact absurd hother (by decide)

lemma Tidy.seen (h : Tidy name) : Tidy (Text.CodePage437.decode (Text.Utf8.encode name)) := by
  refine ⟨?_, ?_, ?_⟩
  · rw [Text.CodePage437.toList_decode_encode, pieces_flatMap_seen]
    intro part hp
    obtain ⟨piece, hpiece, rfl⟩ := List.mem_map.mp hp
    exact isName_flatMap_seen (h.parts piece hpiece)
  · rw [Text.CodePage437.toList_decode_encode, Text.CodePage437.mem_flatMap_seen_iff (by decide)]
    exact h.backslash
  · rw [Text.CodePage437.toList_decode_encode, Text.CodePage437.mem_flatMap_seen_iff (by decide)]
    exact h.zero

lemma Plain.seen_eq (h : Plain name) : Text.CodePage437.decode (Text.Utf8.encode name) = name := by
  rw [← String.toList_inj, Text.CodePage437.toList_decode_encode, Text.CodePage437.flatMap_seen_ascii h.ascii]

end EntryName

namespace Listing

variable {f : Image} {l : Listing} {wanted : String → Bool} {name : String} {e : Entry} {offset : Nat} {data : Bytes}

lemma depth?_names (depth : Nat) (names : List String) :
    depth? depth (names.map .name) = some (depth + names.length) := by
  induction names generalizing depth with
  | nil => rfl
  | cons name names ih =>
    rw [List.map_cons, depth?, ih, List.length_cons]
    congr 1
    omega

lemma not_isDirectory (h : EntryName.Tidy l.name) : l.isDirectory = false := by
  rw [isDirectory]
  cases hl : l.name.toList.getLast? with
  | none => rfl
  | some c =>
    have hslash : c ≠ '/' := by
      rintro rfl
      exact (h.parts [] (Path.nil_mem_pieces hl)).1 rfl
    have hbackslash : c ≠ '\\' := by
      rintro rfl
      exact h.backslash (List.mem_of_getLast? hl)
    simp [hslash, hbackslash]

lemma enclosed?_eq (h : EntryName.Tidy l.name) : l.enclosed? = some ⟨l.name⟩ := by
  have hz : ¬ l.name.toList.contains '\x00' = true := by simpa using h.zero
  have hd := depth?_names 0 ((pieces l.name.toList).map String.ofList)
  rw [List.map_map, Function.comp_def] at hd
  have hc : (Path.mk l.name).components = _ := Path.components_of_isName h.parts
  simp only [enclosed?, if_neg hz, hc, hd]
  rfl

lemma entry?_ok (h : EntryName.Tidy l.name) (hw : wanted l.name = true) {r : Option (String × Entry)} :
    l.entry? f wanted = .ok r ↔ ∃ offset data, l.payloadOffset f = .ok offset ∧ l.data f offset = .ok data ∧
      r = some (l.name, ⟨data, Compression.ofCode? l.method⟩) := by
  have hname : EntryName.ofPath ⟨l.name⟩ = .ok l.name := EntryName.ofPath_eq h.parts h.backslash
  simp only [not_isDirectory h, entry?, enclosed?_eq h, hname, hw, Bool.false_eq_true, if_false, if_true,
    except_bind_ok]
  constructor
  · rintro ⟨offset, ho, data, hd, ⟨⟩⟩
    exact ⟨offset, data, ho, except_mapError_ok.mp hd, rfl⟩
  · rintro ⟨offset, data, ho, hd, rfl⟩
    exact ⟨offset, ho, data, except_mapError_ok.mpr hd, rfl⟩

lemma name_of_entry? (h : l.entry? f wanted = .ok (some (name, e))) :
    '\x00' ∉ l.name.toList ∧ EntryName.ofPath ⟨l.name⟩ = .ok name := by
  obtain ⟨offset, -, h⟩ := except_bind_ok.mp h
  split at h
  · cases h
  · split at h
    · cases h
    · rename_i path henclosed
      rw [enclosed?] at henclosed
      split at henclosed
      · cases henclosed
      · rename_i hz
        obtain ⟨_, -, rfl⟩ := Option.map_eq_some_iff.mp henclosed
        refine ⟨by simpa using hz, ?_⟩
        split at h
        · cases h
        · rename_i found hfound
          split at h
          · obtain ⟨data, -, h⟩ := except_bind_ok.mp h
            rw [hfound, (Prod.mk.inj (Option.some.inj (Except.ok.inj h))).1]
          · cases h

lemma entry?_crash {text : String} :
    l.entry? f wanted = .error (.crash text) ↔ l.payloadOffset f = .error (.crash text) := by
  refine except_bind_error.trans (or_iff_left ?_)
  rintro ⟨offset, -, h⟩
  split at h
  · cases h
  · split at h
    · cases h
    · split at h
      · cases h
      · split at h
        · rcases except_bind_error.mp h with h | ⟨data, -, h⟩
          · exact except_mapError_fault_ne_crash h
          · cases h
        · cases h

end Listing

variable {a b : Archive} {bytes : Bytes} {listings : List Listing}

lemma decodeOnly_ok : decodeOnly wanted bytes = .ok b ↔ ∃ listings,
    Listing.ofImage (.ofBytes bytes) = .ok listings ∧ collect (.ofBytes bytes) wanted listings empty = .ok b :=
  except_bind_ok.trans (exists_congr fun _ => and_congr_left' except_mapError_ok)

lemma collect_crash {text : String} : collect f wanted listings a = .error (.crash text) ↔
    ∃ before l after, listings = before ++ l :: after ∧ (∀ other ∈ before, ∃ r, other.entry? f wanted = .ok r) ∧
      l.payloadOffset f = .error (.crash text) := by
  induction listings generalizing a with
  | nil => simp [collect, Pure.pure, Except.pure]
  | cons l listings ih =>
    refine except_bind_error.trans ⟨?_, ?_⟩
    · rintro (h | ⟨r, hr, h⟩)
      · exact ⟨[], l, listings, rfl, nofun, Listing.entry?_crash.mp h⟩
      · obtain ⟨a', h⟩ : ∃ a', collect f wanted listings a' = .error (.crash text) := by
          cases r with
          | none => exact ⟨_, h⟩
          | some x => exact ⟨_, h⟩
        obtain ⟨before, found, after, rfl, hbefore, hcrash⟩ := ih.mp h
        exact ⟨l :: before, found, after, rfl, List.forall_mem_cons.mpr ⟨⟨r, hr⟩, hbefore⟩, hcrash⟩
    · rintro ⟨before, found, after, he, hbefore, hcrash⟩
      cases before with
      | nil =>
        obtain ⟨rfl, rfl⟩ := List.cons.inj he
        exact .inl (Listing.entry?_crash.mpr hcrash)
      | cons other before =>
        obtain ⟨rfl, rfl⟩ := List.cons.inj he
        obtain ⟨⟨r, hr⟩, hbefore⟩ := List.forall_mem_cons.mp hbefore
        refine .inr ⟨r, hr, ?_⟩
        cases r with
        | none => exact ih.mpr ⟨before, found, after, rfl, hbefore, hcrash⟩
        | some x => exact ih.mpr ⟨before, found, after, rfl, hbefore, hcrash⟩

lemma decodeOnly_crash {text : String} : decodeOnly wanted bytes = .error (.crash text) ↔ ∃ before l after,
    Listing.ofImage (.ofBytes bytes) = .ok (before ++ l :: after) ∧
      (∀ other ∈ before, ∃ r, other.entry? (.ofBytes bytes) wanted = .ok r) ∧
      l.payloadOffset (.ofBytes bytes) = .error (.crash text) := by
  refine except_bind_error.trans ((or_iff_right except_mapError_fault_ne_crash).trans ?_)
  constructor
  · rintro ⟨listings, hl, hcollect⟩
    obtain ⟨before, l, after, rfl, h⟩ := collect_crash.mp hcollect
    exact ⟨before, l, after, except_mapError_ok.mp hl, h⟩
  · rintro ⟨before, l, after, hl, h⟩
    exact ⟨_, except_mapError_ok.mpr hl, collect_crash.mpr ⟨before, l, after, rfl, h⟩⟩

end Archive

end DexUnseal
