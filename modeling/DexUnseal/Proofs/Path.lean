import DexUnseal.Path
import Mathlib.Data.List.Basic
import Mathlib.Tactic.Lemma

/-! Paths by the pieces between their slashes. -/

namespace DexUnseal

namespace Path

variable {c : Char} {cs piece : List Char}

lemma pieces_eq_splitOn (cs : List Char) : pieces cs = cs.splitOn '/' := by
  induction cs with
  | nil => rfl
  | cons c cs ih =>
    rw [pieces, List.splitOn_cons_eq_if_modifyHead, ih]
    by_cases hc : c = '/'
    · simp [hc]
    · obtain ⟨piece, more, hs⟩ := List.exists_cons_of_ne_nil (List.splitOn_ne_nil '/' cs)
      simp [hc, hs]

lemma pieces_ne_nil (cs : List Char) : pieces cs ≠ [] := pieces_eq_splitOn cs ▸ List.splitOn_ne_nil '/' cs

lemma intercalate_pieces (cs : List Char) : ['/'].intercalate (pieces cs) = cs := by
  rw [pieces_eq_splitOn, List.intercalate_splitOn]

lemma pieces_intercalate {all : List (List Char)} (hn : all ≠ []) (h : ∀ piece ∈ all, '/' ∉ piece) :
    pieces (['/'].intercalate all) = all := by
  rw [pieces_eq_splitOn, List.splitOn_intercalate '/' h hn]

lemma pieces_append (front back : List Char) : pieces (front ++ '/' :: back) = pieces front ++ pieces back := by
  rw [pieces_eq_splitOn, List.splitOn_append_cons_self, ← pieces_eq_splitOn, ← pieces_eq_splitOn]

lemma pieces_joined {all : List (List Char)} (hn : all ≠ []) :
    pieces (['/'].intercalate all) = all.flatMap pieces := by
  induction all with
  | nil => exact absurd rfl hn
  | cons part all ih =>
    cases all with
    | nil => rw [List.intercalate_singleton, List.flatMap_cons, List.flatMap_nil, List.append_nil]
    | cons next all =>
      rw [List.intercalate_cons_cons, List.append_assoc, List.singleton_append, pieces_append,
        ih (List.cons_ne_nil next all), List.flatMap_cons,
        List.flatMap_cons, List.flatMap_cons]

lemma mem_of_mem_pieces (h : piece ∈ pieces cs) (hc : c ∈ piece) : c ∈ cs ∧ c ≠ '/' := by
  induction cs generalizing piece with
  | nil =>
    obtain rfl := List.mem_singleton.mp h
    cases hc
  | cons d cs ih =>
    rw [pieces] at h
    split at h
    · rcases List.mem_cons.mp h with rfl | h
      · cases hc
      · exact ⟨List.mem_cons_of_mem d (ih h hc).1, (ih h hc).2⟩
    · rename_i hd
      obtain ⟨first, more, hs⟩ := List.exists_cons_of_ne_nil (pieces_ne_nil cs)
      simp only [hs] at h ih
      rcases List.mem_cons.mp h with rfl | h
      · rcases List.mem_cons.mp hc with rfl | hc
        · exact ⟨List.mem_cons_self, hd⟩
        · obtain ⟨hm, hne⟩ := ih List.mem_cons_self hc
          exact ⟨List.mem_cons_of_mem d hm, hne⟩
      · obtain ⟨hm, hne⟩ := ih (List.mem_cons_of_mem first h) hc
        exact ⟨List.mem_cons_of_mem d hm, hne⟩

lemma nil_mem_pieces (h : cs.getLast? = some '/') : [] ∈ pieces cs := by
  obtain ⟨front, rfl⟩ := List.getLast?_eq_some_iff.mp h
  rw [pieces_eq_splitOn, List.splitOn_append_cons_self, List.splitOn_nil]
  exact List.mem_append_right _ List.mem_cons_self

def IsName (piece : List Char) : Prop := piece ≠ [] ∧ piece ≠ ['.'] ∧ piece ≠ ['.', '.']

instance (piece : List Char) : Decidable (IsName piece) :=
  inferInstanceAs (Decidable (piece ≠ [] ∧ piece ≠ ['.'] ∧ piece ≠ ['.', '.']))

lemma component?_name (h : IsName piece) : component? piece = some (.name (String.ofList piece)) := by
  obtain ⟨hn, hd, hp⟩ := h
  rw [component?.eq_def]
  split
  · exact absurd rfl hn
  · exact absurd rfl hd
  · exact absurd rfl hp
  · rfl

lemma isName_of_component? {text : String} (h : component? piece = some (.name text)) :
    IsName piece ∧ text = String.ofList piece := by
  rw [component?.eq_def] at h
  split at h
  · cases h
  · cases h
  · cases h
  · rename_i hn hd hp
    exact ⟨⟨hn, hd, hp⟩, (Component.name.inj (Option.some.inj h)).symm⟩

lemma components_of_pieces {p : Path} {first : List Char} {more : List (List Char)}
    (h : pieces p.text.toList = first :: more) : p.components =
      if first = [] then if more = [] then [] else .root :: more.filterMap component?
      else if first = ['.'] then .current :: more.filterMap component?
      else (first :: more).filterMap component? := by
  rw [components, h]
  by_cases hr : first = []
  · subst hr
    cases more <;> rfl
  · by_cases hd : first = ['.']
    · subst hd
      rfl
    · rw [if_neg hr, if_neg hd]
      split
      · rename_i he
        exact absurd (List.cons.inj he).1 hr
      · rename_i he
        exact absurd (List.cons.inj he).1 hr
      · rename_i he
        exact absurd (List.cons.inj he).1 hd
      · rfl

lemma components_of_isName {p : Path} (h : ∀ piece ∈ pieces p.text.toList, IsName piece) :
    p.components = (pieces p.text.toList).map fun piece => .name (String.ofList piece) := by
  obtain ⟨first, more, hs⟩ := List.exists_cons_of_ne_nil (pieces_ne_nil p.text.toList)
  rw [hs] at h
  have hfirst := h first List.mem_cons_self
  rw [components_of_pieces hs, hs, if_neg hfirst.1, if_neg hfirst.2.1]
  exact List.filterMap_eq_map_iff_forall_eq_some.mpr fun piece hp => component?_name (h piece hp)

lemma mem_components_name {p : Path} {text : String} (h : .name text ∈ p.components) :
    ∃ piece ∈ pieces p.text.toList, IsName piece ∧ text = String.ofList piece := by
  have hfilter {all : List (List Char)} (h : .name text ∈ all.filterMap component?) :
      ∃ piece ∈ all, IsName piece ∧ text = String.ofList piece := by
    obtain ⟨piece, hp, hc⟩ := List.mem_filterMap.mp h
    exact ⟨piece, hp, isName_of_component? hc⟩
  rw [components] at h
  split at h
  · cases h
  · rename_i he
    obtain ⟨piece, hp, hn⟩ := hfilter (List.mem_of_ne_of_mem Component.noConfusion h)
    exact ⟨piece, he ▸ List.mem_cons_of_mem _ hp, hn⟩
  · rename_i he
    obtain ⟨piece, hp, hn⟩ := hfilter (List.mem_of_ne_of_mem Component.noConfusion h)
    exact ⟨piece, he ▸ List.mem_cons_of_mem _ hp, hn⟩
  · exact hfilter h

def Component.name? : Component → Option String
  | name text => some text
  | _ => none

def names (p : Path) : List String := p.components.filterMap Component.name?

lemma mem_names {p : Path} {text : String} : text ∈ p.names ↔ .name text ∈ p.components := by
  rw [names, List.mem_filterMap]
  constructor
  · rintro ⟨component, hm, hc⟩
    cases component <;> cases hc
    exact hm
  · exact fun h => ⟨_, h, rfl⟩

lemma names_of_isName {p : Path} (h : ∀ piece ∈ pieces p.text.toList, IsName piece) :
    p.names = (pieces p.text.toList).map String.ofList := by
  rw [names, components_of_isName h, List.filterMap_map]
  exact congrFun List.filterMap_eq_map' _

lemma components_of_isAbsolute {p : Path} (h : p.isAbsolute = true) : ∃ rest, p.components = .root :: rest := by
  obtain ⟨rest, hp⟩ : ∃ rest, p.text.toList = '/' :: rest := List.head?_eq_some_iff.mp (of_decide_eq_true h)
  obtain ⟨first, more, hs⟩ := List.exists_cons_of_ne_nil (pieces_ne_nil rest)
  exact ⟨(first :: more).filterMap component?, by rw [components, hp, pieces, if_pos rfl, hs]⟩

lemma isAbsolute_of_isName {p : Path} (h : ∀ piece ∈ pieces p.text.toList, IsName piece) : p.isAbsolute = false := by
  by_contra ha
  obtain ⟨rest, hr⟩ := components_of_isAbsolute (Bool.not_eq_false _ |>.mp ha)
  have hroot : .root ∈ p.components := hr ▸ List.mem_cons_self
  simp [components_of_isName h] at hroot

lemma root_notMem_components {p : Path} (h : p.isAbsolute = false) : .root ∉ p.components := by
  have hfilter (all : List (List Char)) : .root ∉ all.filterMap component? := by
    rw [List.mem_filterMap]
    rintro ⟨piece, -, hp⟩
    rw [component?.eq_def] at hp
    split at hp <;> cases hp
  rw [components]
  split
  · exact List.not_mem_nil
  · rename_i rest hne hp
    cases hc : p.text.toList with
    | nil =>
      rw [hc] at hp
      exact absurd (List.cons.inj hp).2.symm hne
    | cons c cs =>
      have hslash : c ≠ '/' := fun he => by simp [isAbsolute, hc, he] at h
      obtain ⟨first, more, hs⟩ := List.exists_cons_of_ne_nil (pieces_ne_nil cs)
      simp [hc, pieces, hslash, hs] at hp
  · exact List.not_mem_cons_of_ne_of_not_mem Component.noConfusion (hfilter _)
  · exact hfilter _

lemma same_iff {p q : Path} : p.same q = true ↔ p.components = q.components := decide_eq_true_iff

@[simp] lemma same_refl (p : Path) : p.same p = true := same_iff.mpr rfl

lemma same_comm (p q : Path) : p.same q = q.same p := by
  rw [Bool.eq_iff_iff, same_iff, same_iff, eq_comm]

lemma same_congr {p q : Path} (h : p.same q = true) (r : Path) : p.same r = q.same r := by
  rw [same, same, same_iff.mp h]

lemma pieces_of_notMem (h : '/' ∉ cs) : pieces cs = [cs] := by
  rw [pieces_eq_splitOn, List.splitOn_eq_singleton h]

lemma exists_pieces_append (cs : List Char) : ∃ front last, pieces cs = front ++ [last] ∧
    ∀ tail, '/' ∉ tail → pieces (cs ++ tail) = front ++ [last ++ tail] := by
  induction cs with
  | nil => exact ⟨[], [], rfl, fun tail h => pieces_of_notMem h⟩
  | cons c cs ih =>
    obtain ⟨front, last, hp, ha⟩ := ih
    by_cases hc : c = '/'
    · refine ⟨[] :: front, last, by rw [pieces, if_pos hc, hp, List.cons_append], fun tail h => ?_⟩
      rw [List.cons_append, pieces, if_pos hc, ha tail h, List.cons_append]
    · cases front with
      | nil =>
        refine ⟨[], c :: last, by simp [pieces, hc, hp], fun tail h => ?_⟩
        simp [pieces, hc, ha tail h]
      | cons first front =>
        refine ⟨(c :: first) :: front, last, by simp [pieces, hc, hp], fun tail h => ?_⟩
        simp [pieces, hc, ha tail h]

lemma eq_of_components {p q : Path} {front : List (List Char)} {a b : List Char}
    (hp : pieces p.text.toList = front ++ [a]) (hq : pieces q.text.toList = front ++ [b]) (hb : IsName b)
    (h : p.components = q.components) : a = b := by
  have hlast (before : List Component)
      (he : before ++ [a].filterMap component? = before ++ [b].filterMap component?) : a = b := by
    have hc : component? a = some (.name (String.ofList b)) := by
      rw [List.append_cancel_left_eq, List.filterMap_cons, List.filterMap_cons, component?_name hb] at he
      cases ha : component? a with
      | none => simp [ha] at he
      | some found => simpa [ha] using he
    exact (String.ofList_inj.mp (isName_of_component? hc).2).symm
  rw [components, components, hp, hq] at h
  cases front with
  | nil =>
    by_cases hn : a = []
    · subst hn
      simp [hb.1, hb.2.1, component?_name hb] at h
    · by_cases hd : a = ['.']
      · subst hd
        simp [hb.1, hb.2.1, component?_name hb] at h
      · exact hlast [] (by simpa [hn, hd, hb.1, hb.2.1] using h)
  | cons first front =>
    rw [List.cons_append, List.cons_append] at h
    by_cases hn : first = []
    · subst hn
      exact hlast (.root :: front.filterMap component?) (by simpa using h)
    · by_cases hd : first = ['.']
      · subst hd
        exact hlast (.current :: front.filterMap component?) (by simpa using h)
      · refine hlast ((first :: front).filterMap component?) ?_
        rw [← List.filterMap_append, ← List.filterMap_append]
        simpa [hn, hd] using h

lemma filterMap_concat_name (all : List (List Char)) (hn : IsName piece) :
    (all ++ [piece]).filterMap component? = all.filterMap component? ++ [.name (String.ofList piece)] := by
  rw [List.filterMap_append, List.filterMap_cons_some (component?_name hn), List.filterMap_nil]

lemma filterMap_concat_nil (all : List (List Char)) :
    (all ++ [[]]).filterMap component? = all.filterMap component? := by
  rw [List.filterMap_append, List.filterMap_cons_none rfl, List.filterMap_nil, List.append_nil]

lemma components_concat {p q : Path} {front : List (List Char)} (hf : front ≠ [])
    (hp : pieces p.text.toList = front ++ [[]]) (hq : pieces q.text.toList = front ++ [piece]) (hn : IsName piece) :
    q.components = p.components ++ [.name (String.ofList piece)] := by
  obtain ⟨first, more, rfl⟩ := List.exists_cons_of_ne_nil hf
  rw [List.cons_append] at hp hq
  have hname : (first :: (more ++ [piece])).filterMap component? =
      (first :: more).filterMap component? ++ [.name (String.ofList piece)] := filterMap_concat_name (first :: more) hn
  have hnil : (first :: (more ++ [[]])).filterMap component? = (first :: more).filterMap component? :=
    filterMap_concat_nil (first :: more)
  rw [components_of_pieces hp, components_of_pieces hq, hname, hnil, filterMap_concat_nil,
    filterMap_concat_name more hn, if_neg (List.concat_ne_nil _ _), if_neg (List.concat_ne_nil _ _)]
  split
  · rfl
  · split <;> rfl

lemma components_slash {p q : Path} (hp : p.text.toList ≠ [])
    (hq : pieces q.text.toList = pieces p.text.toList ++ [[]]) : q.components = p.components := by
  obtain ⟨first, more, hs⟩ := List.exists_cons_of_ne_nil (pieces_ne_nil p.text.toList)
  have hmore : first = [] → more ≠ [] := by
    rintro rfl rfl
    refine hp ?_
    rw [← intercalate_pieces p.text.toList, hs]
    rfl
  rw [hs, List.cons_append] at hq
  rw [components_of_pieces hs, components_of_pieces hq, filterMap_concat_nil, ← List.cons_append,
    filterMap_concat_nil, if_neg (List.concat_ne_nil _ _)]
  split
  · rename_i hr
    rw [if_neg (hmore hr)]
  · rfl

lemma components_join (p : Path) {name : String} (hs : '/' ∉ name.toList) (hn : IsName name.toList) :
    (p.join ⟨name⟩).components = p.components ++ [.name name] := by
  have ha : (Path.mk name).isAbsolute = false := by
    rw [isAbsolute, decide_eq_false_iff_not]
    intro h
    exact hs (List.mem_of_mem_head? h)
  have hslash (front : List Char) : pieces (front ++ '/' :: name.toList) = pieces front ++ [name.toList] := by
    rw [pieces_append, pieces_of_notMem hs]
  rw [join, ha, if_neg Bool.false_ne_true]
  split
  · rename_i hlast
    cases hp : p.text.toList.getLast? with
    | none =>
      have hempty : p.text.toList = [] := List.getLast?_eq_none_iff.mp hp
      have hpieces : pieces (Path.mk (p.text ++ name)).text.toList = [name.toList] := by
        rw [String.toList_append, hempty, List.nil_append, pieces_of_notMem hs]
      rw [components_of_pieces hpieces, components, hempty, if_neg hn.1, if_neg hn.2.1,
        List.filterMap_cons_some (component?_name hn), String.ofList_toList]
      rfl
    | some c =>
      obtain rfl : c = '/' := by simpa [hp] using hlast
      obtain ⟨front, hfront⟩ := List.getLast?_eq_some_iff.mp hp
      have hp : pieces p.text.toList = pieces front ++ [[]] := by
        rw [hfront, pieces_append]
        rfl
      have hq : pieces (Path.mk (p.text ++ name)).text.toList = pieces front ++ [name.toList] := by
        rw [String.toList_append, hfront, List.append_assoc]
        exact hslash front
      rw [components_concat (pieces_ne_nil front) hp hq hn, String.ofList_toList]
  · rename_i hlast
    have hp : p.text.toList ≠ [] := by
      intro hp
      rw [hp] at hlast
      exact hlast rfl
    have hq : pieces (Path.mk (p.text ++ "/")).text.toList = pieces p.text.toList ++ [[]] := by
      rw [String.toList_append]
      exact pieces_append _ []
    have hr : pieces (Path.mk (p.text ++ "/" ++ name)).text.toList = pieces p.text.toList ++ [name.toList] := by
      rw [String.toList_append, String.toList_append, List.append_assoc]
      exact hslash p.text.toList
    rw [components_concat (pieces_ne_nil p.text.toList) hq hr hn, components_slash hp hq, String.ofList_toList]

lemma fileName?_join (p : Path) {name : String} (hs : '/' ∉ name.toList) (hn : IsName name.toList) :
    (p.join ⟨name⟩).fileName? = some name := by
  rw [fileName?, components_join p hs hn, List.getLast?_concat]

lemma fileName?_congr {p q : Path} (h : p.same q = true) : p.fileName? = q.fileName? := by
  rw [fileName?, fileName?, same_iff.mp h]

end Path

end DexUnseal
