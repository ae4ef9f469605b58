import Mathlib.Data.List.DropRight
import Mathlib.Tactic.SplitIfs
import SafetyLint.Path

/-!
# Parents of paths

The parent of a path has its components without the last one, and only the empty path and the root
have no parent (`components_of_parent`, `parent?_eq_none_iff`).  So a path with `n` components has at
most `n` paths above it, and `ancestors` finds them all: it is the path, followed by the ancestors of
its parent (`ancestors_of_parent`, `ancestors_of_no_parent`).  Seen from the components, there is one
path above for each of them but the root, and it is what is left of them (`exists_climbs_iff`,
`Climbs.components_eq`).

A parent is a text that is put together again, and it is cut again when it is read.  What is cut off
in front depends on the first part only (`Front.Fits`), and a parent begins with the same part as its
child.
-/

namespace SafetyLint
namespace Path

/-! ## Parts -/

theorem splitParts_slash (rest : List Char) : splitParts ('/' :: rest) = [] :: splitParts rest := rfl

theorem splitParts_of_ne {c : Char} (hc : c ≠ '/') {rest p : List Char} {parts : List (List Char)}
    (h : splitParts rest = p :: parts) : splitParts (c :: rest) = (c :: p) :: parts := by
  have hcons : splitParts (c :: rest) = consPart c (splitParts rest) := rfl
  rw [hcons, h]
  exact if_neg hc

theorem splitParts_eq_splitOn (cs : List Char) : splitParts cs = cs.splitOn '/' := by
  induction cs with
  | nil => rfl
  | cons c rest ih =>
    rw [List.splitOn_cons_eq_if_modifyHead, ← ih]
    by_cases hc : c = '/'
    · subst hc
      rfl
    · rw [if_neg (fun h => hc (beq_iff_eq.mp h))]
      cases h : splitParts rest with
      | nil => exact absurd (ih.symm.trans h) (List.splitOn_ne_nil '/' rest)
      | cons p parts => exact splitParts_of_ne hc h

theorem splitParts_ne_nil (cs : List Char) : splitParts cs ≠ [] := by
  rw [splitParts_eq_splitOn]
  exact List.splitOn_ne_nil '/' cs

/-- No part has a slash. -/
theorem slash_notMem_of_mem_splitParts {cs part : List Char} (h : part ∈ splitParts cs) :
    '/' ∉ part := by
  induction cs generalizing part with
  | nil =>
    obtain rfl : part = [] := List.mem_singleton.mp h
    exact List.not_mem_nil
  | cons c rest ih =>
    by_cases hc : c = '/'
    · subst hc
      rw [splitParts_slash] at h
      rcases List.mem_cons.mp h with rfl | hrest
      · exact List.not_mem_nil
      · exact ih hrest
    · obtain ⟨p, parts, hparts⟩ := List.exists_cons_of_ne_nil (splitParts_ne_nil rest)
      rw [hparts] at ih
      rw [splitParts_of_ne hc hparts] at h
      rcases List.mem_cons.mp h with rfl | hrest
      · intro hslash
        rcases List.mem_cons.mp hslash with hfirst | hp
        · exact hc hfirst.symm
        · exact ih List.mem_cons_self hp
      · exact ih (List.mem_cons_of_mem p hrest)

/-- Parts that are joined are cut into the same parts again. -/
theorem splitParts_joinParts {parts : List (List Char)} (hslash : ∀ p ∈ parts, '/' ∉ p)
    (hne : parts ≠ []) : splitParts (joinParts parts) = parts := by
  rw [splitParts_eq_splitOn]
  exact List.splitOn_intercalate '/' hslash hne

theorem component?_eq_none_iff {part : List Char} : component? part = none ↔ isIdle part = true := by
  rw [component?]
  split_ifs with hidle hdots
  · exact iff_of_true rfl hidle
  · exact iff_of_false (by rintro ⟨⟩) hidle
  · exact iff_of_false (by rintro ⟨⟩) hidle

theorem component?_ne_root (part : List Char) : component? part ≠ some .root := by
  rw [component?]
  split_ifs <;> rintro ⟨⟩

theorem trimParts_eq_rdropWhile (parts : List (List Char)) :
    trimParts parts = parts.rdropWhile isIdle := rfl

theorem trimParts_prefix_self (parts : List (List Char)) : trimParts parts <+: parts :=
  List.rdropWhile_prefix isIdle parts

/-- Parts that are trimmed away are no components. -/
theorem filterMap_trimParts (parts : List (List Char)) :
    (trimParts parts).filterMap component? = parts.filterMap component? := by
  rw [trimParts_eq_rdropWhile]
  induction parts using List.reverseRecOn with
  | nil => rfl
  | append_singleton parts p ih =>
    rw [List.filterMap_append]
    by_cases hidle : isIdle p = true
    · rw [List.rdropWhile_concat_pos _ _ _ hidle, ih,
        List.filterMap_cons_none (component?_eq_none_iff.mpr hidle), List.filterMap_nil,
        List.append_nil]
    · rw [List.rdropWhile_concat_neg _ _ _ hidle, List.filterMap_append]

/-- The parts that stay when the last component goes. -/
def parentParts (parts : List (List Char)) : List (List Char) :=
  trimParts (trimParts parts).dropLast

theorem parentParts_prefix_self (parts : List (List Char)) : parentParts parts <+: parts :=
  (trimParts_prefix_self _).trans ((List.dropLast_prefix _).trans (trimParts_prefix_self parts))

theorem exists_filterMap_eq {parts : List (List Char)} (hne : trimParts parts ≠ []) :
    ∃ c : Component, c ≠ .root ∧
      parts.filterMap component? = (parentParts parts).filterMap component? ++ [c] := by
  have hlast : component? ((trimParts parts).getLast hne) ≠ none := fun h =>
    List.rdropWhile_last_not isIdle parts hne (component?_eq_none_iff.mp h)
  obtain ⟨c, hc⟩ := Option.ne_none_iff_exists'.mp hlast
  refine ⟨c, ?_, ?_⟩
  · rintro rfl
    exact component?_ne_root _ hc
  · calc parts.filterMap component?
        = (trimParts parts).filterMap component? := (filterMap_trimParts parts).symm
      _ = ((trimParts parts).dropLast ++ [(trimParts parts).getLast hne]).filterMap component? := by
          rw [List.dropLast_append_getLast hne]
      _ = (trimParts parts).dropLast.filterMap component? ++ [c] := by
          rw [List.filterMap_append, List.filterMap_cons_some hc, List.filterMap_nil]
      _ = (parentParts parts).filterMap component? ++ [c] := by
          rw [parentParts, filterMap_trimParts]

/-! ## Fronts -/

/-- What may follow the front of a path, given by its first part. -/
def Front.Fits (front : Front) (parts : List (List Char)) : Prop :=
  match front with
  | .root => True
  | .current => parts.head? = some []
  | .none => parts = [[]] ∨ ∃ part, parts.head? = some part ∧ isIdle part = false

/-- The first part is empty if nothing comes before the first slash. -/
theorem head?_splitParts_eq_nil_iff {cs : List Char} :
    (splitParts cs).head? = some [] ↔ (cs.isEmpty || cs.head? = some '/') = true := by
  cases cs with
  | nil => exact iff_of_true rfl rfl
  | cons c rest =>
    by_cases hc : c = '/'
    · subst hc
      exact iff_of_true rfl rfl
    · obtain ⟨p, parts, hparts⟩ := List.exists_cons_of_ne_nil (splitParts_ne_nil rest)
      rw [splitParts_of_ne hc hparts]
      exact iff_of_false (by rintro ⟨⟩) (by simpa using hc)

theorem eq_nil_of_splitParts_eq {cs : List Char} (h : splitParts cs = [[]]) : cs = [] := by
  have hjoin : ['/'].intercalate (cs.splitOn '/') = cs := List.intercalate_splitOn '/'
  rw [← splitParts_eq_splitOn, h] at hjoin
  exact hjoin.symm

theorem isIdle_cons_iff {c : Char} {p : List Char} :
    isIdle (c :: p) = true ↔ c = '.' ∧ p = [] := by
  simp [isIdle]

/-- A path that is not absolute begins with a dot if its first part is no component. -/
theorem splitFront_of_ne {c : Char} (hc : c ≠ '/') {rest p : List Char}
    {parts : List (List Char)} (h : splitParts rest = p :: parts) :
    splitFront (c :: rest) =
      if isIdle (c :: p) = true then (.current, rest) else (.none, c :: rest) := by
  have hfirst : p = [] ↔ (rest.isEmpty || rest.head? = some '/') = true := by
    rw [← head?_splitParts_eq_nil_iff, h, List.head?_cons, Option.some.injEq]
  have hidle : isIdle (c :: p) = true ↔
      (c = '.' && (rest.isEmpty || rest.head? = some '/')) = true := by
    rw [Bool.and_eq_true, decide_eq_true_eq, ← hfirst]
    exact isIdle_cons_iff
  rw [splitFront, if_neg hc]
  exact (if_congr hidle rfl rfl).symm

/-- A front is cut off again in front of what fits. -/
theorem splitFront_append {front : Front} {body : List Char} (h : front.Fits (splitParts body)) :
    splitFront (front.text ++ body) = (front, body) := by
  cases front with
  | root => rfl
  | current =>
    have hdot : splitFront ('.' :: body) =
      if (body.isEmpty || body.head? = some '/') = true then (.current, body)
      else (.none, '.' :: body) := rfl
    exact hdot.trans (if_pos (head?_splitParts_eq_nil_iff.mp h))
  | none =>
    rcases h with hnil | ⟨part, hpart, hidle⟩
    · rw [eq_nil_of_splitParts_eq hnil]
      rfl
    · cases body with
      | nil =>
        obtain rfl : [] = part := Option.some.inj hpart
        cases hidle
      | cons c rest =>
        by_cases hc : c = '/'
        · subst hc
          obtain rfl : [] = part := Option.some.inj hpart
          cases hidle
        · obtain ⟨p, parts, hparts⟩ := List.exists_cons_of_ne_nil (splitParts_ne_nil rest)
          rw [splitParts_of_ne hc hparts] at hpart
          obtain rfl : c :: p = part := Option.some.inj hpart
          exact (splitFront_of_ne hc hparts).trans (if_neg (Bool.eq_false_iff.mp hidle))

/-- Every text is a front and what fits behind it. -/
theorem exists_text_append_eq (cs : List Char) :
    ∃ (front : Front) (body : List Char),
      front.Fits (splitParts body) ∧ front.text ++ body = cs := by
  cases cs with
  | nil => exact ⟨.none, [], Or.inl rfl, rfl⟩
  | cons c rest =>
    by_cases hc : c = '/'
    · subst hc
      exact ⟨.root, rest, trivial, rfl⟩
    · obtain ⟨p, parts, hparts⟩ := List.exists_cons_of_ne_nil (splitParts_ne_nil rest)
      by_cases hidle : isIdle (c :: p) = true
      · obtain ⟨rfl, rfl⟩ := isIdle_cons_iff.mp hidle
        exact ⟨.current, rest, congrArg List.head? hparts, rfl⟩
      · have hfirst : (splitParts (c :: rest)).head? = some (c :: p) := by
          rw [splitParts_of_ne hc hparts]
          rfl
        exact ⟨.none, c :: rest, Or.inr ⟨c :: p, hfirst, Bool.eq_false_iff.mpr hidle⟩, rfl⟩

/-- What fits still fits when parts at the end are missing. -/
theorem Front.Fits.of_prefix {front : Front} {parts left : List (List Char)}
    (h : front.Fits parts) (hslash : ∀ p ∈ parts, '/' ∉ p) (hleft : left <+: parts) :
    front.Fits (splitParts (joinParts left)) := by
  cases left with
  | nil =>
    cases front with
    | root => exact trivial
    | current => rfl
    | none => exact Or.inl rfl
  | cons first rest =>
    rw [splitParts_joinParts (fun p hp => hslash p (hleft.subset hp)) (List.cons_ne_nil first rest)]
    obtain ⟨gone, rfl⟩ := hleft
    cases front with
    | root => exact trivial
    | current => exact h
    | none =>
      rcases h with hnil | hfirst
      · obtain ⟨rfl, hrest⟩ := List.cons.inj hnil
        rw [(List.append_eq_nil_iff.mp hrest).1]
        exact Or.inl rfl
      · exact Or.inr hfirst

/-! ## Parents -/

theorem filterMap_splitParts_joinParts {parts : List (List Char)}
    (hslash : ∀ p ∈ parts, '/' ∉ p) :
    (splitParts (joinParts parts)).filterMap component? = parts.filterMap component? := by
  cases parts with
  | nil => rfl
  | cons p rest => rw [splitParts_joinParts hslash (List.cons_ne_nil p rest)]

section

variable {front : Front} {body : List Char} (h : front.Fits (splitParts body))
include h

theorem components_ofList :
    components (String.ofList (front.text ++ body)) =
      front.components ++ (splitParts body).filterMap component? := by
  rw [components, String.toList_ofList, splitFront_append h]

theorem parent?_ofList :
    parent? (String.ofList (front.text ++ body)) =
      if trimParts (splitParts body) = [] then if front = .current then some "" else none
      else some (String.ofList (front.text ++ joinParts (parentParts (splitParts body)))) := by
  rw [parent?, String.toList_ofList, splitFront_append h]
  simp only [List.isEmpty_iff]
  rfl

theorem components_parentParts :
    components (String.ofList (front.text ++ joinParts (parentParts (splitParts body)))) =
      front.components ++ (parentParts (splitParts body)).filterMap component? := by
  have hslash : ∀ p ∈ splitParts body, '/' ∉ p := fun p hp => slash_notMem_of_mem_splitParts hp
  have hleft := parentParts_prefix_self (splitParts body)
  rw [components_ofList (h.of_prefix hslash hleft),
    filterMap_splitParts_joinParts fun p hp => hslash p (hleft.subset hp)]

end

/-- The parent of a path has its components without the last one, which is no root. -/
theorem components_of_parent {path up : String} (h : parent? path = some up) :
    ∃ c : Component, c ≠ .root ∧ components path = components up ++ [c] := by
  obtain ⟨front, body, hfits, htext⟩ := exists_text_append_eq path.toList
  obtain rfl : String.ofList (front.text ++ body) = path := by rw [htext, String.ofList_toList]
  rw [parent?_ofList hfits] at h
  rw [components_ofList hfits]
  by_cases hnone : trimParts (splitParts body) = []
  · rw [if_pos hnone] at h
    split_ifs at h with hcurrent
    obtain rfl : "" = up := Option.some.inj h
    refine ⟨.current, by rintro ⟨⟩, ?_⟩
    rw [← filterMap_trimParts, hnone, hcurrent]
    rfl
  · rw [if_neg hnone] at h
    obtain ⟨c, hc, hlast⟩ := exists_filterMap_eq hnone
    refine ⟨c, hc, ?_⟩
    rw [← Option.some.inj h, components_parentParts hfits, hlast, List.append_assoc]

/-- Only the empty path and the root have no parent. -/
theorem parent?_eq_none_iff {path : String} :
    parent? path = none ↔ components path = [] ∨ components path = [.root] := by
  constructor
  · obtain ⟨front, body, hfits, htext⟩ := exists_text_append_eq path.toList
    obtain rfl : String.ofList (front.text ++ body) = path := by rw [htext, String.ofList_toList]
    intro h
    rw [parent?_ofList hfits] at h
    split_ifs at h with hnone hcurrent
    rw [components_ofList hfits, ← filterMap_trimParts, hnone]
    cases front with
    | root => exact Or.inr rfl
    | none => exact Or.inl rfl
    | current => exact absurd rfl hcurrent
  · intro h
    cases hparent : parent? path with
    | none => rfl
    | some up =>
      obtain ⟨c, hc, hcomponents⟩ := components_of_parent hparent
      rcases h with hempty | hroot
      · rw [hempty] at hcomponents
        exact absurd hcomponents.symm (List.append_ne_nil_of_right_ne_nil _ (List.cons_ne_nil c []))
      · rw [hroot] at hcomponents
        have hlast : some Component.root = some c :=
          (congrArg List.getLast? hcomponents).trans List.getLast?_concat
        exact absurd (Option.some.inj hlast).symm hc

/-! ## Ancestors -/

theorem ancestorsUpTo_of_no_parent {path : String} (h : parent? path = none) (n : Nat) :
    ancestorsUpTo n path = [path] := by
  cases n with
  | zero => rfl
  | succ n => rw [ancestorsUpTo, h]

theorem ancestors_of_no_parent {path : String} (h : parent? path = none) :
    ancestors path = [path] :=
  ancestorsUpTo_of_no_parent h _

theorem ancestors_of_parent {path up : String} (h : parent? path = some up) :
    ancestors path = path :: ancestors up := by
  obtain ⟨c, -, hcomponents⟩ := components_of_parent h
  rw [ancestors, hcomponents, List.length_append, List.length_singleton, ancestorsUpTo, h]
  rfl

/-- The path `n` steps above a path. -/
inductive Climbs : String → Nat → String → Prop where
  | here (path : String) : Climbs path 0 path
  | up {path up top : String} {n : Nat} (h : parent? path = some up) (rest : Climbs up n top) :
    Climbs path (n + 1) top

/-- Each step takes off one component. -/
theorem Climbs.components_eq {path top : String} {n : Nat} (h : Climbs path n top) :
    components top = (components path).rdrop n := by
  induction h with
  | here path => rw [List.rdrop_zero]
  | up hparent _ ih =>
    obtain ⟨c, -, hcomponents⟩ := components_of_parent hparent
    rw [ih, hcomponents, List.rdrop_concat_succ]

/-- There is a step for every component but the root. -/
theorem exists_climbs_iff {path : String} {n : Nat} :
    (∃ top, Climbs path n top) ↔ n ≤ ((components path).filter (· ≠ .root)).length := by
  induction n generalizing path with
  | zero => exact iff_of_true ⟨path, .here path⟩ (Nat.zero_le _)
  | succ n ih =>
    cases hparent : parent? path with
    | none =>
      refine iff_of_false ?_ ?_
      · rintro ⟨top, _ | ⟨hup, -⟩⟩
        rw [hparent] at hup
        cases hup
      · rcases parent?_eq_none_iff.mp hparent with hempty | hroot
        · rw [hempty]
          exact Nat.not_succ_le_zero n
        · rw [hroot]
          exact Nat.not_succ_le_zero n
    | some up =>
      obtain ⟨c, hc, hcomponents⟩ := components_of_parent hparent
      have hlength : ((components path).filter (· ≠ .root)).length =
          ((components up).filter (· ≠ .root)).length + 1 := by
        have hlast : [c].filter (· ≠ .root) = [c] := by
          rw [List.filter_singleton, decide_eq_true hc, cond_true]
        rw [hcomponents, List.filter_append, List.length_append, hlast, List.length_singleton]
      rw [hlength, Nat.add_le_add_iff_right, ← ih]
      constructor
      · rintro ⟨top, _ | ⟨hup, hclimbs⟩⟩
        obtain rfl := Option.some.inj (hparent.symm.trans hup)
        exact ⟨top, hclimbs⟩
      · rintro ⟨top, hclimbs⟩
        exact ⟨top, .up hparent hclimbs⟩

/-- The ancestors are the paths above, nearest first. -/
theorem getElem?_ancestors_eq_some_iff {path top : String} {n : Nat} :
    (ancestors path)[n]? = some top ↔ Climbs path n top := by
  induction n generalizing path with
  | zero =>
    have hfirst : (ancestors path)[0]? = some path := by
      cases h : parent? path with
      | none => rw [ancestors_of_no_parent h]; rfl
      | some up => rw [ancestors_of_parent h]; rfl
    rw [hfirst, Option.some.injEq]
    constructor
    · rintro rfl
      exact .here path
    · rintro ⟨⟩
      rfl
  | succ n ih =>
    cases h : parent? path with
    | none =>
      rw [ancestors_of_no_parent h]
      refine iff_of_false (by rintro ⟨⟩) ?_
      rintro (_ | ⟨hup, -⟩)
      rw [h] at hup
      cases hup
    | some up =>
      rw [ancestors_of_parent h, List.getElem?_cons_succ, ih]
      refine ⟨fun hclimb => .up h hclimb, ?_⟩
      rintro (_ | ⟨hup, hclimb⟩)
      rw [h] at hup
      obtain rfl := Option.some.inj hup
      exact hclimb

end Path
end SafetyLint
