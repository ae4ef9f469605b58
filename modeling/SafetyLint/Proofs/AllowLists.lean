import SafetyLint.Text.AllowList
import Mathlib.Data.List.Chain

/-!
# A star is any run, and nothing else is special

The patterns of an allow list are rewritten for a library that knows more wildcards than stars.
`Covers` says what they mean: the name is cut up so that each star gets a run of characters and
every other character of the pattern gets itself.

Of the library only what is documented is known (`PatternLibrary.Documented`): how it escapes, and
which names the well-formed patterns of its language match.  Rewritten patterns are well-formed,
because runs of stars are shortened to one (`wellFormed_starPieces`), and they mean the same
(`means_starPieces`).  `allow_lists_match_stars` puts this together.

The library of the program is as documented (`Glob.documented_library`).
-/

namespace SafetyLint
namespace Text

/-- The pattern covers the text. -/
inductive Covers : List Char → List Char → Prop where
  | nil : Covers [] []
  | star {ps rest : List Char} (run : List Char) (h : Covers ps rest) :
    Covers ('*' :: ps) (run ++ rest)
  | char {p : Char} {ps rest : List Char} (hp : p ≠ '*') (h : Covers ps rest) :
    Covers (p :: ps) (p :: rest)

/-! ## The language of patterns -/

namespace Glob

/-- The piece as it is written. -/
def Piece.text : Piece → List Char
  | char c => [c]
  | any => ['?']
  | run => ['*']
  | oneOf negated first others =>
    '[' :: (if negated then ['!'] else []) ++ first :: others ++ [']']

/-- What is written is the piece: a character outside of brackets is no metacharacter, and a class
begins and ends where it should. -/
def Piece.IsPlain : Piece → Prop
  | char c => c ∉ metacharacters
  | oneOf negated first others => (negated = false → first ≠ '!') ∧ ']' ∉ others
  | _ => True

/-- No two stars in a row. -/
def SingleStars (ps : List Piece) : Prop := ps.IsChain fun p q => ¬ (p = .run ∧ q = .run)

structure WellFormed (ps : List Piece) : Prop where
  plain : ∀ p ∈ ps, p.IsPlain
  singleStars : SingleStars ps

/-- The pieces stand for the name. -/
inductive Means : List Piece → List Char → Prop where
  | nil : Means [] []
  | run {ps : List Piece} {rest : List Char} (run : List Char) (h : Means ps rest) :
    Means (.run :: ps) (run ++ rest)
  | one {p : Piece} {c : Char} {ps : List Piece} {rest : List Char} (hp : p.takes c = true)
    (h : Means ps rest) : Means (p :: ps) (c :: rest)

end Glob

open Glob

/-- What is documented of a library of patterns. -/
structure PatternLibrary.Documented (library : PatternLibrary) : Prop where
  /-- Metacharacters are put in brackets. -/
  escape_eq : ∀ text, library.escape text = text.flatMap escapeChar
  /-- Well-formed patterns can be compiled. -/
  compiles : ∀ ps, WellFormed ps → ∃ p, library.compile (ps.flatMap Piece.text) = .ok p
  /-- They match the names that they stand for. -/
  accepts_iff : ∀ ps p, WellFormed ps → library.compile (ps.flatMap Piece.text) = .ok p →
    ∀ name, library.accepts p name = true ↔ Means ps name

/-! ## Meaning, piece by piece -/

namespace Glob

theorem means_nil_iff {name : List Char} : Means [] name ↔ name = [] := by
  constructor
  · intro h
    cases h
    rfl
  · rintro rfl
    exact .nil

theorem means_run_iff {ps : List Piece} {name : List Char} :
    Means (.run :: ps) name ↔ ∃ run rest, name = run ++ rest ∧ Means ps rest := by
  constructor
  · intro h
    cases h with
    | run run h => exact ⟨run, _, rfl, h⟩
    | one hp h => cases hp
  · rintro ⟨run, rest, rfl, h⟩
    exact .run run h

theorem means_cons_iff {p : Piece} (hp : p ≠ .run) {ps : List Piece} {name : List Char} :
    Means (p :: ps) name ↔ ∃ c rest, name = c :: rest ∧ p.takes c = true ∧ Means ps rest := by
  constructor
  · intro h
    cases h with
    | run => exact absurd rfl hp
    | one htakes h => exact ⟨_, _, rfl, htakes, h⟩
  · rintro ⟨c, rest, rfl, htakes, h⟩
    exact .one htakes h

end Glob

theorem covers_star_iff {ps name : List Char} :
    Covers ('*' :: ps) name ↔ ∃ run rest, name = run ++ rest ∧ Covers ps rest := by
  constructor
  · intro h
    cases h with
    | star run h => exact ⟨run, _, rfl, h⟩
    | char hp h => exact absurd rfl hp
  · rintro ⟨run, rest, rfl, h⟩
    exact .star run h

theorem covers_cons_iff {p : Char} (hp : p ≠ '*') {ps name : List Char} :
    Covers (p :: ps) name ↔ ∃ rest, name = p :: rest ∧ Covers ps rest := by
  constructor
  · intro h
    cases h with
    | star => exact absurd rfl hp
    | char hp h => exact ⟨_, rfl, h⟩
  · rintro ⟨rest, rfl, h⟩
    exact .char hp h

/-- Two stars cover what one covers. -/
theorem covers_star_star {ps name : List Char} :
    Covers ('*' :: '*' :: ps) name ↔ Covers ('*' :: ps) name := by
  constructor
  · intro h
    obtain ⟨run, rest, rfl, hrest⟩ := covers_star_iff.mp h
    obtain ⟨run', rest', rfl, hps⟩ := covers_star_iff.mp hrest
    rw [← List.append_assoc]
    exact .star (run ++ run') hps
  · exact fun h => .star [] h

/-! ## Rewritten patterns -/

/-- The piece for a character that stands for itself. -/
def literal (c : Char) : Piece :=
  if metacharacters.contains c then .oneOf false c [] else .char c

/-- The pieces of a rewritten pattern. -/
def starPieces (afterStar : Bool) : List Char → List Piece
  | [] => []
  | c :: rest =>
    if c = '*' then (if afterStar then [] else [.run]) ++ starPieces true rest
    else literal c :: starPieces false rest

theorem text_literal (c : Char) : (literal c).text = escapeChar c := by
  unfold literal escapeChar
  split <;> rfl

theorem takes_literal (c d : Char) : (literal c).takes d = (d == c) := by
  unfold literal
  split
  · simp [Piece.takes, inClass, eq_comm]
  · rfl

theorem literal_ne_run (c : Char) : literal c ≠ .run := by
  unfold literal
  split <;> exact Piece.noConfusion

theorem isPlain_literal (c : Char) : (literal c).IsPlain := by
  unfold literal
  split
  · next hmeta =>
    refine ⟨fun _ => ?_, List.not_mem_nil⟩
    rintro rfl
    exact absurd hmeta (by decide)
  · next hmeta => exact fun hmem => hmeta (List.contains_iff_mem.mpr hmem)

theorem mem_starPieces {afterStar : Bool} {raw : List Char} {p : Piece}
    (hp : p ∈ starPieces afterStar raw) : p = .run ∨ ∃ c, p = literal c := by
  induction raw generalizing afterStar with
  | nil => cases hp
  | cons c rest ih =>
    rw [starPieces] at hp
    split at hp
    · rcases List.mem_append.mp hp with hp | hp
      · cases afterStar with
        | true => cases hp
        | false => exact .inl (List.mem_singleton.mp hp)
      · exact ih hp
    · rcases List.mem_cons.mp hp with rfl | hp
      · exact .inr ⟨c, rfl⟩
      · exact ih hp

/-- Right after a star there is no further star. -/
theorem singleStars_starPieces (raw : List Char) :
    SingleStars (starPieces false raw) ∧ SingleStars (.run :: starPieces true raw) := by
  induction raw with
  | nil => exact ⟨.nil, .singleton _⟩
  | cons c rest ih =>
    by_cases hc : c = '*'
    · subst hc
      exact ⟨ih.2, ih.2⟩
    · have hliteral : SingleStars (literal c :: starPieces false rest) := by
        rw [SingleStars, List.isChain_cons]
        exact ⟨fun q _ h => literal_ne_run c h.1, ih.1⟩
      rw [starPieces, starPieces, if_neg hc]
      refine ⟨hliteral, ?_⟩
      rw [if_neg hc]
      exact .cons_cons (fun h => literal_ne_run c h.2) hliteral

theorem wellFormed_starPieces (raw : List Char) : WellFormed (starPieces false raw) where
  plain p hp := by
    rcases mem_starPieces hp with rfl | ⟨c, rfl⟩
    · trivial
    · exact isPlain_literal c
  singleStars := (singleStars_starPieces raw).1

theorem means_literal_cons_iff {c : Char} {ps : List Piece} {name : List Char} :
    Means (literal c :: ps) name ↔ ∃ rest, name = c :: rest ∧ Means ps rest := by
  rw [means_cons_iff (literal_ne_run c)]
  constructor
  · rintro ⟨d, rest, rfl, htakes, h⟩
    rw [takes_literal] at htakes
    exact ⟨rest, by rw [eq_of_beq htakes], h⟩
  · rintro ⟨rest, rfl, h⟩
    exact ⟨c, rest, rfl, by rw [takes_literal, beq_self_eq_true], h⟩

/-- Rewriting keeps the meaning.  After a star, where further stars are left out, the star is taken
into account. -/
theorem means_starPieces (raw : List Char) :
    (∀ name, Means (starPieces false raw) name ↔ Covers raw name) ∧
      ∀ name, Means (.run :: starPieces true raw) name ↔ Covers ('*' :: raw) name := by
  induction raw with
  | nil =>
    have hnil : ∀ name, Means [] name ↔ Covers [] name := by
      intro name
      rw [means_nil_iff]
      constructor
      · rintro rfl
        exact .nil
      · intro h
        cases h
        rfl
    refine ⟨hnil, fun name => ?_⟩
    rw [starPieces, means_run_iff, covers_star_iff]
    simp only [hnil]
  | cons c rest ih =>
    by_cases hc : c = '*'
    · subst hc
      refine ⟨ih.2, fun name => ?_⟩
      rw [covers_star_star]
      exact ih.2 name
    · have hliteral : ∀ name, Means (literal c :: starPieces false rest) name ↔
          Covers (c :: rest) name := by
        intro name
        rw [means_literal_cons_iff, covers_cons_iff hc]
        simp only [ih.1]
      rw [starPieces, starPieces, if_neg hc]
      refine ⟨hliteral, fun name => ?_⟩
      rw [if_neg hc, means_run_iff, covers_star_iff]
      simp only [hliteral]

/-! ## The library of the program -/

namespace Glob

theorem read_inside (negated : Bool) (first : Char) {others : List Char} (h : ']' ∉ others)
    (seen tail : List Char) :
    read (.inside negated first seen) (others ++ ']' :: tail) =
      (Piece.oneOf negated first (seen.reverse ++ others) :: ·) <$> read (.outside false) tail := by
  induction others generalizing seen with
  | nil => rw [List.nil_append, read, if_pos rfl, List.append_nil]
  | cons c others ih =>
    have hc : c ≠ ']' := fun hc => h (hc ▸ List.mem_cons_self ..)
    rw [List.cons_append, read, if_neg hc, ih fun hmem => h (List.mem_cons_of_mem _ hmem),
      List.reverse_cons, List.append_assoc]
    rfl

/-- A plain piece is read as it is meant. -/
theorem read_text {p : Piece} (hp : p.IsPlain) (hrun : p ≠ .run) (afterStar : Bool)
    (tail : List Char) :
    read (.outside afterStar) (p.text ++ tail) = (p :: ·) <$> read (.outside false) tail := by
  cases p with
  | char c =>
    have hc : c ≠ '*' ∧ c ≠ '?' ∧ c ≠ '[' := by
      refine ⟨?_, ?_, ?_⟩ <;> rintro rfl <;> exact hp (by decide)
    show read (.outside afterStar) (c :: tail) = _
    rw [read, if_neg hc.1, if_neg hc.2.1, if_neg hc.2.2]
  | any => rfl
  | run => exact absurd rfl hrun
  | oneOf negated first others =>
    have hclass := read_inside negated first hp.2 [] tail
    cases negated with
    | true =>
      show read (.inside true first []) (others ++ [']'] ++ tail) = _
      rw [List.append_assoc]
      exact hclass
    | false =>
      show (if first = '!' then read (.begins true) (others ++ [']'] ++ tail)
        else read (.inside false first []) (others ++ [']'] ++ tail)) = _
      rw [if_neg (hp.1 rfl), List.append_assoc]
      exact hclass

theorem read_flatMap_text {ps : List Piece} (hplain : ∀ p ∈ ps, p.IsPlain)
    (hstars : SingleStars ps) (afterStar : Bool)
    (hfirst : afterStar = true → ps.head? ≠ some .run) :
    read (.outside afterStar) (ps.flatMap Piece.text) = .ok ps := by
  induction ps generalizing afterStar with
  | nil => rfl
  | cons p ps ih =>
    obtain ⟨hnext, hrest⟩ := List.isChain_cons.mp hstars
    have ih := ih (fun q hq => hplain q (List.mem_cons_of_mem _ hq)) hrest
    rw [List.flatMap_cons]
    by_cases hrun : p = .run
    · subst hrun
      obtain rfl : afterStar = false := by
        cases afterStar with
        | true => exact absurd rfl (hfirst rfl)
        | false => rfl
      show (Piece.run :: ·) <$> read (.outside true) (ps.flatMap Piece.text) = _
      rw [ih true fun _ hhead => hnext .run hhead ⟨rfl, rfl⟩]
      rfl
    · rw [read_text (hplain p (List.mem_cons_self ..)) hrun,
        ih false fun h => absurd h Bool.false_ne_true]
      rfl

theorem accepts_iff_means (ps : List Piece) (name : List Char) :
    accepts ps name = true ↔ Means ps name := by
  induction ps generalizing name with
  | nil => rw [accepts_nil, means_nil_iff, List.isEmpty_iff]
  | cons p ps ih =>
    by_cases hrun : p = .run
    · subst hrun
      induction name with
      | nil =>
        rw [accepts_run_nil, ih, means_run_iff]
        constructor
        · exact fun h => ⟨[], [], rfl, h⟩
        · rintro ⟨run, rest, hname, h⟩
          rwa [(List.append_eq_nil_iff.mp hname.symm).2] at h
      | cons c rest ihname =>
        rw [accepts_run_cons, Bool.or_eq_true, ih, ihname, means_run_iff, means_run_iff]
        constructor
        · rintro (h | ⟨run, tail, rfl, h⟩)
          · exact ⟨[], _, rfl, h⟩
          · exact ⟨c :: run, tail, rfl, h⟩
        · rintro ⟨run, tail, hname, h⟩
          cases run with
          | nil =>
            rw [List.nil_append] at hname
            exact .inl (hname ▸ h)
          | cons d run =>
            obtain ⟨-, rfl⟩ := List.cons.inj hname
            exact .inr ⟨run, tail, rfl, h⟩
    · rw [means_cons_iff hrun]
      cases name with
      | nil => simp [accepts_cons_nil hrun]
      | cons c rest => simp [accepts_cons_cons hrun, ih]

theorem read_of_wellFormed {ps : List Piece} (h : WellFormed ps) :
    read (.outside false) (ps.flatMap Piece.text) = .ok ps :=
  read_flatMap_text h.plain h.singleStars false fun h => absurd h Bool.false_ne_true

theorem documented_library : library.Documented where
  escape_eq _ := rfl
  compiles ps h := ⟨ps, read_of_wellFormed h⟩
  accepts_iff ps p h hcompile name := by
    obtain rfl : ps = p := Except.ok.inj ((read_of_wellFormed h).symm.trans hcompile)
    exact accepts_iff_means ps name

end Glob

/-! ## Allow lists -/

section

variable {library : PatternLibrary} (hlibrary : library.Documented)
include hlibrary

theorem starOnly_eq (afterStar : Bool) (raw : List Char) :
    starOnly library afterStar raw = (starPieces afterStar raw).flatMap Piece.text := by
  induction raw generalizing afterStar with
  | nil => rfl
  | cons c rest ih =>
    rw [starOnly, starPieces]
    split
    · rw [ih, List.flatMap_append]
      cases afterStar <;> rfl
    · rw [ih, hlibrary.escape_eq, List.flatMap_cons, List.flatMap_nil, List.append_nil,
        List.flatMap_cons, text_literal]

/-- A pattern can be compiled, and then matches the names that it covers. -/
theorem exists_compileStars_eq (raw : List Char) :
    ∃ p, compileStars library raw = .ok p ∧
      ∀ name, library.accepts p name = true ↔ Covers raw name := by
  have hpieces := wellFormed_starPieces raw
  obtain ⟨p, hp⟩ := hlibrary.compiles _ hpieces
  refine ⟨p, (congrArg library.compile (starOnly_eq hlibrary false raw)).trans hp, fun name => ?_⟩
  rw [hlibrary.accepts_iff _ p hpieces hp, (means_starPieces raw).1]

theorem GlobPattern.exists_compile_eq (raw : String) :
    ∃ p : GlobPattern library, compile library raw = .ok p ∧ p.raw = raw ∧
      ∀ name : String, p.accepts name = true ↔ Covers raw.toList name.toList := by
  obtain ⟨compiled, hcompiled, haccepts⟩ := exists_compileStars_eq hlibrary raw.toList
  refine ⟨⟨raw, compiled⟩, ?_, rfl, fun name => haccepts name.toList⟩
  rw [compile, hcompiled]
  rfl

theorem GlobPattern.exists_compileAll_eq (field : String) (raw : List String) :
    ∃ patterns : List (GlobPattern library), compileAll library field raw = .ok patterns ∧
      patterns.map GlobPattern.raw = raw ∧
      ∀ name : String, someAccepts patterns name = true ↔
        ∃ pattern ∈ raw, Covers pattern.toList name.toList := by
  induction raw with
  | nil =>
    refine ⟨[], rfl, rfl, fun name => ⟨fun h => absurd h Bool.false_ne_true, ?_⟩⟩
    rintro ⟨pattern, hpattern, -⟩
    cases hpattern
  | cons raw rest ih =>
    obtain ⟨p, hp, hraw, haccepts⟩ := exists_compile_eq hlibrary raw
    obtain ⟨patterns, hpatterns, hraws, hsome⟩ := ih
    refine ⟨p :: patterns, ?_, by rw [List.map_cons, hraw, hraws], fun name => ?_⟩
    · rw [compileAll, hp, hpatterns]
      rfl
    · have hcons : someAccepts (p :: patterns) name =
          (p.accepts name || someAccepts patterns name) := List.any_cons
      rw [hcons, Bool.or_eq_true, haccepts, hsome, List.exists_mem_cons_iff]

end

/-- Any texts make an allow list for a library that does what is documented. -/
theorem AllowList.compileBy_eq {library : PatternLibrary} (hlibrary : library.Documented)
    (field : String) (raw : List String) : compileBy library field raw = .ok ⟨raw⟩ := by
  obtain ⟨patterns, hpatterns, hraw, -⟩ := GlobPattern.exists_compileAll_eq hlibrary field raw
  rw [compileBy, hpatterns, Except.map, hraw]

/-- The program reads its allow lists without fault. -/
theorem AllowList.compile_eq (field : String) (raw : List String) :
    compile field raw = .ok ⟨raw⟩ :=
  compileBy_eq documented_library field raw

theorem globMatch_iff {pattern name : List Char} :
    globMatch pattern name = true ↔ Covers pattern name := by
  obtain ⟨p, hp, haccepts⟩ := exists_compileStars_eq documented_library pattern
  rw [globMatch, hp]
  exact haccepts name

theorem AllowList.allows_iff {list : AllowList} {name : String} :
    list.allows name = true ↔ ∃ pattern ∈ list.patterns, Covers pattern.toList name.toList := by
  rw [allows, List.any_eq_true]
  simp only [globMatch_iff]

example :
    ["[", "a?c", "abc", "xy", "x_any_y", "x_any_y_"].map
        (⟨["[", "a?c", "x**y"]⟩ : AllowList).allows =
      [true, true, false, true, true, false] := by
  rfl

/-- With any library of patterns that does what is documented, every text can be made a pattern, and
the pattern matches exactly the names that the text covers.  So any texts make an allow list, which
allows the names that one of them covers; and that is so of the allow lists of the program. -/
theorem allow_lists_match_stars (library : PatternLibrary) (hlibrary : library.Documented) :
    (∀ raw : String, ∃ p : GlobPattern library, GlobPattern.compile library raw = .ok p ∧
        ∀ name : String, p.accepts name = true ↔ Covers raw.toList name.toList) ∧
      (∀ (field : String) (raw : List String), ∃ patterns : List (GlobPattern library),
        GlobPattern.compileAll library field raw = .ok patterns ∧
          patterns.map GlobPattern.raw = raw ∧
          ∀ name : String, GlobPattern.someAccepts patterns name = true ↔
            ∃ pattern ∈ raw, Covers pattern.toList name.toList) ∧
      ∀ (field : String) (raw : List String), ∃ list : AllowList,
        AllowList.compile field raw = .ok list ∧
          ∀ name : String, list.allows name = true ↔
            ∃ pattern ∈ raw, Covers pattern.toList name.toList := by
  refine ⟨fun raw => ?_, GlobPattern.exists_compileAll_eq hlibrary, fun field raw => ?_⟩
  · obtain ⟨p, hp, -, haccepts⟩ := GlobPattern.exists_compile_eq hlibrary raw
    exact ⟨p, hp, haccepts⟩
  · exact ⟨⟨raw⟩, AllowList.compile_eq field raw, fun _ => AllowList.allows_iff⟩

/-- A pattern that has a bracket, a question mark and two stars in a row. -/
theorem allow_lists_match_stars_bracket :
    Glob.library.Documented ∧
      (∃ p : GlobPattern Glob.library, GlobPattern.compile Glob.library "a[?**" = .ok p ∧
        ∀ name : String, p.accepts name = true ↔ Covers "a[?**".toList name.toList) ∧
      (∃ patterns : List (GlobPattern Glob.library),
        GlobPattern.compileAll Glob.library "data_scope.allowed_globals" ["a[?**", "id"] =
            .ok patterns ∧
          patterns.map GlobPattern.raw = ["a[?**", "id"] ∧
          ∀ name : String, GlobPattern.someAccepts patterns name = true ↔
            ∃ pattern ∈ ["a[?**", "id"], Covers pattern.toList name.toList) ∧
      ∃ list : AllowList,
        AllowList.compile "data_scope.allowed_globals" ["a[?**", "id"] = .ok list ∧
          ∀ name : String, list.allows name = true ↔
            ∃ pattern ∈ ["a[?**", "id"], Covers pattern.toList name.toList := by
  obtain ⟨hpattern, hpatterns, hlist⟩ := allow_lists_match_stars Glob.library documented_library
  exact ⟨documented_library, hpattern "a[?**", hpatterns _ _, hlist _ _⟩

end Text
end SafetyLint
