import SafetyLint.Config.Basic
import SafetyLint.Proofs.LocalWalks
import SafetyLint.Proofs.StableOrder

/-!
# Files do not disturb each other

The report on some files is made of what is found in each of them alone, as long as no rule cares
about the numbers of the files (`findings_analyze`).

The findings of local rules in a file are all reported under its path, so they can be picked out of
the report again as long as no other file is reported under that path, and where all paths differ
the order of the files does not matter: in each place of the report there are findings of one file
only (`filter_ties_walkFile`), and a stable sort is fixed by what stands in each place.

Paths are compared by their components here, as they are when findings are sorted.
-/

namespace SafetyLint

open SafetyLint.Tree Config Rules

/-- The components of the path under which the finding is reported. -/
def Finding.path (x : Finding) : List Path.Component := Path.components x.location.file

namespace Analyzer

/-- The components of the path under which the findings of a file are reported. -/
def pathOf (a : Analyzer) (f : SourceFile) : List Path.Component :=
  Path.components (a.shownPath f)

/-- Files with different paths are reported under a path at most once. -/
theorem length_filter_pathOf_le_one (a : Analyzer) {files : List SourceFile}
    (h : (files.map a.pathOf).Nodup) (p : List Path.Component) :
    (files.filter fun f => a.pathOf f = p).length ≤ 1 := by
  have hcount := List.nodup_iff_count_le_one.mp h p
  have hbeq : (fun q => q == p) ∘ a.pathOf = fun f => decide (a.pathOf f = p) :=
    funext fun f => beq_eq_decide (a.pathOf f) p
  rwa [List.count_eq_countP, List.countP_map, List.countP_eq_length_filter, hbeq] at hcount

/-- In another order there is still the same file under each path. -/
theorem filter_pathOf_eq_of_perm (a : Analyzer) {files files' : List SourceFile}
    (h : (files.map a.pathOf).Nodup) (hperm : files'.Perm files) (p : List Path.Component) :
    (files'.filter fun f => a.pathOf f = p) = files.filter fun f => a.pathOf f = p := by
  have hsame := hperm.filter fun f => decide (a.pathOf f = p)
  have hone := length_filter_pathOf_le_one a h p
  generalize files.filter (fun f => decide (a.pathOf f = p)) = there at hsame hone
  match there with
  | [] => exact hsame.eq_nil
  | [f] => exact List.perm_singleton.mp hsame
  | _ :: _ :: _ => exact absurd hone (by simp)

/-- The report is sorted from what is found in each file alone. -/
theorem findings_analyze {a : Analyzer} (ha : a.IsNumberBlind) (files : List SourceFile) :
    (a.analyze files).findings = sortFindings (files.flatMap (a.walkFile 0)) := by
  have hwalks : files.mapIdx a.walkFile = files.map (a.walkFile 0) := by
    rw [List.mapIdx_eq_zipIdx_map]
    conv_rhs => rw [← List.zipIdx_map_fst 0 files, List.map_map]
    exact List.map_congr_left fun p _ => walkFile_eq_walkFile_zero ha p.2 p.1
  show sortFindings (files.mapIdx a.walkFile).flatten = _
  rw [hwalks, ← List.flatMap_def]

variable {a : Analyzer} (ha : a.IsLocal)
include ha

theorem path_of_mem_walkFile {i : Nat} {f : SourceFile} {x : Finding} (hx : x ∈ a.walkFile i f) :
    x.path = a.pathOf f :=
  congrArg Path.components (file_of_mem_walkFile ha hx)

/-- A file with a path of its own: what is reported under the path is the report on the file. -/
theorem filter_path_analyze {before after : List SourceFile} {f : SourceFile}
    (h : ∀ g ∈ before ++ after, a.pathOf g ≠ a.pathOf f) :
    (a.analyze (before ++ f :: after)).findings.filter (fun x => x.path = a.pathOf f) =
      a.analyzeFile f := by
  have hothers : ∀ {files : List SourceFile}, (∀ g ∈ files, a.pathOf g ≠ a.pathOf f) →
      (files.flatMap (a.walkFile 0)).filter (fun x => x.path = a.pathOf f) = [] := by
    intro files hfiles
    rw [List.filter_eq_nil_iff]
    intro x hx
    obtain ⟨g, hg, hxg⟩ := List.mem_flatMap.mp hx
    rw [path_of_mem_walkFile ha hxg, decide_eq_true_eq]
    exact hfiles g hg
  have hown : (a.walkFile 0 f).filter (fun x => x.path = a.pathOf f) = a.walkFile 0 f := by
    rw [List.filter_eq_self]
    intro x hx
    exact decide_eq_true (path_of_mem_walkFile ha hx)
  rw [findings_analyze ha.isNumberBlind, filter_sortFindings, List.flatMap_append,
    List.flatMap_cons, List.filter_append, List.filter_append, hown,
    hothers fun g hg => h g (List.mem_append_left _ hg),
    hothers fun g hg => h g (List.mem_append_right _ hg), List.nil_append, List.append_nil]
  rfl

/-- In a place of the report there is nothing from a file with another path. -/
theorem filter_ties_walkFile {i : Nat} {f : SourceFile} {x : Finding}
    (h : a.pathOf f ≠ x.path) : (a.walkFile i f).filter (ties Finding.le x) = [] := by
  rw [List.filter_eq_nil_iff]
  intro y hy hties
  exact h ((path_of_mem_walkFile ha hy).symm.trans (Finding.components_eq_of_ties hties).symm)

/-- What stands in a place of the report comes from the files with the path of that place. -/
theorem filter_ties_flatMap (files : List SourceFile) (x : Finding) :
    (files.flatMap (a.walkFile 0)).filter (ties Finding.le x) =
      (files.filter fun f => a.pathOf f = x.path).flatMap fun f =>
        (a.walkFile 0 f).filter (ties Finding.le x) := by
  rw [List.filter_flatMap]
  induction files with
  | nil => rfl
  | cons f rest ih =>
    rw [List.flatMap_cons, List.filter_cons]
    by_cases hf : a.pathOf f = x.path
    · rw [if_pos (decide_eq_true hf), List.flatMap_cons, ih]
    · rw [if_neg (by rwa [decide_eq_true_eq]), filter_ties_walkFile ha hf, ih, List.nil_append]

/-- Files with different paths give one report in every order. -/
theorem findings_analyze_of_perm {files files' : List SourceFile}
    (h : (files.map a.pathOf).Nodup) (hperm : files'.Perm files) :
    (a.analyze files').findings = (a.analyze files).findings := by
  rw [findings_analyze ha.isNumberBlind, findings_analyze ha.isNumberBlind]
  refine sortFindings_eq_of_filter_ties_eq fun x => ?_
  rw [filter_ties_flatMap ha, filter_ties_flatMap ha, filter_pathOf_eq_of_perm a h hperm]

omit ha

/-- Files are analyzed apart, by the nine rules in any registration and by all other local rules.

* The report counts the files, whatever the rules are.
* It is the stable sort, by place, of what is found in each file walked alone and from nothing, also
  if files share a path, as long as no rule cares about the numbers of the files.
* If the rules are local, what is reported under a path that only one file has is the report on that
  file; and if all paths differ, the files may come in any order. -/
theorem files_are_analyzed_apart :
    (∀ ids settings root, (analyzer ids settings root).IsLocal) ∧
      (∀ (a : Analyzer) (files : List SourceFile),
        (a.analyze files).filesChecked = files.length) ∧
      (∀ a : Analyzer, a.IsNumberBlind → ∀ files : List SourceFile,
        IsStableSort (fun x y => x.location.le y.location) (files.flatMap (a.walkFile 0))
          (a.analyze files).findings) ∧
      ∀ a : Analyzer, a.IsLocal → a.IsNumberBlind ∧ ∀ files : List SourceFile,
        (∀ before f after, files = before ++ f :: after →
          (∀ g ∈ before ++ after, a.pathOf g ≠ a.pathOf f) →
          (a.analyze files).findings.filter (fun x => x.path = a.pathOf f) = a.analyzeFile f) ∧
        ((files.map a.pathOf).Nodup → ∀ files' : List SourceFile, files'.Perm files →
          (a.analyze files').findings = (a.analyze files).findings) := by
  refine ⟨isLocal_analyzer, fun _ _ => rfl, fun a ha files => ?_,
    fun a ha => ⟨ha.isNumberBlind, fun files => ⟨?_, ?_⟩⟩⟩
  · rw [findings_analyze ha]
    exact isStableSort_sortFindings _
  · rintro before f after rfl h
    exact filter_path_analyze ha h
  · exact fun h files' hperm => findings_analyze_of_perm ha h hperm

/-- Two files under one path, spelled in two ways, around a file with a path of its own; and two
files in both orders. -/
theorem files_are_analyzed_apart_twoSpellings :
    let a := analyzer [.mandatoryDiagnostics, .limitDereferences] .default (some "/src")
    let one : SourceFile := ⟨"/src/lib//a.php", none, []⟩
    let two : SourceFile := ⟨"/src/lib/./a.php", none, [⟨.line 2, .goto "end", []⟩]⟩
    let other : SourceFile := ⟨"b.php", none, [⟨.line 1, .goto "end", []⟩]⟩
    a.IsNumberBlind ∧
      IsStableSort (fun x y => x.location.le y.location)
        ([one, other, two].flatMap (a.walkFile 0)) (a.analyze [one, other, two]).findings ∧
      a.pathOf one = a.pathOf two ∧ (∀ g ∈ [one] ++ [two], a.pathOf g ≠ a.pathOf other) ∧
      (a.analyze [one, other, two]).findings.filter (fun x => x.path = a.pathOf other) =
        a.analyzeFile other ∧
      ([one, other].map a.pathOf).Nodup ∧
      (a.analyze [other, one]).findings = (a.analyze [one, other]).findings := by
  intro a one two other
  obtain ⟨hlocal, -, hsorted, happly⟩ := files_are_analyzed_apart
  obtain ⟨hblind, hfiles⟩ := happly a (hlocal _ _ _)
  have hother : ∀ g ∈ [one] ++ [two], a.pathOf g ≠ a.pathOf other := by decide
  have hnodup : ([one, other].map a.pathOf).Nodup := by decide
  exact ⟨hblind, hsorted a hblind [one, other, two], by decide, hother,
    (hfiles [one, other, two]).1 [one] other [two] rfl hother, hnodup,
    (hfiles [one, other]).2 hnodup [other, one] (.swap one other [])⟩

end Analyzer

end SafetyLint
