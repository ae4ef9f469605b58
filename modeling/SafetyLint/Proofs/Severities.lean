import SafetyLint.Proofs.Locations

/-!
# Severities grade findings and do nothing else

The settings may ask for another severity of what a rule finds.  They are looked up in one place,
after the rule has answered, so the walk goes its way as it would without them: two runs whose
settings differ in severities only find the same things in the same order
(`content_walkFile_withSeverities`), and sorting by place does not look at severities either.

How serious a finding is can then be read off the rule it carries, and so can whether a report has
errors: this is `Report.GradedBy`.
-/

namespace SafetyLint

open SafetyLint.Tree Config Rules

/-- What a finding says, apart from how serious it is. -/
def Finding.content (x : Finding) : String × String × Location × String × Option String :=
  (x.code, x.rule, x.location, x.message, x.suggestion)

/-- The settings with other severities. -/
def Config.Settings.withSeverities (settings : Settings)
    (severities : List (RuleId × Severity)) : Settings :=
  { settings with severities }

/-- The severities in a report are those that the settings ask for, and errors where they ask for
none. -/
structure Report.GradedBy (report : Report) (settings : Settings) : Prop where
  severity : ∀ x ∈ report.findings, ∀ r, x.rule = (ofId r).name → x.isFailure = false →
    x.severity = (settings.severity? r).getD .error
  hasErrors : report.hasErrors = true ↔ ∃ x ∈ report.findings, x.isFailure = true ∨
    ∃ r, x.rule = (ofId r).name ∧
      (settings.severity? r = none ∨ settings.severity? r = some .error)

/-! ## The same findings -/

theorem Rules.Diagnostics.checkDirectives_withSeverities (settings : Settings)
    (severities : List (RuleId × Severity)) (directives : List Directive) (line : Nat)
    (c : Context) : checkDirectives (settings.withSeverities severities) directives line c =
      checkDirectives settings directives line c := by
  induction directives generalizing c with
  | nil => rfl
  | cons d rest ih =>
    have hd : checkDirective (settings.withSeverities severities) line d c =
        checkDirective settings line d c := rfl
    rw [checkDirectives, checkDirectives, hd]
    simp only [ih]

/-- No check asks for severities. -/
theorem Rules.check_withSeverities (settings : Settings) (severities : List (RuleId × Severity))
    (id : RuleId) : (ofId id).check (settings.withSeverities severities) =
      (ofId id).check settings := by
  cases id with
  | mandatoryDiagnostics =>
    funext site c
    show Diagnostics.check _ site c = Diagnostics.check _ site c
    rw [Diagnostics.check, Diagnostics.check]
    simp only [Diagnostics.checkDirectives_withSeverities]
    rfl
  | _ => rfl

theorem Rules.finish_withSeverities (settings : Settings) (severities : List (RuleId × Severity))
    (id : RuleId) : (ofId id).finish (settings.withSeverities severities) =
      (ofId id).finish settings := by
  cases id <;> rfl

/-- What is found is settled with the same content, whatever the severities. -/
theorem Dispatcher.content_settle (settings : Settings) (severities : List (RuleId × Severity))
    (info : RuleInfo) (line : Nat) (c : Context) (outcome : Outcome) :
    (settle settings info line c outcome).map Finding.content =
      (settle (settings.withSeverities severities) info line c outcome).map Finding.content := by
  have hok : ∀ (s : Settings) (findings : List Finding),
      (settle s info line c (.ok findings)).map Finding.content =
        findings.map Finding.content := by
    intro s findings
    rw [settle_ok_eq_map, List.map_map]
    rfl
  cases outcome with
  | error e => rfl
  | ok findings => rw [hok, hok]

namespace Comparison

open Dispatcher

/-- Findings with the same content, in the same context. -/
def sameContent : Comparison where
  contexts := Eq
  findings fs gs := fs.map Finding.content = gs.map Finding.content
  nil := rfl
  append hfs hgs := by rw [List.map_append, List.map_append, hfs, hgs]

variable (settings : Settings) (severities : List (RuleId × Severity))

theorem sameContent_answer (info : RuleInfo) (line : Nat) (q : Context → Outcome × Context) :
    sameContent.Runs (answer settings line info q)
      (answer (settings.withSeverities severities) line info q) := by
  rintro c _ rfl
  exact ⟨content_settle settings severities info line (q c).2 (q c).1, rfl⟩

/-- The nine rules walk the same way with other severities. -/
theorem walks_sameContent (ids : List RuleId) :
    sameContent.Walks (dispatcher ids settings)
      (dispatcher ids (settings.withSeverities severities)) Eq where
  children := by
    rintro s _ rfl
    exact List.forall₂_same.mpr fun _ _ => rfl
  enter := by
    rintro s _ rfl - - c _ rfl
    rfl
  dispatch := by
    rintro s _ rfl
    refine .ask fun rule hrule => ?_
    obtain ⟨id, -, rfl⟩ := exists_eq_ofId_of_mem_routes hrule
    show sameContent.Runs (answer settings _ _ ((ofId id).check settings s))
      (answer _ _ _ ((ofId id).check (settings.withSeverities severities) s))
    rw [check_withSeverities]
    exact sameContent_answer settings severities _ _ _
  leave := by
    rintro ⟨place, node⟩ _ rfl
    cases node with
    | file f =>
      refine .ask fun rule hrule => ?_
      obtain ⟨id, rfl⟩ := exists_eq_ofId_of_mem_rules hrule
      show sameContent.Runs (answer settings _ _ ((ofId id).finish settings))
        (answer _ _ _ ((ofId id).finish (settings.withSeverities severities)))
      rw [finish_withSeverities]
      exact sameContent_answer settings severities _ _ _
    | _ =>
      rintro c _ rfl
      exact ⟨rfl, rfl⟩

end Comparison

namespace Analyzer

open Dispatcher

variable (ids : List RuleId) (settings : Settings) (severities : List (RuleId × Severity))
  (root : Option String)

theorem content_walkFile_withSeverities (i : Nat) (f : SourceFile) :
    ((analyzer ids settings root).walkFile i f).map Finding.content =
      ((analyzer ids (settings.withSeverities severities) root).walkFile i f).map
        Finding.content :=
  ((Comparison.walks_sameContent settings severities ids).visit rfl 0 rfl).1

/-- Sorting does not look at severities. -/
theorem map_content_sortFindings (fs : List Finding) :
    (sortFindings fs).map Finding.content =
      (fs.map Finding.content).mergeSort fun a b => a.2.2.1.le b.2.2.1 :=
  List.map_mergeSort fun _ _ _ _ => rfl

theorem content_analyze_withSeverities (files : List SourceFile) :
    ((analyzer ids settings root).analyze files).findings.map Finding.content =
      ((analyzer ids (settings.withSeverities severities) root).analyze files).findings.map
        Finding.content := by
  have hfiles : (files.mapIdx (analyzer ids settings root).walkFile).map
        (List.map Finding.content) =
      (files.mapIdx (analyzer ids (settings.withSeverities severities) root).walkFile).map
        (List.map Finding.content) := by
    rw [List.mapIdx_eq_zipIdx_map, List.mapIdx_eq_zipIdx_map, List.map_map, List.map_map]
    exact List.map_congr_left fun p _ =>
      content_walkFile_withSeverities ids settings severities root p.2 p.1
  show (sortFindings _).map _ = (sortFindings _).map _
  rw [map_content_sortFindings, map_content_sortFindings, List.map_flatten, List.map_flatten,
    hfiles]

/-! ## How serious they are -/

variable {ids settings root} {files : List SourceFile}

/-- What a run finds is reported by one of the nine rules. -/
theorem exists_eq_reported {x : Finding}
    (hx : x ∈ ((analyzer ids settings root).analyze files).findings) :
    ∃ id file line message, x = reported settings (ofId id).toRuleInfo file line message := by
  obtain ⟨i, f, -, hxf⟩ := exists_mem_walkFile hx
  rcases mem_walkFile_cases hxf with hnode | ⟨hend, -⟩
  · obtain ⟨id, -, line, message, -, h⟩ := hnode
    exact ⟨id, _, line, message, h⟩
  · obtain ⟨id, -, line, message, -, h⟩ := hend
    exact ⟨id, _, line, message, h⟩

theorem severity_reported (id : RuleId) (file : Option OpenFile) (line : Nat) (message : String) :
    (reported settings (ofId id).toRuleInfo file line message).severity =
      (settings.severity? id).getD .error := by
  cases id <;> rfl

theorem atLeast_error_iff (severity : Option Severity) :
    (severity.getD .error).atLeast .error = true ↔ severity = none ∨ severity = some .error := by
  rcases severity with - | severity
  · decide
  · cases severity <;> decide

theorem gradedBy_analyze : ((analyzer ids settings root).analyze files).GradedBy settings where
  severity := by
    intro x hx r hrule _
    obtain ⟨id, file, line, message, rfl⟩ := exists_eq_reported hx
    have hid : id = r := name_ofId_inj.mp hrule
    rw [severity_reported, hid]
  hasErrors := by
    rw [Report.hasErrors, Report.hasAtLeast, List.any_eq_true]
    constructor
    · rintro ⟨x, hx, herror⟩
      obtain ⟨id, file, line, message, rfl⟩ := exists_eq_reported hx
      rw [severity_reported] at herror
      exact ⟨_, hx, .inr ⟨id, rfl, (atLeast_error_iff _).mp herror⟩⟩
    · rintro ⟨x, hx, hcause⟩
      refine ⟨x, hx, ?_⟩
      obtain ⟨id, file, line, message, rfl⟩ := exists_eq_reported hx
      rcases hcause with hfailure | ⟨r, hrule, hseverity⟩
      · have hcode : (ofId id).id.word = Finding.failureCode := beq_iff_eq.mp hfailure
        exact absurd hcode (ofId id).id.word_ne_failureCode
      · have hid : id = r := name_ofId_inj.mp hrule
        rw [severity_reported, hid]
        exact (atLeast_error_iff _).mpr hseverity

theorem filesChecked_analyze (a : Analyzer) (files : List SourceFile) :
    (a.analyze files).filesChecked = files.length := rfl

/-- The nine rules over some files, with two settings that differ in severities only: the same
findings in the same order but for how serious they are, and in each report the severities that its
settings ask for. -/
theorem severities_only_grade (ids : List RuleId) (settings : Settings)
    (severities : List (RuleId × Severity)) (root : Option String) (files : List SourceFile) :
    let report := (analyzer ids settings root).analyze files
    let report' := (analyzer ids (settings.withSeverities severities) root).analyze files
    report.findings.map Finding.content = report'.findings.map Finding.content ∧
      report.filesChecked = report'.filesChecked ∧
      report.GradedBy settings ∧ report'.GradedBy (settings.withSeverities severities) :=
  ⟨content_analyze_withSeverities ids settings severities root files,
    (filesChecked_analyze _ files).trans (filesChecked_analyze _ files).symm, gradedBy_analyze,
    gradedBy_analyze⟩

/-- A jump is an error, and a warning if the settings say so. -/
theorem severities_only_grade_jumpingFile :
    ((analyzer [.noComplexFlow] .default (some "lib")).analyze [jumpingFile]).hasErrors = true ∧
      ((analyzer [.noComplexFlow] (Settings.default.withSeverities [(.noComplexFlow, .warning)])
        (some "lib")).analyze [jumpingFile]).hasErrors = false := by
  obtain ⟨hcontent, -, hgraded, hgraded'⟩ := severities_only_grade [.noComplexFlow] .default
    [(.noComplexFlow, .warning)] (some "lib") [jumpingFile]
  rw [findings_jumpingFile] at hcontent
  refine ⟨hgraded.hasErrors.mpr ⟨jumpFinding, ?_, .inr ⟨.noComplexFlow, rfl, .inl rfl⟩⟩, ?_⟩
  · rw [findings_jumpingFile]
    exact List.mem_singleton.mpr rfl
  · rw [← Bool.not_eq_true, hgraded'.hasErrors]
    rintro ⟨x, hx, hcause⟩
    have hsame : x.content = jumpFinding.content := by
      have hmem := List.mem_map_of_mem (f := Finding.content) hx
      rw [← hcontent] at hmem
      exact List.mem_singleton.mp hmem
    obtain ⟨hcode, hrule, -⟩ := Prod.mk.inj hsame |>.imp_right Prod.mk.inj
    rcases hcause with hfailure | ⟨r, hname, hseverity⟩
    · rw [Finding.isFailure, hcode] at hfailure
      exact absurd hfailure (by decide)
    · have hr : RuleId.noComplexFlow = r := name_ofId_inj.mp (hrule.symm.trans hname)
      rw [← hr] at hseverity
      exact absurd hseverity (by decide)

end Analyzer

end SafetyLint
