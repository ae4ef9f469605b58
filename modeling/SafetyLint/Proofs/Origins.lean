import SafetyLint.Proofs.Confinement
import SafetyLint.Proofs.FirstUses

/-!
# What rules report

A rule makes all its findings in one way: it puts its id, its name and its own severity on a line of
the file that is open.  The lines are those on which the node that it was asked about begins, or a
node below that one; only the last word at the end of a file is on the first line, whether or not a
node begins there.

`ReportsOn` says this of a question, and `Rules.reportsOn_check` and `Rules.reportsOn_finish` say it
of the nine rules.  Whatever is to be known about code, name, severity, file and line of a finding
follows from there.
-/

namespace SafetyLint

open SafetyLint.Tree Config

/-- The node, or one below it, begins on the line. -/
def Tree.Node.HasLine (n : Node) (line : Nat) : Prop := ∃ m ∈ Walk.preorder n, m.line = line

theorem Tree.Node.hasLine_self (n : Node) : n.HasLine n.line :=
  ⟨n, Walk.self_mem_preorder n, rfl⟩

/-- The finding is one of the rule, in the file that is open and on one of the lines. -/
def Finding.IsOn (info : RuleInfo) (lines : Nat → Prop) (c : Context) (f : Finding) : Prop :=
  ∃ line message, lines line ∧ f = c.finding info line message

theorem Finding.isOn_of_mem_map_finding {info : RuleInfo} {lines : Nat → Prop} {c : Context}
    {line : Nat} (hline : lines line) {messages : List String} {f : Finding}
    (h : f ∈ messages.map (c.finding info line)) : f.IsOn info lines c := by
  obtain ⟨message, -, rfl⟩ := List.mem_map.mp h
  exact ⟨line, message, hline, rfl⟩

/-- All findings are of the rule, in the file that is open and on some of the lines. -/
def ReportsOn (info : RuleInfo) (lines : Nat → Prop) (q : Context → Outcome × Context) : Prop :=
  ∀ c findings, (q c).1 = .ok findings → ∀ f ∈ findings, f.IsOn info lines c

namespace ReportsOn

variable {info : RuleInfo} {lines : Nat → Prop}

/-- Questions that write nothing and do not fail. -/
theorem of_findings {findings : Context → List Finding}
    (h : ∀ c, ∀ f ∈ findings c, f.IsOn info lines c) :
    ReportsOn info lines fun c => (.ok (findings c), c) := by
  intro c fs hfs f hf
  cases hfs
  exact h c f hf

theorem plain {findings : Settings → Site → Context → List Finding} {settings : Settings}
    {site : Site} (h : ∀ c, ∀ f ∈ findings settings site c, f.IsOn info lines c) :
    ReportsOn info lines (Rule.plain findings settings site) :=
  of_findings h

theorem silent (settings : Settings) : ReportsOn info lines (Rule.silent settings) :=
  of_findings fun _ _ h => absurd h List.not_mem_nil

theorem slotQuestion {k : SlotKind} {line : Nat} (hline : lines line)
    {step : k.Value → List String × k.Value} :
    ReportsOn info lines (slotQuestion info k line step) := by
  intro c fs hfs f hf
  cases hslot : c.slot k info.id with
  | error e =>
    rw [slotQuestion_of_error hslot] at hfs
    cases hfs
  | ok v =>
    rw [slotQuestion_of_ok hslot] at hfs
    cases hfs
    exact Finding.isOn_of_mem_map_finding hline hf

end ReportsOn

/-! ## The nine rules -/

namespace Rules

theorem LoopBounds.reportsOn_check (settings : Settings) (site : Site) :
    ReportsOn info site.node.HasLine (loopBounds.check settings site) := by
  intro c fs hfs f hf
  obtain ⟨place, node⟩ := site
  cases node with
  | stmt s =>
    have hmap : (message? Expr.type settings.maxLoopIterations s).map
        (fun message => message.toList.map (c.finding info s.span.firstLine)) = .ok fs := hfs
    cases hm : message? Expr.type settings.maxLoopIterations s with
    | error e =>
      rw [hm] at hmap
      cases hmap
    | ok message =>
      rw [hm] at hmap
      cases hmap
      exact Finding.isOn_of_mem_map_finding (Node.hasLine_self (.stmt s)) hf
  | _ =>
    cases hfs
    exact absurd hf List.not_mem_nil

theorem Allocation.reportsOn_check (settings : Settings) (site : Site) :
    ReportsOn info site.node.HasLine (allocation.check settings site) := by
  refine .plain fun c f hf => ?_
  unfold findings at hf
  split at hf
  · split at hf
    · exact absurd hf List.not_mem_nil
    · exact Finding.isOn_of_mem_map_finding (Node.hasLine_self _) hf
  · exact absurd hf List.not_mem_nil

namespace DataScope

/-- The first assignment to a variable stands below the declaration. -/
theorem hasLine_assigned {root : Site} {u : FirstUse} (h : u ∈ firstUses root) :
    root.node.HasLine u.assigned := by
  rw [firstUses_eq] at h
  obtain ⟨⟨name, line⟩, hfirst, hused⟩ := List.mem_filterMap.mp h
  obtain ⟨used, -, rfl⟩ := Option.map_eq_some_iff.mp hused
  obtain ⟨-, before, n, after, hbelow, hassigns, -⟩ := mem_firsts_assignments_iff.mp hfirst
  have hmem : n ∈ Walk.preorder root.node := by
    rw [Walk.preorder_eq, hbelow]
    exact List.mem_cons_of_mem _ (List.mem_append_right before (List.mem_cons_self ..))
  obtain ⟨span, type, _, _, value, rfl, rfl⟩ := hassigns
  exact ⟨_, hmem, rfl⟩

theorem isOn_of_mem_lateFindings {settings : Settings} {site : Site} {c : Context}
    {decl : FunctionDecl} {f : Finding} (hf : f ∈ lateFindings settings site c decl) :
    f.IsOn info site.node.HasLine c := by
  unfold lateFindings at hf
  split at hf
  · exact absurd hf List.not_mem_nil
  · obtain ⟨u, hu, rfl⟩ := List.mem_map.mp hf
    exact ⟨_, _, hasLine_assigned (List.mem_of_mem_filter hu), rfl⟩

theorem reportsOn_check (settings : Settings) (site : Site) :
    ReportsOn info site.node.HasLine (dataScope.check settings site) := by
  refine .plain fun c f hf => ?_
  unfold findings at hf
  split at hf
  · exact Finding.isOn_of_mem_map_finding (Node.hasLine_self _) hf
  · exact isOn_of_mem_lateFindings hf
  · exact isOn_of_mem_lateFindings hf
  · split at hf
    · exact Finding.isOn_of_mem_map_finding (Node.hasLine_self _) hf
    · exact absurd hf List.not_mem_nil
  · exact absurd hf List.not_mem_nil

end DataScope

theorem ReturnValue.reportsOn_check (settings : Settings) (site : Site) :
    ReportsOn info site.node.HasLine (returnValue.check settings site) := by
  refine .plain fun c f hf => ?_
  unfold findings at hf
  split at hf
  · split at hf
    · split at hf
      · rw [List.mem_singleton.mp hf]
        exact ⟨_, _, Node.hasLine_self _, rfl⟩
      · exact absurd hf List.not_mem_nil
    · exact absurd hf List.not_mem_nil
  · exact absurd hf List.not_mem_nil

theorem Dereferences.reportsOn_check (settings : Settings) (site : Site) :
    ReportsOn info site.node.HasLine (dereferences.check settings site) := by
  obtain ⟨place, node⟩ := site
  show ReportsOn info node.HasLine (check settings ⟨place, node⟩)
  cases node with
  | expr e =>
    have hline := Node.hasLine_self (.expr e)
    by_cases hlink : isLink e = true
    · rw [check_of_isLink settings place hlink]
      exact .slotQuestion hline
    · rw [check_of_not_isLink settings place hlink]
      exact .of_findings fun _ _ hf => Finding.isOn_of_mem_map_finding hline hf
  | _ => exact ReportsOn.silent settings

namespace Diagnostics

variable {lines : Nat → Prop}

theorem reportsOn_reportMissing (settings : Settings) {line : Nat} (hline : lines line) :
    ReportsOn info lines (reportMissing settings line) := by
  rw [reportMissing_eq_slotQuestion]
  exact .slotQuestion hline

theorem reportsOn_checkDirectives (settings : Settings) (directives : List Directive) {line : Nat}
    (hline : lines line) : ReportsOn info lines (checkDirectives settings directives line) := by
  cases h : (directives.filter (isRequired settings)).isEmpty with
  | true =>
    rw [checkDirectives_of_isEmpty settings line h]
    exact .silent settings
  | false =>
    rw [checkDirectives_eq_slotQuestion settings line h]
    exact .slotQuestion hline

theorem reportsOn_check (settings : Settings) (site : Site) :
    ReportsOn info site.node.HasLine (diagnostics.check settings site) := by
  obtain ⟨place, node⟩ := site
  have hline := Node.hasLine_self node
  cases node with
  | classDecl d => exact reportsOn_reportMissing settings hline
  | stmt s =>
    obtain ⟨span, kind, comments⟩ := s
    cases kind with
    | declareBlock directives => exact reportsOn_checkDirectives settings directives hline
    | namespaceBlock name body => exact reportsOn_reportMissing settings hline
    | _ => exact ReportsOn.silent settings
  | expr e => exact .of_findings fun _ _ hf => Finding.isOn_of_mem_map_finding hline hf
  | _ => exact ReportsOn.silent settings

end Diagnostics

/-- On a node the rules report lines on which the node begins, or something below it. -/
theorem reportsOn_check (settings : Settings) (site : Site) :
    ∀ id, ReportsOn (ofId id).toRuleInfo site.node.HasLine ((ofId id).check settings site)
  | .noComplexFlow =>
    .plain fun _ _ hf => Finding.isOn_of_mem_map_finding (Node.hasLine_self _) hf
  | .fixedLoopBounds => LoopBounds.reportsOn_check settings site
  | .noHeapAllocation => Allocation.reportsOn_check settings site
  | .functionLength =>
    .plain fun _ _ hf => Finding.isOn_of_mem_map_finding (Node.hasLine_self _) hf
  | .minimumAssertions =>
    .plain fun _ _ hf => Finding.isOn_of_mem_map_finding (Node.hasLine_self _) hf
  | .restrictDataScope => DataScope.reportsOn_check settings site
  | .checkReturnValue => ReturnValue.reportsOn_check settings site
  | .limitDereferences => Dereferences.reportsOn_check settings site
  | .mandatoryDiagnostics => Diagnostics.reportsOn_check settings site

/-- At the end of a file only one rule reports something, on the first line. -/
theorem reportsOn_finish (settings : Settings) (id : RuleId) :
    ReportsOn (ofId id).toRuleInfo (fun line => id = .mandatoryDiagnostics ∧ line = 1)
      ((ofId id).finish settings) := by
  by_cases h : id = .mandatoryDiagnostics
  · subst h
    exact Diagnostics.reportsOn_reportMissing settings ⟨rfl, rfl⟩
  · rw [finish_of_ne settings h]
    exact .silent settings

end Rules

end SafetyLint
