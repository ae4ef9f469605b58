import SafetyLint.Proofs.LocalWalks
import SafetyLint.Proofs.Memory
import SafetyLint.Proofs.NoFailures

/-!
# Findings can be located

Whoever gets a report can go to where each finding is: to a file that was checked, under the path
that the report shows, and there to a line on which a node of the file begins.  There is one
exception.  Required directives that have not come by the end of a file are missed on its first
line, whether or not a node begins there.

The nine rules never fail, so a finding is always the report of a rule about a node or its last word
about a file (`mem_walkFile_cases`).  The statement about whole runs, `findings_are_locatable`, is
read off there.
-/

namespace SafetyLint

open SafetyLint.Tree Config Rules

/-- The finding is what one of the rules reports in the file, on a line that the rule may report. -/
def Finding.IsReported (settings : Settings) (file : Option OpenFile) (ids : List RuleId)
    (lines : RuleId → Nat → Prop) (x : Finding) : Prop :=
  ∃ id ∈ ids, ∃ line message, lines id line ∧
    x = reported settings (ofId id).toRuleInfo file line message

/-! ## One node -/

namespace Comparison

open Dispatcher

/-- Slots fit, the file stays open, and each finding is reported by one of the rules in that
file. -/
def reporting (settings : Settings) (file : Option OpenFile) (ids : List RuleId)
    (lines : RuleId → Nat → Prop) : Comparison :=
  single (fun c => c.Fits ∧ c.file = file) (Finding.IsReported settings file ids lines)

variable {settings : Settings} {file : Option OpenFile} {ids : List RuleId}
  {lines : RuleId → Nat → Prop}

theorem reporting_answer {id : RuleId} (hid : id ∈ ids) {line : Nat}
    {q : Context → Outcome × Context} (hq : Confined (ofId id).toRuleInfo q) (hs : Succeeds q)
    (hreports : ReportsOn (ofId id).toRuleInfo (lines id) q) :
    (reporting settings file ids lines).Runs (answer settings line (ofId id).toRuleInfo q)
      (answer settings line (ofId id).toRuleInfo q) := by
  rintro c _ ⟨hfits, hfile⟩
  obtain ⟨findings, houtcome⟩ := hs.outcome hfits
  have hopen : (q c).2.file = c.file := by rw [hq.keeps c]
  refine ⟨fun x hx => ?_, hs.fits hfits, hopen.trans hfile⟩
  rw [answer, houtcome, settle_ok_eq_map] at hx
  obtain ⟨g, hg, rfl⟩ := List.mem_map.mp hx
  obtain ⟨line, message, hline, rfl⟩ := hreports c findings houtcome g hg
  refine ⟨id, hid, line, message, hline, ?_⟩
  rw [← hfile]
  rfl

/-- On a node the active rules report lines on which the node begins, or something below it. -/
theorem reporting_dispatch (ids : List RuleId) (settings : Settings) (file : Option OpenFile)
    (site : Site) :
    (reporting settings file (ids.filter settings.isActive) fun _ => site.node.HasLine).Runs
      ((Rules.dispatcher ids settings).dispatch site)
      ((Rules.dispatcher ids settings).dispatch site) := by
  refine .ask fun r hr => ?_
  rw [get_routes_dispatcher] at hr
  obtain ⟨id, hid, rfl⟩ := List.mem_map.mp hr
  obtain ⟨hmem, hwants⟩ := List.mem_filter.mp hid
  obtain ⟨hkind, hactive⟩ := Bool.and_eq_true_iff.mp hwants
  exact reporting_answer (List.mem_filter.mpr ⟨hmem, hactive⟩) (confined_check settings site id)
    (succeeds_check settings site id hkind) (reportsOn_check settings site id)

/-- At the end of a file one rule may report something, on the first line. -/
theorem reporting_leave (ids : List RuleId) (settings : Settings) (file : Option OpenFile)
    (i : Nat) (f : SourceFile) :
    (reporting settings file (ids.filter settings.isActive)
        fun id line => id = .mandatoryDiagnostics ∧ line = 1).Runs
      ((Rules.dispatcher ids settings).leave (.ofFile i f))
      ((Rules.dispatcher ids settings).leave (.ofFile i f)) := by
  refine .ask fun r hr => ?_
  obtain ⟨hmem, hactive⟩ := List.mem_filter.mp hr
  obtain ⟨id, hid, rfl⟩ := List.mem_map.mp hmem
  rw [id_ofId] at hactive
  exact reporting_answer (List.mem_filter.mpr ⟨hid, hactive⟩) (confined_finish settings id)
    (succeeds_finish settings id) (reportsOn_finish settings id)

end Comparison

/-! ## One file -/

namespace Dispatcher

/-- What holds of the findings at each stop, as long as slots fit, holds of a round; and the slots
fit at the end. -/
theorem forall_round {d : Dispatcher} {file : Option OpenFile} {P : Stop → Finding → Prop}
    {stops : List Stop}
    (h : ∀ s ∈ stops, ∀ slots, (s.context file slots).Fits →
      (∀ x ∈ (d.dispatch s.site (s.context file slots)).1, P s x) ∧
        (d.dispatch s.site (s.context file slots)).2.Fits)
    {slots : List (RuleId × Slot)} (hslots : ({ Context.empty with slots } : Context).Fits) :
    (∀ a ∈ (d.round file stops slots).1, a.1 ∈ stops ∧ ∀ x ∈ a.2, P a.1 x) ∧
      ({ Context.empty with slots := (d.round file stops slots).2 } : Context).Fits := by
  induction stops generalizing slots with
  | nil => exact ⟨fun a ha => absurd ha List.not_mem_nil, hslots⟩
  | cons s rest ih =>
    obtain ⟨hhere, hnext⟩ := h s (List.mem_cons_self ..) slots (hslots.of_slots_eq rfl)
    obtain ⟨hlater, hlast⟩ := ih (fun t ht => h t (List.mem_cons_of_mem _ ht))
      (hnext.of_slots_eq rfl)
    refine ⟨fun a ha => ?_, hlast⟩
    rw [round_cons] at ha
    rcases List.mem_cons.mp ha with rfl | ha
    · exact ⟨List.mem_cons_self .., hhere⟩
    · exact ⟨List.mem_cons_of_mem _ (hlater a ha).1, (hlater a ha).2⟩

/-- The last event of the walk of a file holds the last word of the rules. -/
theorem left_mem_visit_file {d : Dispatcher} (hd : d.KeepsScopes) (i : Nat) (f : SourceFile)
    (root : Option String) :
    .left 0 (.ofFile i f) (d.leave (.ofFile i f) (d.fileEnd i f root)).1 ∈
      (d.visit 0 (.ofFile i f) (Context.empty.enterFile (.ofFile i f root))).1 := by
  have hvisit : ∀ t ∈ (Stop.ofFile i f).children, ∀ slots,
      Amounts (t.arrival (some (.ofFile i f root)))
        (d.visit 1 t.site (t.arrival (some (.ofFile i f root)) slots))
        (d.round (some (.ofFile i f root)) (Walk.preorder t) slots) :=
    fun t ht slots => amounts_visit hd _ t (Stop.isFile_of_mem_children ht) 1 slots
  have hbelow := (amounts_visitList (fun t ht => Stop.above_of_mem_children ht) hvisit
    (d.dispatch (.ofFile i f) ((Stop.ofFile i f).context (some (.ofFile i f root)) [])).2.slots).2
  have hdispatch := hd (.ofFile i f) ((Stop.ofFile i f).context (some (.ofFile i f root)) [])
  rw [Stop.map_site_children] at hbelow
  have hend : (visitList (d.visit 1) (Site.ofFile i f).children
      (d.dispatch (.ofFile i f) ((Stop.ofFile i f).context (some (.ofFile i f root)) [])).2).2 =
        d.fileEnd i f root := by
    rw [hdispatch, fileEnd, fileRound, Stop.preorder_cons, round_cons]
    exact hbelow
  rw [visit_eq, enter_ofFile, hend]
  exact List.mem_append_right _ (List.mem_singleton.mpr rfl)

end Dispatcher

theorem Rules.file_notMem_kinds (id : RuleId) : NodeKind.file ∉ (ofId id).kinds := by
  cases id <;> decide

theorem Tree.Node.hasLine_of_mem_below {f : SourceFile} {n : Node} (hn : n ∈ Walk.below (.file f))
    {line : Nat} (hline : n.HasLine line) : ∃ m ∈ Walk.below (Node.file f), m.line = line := by
  obtain ⟨m, hm, hmline⟩ := hline
  obtain ⟨child, hchild, hnchild⟩ := List.mem_flatMap.mp hn
  exact ⟨m, List.mem_flatMap.mpr ⟨child, hchild, Walk.mem_preorder_trans hnchild hm⟩, hmline⟩

namespace Analyzer

open Dispatcher Comparison

variable (ids : List RuleId) (settings : Settings) {root : Option String} {i : Nat}
  {f : SourceFile}

/-- At a stop of a file the active rules report lines on which nodes below the file begin, and slots
go on to fit. -/
theorem isReported_of_mem_dispatch {s : Stop} (hs : s ∈ Walk.preorder (Stop.ofFile i f))
    {file : Option OpenFile} {slots : List (RuleId × Slot)} (hfits : (s.context file slots).Fits) :
    (∀ x ∈ ((Rules.dispatcher ids settings).dispatch s.site (s.context file slots)).1,
        x.IsReported settings file (ids.filter settings.isActive)
          fun _ line => ∃ n ∈ Walk.below (Node.file f), n.line = line) ∧
      ((Rules.dispatcher ids settings).dispatch s.site (s.context file slots)).2.Fits := by
  obtain ⟨hfound, hnext, -⟩ := reporting_dispatch ids settings file s.site
    (s.context file slots) (s.context file slots) ⟨hfits, rfl⟩
  refine ⟨fun x hx => ?_, hnext⟩
  have hnode : s.site.node ∈ Walk.preorder (Node.file f) := by
    have hmap := Stop.map_node_preorder (Stop.ofFile i f)
    rw [show (Stop.ofFile i f).site.node = Node.file f from rfl] at hmap
    rw [← hmap]
    exact List.mem_map_of_mem hs
  rw [Walk.preorder_eq] at hnode
  rcases List.mem_cons.mp hnode with hfile | hbelow
  · -- nobody is asked about the whole file
    have hnone : ids.filter (wants settings s.site.node.kind) = [] := by
      rw [hfile, List.filter_eq_nil_iff]
      intro id _ hwants
      have hkind := (Bool.and_eq_true_iff.mp hwants).1
      exact file_notMem_kinds id (List.contains_iff_mem.mp hkind)
    rw [dispatch_dispatcher, hnone] at hx
    exact absurd hx List.not_mem_nil
  · obtain ⟨id, hid, line, message, hline, heq⟩ := hfound x hx
    exact ⟨id, hid, line, message, Node.hasLine_of_mem_below hbelow hline, heq⟩

variable {ids settings}

/-- What is found in a file is reported about one of its nodes, or at its end. -/
theorem mem_walkFile_cases {x : Finding} (hx : x ∈ (analyzer ids settings root).walkFile i f) :
    x.IsReported settings (some (.ofFile i f root)) (ids.filter settings.isActive)
        (fun _ line => ∃ n ∈ Walk.below (Node.file f), n.line = line) ∨
      x.IsReported settings (some (.ofFile i f root)) (ids.filter settings.isActive)
          (fun id line => id = .mandatoryDiagnostics ∧ line = 1) ∧
        x ∈ ((Rules.dispatcher ids settings).leave (.ofFile i f)
          ((Rules.dispatcher ids settings).fileEnd i f root)).1 := by
  have hstops : ∀ s ∈ Walk.preorder (Stop.ofFile i f), ∀ slots,
      (s.context (some (.ofFile i f root)) slots).Fits → _ :=
    fun s hs _ hfits => isReported_of_mem_dispatch ids settings hs hfits
  obtain ⟨hround, hend⟩ := forall_round hstops (Context.fits_of_slots_eq_nil rfl)
  rw [walkFile_eq] at hx
  rcases List.mem_append.mp hx with hnodes | hlast
  · obtain ⟨a, ha, hxa⟩ := List.mem_flatMap.mp hnodes
    exact .inl ((hround a ha).2 x hxa)
  · have hfits : ((Rules.dispatcher ids settings).fileEnd i f root).Fits := hend.of_slots_eq rfl
    obtain ⟨hfound, -⟩ := reporting_leave ids settings (some (.ofFile i f root)) i f
      ((Rules.dispatcher ids settings).fileEnd i f root)
      ((Rules.dispatcher ids settings).fileEnd i f root) ⟨hfits, rfl⟩
    exact .inr ⟨hfound x hlast, hlast⟩

/-- What a run finds was found in one of its files. -/
theorem exists_mem_walkFile {a : Analyzer} {files : List SourceFile} {x : Finding}
    (hx : x ∈ (a.analyze files).findings) :
    ∃ i f, files[i]? = some f ∧ x ∈ a.walkFile i f := by
  obtain ⟨found, hfound, hmem⟩ := List.mem_flatten.mp (List.mem_mergeSort.mp hx)
  obtain ⟨i, hi, rfl⟩ := List.mem_mapIdx.mp hfound
  exact ⟨i, files[i], List.getElem?_eq_getElem hi, hmem⟩

theorem mem_filter_isActive {id : RuleId} (h : id ∈ ids.filter settings.isActive) :
    id ∈ ids ∧ id ∈ settings.enabled ∧ id ∉ settings.excepted := by
  obtain ⟨hid, hactive⟩ := List.mem_filter.mp h
  obtain ⟨henabled, hexcepted⟩ := Bool.and_eq_true_iff.mp hactive
  refine ⟨hid, List.contains_iff_mem.mp henabled, fun hmem => ?_⟩
  rw [List.contains_iff_mem.mpr hmem] at hexcepted
  cases hexcepted

/-- Each finding of a run is in one of the files, under the path that the file has as seen from the
root, and carries id and name of a registered rule that is enabled and not excepted.  It is on a
line on which a node of the file begins; only what the rule about headers finds missing when the
file is left is on the first line. -/
theorem findings_are_locatable (ids : List RuleId) (settings : Settings) (root : Option String)
    (files : List SourceFile) :
    ∀ x ∈ ((analyzer ids settings root).analyze files).findings,
      ∃ i f, files[i]? = some f ∧ x.location.file = (OpenFile.ofFile i f root).shown ∧
        ∃ id ∈ ids, (id ∈ settings.enabled ∧ id ∉ settings.excepted) ∧
          (x.code, x.rule) = ((ofId id).id.word, (ofId id).name) ∧
          ((∃ n ∈ Walk.below (Node.file f), x.location.line = n.line) ∨
            id = .mandatoryDiagnostics ∧ x.location.line = 1 ∧
              ∃ last, x ∈ last ∧ .left 0 (.ofFile i f) last ∈
                ((Rules.dispatcher ids settings).visit 0 (.ofFile i f)
                  (Context.empty.enterFile (.ofFile i f root))).1) := by
  intro x hx
  obtain ⟨i, f, hf, hxf⟩ := exists_mem_walkFile hx
  refine ⟨i, f, hf, ?_⟩
  rcases mem_walkFile_cases hxf with hnode | ⟨hend, hlast⟩
  · obtain ⟨id, hid, line, message, ⟨n, hn, hline⟩, rfl⟩ := hnode
    obtain ⟨hmem, hactive⟩ := mem_filter_isActive hid
    exact ⟨rfl, id, hmem, hactive, rfl, .inl ⟨n, hn, hline.symm⟩⟩
  · obtain ⟨id, hid, line, message, ⟨hrule, hline⟩, rfl⟩ := hend
    obtain ⟨hmem, hactive⟩ := mem_filter_isActive hid
    have hleft := left_mem_visit_file (keepsScopes_dispatcher ids settings) i f root
    exact ⟨rfl, id, hmem, hactive, rfl, .inr ⟨hrule, hline, _, hlast, hleft⟩⟩

/-- A file with a jump on its third line. -/
def jumpingFile : SourceFile := ⟨"lib/a.php", none, [⟨.line 3, .goto "end", []⟩]⟩

/-- What a rule reports about the jump. -/
def jumpFinding : Finding :=
  ⟨"rule_1", "no-complex-flow", .error, ⟨"a.php", 3⟩, "Goto statements are not allowed.", none⟩

theorem stops_jumpingFile :
    Walk.preorder (Stop.ofFile 0 jumpingFile) =
      [.ofFile 0 jumpingFile,
        ⟨⟨⟨0, [0]⟩, .stmt ⟨.line 3, .goto "end", []⟩⟩, [.file jumpingFile]⟩] := by
  rw [Walk.preorder_of_children_eq_singleton (a := Stop.ofFile 0 jumpingFile)
    (c := ⟨⟨⟨0, [0]⟩, .stmt ⟨.line 3, .goto "end", []⟩⟩, [.file jumpingFile]⟩) rfl,
    Walk.preorder_of_children_eq_nil rfl]

theorem findings_jumpingFile :
    ((analyzer [.noComplexFlow] .default (some "lib")).analyze [jumpingFile]).findings =
      [jumpFinding] := by
  have hwalk : (analyzer [.noComplexFlow] .default (some "lib")).walkFile 0 jumpingFile =
      [jumpFinding] := by
    rw [walkFile_eq, fileRound, fileEnd, fileRound, stops_jumpingFile]
    decide
  have hall : [jumpingFile].mapIdx (analyzer [.noComplexFlow] .default (some "lib")).walkFile =
      [[jumpFinding]] := congrArg (fun found => [found]) hwalk
  show sortFindings (List.flatten _) = _
  rw [hall]
  exact List.mergeSort_singleton jumpFinding

/-- The jump is found on its line in the file, as that is called from the root. -/
theorem findings_are_locatable_jumpingFile :
    jumpFinding ∈
        ((analyzer [.noComplexFlow] .default (some "lib")).analyze [jumpingFile]).findings ∧
      ∃ i f, [jumpingFile][i]? = some f ∧
        jumpFinding.location.file = (OpenFile.ofFile i f (some "lib")).shown := by
  have hfound : jumpFinding ∈
      ((analyzer [.noComplexFlow] .default (some "lib")).analyze [jumpingFile]).findings := by
    rw [findings_jumpingFile]
    exact List.mem_singleton.mpr rfl
  obtain ⟨i, f, hf, hshown, -⟩ := findings_are_locatable _ _ _ _ jumpFinding hfound
  exact ⟨hfound, i, f, hf, hshown⟩

end Analyzer

end SafetyLint
