import SafetyLint.Proofs.Independence
import SafetyLint.Proofs.Memory
import SafetyLint.Proofs.NameOrder
import SafetyLint.Tree.Build

/-!
# The header of a file

The header of a file is what comes before its first namespace or class in pre-order, which is its
boundary; a file without a boundary is all header.

The rule about diagnostics remembers the required directives that have not come yet, and it starts
to do so late: not before it meets a node that matters.  Whether it has started makes no difference
if one looks at what is still to come (`pending`), with all required directives to come before the
start.  Then a node does one of two things (`step_of_isBoundary`, `step_of_not_isBoundary`): a
boundary has everything that is pending reported and leaves nothing, and any other node takes away
the directives that it declares.  `filter_missing_said` adds this up over a list of nodes: the first
boundary gets what the nodes before it do not declare, and later ones find nothing left.

Whether a directive has a wrong value does not depend on what was remembered, so those findings can
be read off node by node (`filter_wrong_said`).

`header_findings` is the statement about whole files.
-/

namespace SafetyLint

namespace Rules
namespace Diagnostics

open SafetyLint.Tree Config

/-! ## Nodes that matter -/

/-- The node ends the header. -/
def isBoundary : Node → Bool
  | .classDecl _ => true
  | .stmt s =>
    match s.kind with
    | .namespaceBlock _ _ => true
    | _ => false
  | _ => false

/-- The directives of a declare statement. -/
def directivesOf : Node → List Directive
  | .stmt s =>
    match s.kind with
    | .declareBlock directives => directives
    | _ => []
  | _ => []

/-- The node declares the directive. -/
def declares (name : String) (n : Node) : Bool := (directivesOf n).any fun d => d.name = name

/-- What is said about a node that is no boundary. -/
def remarks (settings : Settings) : Node → List String
  | .expr e => (message? settings e.kind).toList
  | n => (directivesOf n).filterMap (wrongValue? settings)

/-! ## The machine -/

/-- What the rule does on a node, given the header so far. -/
def step (settings : Settings) (n : Node) (h : Header) : List String × Header :=
  if isBoundary n then
    ((start settings h).unseen.map missingMessage, { start settings h with unseen := [] })
  else
    (remarks settings n, ((directivesOf n).filter (isRequired settings)).foldl
      (fun h d => see settings d.name h) h)

theorem filterMap_wrongValue?_filter (settings : Settings) (directives : List Directive) :
    (directives.filter (isRequired settings)).filterMap (wrongValue? settings) =
      directives.filterMap (wrongValue? settings) := by
  rw [List.filterMap_filter]
  refine List.filterMap_congr fun d _ => ?_
  rw [isRequired, wrongValue?]
  cases settings.requiredDirectives.lookup d.name <;> rfl

theorem realizes (settings : Settings) :
    Dispatcher.Realizes settings .mandatoryDiagnostics .header
      (fun s => step settings s.site.node) where
  check s c h hh := by
    obtain ⟨⟨place, node⟩, above⟩ := s
    show (check settings ⟨place, node⟩ c).1 = _ ∧ (check settings ⟨place, node⟩ c).2.slot _ _ = _
    cases node with
    | classDecl d =>
      show (reportMissing settings d.span.firstLine c).1 = _ ∧
        (reportMissing settings d.span.firstLine c).2.slot _ _ = _
      rw [reportMissing_eq_slotQuestion, slotQuestion_of_ok hh]
      exact ⟨rfl, Context.slot_putSlot ..⟩
    | stmt st =>
      obtain ⟨span, kind, comments⟩ := st
      cases kind with
      | namespaceBlock name body =>
        show (reportMissing settings span.firstLine c).1 = _ ∧
          (reportMissing settings span.firstLine c).2.slot _ _ = _
        rw [reportMissing_eq_slotQuestion, slotQuestion_of_ok hh]
        exact ⟨rfl, Context.slot_putSlot ..⟩
      | declareBlock directives =>
        show (checkDirectives settings directives span.firstLine c).1 = _ ∧
          (checkDirectives settings directives span.firstLine c).2.slot _ _ = _
        have hstep : step settings (.stmt ⟨span, .declareBlock directives, comments⟩) h =
            ((directives.filter (isRequired settings)).filterMap (wrongValue? settings),
              (directives.filter (isRequired settings)).foldl
                (fun h d => see settings d.name h) h) := by
          rw [filterMap_wrongValue?_filter]
          rfl
        rw [hstep]
        cases hempty : (directives.filter (isRequired settings)).isEmpty with
        | true =>
          rw [checkDirectives_of_isEmpty settings _ hempty, List.isEmpty_iff.mp hempty]
          exact ⟨rfl, hh⟩
        | false =>
          rw [checkDirectives_eq_slotQuestion settings _ hempty, slotQuestion_of_ok hh]
          exact ⟨rfl, Context.slot_putSlot ..⟩
      | _ => exact ⟨rfl, hh⟩
    | expr e => exact ⟨rfl, hh⟩
    | _ => exact ⟨rfl, hh⟩
  idle s h hkind := by
    obtain ⟨⟨place, node⟩, above⟩ := s
    cases node with
    | classDecl d => exact absurd (show true = false from hkind) Bool.false_ne_true.symm
    | stmt st =>
      obtain ⟨span, kind, comments⟩ := st
      cases kind with
      | namespaceBlock | declareBlock =>
        exact absurd (show true = false from hkind) Bool.false_ne_true.symm
      | _ => rfl
    | expr e =>
      obtain ⟨span, kind, type⟩ := e
      cases kind with
      | errorSuppress | call =>
        exact absurd (show true = false from hkind) Bool.false_ne_true.symm
      | _ => rfl
    | _ => rfl

/-! ## What is pending -/

/-- The required directives that are still to come. -/
def pending (settings : Settings) (h : Header) : List String := (start settings h).unseen

theorem pending_of_started {settings : Settings} {h : Header} (hstarted : h.started = true) :
    pending settings h = h.unseen := by
  rw [pending, start, if_pos hstarted]

theorem started_start (settings : Settings) (h : Header) : (start settings h).started = true := by
  unfold start
  split
  · assumption
  · rfl

theorem pending_see (settings : Settings) (name : String) (h : Header) :
    pending settings (see settings name h) = (pending settings h).filter (· ≠ name) :=
  pending_of_started (h := see settings name h) (started_start settings h)

theorem pending_foldl_see (settings : Settings) (directives : List Directive) (h : Header) :
    pending settings (directives.foldl (fun h d => see settings d.name h) h) =
      (pending settings h).filter fun name => !directives.any fun d => d.name = name := by
  induction directives generalizing h with
  | nil =>
    show pending settings h = _
    exact (List.filter_eq_self.mpr fun _ _ => rfl).symm
  | cons d rest ih =>
    rw [List.foldl_cons, ih, pending_see, List.filter_filter]
    refine List.filter_congr fun name _ => ?_
    rw [List.any_cons, Bool.not_or, Bool.and_comm]
    congr 1
    rw [← decide_not]
    exact decide_eq_decide.mpr ne_comm

/-- Everything that is pending is required. -/
def Sound (settings : Settings) (h : Header) : Prop :=
  ∀ name ∈ pending settings h, name ∈ settings.directiveNames

/-- A boundary has everything reported that is pending, and nothing is pending then. -/
theorem step_of_isBoundary (settings : Settings) {n : Node} (hn : isBoundary n = true)
    (h : Header) :
    (step settings n h).1 = (pending settings h).map missingMessage ∧
      pending settings (step settings n h).2 = [] := by
  rw [step, if_pos hn]
  exact ⟨rfl, pending_of_started (h := ⟨(start settings h).started, []⟩) (started_start settings h)⟩

/-- Any other node takes away what it declares. -/
theorem step_of_not_isBoundary {settings : Settings} {n : Node} (hn : isBoundary n = false)
    {h : Header} (hsound : Sound settings h) :
    (step settings n h).1 = remarks settings n ∧
      pending settings (step settings n h).2 =
        (pending settings h).filter fun name => !declares name n := by
  rw [step, hn]
  refine ⟨rfl, ?_⟩
  show pending settings (List.foldl _ h _) = _
  rw [pending_foldl_see]
  refine List.filter_congr fun name hname => ?_
  -- among names that are required, only required directives matter
  have hrequired : ∀ d : Directive, d.name = name → isRequired settings d = true := by
    rintro d rfl
    exact Settings.mem_directiveNames.mp (hsound _ hname)
  rw [declares, List.any_filter]
  congr 2
  funext d
  by_cases hd : d.name = name
  · rw [hrequired d hd, Bool.true_and]
  · rw [decide_eq_false hd, Bool.and_false]

theorem Sound.step {settings : Settings} {h : Header} (hsound : Sound settings h) (n : Node) :
    Sound settings (step settings n h).2 := by
  intro name hname
  cases hn : isBoundary n with
  | true =>
    rw [(step_of_isBoundary settings hn h).2] at hname
    exact absurd hname List.not_mem_nil
  | false =>
    rw [(step_of_not_isBoundary hn hsound).2] at hname
    exact hsound name (List.mem_of_mem_filter hname)

theorem sound_initial (settings : Settings) : Sound settings ⟨false, []⟩ :=
  fun _ h => h

/-! ## Texts -/

/-- How the texts about missing directives begin. -/
def missingOpening : String := "Missing required declare directive \""

/-- How the texts about wrong values begin. -/
def wrongOpening : String := "Declare directive \""

theorem head?_missingOpening : missingOpening.toList.head? = some 'M' := by
  unfold missingOpening
  simp

theorem head?_wrongOpening : wrongOpening.toList.head? = some 'D' := by
  unfold wrongOpening
  simp

theorem opens_missingMessage (name : String) :
    opens missingOpening (missingMessage name) = true ∧
      opens wrongOpening (missingMessage name) = false := by
  have hfirst : (missingMessage name).toList.head? = some 'M' := by
    unfold missingMessage
    simp
  refine ⟨?_, opens_eq_false head?_wrongOpening hfirst (by decide)⟩
  unfold missingMessage missingOpening
  rw [String.append_assoc]
  exact opens_append _ _

/-- When a directive has a wrong value, and what is said then. -/
theorem wrongValue?_eq_some_iff {settings : Settings} {d : Directive} {message : String} :
    wrongValue? settings d = some message ↔
      ∃ expected, settings.requiredDirectives.lookup d.name = some (some expected) ∧
        d.value.same expected = false ∧
        message =
          "Declare directive \"" ++ d.name ++ "\" must be set to " ++ expected.display ++ "." := by
  unfold wrongValue?
  constructor
  · intro h
    split at h
    · next expected hlookup =>
      split at h
      · cases h
      · next hsame =>
        rw [Bool.not_eq_true] at hsame
        exact ⟨expected, hlookup, hsame, (Option.some_inj.mp h).symm⟩
    · cases h
  · rintro ⟨expected, hlookup, hsame, rfl⟩
    rw [hlookup]
    simp only [hsame]
    rfl

theorem opens_of_wrongValue? {settings : Settings} {d : Directive} {message : String}
    (h : wrongValue? settings d = some message) :
    opens wrongOpening message = true ∧ opens missingOpening message = false := by
  obtain ⟨expected, -, -, rfl⟩ := wrongValue?_eq_some_iff.mp h
  constructor
  · unfold wrongOpening
    rw [String.append_assoc, String.append_assoc, String.append_assoc]
    exact opens_append _ _
  · exact opens_eq_false (b := 'D') head?_missingOpening (by simp) (by decide)

theorem opens_of_message? {settings : Settings} {kind : ExprKind} {message : String}
    (h : message? settings kind = some message) :
    opens wrongOpening message = false ∧ opens missingOpening message = false := by
  have hfirst : message.toList.head? = some 'E' := by
    unfold message? at h
    split at h
    · cases h
      simp
    · split at h
      · cases h
        simp
      · cases h
    · cases h
  exact ⟨opens_eq_false head?_wrongOpening hfirst (by decide),
    opens_eq_false head?_missingOpening hfirst (by decide)⟩

theorem filter_missing_remarks (settings : Settings) (n : Node) :
    (remarks settings n).filter (opens missingOpening) = [] := by
  rw [List.filter_eq_nil_iff]
  intro message hmessage
  rw [Bool.not_eq_true]
  cases n with
  | expr e => exact (opens_of_message? (Option.mem_toList.mp hmessage)).2
  | _ =>
    obtain ⟨d, -, hd⟩ := List.mem_filterMap.mp hmessage
    exact (opens_of_wrongValue? hd).2

theorem filter_wrong_remarks (settings : Settings) (n : Node) :
    (remarks settings n).filter (opens wrongOpening) =
      (directivesOf n).filterMap (wrongValue? settings) := by
  cases n with
  | expr e =>
    show _ = []
    rw [List.filter_eq_nil_iff]
    intro message hmessage
    rw [Bool.not_eq_true]
    exact (opens_of_message? (Option.mem_toList.mp hmessage)).1
  | _ =>
    refine List.filter_eq_self.mpr fun message hmessage => ?_
    obtain ⟨d, -, hd⟩ := List.mem_filterMap.mp hmessage
    exact (opens_of_wrongValue? hd).1

theorem directivesOf_of_isBoundary {n : Node} (hn : isBoundary n = true) : directivesOf n = [] := by
  cases n with
  | stmt s =>
    obtain ⟨span, kind, comments⟩ := s
    cases kind with
    | declareBlock directives => exact absurd hn Bool.false_ne_true
    | _ => rfl
  | _ => rfl

theorem filter_missing_map (names : List String) :
    (names.map missingMessage).filter (opens missingOpening) = names.map missingMessage := by
  refine List.filter_eq_self.mpr fun message hmessage => ?_
  obtain ⟨name, -, rfl⟩ := List.mem_map.mp hmessage
  exact (opens_missingMessage name).1

theorem filter_wrong_map (names : List String) :
    (names.map missingMessage).filter (opens wrongOpening) = [] := by
  rw [List.filter_eq_nil_iff]
  intro message hmessage
  obtain ⟨name, -, rfl⟩ := List.mem_map.mp hmessage
  rw [(opens_missingMessage name).2]
  exact Bool.false_ne_true

/-- What is said about wrong values does not depend on what is pending. -/
theorem filter_wrong_step (settings : Settings) (n : Node) (h : Header) :
    (step settings n h).1.filter (opens wrongOpening) =
      (directivesOf n).filterMap (wrongValue? settings) := by
  cases hn : isBoundary n with
  | true =>
    rw [(step_of_isBoundary settings hn h).1, filter_wrong_map, directivesOf_of_isBoundary hn]
    rfl
  | false =>
    rw [step, hn]
    exact filter_wrong_remarks settings n

/-! ## Whole files -/

/-- The nodes before the boundary. -/
def header (nodes : List Node) : List Node := nodes.takeWhile fun n => !isBoundary n

/-- The names that the header does not declare. -/
def missing (names : List String) (nodes : List Node) : List String :=
  names.filter fun name => !(header nodes).any (declares name)

/-- The line of the boundary, or the first line when there is none. -/
def boundaryLine (nodes : List Node) : Nat := ((nodes.find? isBoundary).map Node.line).getD 1

theorem missing_nil (names : List String) : missing names [] = names :=
  List.filter_eq_self.mpr fun _ _ => rfl

/-- At a boundary the header is over. -/
theorem missing_of_isBoundary {n : Node} (hn : isBoundary n = true) (names : List String)
    (nodes : List Node) :
    missing names (n :: nodes) = names ∧ boundaryLine (n :: nodes) = n.line := by
  constructor
  · rw [missing, header, List.takeWhile_cons_of_neg (by rw [hn]; exact Bool.false_ne_true)]
    exact missing_nil names
  · rw [boundaryLine, List.find?_cons_of_pos hn]
    rfl

/-- Before it, every node takes away what it declares. -/
theorem missing_of_not_isBoundary {n : Node} (hn : isBoundary n = false)
    (names : List String) (nodes : List Node) :
    missing names (n :: nodes) = missing (names.filter fun name => !declares name n) nodes ∧
      boundaryLine (n :: nodes) = boundaryLine nodes := by
  constructor
  · rw [missing, missing, header, List.takeWhile_cons_of_pos (by rw [hn]; rfl),
      List.filter_filter]
    refine List.filter_congr fun name _ => ?_
    rw [List.any_cons, Bool.not_or, Bool.and_comm]
    rfl
  · rw [boundaryLine, List.find?_cons_of_neg (by rw [hn]; exact Bool.false_ne_true)]
    rfl

/-- What the machine says over a list of stops, with lines, and at the end of the file. -/
def said (settings : Settings) (stops : List Stop) (h : Header) : List (Nat × String) :=
  (replay (fun s => step settings s.site.node) stops h).1.flatMap
      (fun a => a.2.map fun message => (a.1.site.node.line, message)) ++
    ((pending settings (replay (fun s => step settings s.site.node) stops h).2).map
      missingMessage).map fun message => (1, message)

theorem said_nil (settings : Settings) (h : Header) :
    said settings [] h =
      ((pending settings h).map missingMessage).map fun message => (1, message) := rfl

theorem said_cons (settings : Settings) (s : Stop) (rest : List Stop) (h : Header) :
    said settings (s :: rest) h =
      (step settings s.site.node h).1.map (fun message => (s.site.node.line, message)) ++
        said settings rest (step settings s.site.node h).2 := by
  rw [said, replay_cons, List.flatMap_cons, List.append_assoc]
  rfl

/-- Missing directives: the first boundary gets what the nodes before it do not declare, and without
a boundary the end of the file gets it. -/
theorem filter_missing_said {settings : Settings} (stops : List Stop) {h : Header}
    (hsound : Sound settings h) :
    (said settings stops h).filter (fun x => opens missingOpening x.2) =
      (missing (pending settings h) (stops.map fun s => s.site.node)).map fun name =>
        (boundaryLine (stops.map fun s => s.site.node), missingMessage name) := by
  induction stops generalizing h with
  | nil =>
    rw [said_nil, List.filter_map, List.map_nil, missing_nil]
    show List.map _ (List.filter (opens missingOpening) _) = _
    rw [filter_missing_map, List.map_map]
    rfl
  | cons s rest ih =>
    rw [said_cons, List.filter_append, List.filter_map, ih (hsound.step s.site.node), List.map_cons]
    show List.map _ (List.filter (opens missingOpening) _) ++ _ = _
    cases hn : isBoundary s.site.node with
    | true =>
      -- the boundary takes all that is pending, so the rest has nothing to report
      obtain ⟨hmessages, hpending⟩ := step_of_isBoundary settings hn h
      obtain ⟨hmissing, hline⟩ :=
        missing_of_isBoundary hn (pending settings h) (rest.map fun s => s.site.node)
      rw [hmessages, hpending, filter_missing_map, hmissing, hline, List.map_map]
      exact List.append_nil _
    | false =>
      obtain ⟨hmessages, hpending⟩ := step_of_not_isBoundary hn hsound
      obtain ⟨hmissing, hline⟩ :=
        missing_of_not_isBoundary hn (pending settings h) (rest.map fun s => s.site.node)
      rw [hmessages, hpending, filter_missing_remarks, hmissing, hline]
      rfl

theorem filter_wrong_said (settings : Settings) (stops : List Stop) (h : Header) :
    (said settings stops h).filter (fun x => opens wrongOpening x.2) =
      (stops.map fun s => s.site.node).flatMap fun n =>
        ((directivesOf n).filterMap (wrongValue? settings)).map fun message =>
          (n.line, message) := by
  induction stops generalizing h with
  | nil =>
    rw [said_nil, List.filter_map]
    show List.map _ (List.filter (opens wrongOpening) _) = _
    rw [filter_wrong_map]
    rfl
  | cons s rest ih =>
    rw [said_cons, List.filter_append, List.filter_map, ih, List.map_cons, List.flatMap_cons]
    show List.map _ (List.filter (opens wrongOpening) _) ++ _ = _
    rw [filter_wrong_step]

/-- The last word of the rule: what is pending at the end of the file is missing. -/
theorem leave_eq {settings : Settings} (hactive : settings.isActive .mandatoryDiagnostics = true)
    (i : Nat) (f : SourceFile) {c : Context} {h : Header}
    (hh : c.slot .header .mandatoryDiagnostics = .ok h) :
    ((dispatcher [.mandatoryDiagnostics] settings).leave (.ofFile i f) c).1 =
      ((pending settings h).map missingMessage).map (reported settings info c.file 1) := by
  have hlast : (reportMissing settings 1 c).1 =
      .ok (((pending settings h).map missingMessage).map (c.finding info 1)) := by
    rw [reportMissing_eq_slotQuestion, slotQuestion_of_ok hh]
    rfl
  rw [Dispatcher.leave_file_singleton hactive]
  show Dispatcher.settle settings info _ _ (reportMissing settings 1 c).1 = _
  rw [hlast, Dispatcher.settle_ok]

/-- When the rule walks a file alone, it does what the machine does. -/
theorem fileRound_eq {settings : Settings}
    (hactive : settings.isActive .mandatoryDiagnostics = true) (root : Option String) (i : Nat)
    (f : SourceFile) :
    ((dispatcher [.mandatoryDiagnostics] settings).fileRound i f root).1 =
        (replay (fun s => step settings s.site.node) (Walk.preorder (Stop.ofFile i f))
          ⟨false, []⟩).1.map (fun a => (a.1, a.2.map
            (reported settings info (some (.ofFile i f root)) a.1.site.node.line))) ∧
      ((dispatcher [.mandatoryDiagnostics] settings).fileEnd i f root).slot .header
          .mandatoryDiagnostics =
        .ok (replay (fun s => step settings s.site.node) (Walk.preorder (Stop.ofFile i f))
          (⟨false, []⟩ : Header)).2 :=
  Dispatcher.round_eq_replay (realizes settings) hactive (some (.ofFile i f root))
    (Walk.preorder (Stop.ofFile i f))
    (show readSlot [] .header .mandatoryDiagnostics = .ok (⟨false, []⟩ : Header) from rfl)

/-- What the rule finds in a file when it is registered alone. -/
theorem walkFile_eq_said {settings : Settings}
    (hactive : settings.isActive .mandatoryDiagnostics = true) (root : Option String) (i : Nat)
    (f : SourceFile) :
    (analyzer [.mandatoryDiagnostics] settings root).walkFile i f =
      (said settings (Walk.preorder (Stop.ofFile i f)) ⟨false, []⟩).map fun x =>
        reported settings info (some (.ofFile i f root)) x.1 x.2 := by
  obtain ⟨hfindings, hheader⟩ := fileRound_eq hactive root i f
  unfold said
  rw [Analyzer.walkFile_eq, leave_eq hactive i f hheader, hfindings, List.flatMap_map,
    List.map_append, List.map_flatMap]
  refine congrArg₂ (· ++ ·) (List.flatMap_congr fun a _ => ?_) ?_
  · rw [List.map_map]
    rfl
  · simp only [List.map_map]
    rfl

/-- With the rule registered once and active, the header of a file is checked as follows.  Each
required directive that the nodes before the boundary do not declare is reported as missing exactly
once, on the line of the boundary, or on the first line if the file has none; these findings come in
the order of the bytes of the names, which is strict.  And wherever a directive stands, it is
reported on the line of its declare statement exactly if its value is not the required one. -/
theorem header_findings (ids : List RuleId) (settings : Settings) (root : Option String) (i : Nat)
    (f : SourceFile) (hr : ids.count .mandatoryDiagnostics = 1)
    (hactive : settings.isActive .mandatoryDiagnostics = true) :
    ((analyzer ids settings root).walkFile i f).filter
          (fun x => x.rule = info.name && opens missingOpening x.message) =
        (settings.directiveNames.filter fun name =>
          !((Walk.preorder (Node.file f)).takeWhile fun n => !isBoundary n).any
            (declares name)).map (fun name =>
              reported settings info (some (.ofFile i f root))
                ((((Walk.preorder (Node.file f)).find? isBoundary).map Node.line).getD 1)
                (missingMessage name)) ∧
      settings.directiveNames.Pairwise (fun a b => bytes a < bytes b) ∧
      (∀ name, name ∈ settings.directiveNames ↔
        ∃ value, settings.requiredDirectives.lookup name = some value) ∧
      ((analyzer ids settings root).walkFile i f).filter
          (fun x => x.rule = info.name && opens wrongOpening x.message) =
        (Walk.preorder (Node.file f)).flatMap (fun n =>
          ((directivesOf n).filterMap (wrongValue? settings)).map
            (reported settings info (some (.ofFile i f root)) n.line)) ∧
      (∀ d message, wrongValue? settings d = some message ↔
        ∃ expected, settings.requiredDirectives.lookup d.name = some (some expected) ∧
          d.value.same expected = false ∧
          message = "Declare directive \"" ++ d.name ++ "\" must be set to " ++ expected.display
            ++ ".") := by
  have hnodes : Walk.preorder (Node.file f) =
      (Walk.preorder (Stop.ofFile i f)).map fun s => s.site.node :=
    (Stop.map_node_preorder (Stop.ofFile i f)).symm
  have halone : ((analyzer ids settings root).walkFile i f).filter
        (Finding.isOf .mandatoryDiagnostics) =
      (said settings (Walk.preorder (Stop.ofFile i f)) ⟨false, []⟩).map fun x =>
        reported settings info (some (.ofFile i f root)) x.1 x.2 := by
    rw [Analyzer.filter_walkFile, Dispatcher.filter_eq_singleton _ ids hr,
      walkFile_eq_said hactive]
  -- the texts tell apart what the rule says
  have hsplit : ∀ opening : String, ((analyzer ids settings root).walkFile i f).filter
        (fun x => x.rule = info.name && opens opening x.message) =
      ((said settings (Walk.preorder (Stop.ofFile i f)) ⟨false, []⟩).filter
        (fun x => opens opening x.2)).map fun x =>
          reported settings info (some (.ofFile i f root)) x.1 x.2 := by
    intro opening
    have hboth : ((analyzer ids settings root).walkFile i f).filter
          (fun x => x.rule = info.name && opens opening x.message) =
        (((analyzer ids settings root).walkFile i f).filter
          (Finding.isOf .mandatoryDiagnostics)).filter fun x => opens opening x.message := by
      rw [List.filter_filter]
      exact List.filter_congr fun x _ => Bool.and_comm _ _
    rw [hboth, halone, List.filter_map]
    rfl
  refine ⟨?_, settings.pairwise_directiveNames.imp bytes_lt, ?_, ?_,
    fun d message => wrongValue?_eq_some_iff⟩
  · rw [hsplit, filter_missing_said _ (sound_initial settings), hnodes, List.map_map]
    rfl
  · intro name
    rw [Settings.mem_directiveNames, Option.isSome_iff_exists]
  · rw [hsplit, filter_wrong_said, hnodes, List.map_flatMap]
    refine List.flatMap_congr fun n _ => ?_
    rw [List.map_map]
    rfl

/-- A file with a directive before its namespace, one behind it, and a class. -/
def lateDirective : SourceFile :=
  ⟨"a.php", none, [.declareBlock "ticks" (.int 1),
    (Stmt.namespaceBlock "app" [(Stmt.declareBlock "strict_types" (.int 0)).onLine 3]).onLine 2,
    .ofClass (.named "A" 4 5)]⟩

theorem header_findings_lateDirective :
    RuleId.all.count .mandatoryDiagnostics = 1 ∧
      Settings.default.isActive .mandatoryDiagnostics = true ∧
      ((analyzer RuleId.all .default none).walkFile 0 lateDirective).filter
            (fun x => x.rule = info.name && opens missingOpening x.message) =
          (Settings.default.directiveNames.filter fun name =>
            !((Walk.preorder (Node.file lateDirective)).takeWhile fun n => !isBoundary n).any
              (declares name)).map (fun name =>
                reported .default info (some (.ofFile 0 lateDirective none))
                  ((((Walk.preorder (Node.file lateDirective)).find? isBoundary).map
                    Node.line).getD 1) (missingMessage name)) ∧
        Settings.default.directiveNames.Pairwise (fun a b => bytes a < bytes b) ∧
        (∀ name, name ∈ Settings.default.directiveNames ↔
          ∃ value, Settings.default.requiredDirectives.lookup name = some value) ∧
        ((analyzer RuleId.all .default none).walkFile 0 lateDirective).filter
            (fun x => x.rule = info.name && opens wrongOpening x.message) =
          (Walk.preorder (Node.file lateDirective)).flatMap (fun n =>
            ((directivesOf n).filterMap (wrongValue? .default)).map
              (reported .default info (some (.ofFile 0 lateDirective none)) n.line)) ∧
        (∀ d message, wrongValue? .default d = some message ↔
          ∃ expected, Settings.default.requiredDirectives.lookup d.name = some (some expected) ∧
            d.value.same expected = false ∧
            message = "Declare directive \"" ++ d.name ++ "\" must be set to " ++ expected.display
              ++ ".") :=
  ⟨by decide, by decide,
    header_findings RuleId.all .default none 0 lateDirective (by decide) (by decide)⟩

end Diagnostics
end Rules
end SafetyLint
