import SafetyLint.Engine.Analyzer
import SafetyLint.Proofs.Routing
import SafetyLint.Rules.All

/-!
# Rules keep to themselves

All rules share one context.  This module says how little of it each rule can touch or see: a rule
may write its own slot and nothing else, what it answers depends on its own slot and the scopes
alone, and it puts its own name on everything it reports.  That is `Confined`, and the nine rules
satisfy it on every node and at the end of every file (`confined_check`, `confined_finish`).

Two laws about asking several rules in a row follow, whatever the question is.

* `filter_ask`: to keep only what one rule says is to ask only that rule, as often as it occurs.
* `ask_eq_flatMap`: rules that occur once each answer as if each were asked first.

The table of routes is read off as a list at the end (`dispatch_dispatcher`, `leave_file`), so that
the two laws apply to whole dispatchers.
-/

namespace SafetyLint

open SafetyLint.Tree Config

/-! ## Contexts as one rule sees them -/

namespace Context

/-- The contexts look the same to a rule: the same file, the same open scopes, the same slot. -/
structure Agree (id : RuleId) (c c' : Context) : Prop where
  file : c.file = c'.file
  functions : c.functions = c'.functions
  classes : c.classes = c'.classes
  slot : c.slots.lookup id = c'.slots.lookup id

namespace Agree

variable {id : RuleId} {c c' c'' : Context}

theorem refl (id : RuleId) (c : Context) : Agree id c c := ⟨rfl, rfl, rfl, rfl⟩

theorem trans (h : Agree id c c') (h' : Agree id c' c'') : Agree id c c'' :=
  ⟨h.file.trans h'.file, h.functions.trans h'.functions, h.classes.trans h'.classes,
    h.slot.trans h'.slot⟩

/-- Contexts that agree differ in their slots only. -/
theorem eq_withSlots (h : Agree id c c') : c' = { c with slots := c'.slots } := by
  obtain ⟨hfile, hfunctions, hclasses, -⟩ := h
  rw [hfile, hfunctions, hclasses]

theorem slot_eq (h : Agree id c c') (k : SlotKind) : c.slot k id = c'.slot k id := by
  rw [Context.slot, Context.slot, h.slot]

theorem location_eq (h : Agree id c c') (line : Nat) : c.location line = c'.location line := by
  rw [Context.location, Context.location, h.file]

theorem finding_eq (h : Agree id c c') (info : RuleInfo) (line : Nat) :
    c.finding info line = c'.finding info line := by
  funext message
  rw [Context.finding, Context.finding, h.location_eq]

end Agree

end Context

/-! ## Confined questions -/

/-- The finding carries the id and the name of the rule. -/
def Finding.IsSigned (info : RuleInfo) (f : Finding) : Prop :=
  f.code = info.id.word ∧ f.rule = info.name

theorem Finding.isSigned_of_mem_map_finding {info : RuleInfo} {c : Context} {line : Nat}
    {messages : List String} {f : Finding} (h : f ∈ messages.map (c.finding info line)) :
    f.IsSigned info := by
  obtain ⟨message, -, rfl⟩ := List.mem_map.mp h
  exact ⟨rfl, rfl⟩

/-- What a rule with this identity is asked touches and shows nothing that belongs to others. -/
structure Confined (info : RuleInfo) (question : Context → Outcome × Context) : Prop where
  /-- Only slots are written. -/
  keeps : ∀ c, (question c).2 = { c with slots := (question c).2.slots }
  /-- Other slots stay as they are. -/
  others : ∀ c other, other ≠ info.id →
    (question c).2.slots.lookup other = c.slots.lookup other
  /-- The answer, and what is written, depend on the own slot and the scopes. -/
  own : ∀ c c', c.Agree info.id c' → (question c).1 = (question c').1 ∧
    (question c).2.slots.lookup info.id = (question c').2.slots.lookup info.id
  signed : ∀ c findings, (question c).1 = .ok findings → ∀ f ∈ findings, f.IsSigned info

namespace Confined

variable {info : RuleInfo} {question : Context → Outcome × Context}

/-- The other rules do not notice. -/
theorem agree_of_ne (h : Confined info question) {other : RuleId} (hne : other ≠ info.id)
    (c : Context) : (question c).2.Agree other c := by
  have hkeeps := h.keeps c
  refine ⟨?_, ?_, ?_, h.others c other hne⟩ <;> rw [hkeeps]

/-- From contexts that look the same the rule goes on to contexts that look the same. -/
theorem agree_own (h : Confined info question) {c c' : Context} (hcc : c.Agree info.id c') :
    (question c).2.Agree info.id (question c').2 := by
  have hkeeps := h.keeps c
  have hkeeps' := h.keeps c'
  refine ⟨?_, ?_, ?_, (h.own c c' hcc).2⟩ <;> rw [hkeeps, hkeeps']
  · exact hcc.file
  · exact hcc.functions
  · exact hcc.classes

/-- A question that writes nothing and does not look at slots is confined. -/
theorem of_blind {outcome : Context → Outcome}
    (hblind : ∀ c slots, outcome { c with slots := slots } = outcome c)
    (hsigned : ∀ c findings, outcome c = .ok findings → ∀ f ∈ findings, f.IsSigned info) :
    Confined info fun c => (outcome c, c) where
  keeps _ := rfl
  others _ _ _ := rfl
  own c c' h := by
    refine ⟨?_, h.slot⟩
    rw [h.eq_withSlots]
    exact (hblind c c'.slots).symm
  signed := hsigned

/-- Rules that remember nothing are confined. -/
theorem plain {findings : Settings → Site → Context → List Finding} {settings : Settings}
    {site : Site}
    (hblind : ∀ c slots,
      findings settings site { c with slots := slots } = findings settings site c)
    (hsigned : ∀ c, ∀ f ∈ findings settings site c, f.IsSigned info) :
    Confined info (Rule.plain findings settings site) := by
  refine of_blind (fun c slots => congrArg Except.ok (hblind c slots)) ?_
  intro c fs hfs f hf
  cases hfs
  exact hsigned c f hf

theorem silent (info : RuleInfo) (settings : Settings) : Confined info (Rule.silent settings) :=
  of_blind (fun _ _ => rfl) fun _ fs hfs f hf => by
    cases hfs
    exact absurd hf List.not_mem_nil

end Confined

/-! ## The nine rules -/

namespace Rules

theorem ComplexFlow.confined_check (settings : Settings) (site : Site) :
    Confined ComplexFlow.info (complexFlow.check settings site) :=
  .plain (fun _ _ => rfl) fun _ _ hf => Finding.isSigned_of_mem_map_finding hf

theorem LoopBounds.confined_check (settings : Settings) (site : Site) :
    Confined LoopBounds.info (loopBounds.check settings site) := by
  obtain ⟨place, node⟩ := site
  cases node with
  | stmt s =>
    refine .of_blind (fun _ _ => rfl) fun c fs hfs f hf => ?_
    cases hm : LoopBounds.message? Expr.type settings.maxLoopIterations s with
    | error e =>
      rw [hm] at hfs
      cases hfs
    | ok message =>
      rw [hm] at hfs
      cases hfs
      exact Finding.isSigned_of_mem_map_finding hf
  | _ => exact Confined.silent LoopBounds.info settings

theorem Allocation.confined_check (settings : Settings) (site : Site) :
    Confined Allocation.info (allocation.check settings site) := by
  refine .plain (fun _ _ => rfl) fun c f hf => ?_
  unfold Allocation.findings at hf
  split at hf
  · split at hf
    · exact absurd hf List.not_mem_nil
    · exact Finding.isSigned_of_mem_map_finding hf
  · exact absurd hf List.not_mem_nil

theorem FunctionLength.confined_check (settings : Settings) (site : Site) :
    Confined FunctionLength.info (functionLength.check settings site) :=
  .plain (fun _ _ => rfl) fun _ _ hf => Finding.isSigned_of_mem_map_finding hf

theorem Assertions.confined_check (settings : Settings) (site : Site) :
    Confined Assertions.info (assertions.check settings site) :=
  .plain (fun _ _ => rfl) fun _ _ hf => Finding.isSigned_of_mem_map_finding hf

theorem DataScope.isSigned_of_mem_lateFindings {settings : Settings} {site : Site} {c : Context}
    {decl : FunctionDecl} {f : Finding} (hf : f ∈ lateFindings settings site c decl) :
    f.IsSigned info := by
  unfold lateFindings at hf
  split at hf
  · exact absurd hf List.not_mem_nil
  · obtain ⟨u, -, rfl⟩ := List.mem_map.mp hf
    exact ⟨rfl, rfl⟩

theorem DataScope.confined_check (settings : Settings) (site : Site) :
    Confined DataScope.info (dataScope.check settings site) := by
  refine .plain (fun _ _ => rfl) fun c f hf => ?_
  unfold DataScope.findings at hf
  split at hf
  · exact Finding.isSigned_of_mem_map_finding hf
  · exact isSigned_of_mem_lateFindings hf
  · exact isSigned_of_mem_lateFindings hf
  · split at hf
    · exact Finding.isSigned_of_mem_map_finding hf
    · exact absurd hf List.not_mem_nil
  · exact absurd hf List.not_mem_nil

theorem ReturnValue.confined_check (settings : Settings) (site : Site) :
    Confined ReturnValue.info (returnValue.check settings site) := by
  refine .plain (fun _ _ => rfl) fun c f hf => ?_
  unfold ReturnValue.findings at hf
  split at hf
  · split at hf
    · split at hf
      · rw [List.mem_singleton.mp hf]
        exact ⟨rfl, rfl⟩
      · exact absurd hf List.not_mem_nil
    · exact absurd hf List.not_mem_nil
  · exact absurd hf List.not_mem_nil

end Rules

/-! ## Rules with a memory -/

/-- Reads the slot of a rule, reports what `step` says about it and writes back what `step` makes of
it. -/
def slotQuestion (info : RuleInfo) (k : SlotKind) (line : Nat)
    (step : k.Value → List String × k.Value) (c : Context) : Outcome × Context :=
  match c.slot k info.id with
  | .error e => (.error e, c)
  | .ok v => (.ok ((step v).1.map (c.finding info line)), c.putSlot k info.id (step v).2)

section SlotQuestion

variable {info : RuleInfo} {k : SlotKind} {line : Nat} {step : k.Value → List String × k.Value}
  {c : Context}

theorem slotQuestion_of_ok {v : k.Value} (h : c.slot k info.id = .ok v) :
    slotQuestion info k line step c =
      (.ok ((step v).1.map (c.finding info line)), c.putSlot k info.id (step v).2) := by
  rw [slotQuestion, h]

theorem slotQuestion_of_error {e : RuleError} (h : c.slot k info.id = .error e) :
    slotQuestion info k line step c = (.error e, c) := by
  rw [slotQuestion, h]

theorem Confined.slotQuestion : Confined info (slotQuestion info k line step) where
  keeps c := by
    cases hslot : c.slot k info.id with
    | error e => rw [slotQuestion_of_error hslot]
    | ok v => rw [slotQuestion_of_ok hslot]; rfl
  others c other hne := by
    cases hslot : c.slot k info.id with
    | error e => rw [slotQuestion_of_error hslot]
    | ok v =>
      rw [slotQuestion_of_ok hslot]
      exact lookup_setSlot_of_ne _ _ hne
  own c c' h := by
    have hsame := h.slot_eq k
    cases hslot : c.slot k info.id with
    | error e =>
      rw [slotQuestion_of_error hslot, slotQuestion_of_error (hsame.symm.trans hslot)]
      exact ⟨rfl, h.slot⟩
    | ok v =>
      rw [slotQuestion_of_ok hslot, slotQuestion_of_ok (hsame.symm.trans hslot), h.finding_eq]
      exact ⟨rfl, (lookup_setSlot_self _ _ _).trans (lookup_setSlot_self _ _ _).symm⟩
  signed c fs hfs f hf := by
    cases hslot : c.slot k info.id with
    | error e =>
      rw [slotQuestion_of_error hslot] at hfs
      cases hfs
    | ok v =>
      rw [slotQuestion_of_ok hslot] at hfs
      cases hfs
      exact Finding.isSigned_of_mem_map_finding hf

end SlotQuestion

namespace Rules

/-- On a link the rule about chains goes by the links that are already covered. -/
theorem Dereferences.check_of_isLink (settings : Settings) (place : Place) {e : Expr}
    (hlink : isLink e = true) :
    check settings ⟨place, .expr e⟩ = slotQuestion info .links e.span.firstLine fun covered =>
      ((checkLink settings.maxDereferences place e covered).1.toList,
        (checkLink settings.maxDereferences place e covered).2) := by
  funext c
  rw [check, slotQuestion]
  simp only [hlink, if_true]
  cases c.slot .links info.id <;> rfl

theorem Dereferences.check_of_not_isLink (settings : Settings) (place : Place) {e : Expr}
    (hlink : ¬ isLink e = true) :
    check settings ⟨place, .expr e⟩ = fun c =>
      (.ok ((message? settings.maxDereferences e.kind).toList.map
        (c.finding info e.span.firstLine)), c) := by
  funext c
  rw [check]
  simp only [hlink]
  rfl

theorem Dereferences.confined_check (settings : Settings) (site : Site) :
    Confined Dereferences.info (dereferences.check settings site) := by
  obtain ⟨place, node⟩ := site
  show Confined info (check settings ⟨place, node⟩)
  cases node with
  | expr e =>
    by_cases hlink : isLink e = true
    · rw [check_of_isLink settings place hlink]
      exact Confined.slotQuestion
    · rw [check_of_not_isLink settings place hlink]
      refine .of_blind (fun _ _ => rfl) fun c fs hfs f hf => ?_
      cases hfs
      exact Finding.isSigned_of_mem_map_finding hf
  | _ => exact Confined.silent info settings

namespace Diagnostics

theorem reportMissing_eq_slotQuestion (settings : Settings) (line : Nat) :
    reportMissing settings line = slotQuestion info .header line fun header =>
      ((start settings header).unseen.map missingMessage,
        { start settings header with unseen := [] }) := by
  funext c
  rw [reportMissing, slotQuestion]
  cases c.slot .header info.id <;> rfl

section Directives

variable (settings : Settings) (line : Nat)

variable {settings line} in
theorem checkDirectives_cons_of_ok {d : Directive} {c c' : Context} {here : List Finding}
    (h : checkDirective settings line d c = (.ok here, c')) (rest : List Directive) :
    checkDirectives settings (d :: rest) line c =
      ((checkDirectives settings rest line c').1.map fun later => here ++ later,
        (checkDirectives settings rest line c').2) := by
  rw [checkDirectives, h]

variable {settings line} in
theorem checkDirectives_cons_of_error {d : Directive} {c c' : Context} {e : RuleError}
    (h : checkDirective settings line d c = (.error e, c')) (rest : List Directive) :
    checkDirectives settings (d :: rest) line c = (.error e, c') := by
  rw [checkDirectives, h]

theorem checkDirectives_cons_of_not_isRequired {d : Directive} (h : ¬ isRequired settings d = true)
    (rest : List Directive) :
    checkDirectives settings (d :: rest) line = checkDirectives settings rest line := by
  funext c
  have hd : checkDirective settings line d c = (.ok [], c) := by rw [checkDirective, if_neg h]
  rw [checkDirectives_cons_of_ok hd]
  rcases checkDirectives settings rest line c with ⟨outcome, c'⟩
  cases outcome <;> rfl

theorem checkDirectives_of_isEmpty {directives : List Directive}
    (h : (directives.filter (isRequired settings)).isEmpty = true) :
    checkDirectives settings directives line = Rule.silent settings := by
  induction directives with
  | nil => rfl
  | cons d rest ih =>
    have hd : ¬ isRequired settings d = true := fun hd => by
      rw [List.filter_cons_of_pos hd] at h
      exact Bool.false_ne_true h
    rw [List.filter_cons_of_neg hd] at h
    rw [checkDirectives_cons_of_not_isRequired settings line hd, ih h]

/-- With a header in the slot nothing fails, and what is seen adds up. -/
theorem checkDirectives_of_slot_eq_ok {c : Context} {header : Header} (directives : List Directive)
    (hslot : c.slot .header info.id = .ok header)
    (h : (directives.filter (isRequired settings)).isEmpty = false) :
    checkDirectives settings directives line c =
      (.ok (((directives.filter (isRequired settings)).filterMap (wrongValue? settings)).map
          (c.finding info line)),
        c.putSlot .header info.id ((directives.filter (isRequired settings)).foldl
          (fun h d => see settings d.name h) header : Header)) := by
  induction directives generalizing c header with
  | nil => exact absurd h Bool.noConfusion
  | cons d rest ih =>
    by_cases hd : isRequired settings d = true
    · have hhere : checkDirective settings line d c =
          (.ok ((wrongValue? settings d).toList.map (c.finding info line)),
            c.putSlot .header info.id (see settings d.name header)) := by
        rw [checkDirective, if_pos hd, hslot]
      rw [List.filter_cons_of_pos hd, checkDirectives_cons_of_ok hhere, List.filterMap_cons]
      cases hrest : (rest.filter (isRequired settings)).isEmpty with
      | true =>
        rw [checkDirectives_of_isEmpty settings line hrest, List.isEmpty_iff.mp hrest]
        cases wrongValue? settings d <;> rfl
      | false =>
        have hnext := @ih (c.putSlot .header info.id (see settings d.name header))
          (see settings d.name header) (c.slot_putSlot ..) hrest
        rw [hnext]
        refine Prod.ext ?_ (c.putSlot_putSlot ..)
        cases wrongValue? settings d <;> rfl
    · rw [List.filter_cons_of_neg hd] at h ⊢
      rw [checkDirectives_cons_of_not_isRequired settings line hd, ih hslot h]

/-- With anything else in the slot the first required directive fails. -/
theorem checkDirectives_of_slot_eq_error {c : Context} {e : RuleError} (directives : List Directive)
    (hslot : c.slot .header info.id = .error e)
    (h : (directives.filter (isRequired settings)).isEmpty = false) :
    checkDirectives settings directives line c = (.error e, c) := by
  induction directives with
  | nil => exact absurd h Bool.noConfusion
  | cons d rest ih =>
    by_cases hd : isRequired settings d = true
    · have hhere : checkDirective settings line d c = (.error e, c) := by
        rw [checkDirective, if_pos hd, hslot]
      exact checkDirectives_cons_of_error hhere rest
    · rw [List.filter_cons_of_neg hd] at h
      rw [checkDirectives_cons_of_not_isRequired settings line hd, ih h]

/-- A declare statement with required directives is one question to the slot. -/
theorem checkDirectives_eq_slotQuestion {directives : List Directive}
    (h : (directives.filter (isRequired settings)).isEmpty = false) :
    checkDirectives settings directives line = slotQuestion info .header line fun header =>
      ((directives.filter (isRequired settings)).filterMap (wrongValue? settings),
        (directives.filter (isRequired settings)).foldl (fun h d => see settings d.name h)
          header) := by
  funext c
  cases hslot : c.slot .header info.id with
  | error e =>
    rw [slotQuestion_of_error hslot, checkDirectives_of_slot_eq_error settings line _ hslot h]
  | ok header =>
    rw [slotQuestion_of_ok hslot, checkDirectives_of_slot_eq_ok settings line _ hslot h]
    rfl

end Directives

theorem confined_reportMissing (settings : Settings) (line : Nat) :
    Confined info (reportMissing settings line) := by
  rw [reportMissing_eq_slotQuestion]
  exact Confined.slotQuestion

theorem confined_checkDirectives (settings : Settings) (directives : List Directive)
    (line : Nat) : Confined info (checkDirectives settings directives line) := by
  cases h : (directives.filter (isRequired settings)).isEmpty with
  | true =>
    rw [checkDirectives_of_isEmpty settings line h]
    exact Confined.silent info settings
  | false =>
    rw [checkDirectives_eq_slotQuestion settings line h]
    exact Confined.slotQuestion

theorem confined_check (settings : Settings) (site : Site) :
    Confined Diagnostics.info (diagnostics.check settings site) := by
  obtain ⟨place, node⟩ := site
  cases node with
  | classDecl d => exact confined_reportMissing settings d.span.firstLine
  | stmt s =>
    obtain ⟨span, kind, comments⟩ := s
    cases kind with
    | declareBlock directives => exact confined_checkDirectives settings directives span.firstLine
    | namespaceBlock name body => exact confined_reportMissing settings span.firstLine
    | _ => exact Confined.silent info settings
  | expr e =>
    refine .of_blind (fun _ _ => rfl) fun c fs hfs f hf => ?_
    cases hfs
    exact Finding.isSigned_of_mem_map_finding hf
  | _ => exact Confined.silent info settings

end Diagnostics

/-- What the rules do on a node is confined. -/
theorem confined_check (settings : Settings) (site : Site) :
    ∀ id, Confined (ofId id).toRuleInfo ((ofId id).check settings site)
  | .noComplexFlow => ComplexFlow.confined_check settings site
  | .fixedLoopBounds => LoopBounds.confined_check settings site
  | .noHeapAllocation => Allocation.confined_check settings site
  | .functionLength => FunctionLength.confined_check settings site
  | .minimumAssertions => Assertions.confined_check settings site
  | .restrictDataScope => DataScope.confined_check settings site
  | .checkReturnValue => ReturnValue.confined_check settings site
  | .limitDereferences => Dereferences.confined_check settings site
  | .mandatoryDiagnostics => Diagnostics.confined_check settings site

/-- Most rules keep nothing in mind. -/
theorem snd_check_of_ne (settings : Settings) {id : RuleId}
    (hlinks : id ≠ .limitDereferences) (hheader : id ≠ .mandatoryDiagnostics) (site : Site)
    (c : Context) : ((ofId id).check settings site c).2 = c := by
  cases id with
  | fixedLoopBounds =>
    show (LoopBounds.check Expr.type settings site c).2 = c
    unfold LoopBounds.check
    split <;> rfl
  | limitDereferences => exact absurd rfl hlinks
  | mandatoryDiagnostics => exact absurd rfl hheader
  | _ => rfl

/-- Only one rule has a last word. -/
theorem finish_of_ne (settings : Settings) {id : RuleId} (h : id ≠ .mandatoryDiagnostics) :
    (ofId id).finish settings = Rule.silent settings := by
  cases id with
  | mandatoryDiagnostics => exact absurd rfl h
  | _ => rfl

/-- What the rules do at the end of a file is confined. -/
theorem confined_finish (settings : Settings) (id : RuleId) :
    Confined (ofId id).toRuleInfo ((ofId id).finish settings) := by
  by_cases h : id = .mandatoryDiagnostics
  · rw [h]
    exact Diagnostics.confined_reportMissing settings 1
  · rw [finish_of_ne settings h]
    exact Confined.silent _ settings

end Rules

/-! ## Asking several rules -/

namespace Rules

theorem map_id_ofName?_name (id : RuleId) :
    (ofName? (ofId id).name).map (fun r => r.id) = some id := by
  cases id <;> rfl

/-- Different rules have different names. -/
theorem name_ofId_inj {a b : RuleId} : (ofId a).name = (ofId b).name ↔ a = b := by
  refine ⟨fun h => ?_, fun h => h ▸ rfl⟩
  have hb := map_id_ofName?_name b
  rw [← h, map_id_ofName?_name a] at hb
  exact Option.some_inj.mp hb

end Rules

namespace Dispatcher

open Rules

variable {settings : Settings} {line : Nat} {question : Rule → Context → Outcome × Context}

theorem settle_agree {id : RuleId} {c c' : Context} (h : c.Agree id c') (info : RuleInfo)
    (outcome : Outcome) :
    settle settings info line c outcome = settle settings info line c' outcome := by
  cases outcome with
  | ok findings => rfl
  | error e => rw [settle, settle, h.location_eq]

/-- What a confined rule says carries its name, also when it fails. -/
theorem rule_of_mem_settle {info : RuleInfo} {q : Context → Outcome × Context}
    (hq : Confined info q) (c : Context) {f : Finding}
    (hf : f ∈ settle settings info line (q c).2 (q c).1) : f.rule = info.name := by
  cases houtcome : (q c).1 with
  | error e =>
    rw [houtcome, settle, List.mem_singleton] at hf
    rw [hf]
    rfl
  | ok findings =>
    have hsigned := hq.signed c findings houtcome
    rw [houtcome, settle] at hf
    split at hf
    · obtain ⟨g, hg, rfl⟩ := List.mem_map.mp hf
      exact (hsigned g hg).2
    · exact (hsigned f hf).2

/-- The answer of a rule by itself. -/
theorem ask_singleton (rule : Rule) (c : Context) :
    ask settings line question [rule] c =
      (settle settings rule.toRuleInfo line (question rule c).2 (question rule c).1,
        (question rule c).2) := by
  simp only [ask, List.append_nil]

theorem ask_cons (rule : Rule) (rest : List Rule) (c : Context) :
    ask settings line question (rule :: rest) c =
      ((ask settings line question [rule] c).1 ++
          (ask settings line question rest (question rule c).2).1,
        (ask settings line question rest (question rule c).2).2) := by
  rw [ask_singleton]
  rfl

variable (hq : ∀ id, Confined (ofId id).toRuleInfo (question (ofId id)))
include hq

theorem ask_singleton_agree {id : RuleId} {c c' : Context} (h : c.Agree id c') :
    (ask settings line question [ofId id] c).1 = (ask settings line question [ofId id] c').1 := by
  have hid : (ofId id).toRuleInfo.id = id := id_ofId id
  have hcc : c.Agree (ofId id).toRuleInfo.id c' := by rwa [hid]
  rw [ask_singleton, ask_singleton, ((hq id).own c c' hcc).1,
    settle_agree ((hq id).agree_own hcc)]

/-- However many rules are asked, only slots are written. -/
theorem ask_keeps (ids : List RuleId) (c : Context) :
    (ask settings line question (ids.map ofId) c).2 =
      { c with slots := (ask settings line question (ids.map ofId) c).2.slots } := by
  induction ids generalizing c with
  | nil => rfl
  | cons id rest ih =>
    rw [List.map_cons, ask_cons]
    refine (ih _).trans ?_
    rw [(hq id).keeps c]

/-- What a rule says is kept or dropped as a whole, by its name. -/
theorem filter_ask_singleton (r id : RuleId) (c : Context) :
    (ask settings line question [ofId id] c).1.filter (fun f => f.rule = (ofId r).name) =
      if id = r then (ask settings line question [ofId id] c).1 else [] := by
  have hname : ∀ f ∈ (ask settings line question [ofId id] c).1, f.rule = (ofId id).name := by
    intro f hf
    rw [ask_singleton] at hf
    exact rule_of_mem_settle (hq id) c hf
  by_cases hid : id = r
  · rw [if_pos hid, List.filter_eq_self]
    intro f hf
    rw [hname f hf, hid]
    exact decide_eq_true rfl
  · rw [if_neg hid, List.filter_eq_nil_iff]
    intro f hf
    rw [hname f hf, decide_eq_true_eq, name_ofId_inj]
    exact hid

/-- To keep only what one rule says is to ask only that rule, as often as it occurs. -/
theorem filter_ask (r : RuleId) (ids : List RuleId) {c c' : Context} (h : c.Agree r c') :
    (ask settings line question (ids.map ofId) c).1.filter (fun f => f.rule = (ofId r).name) =
        (ask settings line question ((ids.filter (· = r)).map ofId) c').1 ∧
      (ask settings line question (ids.map ofId) c).2.Agree r
        (ask settings line question ((ids.filter (· = r)).map ofId) c').2 := by
  induction ids generalizing c c' with
  | nil => exact ⟨rfl, h⟩
  | cons id rest ih =>
    have hown : (ofId id).toRuleInfo.id = id := id_ofId id
    rw [List.map_cons, ask_cons, List.filter_append, filter_ask_singleton hq]
    by_cases hid : id = r
    · subst hid
      have hcc : c.Agree (ofId id).toRuleInfo.id c' := by rwa [hown]
      have hnext : (question (ofId id) c).2.Agree id (question (ofId id) c').2 := by
        have := (hq id).agree_own hcc
        rwa [hown] at this
      obtain ⟨hfindings, hagree⟩ := ih hnext
      have hkeep : (id :: rest).filter (· = id) = id :: rest.filter (· = id) :=
        List.filter_cons_of_pos (decide_eq_true rfl)
      rw [hkeep, List.map_cons, ask_cons (ofId id) ((rest.filter (· = id)).map ofId) c', if_pos rfl,
        ask_singleton_agree hq h, hfindings]
      exact ⟨rfl, hagree⟩
    · have hnext : (question (ofId id) c).2.Agree r c' := by
        refine ((hq id).agree_of_ne ?_ c).trans h
        rw [hown]
        exact fun e => hid e.symm
      obtain ⟨hfindings, hagree⟩ := ih hnext
      have hdrop : (id :: rest).filter (· = r) = rest.filter (· = r) :=
        List.filter_cons_of_neg (by rwa [decide_eq_true_eq])
      rw [hdrop, if_neg hid, List.nil_append, hfindings]
      exact ⟨rfl, hagree⟩

/-- Rules that occur once each answer as if each were asked first. -/
theorem ask_eq_flatMap {ids : List RuleId} (hnodup : ids.Nodup) (c : Context) :
    (ask settings line question (ids.map ofId) c).1 =
      ids.flatMap fun id => (ask settings line question [ofId id] c).1 := by
  induction ids generalizing c with
  | nil => rfl
  | cons id rest ih =>
    obtain ⟨hid, hrest⟩ := List.nodup_cons.mp hnodup
    rw [List.map_cons, ask_cons, ih hrest, List.flatMap_cons]
    refine congrArg (_ ++ ·) (List.flatMap_congr fun other hother => ?_)
    refine ask_singleton_agree hq ((hq id).agree_of_ne ?_ c)
    rw [show (ofId id).toRuleInfo.id = id from id_ofId id]
    exact fun e => hid (e ▸ hother)

end Dispatcher

/-! ## Routes -/

namespace Rules

theorem nodup_kinds (id : RuleId) : (ofId id).kinds.Nodup := by
  cases id <;> decide

/-- The dispatcher in which rules are registered in the order of a list. -/
def dispatcher (ids : List RuleId) (settings : Settings) : Dispatcher :=
  .build (ids.map ofId) settings

/-- The rule wants to see nodes of this kind and is active. -/
def wants (settings : Settings) (kind : NodeKind) (id : RuleId) : Bool :=
  (ofId id).kinds.contains kind && settings.isActive id

end Rules

namespace Dispatcher

open Rules

theorem filter_map_ofId (p : RuleId → Bool) (ids : List RuleId) :
    (ids.map ofId).filter (fun r => p r.id) = (ids.filter p).map ofId := by
  rw [List.filter_map]
  congr 2
  funext id
  exact congrArg p (id_ofId id)

theorem flatMap_replicate_count (ids : List RuleId) (kind : NodeKind) :
    ((ids.map ofId).flatMap fun r => List.replicate (r.kinds.count kind) r) =
      (ids.filter fun id => (ofId id).kinds.contains kind).map ofId := by
  induction ids with
  | nil => rfl
  | cons id rest ih =>
    rw [List.map_cons, List.flatMap_cons, ih]
    by_cases h : kind ∈ (ofId id).kinds
    · have hcount := List.count_eq_one_of_mem (nodup_kinds id) h
      rw [List.filter_cons_of_pos (by simpa using h), hcount]
      rfl
    · have hcount := List.count_eq_zero_of_not_mem h
      rw [List.filter_cons_of_neg (by simpa using h), hcount]
      rfl

/-- The routes of a kind are the active rules that want to see it, in the order of their
registration. -/
theorem get_routes_dispatcher (ids : List RuleId) (settings : Settings) (kind : NodeKind) :
    (dispatcher ids settings).routes.get kind =
      (ids.filter (wants settings kind)).map ofId := by
  rw [dispatcher, Routes.get_build, filter_map_ofId, flatMap_replicate_count, List.filter_filter]
  rfl

theorem dispatch_dispatcher (ids : List RuleId) (settings : Settings) (site : Site) (c : Context) :
    (dispatcher ids settings).dispatch site c =
      ask settings site.node.line (fun rule c => rule.check settings site c)
        ((ids.filter (wants settings site.node.kind)).map ofId) c := by
  rw [dispatch, get_routes_dispatcher]
  rfl

/-- The rules are asked for their last word where a file ends. -/
theorem leave_file (ids : List RuleId) (settings : Settings) (place : Place) (f : SourceFile)
    (c : Context) :
    (dispatcher ids settings).leave ⟨place, .file f⟩ c =
      ask settings f.span.lastLine (fun rule c => rule.finish settings c)
        ((ids.filter settings.isActive).map ofId) c := by
  rw [leave, ← filter_map_ofId settings.isActive ids]
  rfl

end Dispatcher

end SafetyLint
