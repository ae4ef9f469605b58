import SafetyLint.Proofs.Independence
import SafetyLint.Proofs.OpenScopes
import SafetyLint.Proofs.WalkLaws

/-!
# Rules do not fail

A rule can fail for two reasons: a node has not the parts that the rule relies on, or its slot is of
another kind than it expects.  Neither happens to the nine rules.

The first is a matter of routes.  A rule sees only nodes of the kinds it has named, and what a node
of a kind is made of follows from the kind (`LoopBounds.succeeds_check`).

The second needs an invariant of the whole walk, because the slots of all rules are in one context
and each of them has the kind of its first use.  The invariant is `Context.Fits`: whatever slot
there is belongs to a rule that remembers something, and is of the kind that this rule keeps.  A
rule that is asked in such a context succeeds and leaves such a context (`Succeeds`), and from there
the laws about walks take over.
-/

namespace SafetyLint

open SafetyLint.Tree Config

/-! ## Slots that fit -/

/-- The kind of slot that a rule keeps, if it remembers anything. -/
def RuleId.slotKind? : RuleId → Option SlotKind
  | limitDereferences => some .links
  | mandatoryDiagnostics => some .header
  | _ => none

namespace Context

/-- Every slot belongs to a rule that remembers something and is of the kind that this rule
keeps. -/
def Fits (c : Context) : Prop := ∀ id s, c.slots.lookup id = some s → id.slotKind? = some s.kind

theorem fits_of_slots_eq_nil {c : Context} (h : c.slots = []) : c.Fits := by
  intro id s hs
  rw [h] at hs
  cases hs

theorem Fits.of_slots_eq {c c' : Context} (hc : c.Fits) (h : c'.slots = c.slots) : c'.Fits :=
  fun id s hs => hc id s (h ▸ hs)

/-- A rule that keeps slots of a kind can read its slot. -/
theorem Fits.exists_slot {c : Context} (hc : c.Fits) {id : RuleId} {k : SlotKind}
    (hk : id.slotKind? = some k) : ∃ v, c.slot k id = .ok v := by
  cases hs : c.slots.lookup id with
  | none => exact ⟨k.initial, slot_of_lookup_eq_none k hs⟩
  | some s =>
    obtain rfl : s.kind = k := Option.some_inj.mp ((hc id s hs).symm.trans hk)
    exact ⟨s.value, slot_of_lookup_eq_some hs⟩

theorem Fits.putSlot {c : Context} (hc : c.Fits) {id : RuleId} {k : SlotKind}
    (hk : id.slotKind? = some k) (v : k.Value) : (c.putSlot k id v).Fits := by
  intro other s hs
  by_cases h : other = id
  · subst h
    rw [Context.putSlot, lookup_setSlot_self] at hs
    rw [hk, ← Option.some_inj.mp hs]
  · rw [Context.putSlot, lookup_setSlot_of_ne _ _ h] at hs
    exact hc other s hs

end Context

/-! ## Rules that succeed -/

/-- Asked while all slots fit, a rule gives findings and leaves slots that fit. -/
structure Succeeds (q : Context → Outcome × Context) : Prop where
  outcome : ∀ {c}, c.Fits → ∃ findings, (q c).1 = .ok findings
  fits : ∀ {c}, c.Fits → (q c).2.Fits

namespace Succeeds

theorem of_findings (findings : Context → List Finding) :
    Succeeds fun c => (.ok (findings c), c) where
  outcome _ := ⟨_, rfl⟩
  fits hc := hc

theorem silent (settings : Settings) : Succeeds (Rule.silent settings) := of_findings fun _ => []

theorem slotQuestion {info : RuleInfo} {k : SlotKind} {line : Nat}
    {step : k.Value → List String × k.Value} (hk : info.id.slotKind? = some k) :
    Succeeds (slotQuestion info k line step) where
  outcome hc := by
    obtain ⟨v, hv⟩ := hc.exists_slot hk
    rw [slotQuestion_of_ok hv]
    exact ⟨_, rfl⟩
  fits hc := by
    obtain ⟨v, hv⟩ := hc.exists_slot hk
    rw [slotQuestion_of_ok hv]
    exact hc.putSlot hk _

end Succeeds

namespace Rules

/-- A loop has the parts of a loop. -/
theorem LoopBounds.exists_message?_eq (typeOf : TypeOracle) (max : Nat) {s : Stmt}
    (h : loopBounds.kinds.contains s.kind.nodeKind = true) :
    ∃ message, message? typeOf max s = .ok message := by
  obtain ⟨span, kind, comments⟩ := s
  cases kind with
  | forLoop start conditions steps body => exact ⟨_, rfl⟩
  | whileLoop condition body => exact ⟨_, rfl⟩
  | doWhile condition body => exact ⟨_, rfl⟩
  | foreach iterable key value body => exact ⟨_, rfl⟩
  | _ => exact absurd h Bool.false_ne_true

/-- The rule about loops succeeds on every node of its kinds, whatever the slots are and whatever it
is told about types. -/
theorem LoopBounds.exists_check_by_eq (typeOf : TypeOracle) (settings : Settings) {site : Site}
    (h : loopBounds.kinds.contains site.node.kind = true) (c : Context) :
    ∃ findings, (loopBoundsBy typeOf).check settings site c = (.ok findings, c) := by
  obtain ⟨place, node⟩ := site
  cases node with
  | stmt s =>
    obtain ⟨message, hmessage⟩ := exists_message?_eq typeOf settings.maxLoopIterations h
    refine ⟨message.toList.map (c.finding info s.span.firstLine), ?_⟩
    show ((message? typeOf settings.maxLoopIterations s).map _, c) = _
    rw [hmessage]
    rfl
  | _ => exact ⟨[], rfl⟩

theorem LoopBounds.exists_check_eq (settings : Settings) {site : Site}
    (h : loopBounds.kinds.contains site.node.kind = true) (c : Context) :
    ∃ findings, loopBounds.check settings site c = (.ok findings, c) :=
  exists_check_by_eq Expr.type settings h c

theorem LoopBounds.succeeds_check (settings : Settings) {site : Site}
    (h : loopBounds.kinds.contains site.node.kind = true) :
    Succeeds (loopBounds.check settings site) where
  outcome {c} _ := by
    obtain ⟨findings, hcheck⟩ := exists_check_eq settings h c
    exact ⟨findings, congrArg Prod.fst hcheck⟩
  fits {c} hc := by
    obtain ⟨findings, hcheck⟩ := exists_check_eq settings h c
    rw [hcheck]
    exact hc

theorem Dereferences.succeeds_check (settings : Settings) (site : Site) :
    Succeeds (dereferences.check settings site) := by
  obtain ⟨place, node⟩ := site
  show Succeeds (check settings ⟨place, node⟩)
  cases node with
  | expr e =>
    by_cases hlink : isLink e = true
    · rw [check_of_isLink settings place hlink]
      exact .slotQuestion rfl
    · rw [check_of_not_isLink settings place hlink]
      exact .of_findings _
  | _ => exact Succeeds.silent settings

namespace Diagnostics

theorem succeeds_reportMissing (settings : Settings) (line : Nat) :
    Succeeds (reportMissing settings line) := by
  rw [reportMissing_eq_slotQuestion]
  exact .slotQuestion rfl

theorem succeeds_checkDirectives (settings : Settings) (directives : List Directive)
    (line : Nat) : Succeeds (checkDirectives settings directives line) := by
  cases h : (directives.filter (isRequired settings)).isEmpty with
  | true =>
    rw [checkDirectives_of_isEmpty settings line h]
    exact .silent settings
  | false =>
    rw [checkDirectives_eq_slotQuestion settings line h]
    exact .slotQuestion rfl

theorem succeeds_check (settings : Settings) (site : Site) :
    Succeeds (diagnostics.check settings site) := by
  obtain ⟨place, node⟩ := site
  cases node with
  | classDecl d => exact succeeds_reportMissing settings d.span.firstLine
  | stmt s =>
    obtain ⟨span, kind, comments⟩ := s
    cases kind with
    | declareBlock directives => exact succeeds_checkDirectives settings directives span.firstLine
    | namespaceBlock name body => exact succeeds_reportMissing settings span.firstLine
    | _ => exact Succeeds.silent settings
  | expr e => exact .of_findings _
  | _ => exact Succeeds.silent settings

end Diagnostics

/-- The nine rules succeed on the nodes that they want to see. -/
theorem succeeds_check (settings : Settings) (site : Site) :
    ∀ id, (ofId id).kinds.contains site.node.kind = true →
      Succeeds ((ofId id).check settings site)
  | .noComplexFlow, _ => .of_findings _
  | .fixedLoopBounds, h => LoopBounds.succeeds_check settings h
  | .noHeapAllocation, _ => .of_findings _
  | .functionLength, _ => .of_findings _
  | .minimumAssertions, _ => .of_findings _
  | .restrictDataScope, _ => .of_findings _
  | .checkReturnValue, _ => .of_findings _
  | .limitDereferences, _ => Dereferences.succeeds_check settings site
  | .mandatoryDiagnostics, _ => Diagnostics.succeeds_check settings site

theorem succeeds_finish (settings : Settings) (id : RuleId) :
    Succeeds ((ofId id).finish settings) := by
  by_cases h : id = .mandatoryDiagnostics
  · rw [h]
    exact Diagnostics.succeeds_reportMissing settings 1
  · rw [finish_of_ne settings h]
    exact .silent settings

end Rules

/-! ## Walks -/

theorem RuleId.word_ne_failureCode (id : RuleId) : id.word ≠ Finding.failureCode := by
  cases id <;> decide

namespace Dispatcher

open Rules

variable {ids : List RuleId} {settings : Settings}

/-- A rule that is asked about nodes of some kind is one of the nine and wants to see them. -/
theorem exists_eq_ofId_of_mem_routes {kind : NodeKind} {r : Rule}
    (hr : r ∈ (dispatcher ids settings).routes.get kind) :
    ∃ id, (ofId id).kinds.contains kind = true ∧ r = ofId id := by
  rw [get_routes_dispatcher] at hr
  obtain ⟨id, hid, rfl⟩ := List.mem_map.mp hr
  have hwants : wants settings kind id = true := (List.mem_filter.mp hid).2
  rw [wants, Bool.and_eq_true] at hwants
  exact ⟨id, hwants.1, rfl⟩

theorem exists_eq_ofId_of_mem_rules {p : Rule → Bool} {r : Rule}
    (hr : r ∈ (dispatcher ids settings).rules.filter p) : ∃ id, r = ofId id := by
  obtain ⟨id, -, rfl⟩ := List.mem_map.mp (List.mem_of_mem_filter hr)
  exact ⟨id, rfl⟩

/-- A finding of a rule that succeeds does not stand for a failure. -/
theorem isFailure_of_mem_settle {info : RuleInfo} {line : Nat} {q : Context → Outcome × Context}
    (hq : Confined info q) (hs : Succeeds q) {c : Context} (hc : c.Fits) {f : Finding}
    (hf : f ∈ settle settings info line (q c).2 (q c).1) : f.isFailure = false := by
  obtain ⟨findings, houtcome⟩ := hs.outcome hc
  have hsigned := hq.signed c findings houtcome
  have hcode : f.code = info.id.word := by
    rw [houtcome, settle] at hf
    split at hf
    · obtain ⟨g, hg, rfl⟩ := List.mem_map.mp hf
      exact (hsigned g hg).1
    · exact (hsigned f hf).1
  rw [Finding.isFailure, hcode]
  exact beq_eq_false_iff_ne.mpr info.id.word_ne_failureCode

end Dispatcher

namespace Comparison

open Dispatcher

/-- Slots fit, and no finding stands for a failure. -/
def fitting : Comparison := single Context.Fits fun f => f.isFailure = false

theorem fitting_answer {settings : Settings} {line : Nat} {info : RuleInfo}
    {q : Context → Outcome × Context} (hq : Confined info q) (hs : Succeeds q) :
    fitting.Runs (answer settings line info q) (answer settings line info q) :=
  fun _ _ hc => ⟨fun _ hf => isFailure_of_mem_settle hq hs hc hf, hs.fits hc⟩

/-- Wherever the walk of the nine rules comes, slots fit and nothing fails. -/
theorem walks_fitting (ids : List RuleId) (settings : Settings) :
    fitting.Walks (Rules.dispatcher ids settings) (Rules.dispatcher ids settings) Eq := by
  refine walks_single (fun _ hslots hc => hc.of_slots_eq hslots) (fun s r hr => ?_) fun _ r hr => ?_
  · obtain ⟨id, hkind, rfl⟩ := exists_eq_ofId_of_mem_routes hr
    exact fitting_answer (Rules.confined_check settings s id)
      (Rules.succeeds_check settings s id hkind)
  · obtain ⟨id, rfl⟩ := exists_eq_ofId_of_mem_rules hr
    exact fitting_answer (Rules.confined_finish settings id) (Rules.succeeds_finish settings id)

end Comparison

/-! ## The whole of a walk -/

namespace Dispatcher

/-- The contexts while rules are asked one after the other, from the first to the last. -/
def stages (question : Rule → Context → Outcome × Context) : List Rule → Context → List Context
  | [], c => [c]
  | rule :: rest, c => c :: stages question rest (question rule c).2

theorem mem_stages_self (question : Rule → Context → Outcome × Context) (rules : List Rule)
    (c : Context) : c ∈ stages question rules c := by
  cases rules <;> exact List.mem_cons_self ..

/-- The context in which the visit of a node leaves it, after all that is below. -/
def departure (d : Dispatcher) (depth : Nat) (site : Site) (c : Context) : Context :=
  (visitList (d.visit (depth + 1)) site.children (d.dispatch site (enter site c)).2).2

theorem fits_of_mem_stages {question : Rule → Context → Outcome × Context} {rules : List Rule}
    (h : ∀ r ∈ rules, Succeeds (question r)) {c : Context} (hc : c.Fits) :
    ∀ c' ∈ stages question rules c, c'.Fits := by
  induction rules generalizing c with
  | nil =>
    intro c' hc'
    rw [List.mem_singleton.mp hc']
    exact hc
  | cons rule rest ih =>
    intro c' hc'
    rcases List.mem_cons.mp hc' with rfl | hlater
    · exact hc
    · exact ih (fun r hr => h r (List.mem_cons_of_mem _ hr))
        ((h rule (List.mem_cons_self ..)).fits hc) c' hlater

section Single

variable {I : Context → Prop} {P : Finding → Prop} {d : Dispatcher}
  (h : (Comparison.single I P).Walks d d Eq)
include h

theorem enter_single {site : Site} (hsite : site.node.isFile = false) {c : Context} (hc : I c) :
    I (enter site c) := by
  have hcc : (Comparison.single I P).contexts c c := hc
  exact h.enter rfl hsite hsite hcc

theorem dispatch_single (site : Site) {c : Context} (hc : I c) : I (d.dispatch site c).2 := by
  have hruns : (Comparison.single I P).Runs (d.dispatch site) (d.dispatch site) := h.dispatch rfl
  exact (hruns c c hc).2

theorem visit_single_of_not_isFile {site : Site} (hsite : site.node.isFile = false) (depth : Nat)
    {c : Context} (hc : I c) : I (d.visit depth site c).2 :=
  (h.visit_single site depth (enter_single h hsite hc)).2

/-- What a walk preserves holds where it departs from a node. -/
theorem departure_single (site : Site) (depth : Nat) {c : Context} (hc : I (enter site c)) :
    I (d.departure depth site c) := by
  have hbelow : ∀ (sites : List Site), (∀ s ∈ sites, s.node.isFile = false) → ∀ {c}, I c →
      I (visitList (d.visit (depth + 1)) sites c).2 := by
    intro sites hsites
    induction sites with
    | nil => exact fun hc => hc
    | cons s rest ih =>
      intro c hc
      rw [visitList_cons]
      exact ih (fun t ht => hsites t (List.mem_cons_of_mem _ ht))
        (visit_single_of_not_isFile h (hsites s (List.mem_cons_self ..)) _ hc)
  exact hbelow _ (fun s hs => Site.isFile_of_mem_children hs) (dispatch_single h site hc)

theorem forall_arrivals {depth : Nat} {sites : List Site}
    (hsites : ∀ s ∈ sites, s.node.isFile = false) {c : Context} (hc : I c) :
    ∀ a ∈ d.arrivals depth sites c, I a.2 := by
  induction sites generalizing c with
  | nil => exact fun a ha => absurd ha List.not_mem_nil
  | cons s rest ih =>
    have hvisit := visit_single_of_not_isFile h (hsites s (List.mem_cons_self ..)) depth hc
    intro a ha
    rcases List.mem_cons.mp ha with rfl | hlater
    · exact hc
    · exact ih (fun t ht => hsites t (List.mem_cons_of_mem _ ht)) hvisit a hlater

/-- What a walk preserves holds at each of its moments. -/
theorem forall_moments (site : Site) (depth : Nat) {c : Context} (hc : I (enter site c)) :
    ∀ m ∈ d.moments depth site c, I m.context := by
  induction site using Walk.induct generalizing depth c with
  | step site ih =>
    intro m hm
    rw [moments_eq] at hm
    rcases List.mem_cons.mp hm with rfl | hbelow
    · exact hc
    · obtain ⟨a, ha, hm⟩ := List.mem_flatMap.mp hbelow
      have hchild := fst_mem_of_mem_arrivals ha
      have harrival := forall_arrivals h (fun s hs => Site.isFile_of_mem_children hs)
        (dispatch_single h site hc) a ha
      exact ih a.1 hchild (depth + 1)
        (enter_single h (Site.isFile_of_mem_children hchild) harrival) m hm

end Single

end Dispatcher

namespace Analyzer

open Dispatcher Rules

theorem fits_enter_ofFile (i : Nat) (f : SourceFile) (root : Option String) :
    (enter (.ofFile i f) (Context.empty.enterFile (.ofFile i f root))).Fits := by
  rw [enter_ofFile]
  exact Context.fits_of_slots_eq_nil rfl

/-- The nine rules never fail in a run, in any registration, with any settings and from any root.

* No finding of the report stands for a failure.
* The rule about loops gives findings on every node that is routed to it, in every context.
* Through the whole walk of a file, that is, before and after each rule that is asked about a node
  and before and after each last word, every slot is of the kind that its rule keeps. -/
theorem nine_rules_never_fail (ids : List RuleId) (settings : Settings) (root : Option String)
    (files : List SourceFile) :
    (∀ x ∈ ((analyzer ids settings root).analyze files).findings, x.isFailure = false) ∧
    (∀ site : Site, loopBounds ∈ (Rules.dispatcher ids settings).routes.get site.node.kind →
      ∀ c, ∃ findings, (loopBounds.check settings site c).1 = .ok findings) ∧
    ∀ i f,
      (∀ m ∈ (Rules.dispatcher ids settings).moments 0 (.ofFile i f)
          (Context.empty.enterFile (.ofFile i f root)),
        ∀ c ∈ stages (fun r c => r.check settings m.site c)
          ((Rules.dispatcher ids settings).routes.get m.site.node.kind) m.context, c.Fits) ∧
      ∀ c ∈ stages (fun r c => r.finish settings c)
        ((Rules.dispatcher ids settings).rules.filter fun r => settings.isActive r.id)
        ((Rules.dispatcher ids settings).departure 0 (.ofFile i f)
          (Context.empty.enterFile (.ofFile i f root))), c.Fits := by
  have hwalks := Comparison.walks_fitting ids settings
  refine ⟨?_, ?_, fun i f => ⟨?_, ?_⟩⟩
  · intro x hx
    obtain ⟨found, hfound, hmem⟩ := List.mem_flatten.mp (List.mem_mergeSort.mp hx)
    obtain ⟨i, hi, rfl⟩ := List.mem_mapIdx.mp hfound
    exact (hwalks.visit_single _ 0 (fits_enter_ofFile i files[i] root)).1 x hmem
  · intro site hsite c
    obtain ⟨id, hkind, hid⟩ := exists_eq_ofId_of_mem_routes hsite
    rw [← hid] at hkind
    obtain ⟨findings, hcheck⟩ := LoopBounds.exists_check_eq settings hkind c
    exact ⟨findings, congrArg Prod.fst hcheck⟩
  · intro m hm
    refine fits_of_mem_stages (fun r hr => ?_)
      (forall_moments hwalks _ 0 (fits_enter_ofFile i f root) m hm)
    obtain ⟨id, hkind, rfl⟩ := exists_eq_ofId_of_mem_routes hr
    exact succeeds_check settings m.site id hkind
  · refine fits_of_mem_stages (fun r hr => ?_)
      (departure_single hwalks _ 0 (fits_enter_ofFile i f root))
    obtain ⟨id, rfl⟩ := exists_eq_ofId_of_mem_rules hr
    exact succeeds_finish settings id

/-- A loop without a bound, among rules with and without a memory. -/
theorem nine_rules_never_fail_whileLoop :
    let ids : List RuleId := [.limitDereferences, .fixedLoopBounds, .mandatoryDiagnostics]
    let loop : Stmt := .ofKind (.whileLoop (.ofKind (.var "busy")) [])
    let f : SourceFile := ⟨"a.php", none, [loop]⟩
    loopBounds ∈ (Rules.dispatcher ids .default).routes.get (Node.stmt loop).kind ∧
      (∃ findings, (loopBounds.check .default ⟨.root 0, .stmt loop⟩ .empty).1 = .ok findings) ∧
      (∀ x ∈ ((analyzer ids .default none).analyze [f, f]).findings, x.isFailure = false) ∧
      ∃ m ∈ (Rules.dispatcher ids .default).moments 0 (.ofFile 0 f)
        (Context.empty.enterFile (.ofFile 0 f none)), m.context.Fits := by
  intro ids loop f
  obtain ⟨hfindings, hloops, hslots⟩ := nine_rules_never_fail ids .default none [f, f]
  have hrouted : loopBounds ∈ (Rules.dispatcher ids .default).routes.get (Node.stmt loop).kind := by
    rw [get_routes_dispatcher]
    exact List.mem_map.mpr ⟨.fixedLoopBounds, by decide, rfl⟩
  have hfirst : (⟨0, .ofFile 0 f, enter (.ofFile 0 f) (Context.empty.enterFile
      (.ofFile 0 f none))⟩ : Moment) ∈ (Rules.dispatcher ids .default).moments 0 (.ofFile 0 f)
        (Context.empty.enterFile (.ofFile 0 f none)) := by
    rw [moments_eq]
    exact List.mem_cons_self ..
  have hstage := (hslots 0 f).1 _ hfirst _ (mem_stages_self _ _ _)
  exact ⟨hrouted, hloops ⟨.root 0, .stmt loop⟩ hrouted _, hfindings, _, hfirst, hstage⟩

end Analyzer

end SafetyLint
