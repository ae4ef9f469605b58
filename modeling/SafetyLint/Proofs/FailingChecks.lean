import SafetyLint.Proofs.NoFailures
import SafetyLint.Tree.Build

/-!
# A check that fails leaves no trace

In a run of the nine rules nothing fails (`Analyzer.nine_rules_never_fail`), because every slot is of
the kind that its rule keeps.  Here the slots are arbitrary, as they are when a host shares the
context with the rules.  Then two rules can fail, and they fail when they ask for a slot of theirs
that holds something foreign.

When a rule asks for its slot is seen from the node.  The rule about chains asks on every link; the
rule about headers asks where a header ends and where a required directive is declared, and once more
at the end of the file.  A question to a slot changes nothing unless it is answered, and of the
directives of one statement it is the first required one that fails, with nothing done before it.
`FailsCleanly` holds both halves, and there is one lemma for each question.
-/

namespace SafetyLint

open SafetyLint.Tree Config

namespace Context

/-- The rule has a slot, and of another kind. -/
def IsForeign (c : Context) (k : SlotKind) (rule : RuleId) : Prop :=
  ∃ s, c.slots.lookup rule = some s ∧ s.kind ≠ k

theorem slot_eq_error_iff {c : Context} {k : SlotKind} {rule : RuleId} {e : RuleError} :
    c.slot k rule = .error e ↔ e = slotError rule ∧ c.IsForeign k rule := by
  constructor
  · intro h
    cases hs : c.slots.lookup rule with
    | none =>
      rw [slot_of_lookup_eq_none k hs] at h
      cases h
    | some s =>
      by_cases hk : s.kind = k
      · subst hk
        rw [slot_of_lookup_eq_some hs] at h
        cases h
      · rw [slot_of_kind_ne hs hk] at h
        cases h
        exact ⟨rfl, s, hs, hk⟩
  · rintro ⟨rfl, s, hs, hk⟩
    exact slot_of_kind_ne hs hk

end Context

/-! ## Questions that fail cleanly -/

/-- The question fails in just the contexts named, always with the same error, and leaves those
contexts as they are. -/
structure FailsCleanly (q : Context → Outcome × Context) (e : RuleError) (fails : Context → Prop) :
    Prop where
  outcome : ∀ c e', (q c).1 = .error e' ↔ e' = e ∧ fails c
  context : ∀ c, fails c → (q c).2 = c

namespace FailsCleanly

variable {q : Context → Outcome × Context} {e : RuleError} {fails : Context → Prop}

theorem congr {fails' : Context → Prop} (h : FailsCleanly q e fails)
    (hfails : ∀ c, fails c ↔ fails' c) : FailsCleanly q e fails' where
  outcome c e' := (h.outcome c e').trans (and_congr_right fun _ => hfails c)
  context c hc := h.context c ((hfails c).mpr hc)

theorem unchanged (h : FailsCleanly q e fails) {c : Context} {e' : RuleError}
    (hq : (q c).1 = .error e') : (q c).2 = c :=
  h.context c ((h.outcome c e').mp hq).2

/-- A question that gives findings in every context does not fail. -/
theorem of_findings (findings : Context → List Finding) (e : RuleError) :
    FailsCleanly (fun c => (.ok (findings c), c)) e fun _ => False where
  outcome c e' := ⟨fun h => (by cases h), fun h => h.2.elim⟩
  context _ h := h.elim

theorem slotQuestion (info : RuleInfo) (k : SlotKind) (line : Nat)
    (step : k.Value → List String × k.Value) :
    FailsCleanly (slotQuestion info k line step) (Context.slotError info.id)
      fun c => c.IsForeign k info.id where
  outcome c e' := by
    rw [← Context.slot_eq_error_iff]
    cases hslot : c.slot k info.id with
    | error err =>
      rw [slotQuestion_of_error hslot]
      exact ⟨fun h => (by cases h; rfl), fun h => (by cases h; rfl)⟩
    | ok v =>
      rw [slotQuestion_of_ok hslot]
      exact ⟨fun h => (by cases h), fun h => (by cases h)⟩
  context c hc := by
    rw [slotQuestion_of_error (Context.slot_eq_error_iff.mpr ⟨rfl, hc⟩)]

end FailsCleanly

namespace Rules

/-! ## Chains -/

theorem Dereferences.isLink_iff {e : Expr} :
    isLink e = true ↔ (Node.expr e).kind = .methodCall ∨ (Node.expr e).kind = .propertyFetch := by
  obtain ⟨span, kind, type⟩ := e
  cases kind with
  | methodCall receiver method args => exact iff_of_true rfl (.inl rfl)
  | propertyFetch object property => exact iff_of_true rfl (.inr rfl)
  | _ => exact iff_of_false Bool.false_ne_true (by rintro (h | h) <;> cases h)

theorem Dereferences.kind_stmt_ne_link (s : Stmt) :
    ¬ ((Node.stmt s).kind = .methodCall ∨ (Node.stmt s).kind = .propertyFetch) := by
  obtain ⟨span, kind, comments⟩ := s
  rintro (h | h) <;> cases kind <;> cases h

/-- The rule about chains asks its slot on every link. -/
theorem Dereferences.failsCleanly_check (settings : Settings) (site : Site) :
    FailsCleanly (dereferences.check settings site) (Context.slotError .limitDereferences)
      fun c => c.IsForeign .links .limitDereferences ∧
        (site.node.kind = .methodCall ∨ site.node.kind = .propertyFetch) := by
  obtain ⟨place, node⟩ := site
  have hsilent : ¬ (node.kind = .methodCall ∨ node.kind = .propertyFetch) →
      dereferences.check settings ⟨place, node⟩ = Rule.silent settings →
      FailsCleanly (dereferences.check settings ⟨place, node⟩)
        (Context.slotError .limitDereferences)
        fun c => c.IsForeign .links .limitDereferences ∧
          (node.kind = .methodCall ∨ node.kind = .propertyFetch) := by
    intro hkind hcheck
    rw [hcheck]
    exact (FailsCleanly.of_findings _ _).congr fun _ => ⟨False.elim, fun h => hkind h.2⟩
  cases node with
  | expr e =>
    show FailsCleanly (check settings ⟨place, .expr e⟩) _ _
    by_cases hlink : isLink e = true
    · rw [check_of_isLink settings place hlink]
      refine (FailsCleanly.slotQuestion info .links _ _).congr fun c => ?_
      exact ⟨fun h => ⟨h, isLink_iff.mp hlink⟩, fun h => h.1⟩
    · rw [check_of_not_isLink settings place hlink]
      refine (FailsCleanly.of_findings _ _).congr fun c => ?_
      exact ⟨False.elim, fun h => hlink (isLink_iff.mpr h.2)⟩
  | stmt s => exact hsilent (kind_stmt_ne_link s) rfl
  | _ => exact hsilent (by rintro (h | h) <;> cases h) rfl

/-! ## Headers -/

namespace Diagnostics

/-- The rule about headers asks its slot on the node: the node ends a header, or it declares a
directive that is required. -/
def AsksAt (settings : Settings) (n : Node) : Prop :=
  (∃ d, n = .classDecl d) ∨
  (∃ s name body, n = .stmt s ∧ s.kind = .namespaceBlock name body) ∨
  ∃ s directives, n = .stmt s ∧ s.kind = .declareBlock directives ∧
    ∃ d ∈ directives, ∃ value, (d.name, value) ∈ settings.requiredDirectives

theorem failsCleanly_reportMissing (settings : Settings) (line : Nat) :
    FailsCleanly (reportMissing settings line) (Context.slotError .mandatoryDiagnostics)
      fun c => c.IsForeign .header .mandatoryDiagnostics := by
  rw [reportMissing_eq_slotQuestion]
  exact FailsCleanly.slotQuestion info .header line _

theorem isRequired_iff {settings : Settings} {d : Directive} :
    isRequired settings d = true ↔ ∃ value, (d.name, value) ∈ settings.requiredDirectives := by
  rw [isRequired, List.lookup_isSome_iff]
  constructor
  · rintro ⟨⟨name, value⟩, hp, hname⟩
    obtain rfl : d.name = name := eq_of_beq hname
    exact ⟨value, hp⟩
  · rintro ⟨value, hp⟩
    exact ⟨_, hp, beq_self_eq_true _⟩

/-- A declare statement asks if it names a required directive. -/
theorem failsCleanly_checkDirectives (settings : Settings) (directives : List Directive)
    (line : Nat) :
    FailsCleanly (checkDirectives settings directives line)
      (Context.slotError .mandatoryDiagnostics) fun c =>
        c.IsForeign .header .mandatoryDiagnostics ∧
          ∃ d ∈ directives, isRequired settings d = true := by
  cases h : (directives.filter (isRequired settings)).isEmpty with
  | true =>
    have hnone : ¬ ∃ d ∈ directives, isRequired settings d = true := by
      rintro ⟨d, hd, hrequired⟩
      have hmem := List.mem_filter.mpr ⟨hd, hrequired⟩
      rw [List.isEmpty_iff.mp h] at hmem
      exact List.not_mem_nil hmem
    rw [checkDirectives_of_isEmpty settings line h]
    exact (FailsCleanly.of_findings _ _).congr fun _ => ⟨False.elim, fun hc => hnone hc.2⟩
  | false =>
    have hsome : ∃ d ∈ directives, isRequired settings d = true := by
      obtain ⟨d, hd⟩ := List.exists_mem_of_ne_nil _ (List.isEmpty_eq_false_iff.mp h)
      exact ⟨d, (List.mem_filter.mp hd).1, (List.mem_filter.mp hd).2⟩
    rw [checkDirectives_eq_slotQuestion settings line h]
    refine (FailsCleanly.slotQuestion info .header line _).congr fun c => ?_
    exact ⟨fun hc => ⟨hc, hsome⟩, fun hc => hc.1⟩

theorem failsCleanly_check (settings : Settings) (site : Site) :
    FailsCleanly (diagnostics.check settings site) (Context.slotError .mandatoryDiagnostics)
      fun c => c.IsForeign .header .mandatoryDiagnostics ∧ AsksAt settings site.node := by
  obtain ⟨place, node⟩ := site
  cases node with
  | classDecl d =>
    refine (failsCleanly_reportMissing settings d.span.firstLine).congr fun c => ?_
    exact ⟨fun hc => ⟨hc, .inl ⟨d, rfl⟩⟩, fun hc => hc.1⟩
  | stmt s =>
    obtain ⟨span, kind, comments⟩ := s
    cases kind with
    | namespaceBlock name body =>
      refine (failsCleanly_reportMissing settings span.firstLine).congr fun c => ?_
      exact ⟨fun hc => ⟨hc, .inr (.inl ⟨_, name, body, rfl, rfl⟩)⟩, fun hc => hc.1⟩
    | declareBlock directives =>
      refine (failsCleanly_checkDirectives settings directives span.firstLine).congr fun c => ?_
      refine and_congr_right fun _ => ⟨?_, ?_⟩
      · rintro ⟨d, hd, hrequired⟩
        exact .inr (.inr ⟨_, directives, rfl, rfl, d, hd, isRequired_iff.mp hrequired⟩)
      · rintro (⟨_, h⟩ | ⟨_, _, _, h, hkind⟩ | ⟨_, _, h, hkind, d, hd, hrequired⟩)
        · cases h
        · cases h
          cases hkind
        · cases h
          cases hkind
          exact ⟨d, hd, isRequired_iff.mpr hrequired⟩
    | _ =>
      refine (FailsCleanly.of_findings (fun _ => []) _).congr fun c => ⟨False.elim, ?_⟩
      rintro ⟨-, ⟨_, h⟩ | ⟨_, _, _, h, hkind⟩ | ⟨_, _, h, hkind, -⟩⟩ <;> cases h <;> cases hkind
  | _ =>
    refine (FailsCleanly.of_findings _ _).congr fun c => ⟨False.elim, ?_⟩
    rintro ⟨-, ⟨_, h⟩ | ⟨_, _, _, h, -⟩ | ⟨_, _, h, -⟩⟩ <;> cases h

end Diagnostics

/-! ## All rules -/

/-- The rules without a memory succeed on the nodes that they want to see. -/
theorem exists_check_eq_of_ne (settings : Settings) {id : RuleId} {site : Site}
    (hlinks : id ≠ .limitDereferences) (hheader : id ≠ .mandatoryDiagnostics)
    (hkind : (ofId id).kinds.contains site.node.kind = true) (c : Context) :
    ∃ findings, (ofId id).check settings site c = (.ok findings, c) := by
  cases id with
  | fixedLoopBounds => exact LoopBounds.exists_check_eq settings hkind c
  | limitDereferences => exact absurd rfl hlinks
  | mandatoryDiagnostics => exact absurd rfl hheader
  | _ => exact ⟨_, rfl⟩

theorem snd_check_of_error (settings : Settings) (id : RuleId) (site : Site) {c : Context}
    {e : RuleError} (h : ((ofId id).check settings site c).1 = .error e) :
    ((ofId id).check settings site c).2 = c := by
  by_cases hlinks : id = .limitDereferences
  · subst hlinks
    exact (Dereferences.failsCleanly_check settings site).unchanged h
  · by_cases hheader : id = .mandatoryDiagnostics
    · subst hheader
      exact (Diagnostics.failsCleanly_check settings site).unchanged h
    · exact snd_check_of_ne settings hlinks hheader site c

theorem snd_finish_of_error (settings : Settings) (id : RuleId) {c : Context} {e : RuleError}
    (h : ((ofId id).finish settings c).1 = .error e) :
    ((ofId id).finish settings c).2 = c := by
  by_cases hheader : id = .mandatoryDiagnostics
  · subst hheader
    exact (Diagnostics.failsCleanly_reportMissing settings 1).unchanged h
  · rw [finish_of_ne settings hheader]
    rfl

/-- When the nine rules fail, and that a failure leaves no trace, in any context: whatever file and
scopes are open, and whatever the slots hold.

* The rule about chains fails exactly on method calls and property accesses while its slot holds
  something foreign.
* The rule about headers fails exactly while its slot holds something foreign, on a class, on a
  namespace and on a declare statement that names some required directive; its last word fails
  whenever the slot is foreign.
* The other seven succeed on every node of their kinds, the rule about loops whatever it is told
  about types, and the other eight have no last word that could fail.
* A check or a last word that fails leaves the context as it was. -/
theorem failing_checks_leave_no_trace (settings : Settings) (site : Site) (c : Context) :
    (∀ e, (dereferences.check settings site c).1 = .error e ↔
      e = Context.slotError .limitDereferences ∧ c.IsForeign .links .limitDereferences ∧
        (site.node.kind = .methodCall ∨ site.node.kind = .propertyFetch)) ∧
    (∀ e, (diagnostics.check settings site c).1 = .error e ↔
      e = Context.slotError .mandatoryDiagnostics ∧
        c.IsForeign .header .mandatoryDiagnostics ∧ Diagnostics.AsksAt settings site.node) ∧
    (∀ e, (diagnostics.finish settings c).1 = .error e ↔
      e = Context.slotError .mandatoryDiagnostics ∧ c.IsForeign .header .mandatoryDiagnostics) ∧
    (∀ id, id ≠ .limitDereferences → id ≠ .mandatoryDiagnostics →
      (ofId id).kinds.contains site.node.kind = true →
        ∃ findings, (ofId id).check settings site c = (.ok findings, c)) ∧
    (∀ typeOf, (loopBoundsBy typeOf).kinds.contains site.node.kind = true →
      ∃ findings, (loopBoundsBy typeOf).check settings site c = (.ok findings, c)) ∧
    (∀ id, id ≠ .mandatoryDiagnostics → (ofId id).finish settings c = (.ok [], c)) ∧
    (∀ id e, ((ofId id).check settings site c).1 = .error e →
      ((ofId id).check settings site c).2 = c) ∧
    ∀ id e, ((ofId id).finish settings c).1 = .error e →
      ((ofId id).finish settings c).2 = c := by
  refine ⟨(Dereferences.failsCleanly_check settings site).outcome c,
    (Diagnostics.failsCleanly_check settings site).outcome c,
    (Diagnostics.failsCleanly_reportMissing settings 1).outcome c, ?_, ?_, ?_, ?_, ?_⟩
  · intro id hlinks hheader hkind
    exact exists_check_eq_of_ne settings hlinks hheader hkind c
  · intro typeOf hkind
    exact LoopBounds.exists_check_by_eq typeOf settings hkind c
  · intro id hheader
    rw [finish_of_ne settings hheader]
    rfl
  · intro id e h
    exact snd_check_of_error settings id site h
  · intro id e h
    exact snd_finish_of_error settings id h

/-- A directive that is required comes second in a statement, while a host keeps a note where the
rule about headers expects its own, and a loop is met in the same context. -/
theorem failing_checks_leave_no_trace_hostNote :
    let declared : Stmt := .ofKind (.declareBlock
      [⟨"encoding", .text "UTF-8"⟩, ⟨"strict_types", .int 1⟩])
    let loop : Stmt := .whileLoop (.var "busy") []
    let c : Context := ⟨none, [⟨.named "f" 1 9, .function⟩], [],
      [(.limitDereferences, ⟨.links, ([.root 0] : List Place)⟩),
        (.mandatoryDiagnostics, ⟨.note, "mine"⟩)]⟩
    (diagnostics.check .default ⟨.root 0, .stmt declared⟩ c).1 =
        .error (Context.slotError .mandatoryDiagnostics) ∧
      (diagnostics.check .default ⟨.root 0, .stmt declared⟩ c).2 = c ∧
      (diagnostics.finish .default c).2 = c ∧
      (∃ findings, loopBounds.check .default ⟨.root 0, .stmt loop⟩ c = (.ok findings, c)) ∧
      dereferences.finish .default c = (.ok [], c) := by
  intro declared loop c
  have hforeign : c.IsForeign .header .mandatoryDiagnostics :=
    ⟨⟨.note, "mine"⟩, rfl, by decide⟩
  have hrequired : ∃ d ∈ [⟨"encoding", .text "UTF-8"⟩, ⟨"strict_types", .int 1⟩],
      ∃ value, (Directive.name d, value) ∈ Settings.default.requiredDirectives :=
    ⟨⟨"strict_types", .int 1⟩, List.mem_cons_of_mem _ (List.mem_cons_self ..), some (.int 1),
      List.mem_cons_self ..⟩
  obtain ⟨-, hcheck, hfinish, -, -, hsilent, hunchanged, hlast⟩ :=
    failing_checks_leave_no_trace .default ⟨.root 0, .stmt declared⟩ c
  obtain ⟨-, -, -, hothers, -⟩ := failing_checks_leave_no_trace .default ⟨.root 0, .stmt loop⟩ c
  have herror := (hcheck _).mpr
    ⟨rfl, hforeign, .inr (.inr ⟨declared, _, rfl, rfl, hrequired⟩)⟩
  exact ⟨herror, hunchanged .mandatoryDiagnostics _ herror,
    hlast .mandatoryDiagnostics _ ((hfinish _).mpr ⟨rfl, hforeign⟩),
    hothers .fixedLoopBounds (by decide) (by decide) rfl,
    hsilent .limitDereferences (by decide)⟩

end Rules
end SafetyLint
