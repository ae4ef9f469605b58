import SafetyLint.Config.Basic
import SafetyLint.Rules.ComplexFlow
import SafetyLint.Engine.Dispatcher
import Mathlib.Data.List.Nodup

/-!
# Routing

A dispatcher looks up the rules to ask in a table that was made once, from the numbers of the active
rules.  The table is only a short cut.  What a dispatcher does on a node is to go through the rules
in the order of their registration, to pass by those that are off or do not want to see the node,
and to ask each of the others in the context that the one before left.  `InTurn` says this without a
table, and says what a rule that fails costs: one finding, and nothing to the rules behind it.

The table is read off first (`Routes.get_build`).  A rule that names a kind twice stands twice under
it, so the rules are asked to name each of their kinds once.
-/

namespace SafetyLint

open SafetyLint.Tree Config

/-! ## The table -/

namespace RouteTable

theorem get_cons (j k : NodeKind) (numbers : List Nat) (rest : RouteTable) :
    get ((j, numbers) :: rest) k = if k = j then numbers else get rest k := by
  by_cases h : k = j
  · subst h
    simp [get]
  · have hne : (k == j) = false := beq_eq_false_iff_ne.mpr h
    simp [get, List.lookup_cons, hne, h]

/-- A number that is added under a kind stands behind those of that kind. -/
theorem get_add (number : Nat) (kind k : NodeKind) (table : RouteTable) :
    (add number kind table).get k = table.get k ++ if k = kind then [number] else [] := by
  induction table with
  | nil =>
    rw [add, get_cons]
    rfl
  | cons entry rest ih =>
    obtain ⟨j, numbers⟩ := entry
    rw [add]
    by_cases hj : j = kind
    · rw [if_pos hj, get_cons, get_cons, hj]
      by_cases h : k = kind <;> simp [h]
    · rw [if_neg hj, get_cons, get_cons, ih]
      by_cases h : k = j
      · rw [if_pos h, if_pos h, if_neg (fun e => hj (h.symm.trans e)), List.append_nil]
      · rw [if_neg h, if_neg h]

/-- The number of a registered rule stands behind the others, once for each time the rule names the
kind. -/
theorem get_register (table : RouteTable) (entry : Rule × Nat) (k : NodeKind) :
    (table.register entry).get k =
      table.get k ++ List.replicate (entry.1.kinds.count k) entry.2 := by
  rw [register]
  generalize entry.1.kinds = kinds
  induction kinds generalizing table with
  | nil => simp
  | cons kind rest ih =>
    rw [List.foldl_cons, ih, get_add, List.append_assoc, List.count_cons]
    by_cases h : k = kind
    · simp [h, List.replicate_succ]
    · have hne : (kind == k) = false := by simpa using fun e => h e.symm
      simp [h, hne]

theorem get_foldl_register (table : RouteTable) (entries : List (Rule × Nat)) (k : NodeKind) :
    (entries.foldl register table).get k =
      table.get k ++ entries.flatMap fun e => List.replicate (e.1.kinds.count k) e.2 := by
  induction entries generalizing table with
  | nil => simp
  | cons entry rest ih =>
    rw [List.foldl_cons, ih, get_register, List.append_assoc, List.flatMap_cons]

end RouteTable

namespace Routes

/-- Numbers that stand for rules are looked up as these rules. -/
theorem filterMap_getElem?_flatMap {rules : List Rule} {entries : List (Rule × Nat)}
    (h : ∀ e ∈ entries, rules[e.2]? = some e.1) (count : Rule → Nat) :
    (entries.flatMap fun e => List.replicate (count e.1) e.2).filterMap
        (fun number => rules[number]?) =
      (entries.map Prod.fst).flatMap fun r => List.replicate (count r) r := by
  induction entries with
  | nil => rfl
  | cons entry rest ih =>
    have hentry := h entry (List.mem_cons_self ..)
    have hrest := ih fun e he => h e (List.mem_cons_of_mem _ he)
    rw [List.flatMap_cons, List.filterMap_append, hrest, List.map_cons, List.flatMap_cons,
      List.filterMap_replicate_of_some hentry]

/-- Under a kind stand the active rules in the order of their registration, each as often as it
names the kind. -/
theorem get_build (rules : List Rule) (settings : Settings) (kind : NodeKind) :
    (Dispatcher.build rules settings).routes.get kind =
      (rules.filter fun r => settings.isActive r.id).flatMap fun r =>
        List.replicate (r.kinds.count kind) r := by
  have hnumbers : ∀ e ∈ rules.zipIdx.filter (fun e => settings.isActive e.1.id),
      rules[e.2]? = some e.1 := by
    intro e he
    exact List.mem_zipIdx_iff_getElem?.mp (List.mem_of_mem_filter he)
  have hactive : (rules.zipIdx.filter fun e => settings.isActive e.1.id).map Prod.fst =
      rules.filter fun r => settings.isActive r.id := by
    have hfilter := List.filter_map (f := Prod.fst) (p := fun r : Rule => settings.isActive r.id)
      (l := rules.zipIdx)
    rw [List.zipIdx_map_fst] at hfilter
    exact hfilter.symm
  rw [Routes.get, Dispatcher.routes, Dispatcher.build, RouteTable.get_foldl_register, ← hactive]
  exact filterMap_getElem?_flatMap hnumbers fun r => r.kinds.count kind

end Routes

/-! ## Rule by rule -/

/-- The rule is enabled, not excepted, and wants to see nodes of the kind. -/
def Rule.IsAsked (settings : Settings) (kind : NodeKind) (rule : Rule) : Prop :=
  rule.id ∈ settings.enabled ∧ rule.id ∉ settings.excepted ∧ kind ∈ rule.kinds

instance (settings : Settings) (kind : NodeKind) (rule : Rule) :
    Decidable (rule.IsAsked settings kind) :=
  inferInstanceAs (Decidable (_ ∧ _ ∧ _))

theorem Rule.isAsked_iff {settings : Settings} {kind : NodeKind} {rule : Rule} :
    rule.IsAsked settings kind ↔ settings.isActive rule.id = true ∧ kind ∈ rule.kinds := by
  simp [IsAsked, Settings.isActive, and_assoc]

/-- If the rules name each of their kinds once, the rules under a kind are those that are asked
about it, in the order of their registration. -/
theorem Routes.get_build_of_nodup {rules : List Rule} (hkinds : ∀ r ∈ rules, r.kinds.Nodup)
    (settings : Settings) (kind : NodeKind) :
    (Dispatcher.build rules settings).routes.get kind =
      rules.filter fun r => r.IsAsked settings kind := by
  rw [get_build]
  induction rules with
  | nil => rfl
  | cons r rest ih =>
    have hrest := ih fun s hs => hkinds s (List.mem_cons_of_mem _ hs)
    have hnodup := hkinds r (List.mem_cons_self ..)
    cases hactive : settings.isActive r.id with
    | false => simp [Rule.isAsked_iff, hactive, hrest]
    | true =>
      by_cases hkind : kind ∈ r.kinds
      · simp [Rule.isAsked_iff, hactive, hkind, hrest, List.count_eq_one_of_mem hnodup hkind]
      · simp [Rule.isAsked_iff, hactive, hkind, hrest, List.count_eq_zero_of_not_mem hkind]

/-- Going through rules one after the other at a site takes a context to some findings and another
context. -/
inductive InTurn (settings : Settings) (site : Site) :
    List Rule → Context → List Finding → Context → Prop
  | done (c : Context) : InTurn settings site [] c [] c
  /-- A rule that is off, or that does not want to see the node, is not asked. -/
  | passed {rule : Rule} {rest : List Rule} {c last : Context} {later : List Finding}
      (hrule : ¬ rule.IsAsked settings site.node.kind)
      (hrest : InTurn settings site rest c later last) :
      InTurn settings site (rule :: rest) c later last
  /-- A rule that answers gives its findings, with the severity that the settings ask for. -/
  | answered {rule : Rule} {rest : List Rule} {c next last : Context}
      {findings later : List Finding} (hrule : rule.IsAsked settings site.node.kind)
      (hcheck : rule.check settings site c = (.ok findings, next))
      (hrest : InTurn settings site rest next later last) :
      InTurn settings site (rule :: rest) c
        (findings.map (fun f => { f with severity := (settings.severity? rule.id).getD f.severity })
          ++ later) last
  /-- A rule that fails costs one error, on the line of the node in the file that is open then. -/
  | failed {rule : Rule} {rest : List Rule} {c next last : Context} {e : RuleError}
      {later : List Finding} (hrule : rule.IsAsked settings site.node.kind)
      (hcheck : rule.check settings site c = (.error e, next))
      (hrest : InTurn settings site rest next later last) :
      InTurn settings site (rule :: rest) c
        (⟨"analysis_error", rule.name, .error,
            ⟨(next.file.map OpenFile.shown).getD "", site.node.line⟩,
            "An error occurred while processing rule " ++ rule.id.word ++ ": " ++ e.message,
            none⟩ :: later) last

namespace Dispatcher

theorem settle_ok_eq_map (settings : Settings) (info : RuleInfo) (line : Nat) (c : Context)
    (findings : List Finding) :
    settle settings info line c (.ok findings) =
      findings.map fun f =>
        { f with severity := (settings.severity? info.id).getD f.severity } := by
  rw [settle]
  cases settings.severity? info.id with
  | some severity => rfl
  | none => exact (List.map_id findings).symm

/-- Asking those rules that are to be asked is going through all rules in turn. -/
theorem inTurn_ask (settings : Settings) (site : Site) (rules : List Rule) (c : Context) :
    InTurn settings site rules c
      (ask settings site.node.line (fun rule c => rule.check settings site c)
        (rules.filter fun r => r.IsAsked settings site.node.kind) c).1
      (ask settings site.node.line (fun rule c => rule.check settings site c)
        (rules.filter fun r => r.IsAsked settings site.node.kind) c).2 := by
  induction rules generalizing c with
  | nil => exact .done c
  | cons rule rest ih =>
    by_cases hrule : rule.IsAsked settings site.node.kind
    · have hkeep : (rule :: rest).filter (fun r => r.IsAsked settings site.node.kind) =
          rule :: rest.filter fun r => r.IsAsked settings site.node.kind :=
        List.filter_cons_of_pos (decide_eq_true hrule)
      rw [hkeep]
      cases hcheck : rule.check settings site c with
      | mk outcome next =>
        cases outcome with
        | ok findings =>
          simp only [ask, hcheck, settle_ok_eq_map]
          exact .answered hrule hcheck (ih next)
        | error e =>
          simp only [ask, hcheck]
          exact .failed hrule hcheck (ih next)
    · have hdrop : (rule :: rest).filter (fun r => r.IsAsked settings site.node.kind) =
          rest.filter fun r => r.IsAsked settings site.node.kind :=
        List.filter_cons_of_neg (by simpa using hrule)
      rw [hdrop]
      exact .passed hrule (ih c)

end Dispatcher

/-- There is one way to go through the rules. -/
theorem InTurn.unique {settings : Settings} {site : Site} {rules : List Rule}
    {c last last' : Context} {found found' : List Finding}
    (h : InTurn settings site rules c found last) (h' : InTurn settings site rules c found' last') :
    found = found' ∧ last = last' := by
  induction h generalizing found' with
  | done c =>
    cases h'
    exact ⟨rfl, rfl⟩
  | passed hrule _ ih =>
    cases h' with
    | passed _ hrest => exact ih hrest
    | answered hasked => exact absurd hasked hrule
    | failed hasked => exact absurd hasked hrule
  | answered hrule hcheck _ ih =>
    cases h' with
    | passed hpassed => exact absurd hrule hpassed
    | answered _ hcheck' hrest =>
      cases hcheck.symm.trans hcheck'
      obtain ⟨rfl, rfl⟩ := ih hrest
      exact ⟨rfl, rfl⟩
    | failed _ hcheck' => cases hcheck.symm.trans hcheck'
  | failed hrule hcheck _ ih =>
    cases h' with
    | passed hpassed => exact absurd hrule hpassed
    | answered _ hcheck' => cases hcheck.symm.trans hcheck'
    | failed _ hcheck' hrest =>
      cases hcheck.symm.trans hcheck'
      obtain ⟨rfl, rfl⟩ := ih hrest
      exact ⟨rfl, rfl⟩

namespace Dispatcher

/-- What the table of routes leads to is what going through the registered rules in turn leads to,
for any rules that name each of their kinds once, registered in any order and any number, on any
node and in any context. -/
theorem dispatch_eq_iff_inTurn {rules : List Rule} (hkinds : ∀ r ∈ rules, r.kinds.Nodup)
    (settings : Settings) (site : Site) (c last : Context) (found : List Finding) :
    (build rules settings).dispatch site c = (found, last) ↔
      InTurn settings site rules c found last := by
  have hturn : InTurn settings site rules c ((build rules settings).dispatch site c).1
      ((build rules settings).dispatch site c).2 := by
    rw [dispatch, Routes.get_build_of_nodup hkinds]
    exact inTurn_ask settings site rules c
  constructor
  · intro h
    rw [h] at hturn
    exact hturn
  · intro h
    obtain ⟨hfound, hlast⟩ := hturn.unique h
    exact Prod.ext hfound hlast

/-- A rule that fails before and behind a rule that answers, with a rule between them that is
off. -/
theorem dispatch_eq_iff_inTurn_failing :
    let failing : Rule :=
      ⟨⟨.limitDereferences, "limit-dereferences", "", .error⟩, [.goto, .call],
        fun _ _ c => (.error (.internal "no links"), c), Rule.silent⟩
    let rules : List Rule :=
      [failing, Rules.complexFlow, { failing with id := .noHeapAllocation }, failing]
    let settings : Settings :=
      { Settings.default with
        excepted := [.noHeapAllocation]
        severities := [(.limitDereferences, .info), (.noComplexFlow, .warning)] }
    let failure : Finding :=
      ⟨"analysis_error", "limit-dereferences", .error, ⟨"", 4⟩,
        "An error occurred while processing rule rule_9: internal error: no links", none⟩
    (∀ r ∈ rules, r.kinds.Nodup) ∧
      InTurn settings ⟨.root 0, .stmt ⟨.line 4, .goto "end", []⟩⟩ rules .empty
        [failure,
          ⟨"rule_1", "no-complex-flow", .warning, ⟨"", 4⟩, "Goto statements are not allowed.",
            none⟩,
          failure]
        .empty := by
  intro failing rules settings failure
  have hkinds : ∀ r ∈ rules, r.kinds.Nodup := by
    intro r hr
    simp only [rules, List.mem_cons, List.not_mem_nil, or_false] at hr
    rcases hr with rfl | rfl | rfl | rfl <;> decide
  exact ⟨hkinds, (dispatch_eq_iff_inTurn hkinds settings _ _ _ _).mp rfl⟩

end Dispatcher

end SafetyLint
