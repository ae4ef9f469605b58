import SafetyLint.Proofs.Stops
import Mathlib.Data.List.Forall2

/-!
# Two walks side by side

A run takes a context to findings and the context it leaves.  Asking rules in a row, visiting
children in a row and visiting a node are runs put together with `Run.andThen`.

Two runs are held against each other by a `Comparison`: it says which contexts compare and which
lists of findings do.  `Comparison.Runs` is the usual two-run statement, that from contexts that
compare both runs find things that compare and end in contexts that compare, and what two pairs of
runs satisfy their sequences satisfy.  So a statement about two walks comes down to one about each
pair of nodes, which is `Comparison.Walks`, and the law is `Comparison.Walks.visit`.

A file is entered in another way than everything below it, since it may already be open.  Therefore
the law asks that the contexts compare once the top nodes are entered, and nothing at all about
entering files: below a node there are none.

Statements about one walk are the case in which the second side is not looked at
(`Comparison.single`).
-/

namespace SafetyLint

open SafetyLint.Tree Config

/-! ## Runs -/

/-- Takes a context to some findings and the context that is left. -/
abbrev Run := Context → List Finding × Context

/-- One run after the other. -/
def Run.andThen (first second : Run) : Run := fun c =>
  ((first c).1 ++ (second (first c).2).1, (second (first c).2).2)

namespace Dispatcher

/-- The answer of one rule as a run. -/
def answer (settings : Settings) (line : Nat) (info : RuleInfo)
    (q : Context → Outcome × Context) : Run := fun c =>
  (settle settings info line (q c).2 (q c).1, (q c).2)

theorem ask_eq_andThen {settings : Settings} {line : Nat}
    (question : Rule → Context → Outcome × Context) (rule : Rule) (rest : List Rule) :
    ask settings line question (rule :: rest) =
      (answer settings line rule.toRuleInfo (question rule)).andThen
        (ask settings line question rest) := rfl

/-- The findings of what happens on a visit, and the context it leaves. -/
def found (visit : Context → List Event × Context) : Run := fun c =>
  ((visit c).1.flatMap Event.findings, (visit c).2)

theorem found_visitList_cons {α : Type} (visitOne : α → Context → List Event × Context) (a : α)
    (rest : List α) :
    found (visitList visitOne (a :: rest)) =
      (found (visitOne a)).andThen (found (visitList visitOne rest)) := by
  funext c
  rw [found, visitList_cons, List.flatMap_append]
  rfl

/-- What a visit finds: asking about the node once it is entered, then the children, then
leaving. -/
theorem found_visit {d : Dispatcher} (depth : Nat) (site : Site) (c : Context) :
    found (d.visit depth site) c =
      Run.andThen (d.dispatch site)
        (Run.andThen (found (visitList (d.visit (depth + 1)) site.children)) (d.leave site))
        (enter site c) := by
  rw [found, visit_eq, List.flatMap_append, List.flatMap_cons, List.flatMap_singleton,
    List.append_assoc]
  rfl

end Dispatcher

/-! ## Comparisons -/

/-- What two runs are held against each other by. -/
structure Comparison where
  contexts : Context → Context → Prop
  findings : List Finding → List Finding → Prop
  nil : findings [] []
  append : ∀ {fs fs' gs gs'}, findings fs fs' → findings gs gs' → findings (fs ++ gs) (fs' ++ gs')

namespace Comparison

/-- The comparison that looks at one side only: at what holds of contexts and of findings. -/
def single (I : Context → Prop) (P : Finding → Prop) : Comparison where
  contexts c _ := I c
  findings fs _ := ∀ f ∈ fs, P f
  nil _ hf := absurd hf List.not_mem_nil
  append hfs hgs := List.forall_mem_append.mpr ⟨hfs, hgs⟩

/-- The comparison in which the findings are the same. -/
def equal (contexts : Context → Context → Prop) : Comparison where
  contexts := contexts
  findings := Eq
  nil := rfl
  append hfs hgs := by rw [hfs, hgs]

/-- From contexts that compare, both runs find things that compare and end in contexts that
compare. -/
def Runs (K : Comparison) (run run' : Run) : Prop :=
  ∀ c c', K.contexts c c' →
    K.findings (run c).1 (run' c').1 ∧ K.contexts (run c).2 (run' c').2

variable {K : Comparison}

/-- Runs that find nothing. -/
theorem Runs.of_silent {next next' : Context → Context}
    (h : ∀ c c', K.contexts c c' → K.contexts (next c) (next' c')) :
    K.Runs (fun c => ([], next c)) (fun c => ([], next' c)) :=
  fun c c' hc => ⟨K.nil, h c c' hc⟩

theorem Runs.andThen {first first' second second' : Run} (h : K.Runs first first')
    (h' : K.Runs second second') : K.Runs (first.andThen second) (first'.andThen second') := by
  intro c c' hc
  obtain ⟨hfindings, hnext⟩ := h c c' hc
  obtain ⟨hlater, hlast⟩ := h' _ _ hnext
  exact ⟨K.append hfindings hlater, hlast⟩

/-- It is enough to compare the answers of each rule. -/
theorem Runs.ask {settings settings' : Settings} {line line' : Nat}
    {question question' : Rule → Context → Outcome × Context} {rules : List Rule}
    (h : ∀ r ∈ rules, K.Runs (Dispatcher.answer settings line r.toRuleInfo (question r))
      (Dispatcher.answer settings' line' r.toRuleInfo (question' r))) :
    K.Runs (Dispatcher.ask settings line question rules)
      (Dispatcher.ask settings' line' question' rules) := by
  induction rules with
  | nil => exact .of_silent fun _ _ hc => hc
  | cons rule rest ih =>
    rw [Dispatcher.ask_eq_andThen, Dispatcher.ask_eq_andThen]
    exact (h rule (List.mem_cons_self ..)).andThen (ih fun r hr => h r (List.mem_cons_of_mem _ hr))

/-- It is enough to compare the visits of each pair of sites. -/
theorem Runs.visitList {S : Site → Site → Prop}
    {visitOne visitOne' : Site → Context → List Event × Context} {sites sites' : List Site}
    (hsites : List.Forall₂ S sites sites')
    (h : ∀ s ∈ sites, ∀ s' ∈ sites', S s s' →
      K.Runs (Dispatcher.found (visitOne s)) (Dispatcher.found (visitOne' s'))) :
    K.Runs (Dispatcher.found (Dispatcher.visitList visitOne sites))
      (Dispatcher.found (Dispatcher.visitList visitOne' sites')) := by
  induction hsites with
  | nil => exact .of_silent fun _ _ hc => hc
  | cons hs _ ih =>
    rw [Dispatcher.found_visitList_cons, Dispatcher.found_visitList_cons]
    exact (h _ (List.mem_cons_self ..) _ (List.mem_cons_self ..) hs).andThen
      (ih fun s hs s' hs' => h s (List.mem_cons_of_mem _ hs) s' (List.mem_cons_of_mem _ hs'))

/-- Two dispatchers compare at every pair of sites that `S` holds against each other. -/
structure Walks (K : Comparison) (d d' : Dispatcher) (S : Site → Site → Prop) : Prop where
  children : ∀ {s s'}, S s s' → List.Forall₂ S s.children s'.children
  enter : ∀ {s s'}, S s s' → s.node.isFile = false → s'.node.isFile = false →
    ∀ {c c'}, K.contexts c c' → K.contexts (Dispatcher.enter s c) (Dispatcher.enter s' c')
  dispatch : ∀ {s s'}, S s s' → K.Runs (d.dispatch s) (d'.dispatch s')
  leave : ∀ {s s'}, S s s' → K.Runs (d.leave s) (d'.leave s')

/-- If two dispatchers compare at every pair of sites, so do their visits, from contexts that
compare once the sites are entered. -/
theorem Walks.visit {d d' : Dispatcher} {S : Site → Site → Prop} (h : K.Walks d d' S)
    {s s' : Site} (hs : S s s') (depth : Nat) {c c' : Context}
    (hc : K.contexts (Dispatcher.enter s c) (Dispatcher.enter s' c')) :
    K.findings (Dispatcher.found (d.visit depth s) c).1
        (Dispatcher.found (d'.visit depth s') c').1 ∧
      K.contexts (Dispatcher.found (d.visit depth s) c).2
        (Dispatcher.found (d'.visit depth s') c').2 := by
  induction s using Walk.induct generalizing s' depth c c' with
  | step s ih =>
    have hbelow : K.Runs
        (Dispatcher.found (Dispatcher.visitList (d.visit (depth + 1)) s.children))
        (Dispatcher.found (Dispatcher.visitList (d'.visit (depth + 1)) s'.children)) := by
      refine .visitList (h.children hs) fun t ht t' ht' htt c c' hc => ?_
      have henter := h.enter htt (Site.isFile_of_mem_children ht)
        (Site.isFile_of_mem_children ht') hc
      exact ih t ht htt (depth + 1) henter
    rw [Dispatcher.found_visit, Dispatcher.found_visit]
    exact ((h.dispatch hs).andThen (hbelow.andThen (h.leave hs))) _ _ hc

/-- If every answer preserves what is said about contexts, and no scopes are spoken of, so does the
walk. -/
theorem walks_single {I : Context → Prop} {P : Finding → Prop} {d : Dispatcher}
    (hscopes : ∀ {c c' : Context}, c'.file = c.file → c'.slots = c.slots → I c → I c')
    (hcheck : ∀ s : Site, ∀ r ∈ d.routes.get s.node.kind,
      let answer := Dispatcher.answer d.settings s.node.line r.toRuleInfo (r.check d.settings s)
      (single I P).Runs answer answer)
    (hfinish : ∀ line, ∀ r ∈ d.rules.filter fun r => d.settings.isActive r.id,
      let answer := Dispatcher.answer d.settings line r.toRuleInfo (r.finish d.settings)
      (single I P).Runs answer answer) : (single I P).Walks d d Eq where
  children := by
    rintro s _ rfl
    exact List.forall₂_same.mpr fun _ _ => rfl
  enter := by
    rintro s _ rfl hfile - c c' hc
    obtain ⟨hopen, hslots⟩ := Dispatcher.enter_keeps hfile c
    exact hscopes hopen hslots hc
  dispatch := by
    rintro s _ rfl
    exact .ask (hcheck s)
  leave := by
    rintro s _ rfl
    cases hfile : s.node.isFile with
    | true =>
      obtain ⟨line, hleave⟩ := Dispatcher.exists_leave_eq_ask (d := d) hfile
      rw [hleave]
      exact .ask (hfinish line)
    | false =>
      intro c c' hc
      obtain ⟨hsilent, hopen, hslots⟩ := Dispatcher.leave_keeps (d := d) hfile c
      refine ⟨?_, hscopes hopen hslots hc⟩
      rw [hsilent]
      exact (single I P).nil

/-- What the law says about a single walk. -/
theorem Walks.visit_single {I : Context → Prop} {P : Finding → Prop} {d : Dispatcher}
    (h : (single I P).Walks d d Eq) (site : Site) (depth : Nat) {c : Context}
    (hc : I (Dispatcher.enter site c)) :
    (∀ f ∈ (Dispatcher.found (d.visit depth site) c).1, P f) ∧
      I (Dispatcher.found (d.visit depth site) c).2 := by
  have henter : (single I P).contexts (Dispatcher.enter site c) (Dispatcher.enter site c) := hc
  exact h.visit rfl depth henter

end Comparison

end SafetyLint
