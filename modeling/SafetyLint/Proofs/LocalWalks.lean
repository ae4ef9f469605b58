import SafetyLint.Proofs.Origins
import SafetyLint.Proofs.Renumbering
import SafetyLint.Proofs.WalkLaws

/-!
# Walks that keep to their file

A rule is blind to numbers if it does not care which number the file has that is walked.  It is
local if it keeps to that file besides: it leaves the file open and reports in that file only.  The
nine rules are local (`Rules.isLocal_ofId`), and the results below hold for any rules that are.

Each of the two properties goes from the rules up to the walk of a file, as a comparison of walks:

* `walkFile_eq_walkFile_zero`: if the rules are blind to numbers, a file is walked the same way
  wherever it stands in the run;
* `file_of_mem_walkFile`: if they are local, all that is found in a file is reported under the path
  of that file.
-/

namespace SafetyLint

open SafetyLint.Tree Config

variable {σ : Nat → Nat}

/-- The path under which the open file is reported. -/
def Context.shown (c : Context) : String := (c.file.map OpenFile.shown).getD ""

theorem Context.shown_of_file_eq {c c' : Context} (h : c'.file = c.file) : c'.shown = c.shown := by
  rw [shown, shown, h]

/-! ## Local rules -/

/-- What a rule is asked leaves the file open and is answered in that file. -/
structure StaysInFile (q : Context → Outcome × Context) : Prop where
  file : ∀ c, (q c).2.file = c.file
  located : ∀ c findings, (q c).1 = .ok findings → ∀ f ∈ findings, f.location.file = c.shown

/-- The rule does not care which number the file has that is walked. -/
structure Rule.IsNumberBlind (r : Rule) : Prop where
  renumbered_check : ∀ {σ : Nat → Nat}, σ.Injective → ∀ settings site,
    Renumbered σ (r.check settings site) (r.check settings (site.renumber σ))
  renumbered_finish : ∀ {σ : Nat → Nat}, σ.Injective → ∀ settings,
    Renumbered σ (r.finish settings) (r.finish settings)

/-- The rule does not care about the number of the file that is walked and keeps to that file. -/
structure Rule.IsLocal (r : Rule) : Prop extends Rule.IsNumberBlind r where
  stays_check : ∀ settings site, StaysInFile (r.check settings site)
  stays_finish : ∀ settings, StaysInFile (r.finish settings)

/-- A confined question leaves the file open, and all findings of a rule are in that file. -/
theorem StaysInFile.of_reportsOn {info : RuleInfo} {lines : Nat → Prop}
    {q : Context → Outcome × Context} (hq : Confined info q) (hreports : ReportsOn info lines q) :
    StaysInFile q where
  file c := by rw [hq.keeps c]
  located c fs hfs f hf := by
    obtain ⟨line, message, -, rfl⟩ := hreports c fs hfs f hf
    rfl

namespace Rules

theorem stays_check (settings : Settings) (site : Site) (id : RuleId) :
    StaysInFile ((ofId id).check settings site) :=
  .of_reportsOn (confined_check settings site id) (reportsOn_check settings site id)

theorem stays_finish (settings : Settings) (id : RuleId) :
    StaysInFile ((ofId id).finish settings) :=
  .of_reportsOn (confined_finish settings id) (reportsOn_finish settings id)

/-- The nine rules are local. -/
theorem isLocal_ofId (id : RuleId) : (ofId id).IsLocal where
  stays_check settings site := stays_check settings site id
  stays_finish settings := stays_finish settings id
  renumbered_check hσ settings site := renumbered_check hσ settings site id
  renumbered_finish _ settings := carried_finish (fun _ => rfl) settings id

end Rules

/-! ## Walks of local rules -/

/-- All rules that the dispatcher asks have the property. -/
structure Dispatcher.AsksOnly (P : Rule → Prop) (d : Dispatcher) : Prop where
  rules : ∀ r ∈ d.rules, P r
  routes : ∀ kind, ∀ r ∈ d.routes.get kind, P r

namespace Comparison

/-- The same findings, in contexts that are the same up to the numbers of the files. -/
def renumber (σ : Nat → Nat) : Comparison := equal fun c c' => c' = c.renumber σ

/-- Findings in one file, which stays open. -/
def inFile (o : Option OpenFile) : Comparison :=
  single (fun c => c.file = o) fun f => f.location.file = (o.map OpenFile.shown).getD ""

variable {settings : Settings} {line : Nat} {info : RuleInfo}

theorem renumber_answer {q q' : Context → Outcome × Context} (h : Renumbered σ q q') :
    (renumber σ).Runs (Dispatcher.answer settings line info q)
      (Dispatcher.answer settings line info q') := by
  rintro c _ rfl
  have hanswer : q' (c.renumber σ) = ((q c).1, (q c).2.renumber σ) := h c
  show _ = _ ∧ _ = _
  rw [Dispatcher.answer, Dispatcher.answer, hanswer]
  cases (q c).1 with
  | ok findings => exact ⟨rfl, rfl⟩
  | error e =>
    rw [Dispatcher.settle, Dispatcher.settle, Context.location_renumber]
    exact ⟨rfl, rfl⟩

theorem inFile_answer {o : Option OpenFile} {q : Context → Outcome × Context}
    (h : StaysInFile q) :
    (inFile o).Runs (Dispatcher.answer settings line info q)
      (Dispatcher.answer settings line info q) := by
  rintro c _ rfl
  refine ⟨fun f hf => ?_, h.file c⟩
  cases houtcome : (q c).1 with
  | error e =>
    rw [Dispatcher.answer, houtcome, Dispatcher.settle, List.mem_singleton] at hf
    rw [hf]
    exact Context.shown_of_file_eq (h.file c)
  | ok findings =>
    have hlocated := h.located c findings houtcome
    rw [Dispatcher.answer, houtcome, Dispatcher.settle] at hf
    split at hf
    · obtain ⟨g, hg, rfl⟩ := List.mem_map.mp hf
      exact hlocated g hg
    · exact hlocated f hf

variable {d : Dispatcher}

/-- Walks do not depend on the numbers of the files. -/
theorem walks_renumber (hd : d.AsksOnly Rule.IsNumberBlind) (hσ : σ.Injective) :
    (renumber σ).Walks d d fun s s' => s' = s.renumber σ where
  children := by
    rintro s _ rfl
    rw [← Site.map_renumber_children, List.forall₂_map_right_iff]
    exact List.forall₂_same.mpr fun _ _ => rfl
  enter := by
    rintro ⟨place, node⟩ _ rfl hfile - c _ rfl
    cases node with
    | file f => exact absurd hfile (by simp [Node.isFile])
    | _ => rfl
  dispatch := by
    rintro s _ rfl
    exact .ask fun r hr =>
      renumber_answer ((hd.routes _ r hr).renumbered_check hσ d.settings s)
  leave := by
    rintro ⟨place, node⟩ _ rfl
    cases node with
    | file f =>
      exact .ask fun r hr => renumber_answer
        ((hd.rules r (List.mem_of_mem_filter hr)).renumbered_finish hσ d.settings)
    | _ =>
      refine .of_silent ?_
      rintro c _ rfl
      rfl

/-- Walks keep to the file that is open. -/
theorem walks_inFile (hd : d.AsksOnly Rule.IsLocal) (o : Option OpenFile) :
    (inFile o).Walks d d Eq :=
  walks_single (fun hopen _ hc => hopen.trans hc)
    (fun s r hr => inFile_answer ((hd.routes _ r hr).stays_check d.settings s))
    fun _ r hr =>
      inFile_answer ((hd.rules r (List.mem_of_mem_filter hr)).stays_finish d.settings)

end Comparison

/-! ## Files -/

namespace Analyzer

open Dispatcher

/-- All rules of the analyzer are blind to the numbers of the files. -/
def IsNumberBlind (a : Analyzer) : Prop := a.dispatcher.AsksOnly Rule.IsNumberBlind

/-- All rules of the analyzer are local. -/
def IsLocal (a : Analyzer) : Prop := a.dispatcher.AsksOnly Rule.IsLocal

theorem IsLocal.isNumberBlind {a : Analyzer} (ha : a.IsLocal) : a.IsNumberBlind where
  rules r hr := (ha.rules r hr).toIsNumberBlind
  routes kind r hr := (ha.routes kind r hr).toIsNumberBlind

/-- The path under which the findings of a file are reported. -/
def shownPath (a : Analyzer) (f : SourceFile) : String := Path.relativeTo f.path a.root

variable {a : Analyzer}

/-- A file is walked the same way whatever its number is. -/
theorem walkFile_eq_walkFile_zero (ha : a.IsNumberBlind) (i : Nat) (f : SourceFile) :
    a.walkFile i f = a.walkFile 0 f := by
  have hshift : Function.Injective (i + ·) := fun _ _ h => Nat.add_left_cancel h
  have henter : enter (.ofFile i f) (Context.empty.enterFile (.ofFile i f a.root)) =
      (enter (.ofFile 0 f) (Context.empty.enterFile (.ofFile 0 f a.root))).renumber (i + ·) := by
    rw [enter_ofFile, enter_ofFile]
    rfl
  have hsite : Site.ofFile i f = (Site.ofFile 0 f).renumber (i + ·) := rfl
  exact ((Comparison.walks_renumber ha hshift).visit hsite 0 henter).1.symm

/-- What is found in a file is reported under the path of the file. -/
theorem file_of_mem_walkFile (ha : a.IsLocal) {i : Nat} {f : SourceFile} {x : Finding}
    (hx : x ∈ a.walkFile i f) : x.location.file = a.shownPath f := by
  have henter : (enter (.ofFile i f) (Context.empty.enterFile (.ofFile i f a.root))).file =
      some (.ofFile i f a.root) := by
    rw [enter_ofFile]
    rfl
  exact ((Comparison.walks_inFile ha (some (.ofFile i f a.root))).visit_single _ 0 henter).1 x hx

end Analyzer

/-- The rules of a list are local, however they are registered. -/
theorem Rules.isLocal_analyzer (ids : List RuleId) (settings : Settings) (root : Option String) :
    (Rules.analyzer ids settings root).IsLocal where
  rules r hr := by
    obtain ⟨id, -, rfl⟩ := List.mem_map.mp hr
    exact isLocal_ofId id
  routes kind r hr := by
    rw [Analyzer.dispatcher, Rules.analyzer, Dispatcher.get_routes_dispatcher] at hr
    obtain ⟨id, -, rfl⟩ := List.mem_map.mp hr
    exact isLocal_ofId id

end SafetyLint
