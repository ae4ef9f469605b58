import SafetyLint.Config.Basic
import SafetyLint.Proofs.StableOrder
import SafetyLint.Proofs.Stops

/-!
# Rules do not disturb each other

Registering more rules changes nothing about what a rule reports.  The proof goes up through the
layers of a run, and says on each layer that to keep what one rule says is to leave out the others:
one node (`filter_dispatch`), a round over many stops (`filter_round`), a file (`filter_walkFile`),
a run (`filter_analyze`).  What carries the argument through the shared context is that the two
contexts, with and without the other rules, agree as far as the rule can see.

The layers hold for a rule that is registered any number of times.
-/

namespace SafetyLint

open SafetyLint.Tree Config Rules

/-- The finding carries the name of the rule. -/
def Finding.isOf (r : RuleId) (f : Finding) : Bool := f.rule = (ofId r).name

namespace Dispatcher

variable (r : RuleId) (ids : List RuleId) (settings : Settings)

/-- One node. -/
theorem filter_dispatch (site : Site) {c c' : Context} (h : c.Agree r c') :
    ((dispatcher ids settings).dispatch site c).1.filter (Finding.isOf r) =
        ((dispatcher (ids.filter (· = r)) settings).dispatch site c').1 ∧
      ((dispatcher ids settings).dispatch site c).2.Agree r
        ((dispatcher (ids.filter (· = r)) settings).dispatch site c').2 := by
  rw [dispatch_dispatcher, dispatch_dispatcher, List.filter_comm]
  exact filter_ask (confined_check settings site) r _ h

/-- The last word at the end of a file. -/
theorem filter_leave_file (place : Place) (f : SourceFile) {c c' : Context} (h : c.Agree r c') :
    ((dispatcher ids settings).leave ⟨place, .file f⟩ c).1.filter (Finding.isOf r) =
        ((dispatcher (ids.filter (· = r)) settings).leave ⟨place, .file f⟩ c').1 ∧
      ((dispatcher ids settings).leave ⟨place, .file f⟩ c).2.Agree r
        ((dispatcher (ids.filter (· = r)) settings).leave ⟨place, .file f⟩ c').2 := by
  rw [leave_file, leave_file, List.filter_comm]
  exact filter_ask (confined_finish settings) r _ h

/-- A round over many stops. -/
theorem filter_round (file : Option OpenFile) (stops : List Stop)
    {slots slots' : List (RuleId × Slot)} (h : slots.lookup r = slots'.lookup r) :
    ((dispatcher ids settings).round file stops slots).1.map
          (fun a => (a.1, a.2.filter (Finding.isOf r))) =
        ((dispatcher (ids.filter (· = r)) settings).round file stops slots').1 ∧
      ((dispatcher ids settings).round file stops slots).2.lookup r =
        ((dispatcher (ids.filter (· = r)) settings).round file stops slots').2.lookup r := by
  induction stops generalizing slots slots' with
  | nil => exact ⟨rfl, h⟩
  | cons s rest ih =>
    have hagree : (s.context file slots).Agree r (s.context file slots') := ⟨rfl, rfl, rfl, h⟩
    obtain ⟨hfindings, hnext⟩ := filter_dispatch r ids settings s.site hagree
    obtain ⟨hlater, hlast⟩ := ih hnext.slot
    rw [round_cons, round_cons, List.map_cons, hlater, hfindings]
    exact ⟨rfl, hlast⟩

/-- The end of a file. -/
theorem agree_fileEnd (i : Nat) (f : SourceFile) (root : Option String) :
    ((dispatcher ids settings).fileEnd i f root).Agree r
      ((dispatcher (ids.filter (· = r)) settings).fileEnd i f root) :=
  ⟨rfl, rfl, rfl, (filter_round r ids settings _ _ rfl).2⟩

theorem filter_roundSightings (p : Finding → Bool) (answers : List (Stop × List Finding)) :
    (roundSightings answers).filter (fun x => p x.2) =
      roundSightings (answers.map fun a => (a.1, a.2.filter p)) := by
  rw [roundSightings, roundSightings, List.filter_flatMap, List.flatMap_map]
  refine List.flatMap_congr fun a _ => ?_
  rw [List.filter_map]
  rfl

/-- One file, with the sites of the findings: what a rule says in a walk, and what it remembers at
the end, are as in a walk without the other rules. -/
theorem filter_sightings_others (i : Nat) (f : SourceFile) (root : Option String) :
    (((dispatcher ids settings).visit 0 (.ofFile i f)
          (Context.empty.enterFile (.ofFile i f root))).1.flatMap Event.sightings).filter
            (fun x => x.2.isOf r) =
        roundSightings ((dispatcher (ids.filter (· = r)) settings).fileRound i f root).1 ++
          ((dispatcher (ids.filter (· = r)) settings).leave (.ofFile i f)
            ((dispatcher (ids.filter (· = r)) settings).fileEnd i f root)).1.map
              (fun x => (.ofFile i f, x)) ∧
      ((dispatcher ids settings).visit 0 (.ofFile i f)
          (Context.empty.enterFile (.ofFile i f root))).2.Agree r
        ((dispatcher (ids.filter (· = r)) settings).leave (.ofFile i f)
          ((dispatcher (ids.filter (· = r)) settings).fileEnd i f root)).2 := by
  obtain ⟨hsightings, hcontext⟩ := visit_file (keepsScopes_dispatcher ids settings) i f root
  have hround := (filter_round r ids settings (some (.ofFile i f root))
    (Walk.preorder (.ofFile i f)) (rfl : List.lookup r [] = List.lookup r [])).1
  obtain ⟨hlast, hend⟩ := filter_leave_file r ids settings (Place.root i) f
    (agree_fileEnd r ids settings i f root)
  rw [hsightings, hcontext]
  refine ⟨?_, hend⟩
  rw [List.filter_append, filter_roundSightings, List.filter_map]
  exact congrArg₂ (roundSightings · ++ List.map _ ·) hround hlast

/-- A rule that is registered once is what is left when all others are taken away. -/
theorem filter_eq_singleton (hr : ids.count r = 1) : ids.filter (· = r) = [r] := by
  rw [List.filter_eq, hr]
  rfl

/-- One file, with the sites of the findings: what a rule that is registered once says in a walk,
and what it remembers at the end, are as in a walk of the rule alone. -/
theorem filter_sightings (i : Nat) (f : SourceFile) (root : Option String)
    (hr : ids.count r = 1) :
    (((dispatcher ids settings).visit 0 (.ofFile i f)
          (Context.empty.enterFile (.ofFile i f root))).1.flatMap Event.sightings).filter
            (fun x => x.2.isOf r) =
        roundSightings ((dispatcher [r] settings).fileRound i f root).1 ++
          ((dispatcher [r] settings).leave (.ofFile i f)
            ((dispatcher [r] settings).fileEnd i f root)).1.map (fun x => (.ofFile i f, x)) ∧
      ((dispatcher ids settings).visit 0 (.ofFile i f)
          (Context.empty.enterFile (.ofFile i f root))).2.Agree r
        ((dispatcher [r] settings).leave (.ofFile i f)
          ((dispatcher [r] settings).fileEnd i f root)).2 := by
  rw [← filter_eq_singleton r ids hr]
  exact filter_sightings_others r ids settings i f root

end Dispatcher

namespace Analyzer

open Dispatcher

variable (r : RuleId) (ids : List RuleId) (settings : Settings) (root : Option String)

/-- One file. -/
theorem filter_walkFile (i : Nat) (f : SourceFile) :
    ((analyzer ids settings root).walkFile i f).filter (Finding.isOf r) =
      (analyzer (ids.filter (· = r)) settings root).walkFile i f := by
  have hround := (filter_round r ids settings (some (.ofFile i f root))
    (Walk.preorder (.ofFile i f)) (rfl : List.lookup r [] = List.lookup r [])).1
  have hlast := (filter_leave_file r ids settings (Place.root i) f
    (agree_fileEnd r ids settings i f root)).1
  rw [walkFile_eq, walkFile_eq, List.filter_append, List.filter_flatMap, fileRound, fileRound,
    ← hround, List.flatMap_map]
  exact congrArg (_ ++ ·) hlast

/-- A run over many files. -/
theorem filter_analyze (files : List SourceFile) :
    ((analyzer ids settings root).analyze files).findings.filter (Finding.isOf r) =
      ((analyzer (ids.filter (· = r)) settings root).analyze files).findings := by
  have hfiles : (files.mapIdx (analyzer ids settings root).walkFile).map
        (List.filter (Finding.isOf r)) =
      files.mapIdx (analyzer (ids.filter (· = r)) settings root).walkFile := by
    rw [List.mapIdx_eq_zipIdx_map, List.mapIdx_eq_zipIdx_map, List.map_map]
    exact List.map_congr_left fun p _ => filter_walkFile r ids settings root p.2 p.1
  show (sortFindings _).filter _ = sortFindings _
  rw [filter_sortFindings, List.filter_flatten, hfiles]

/-- Inactive rules find nothing, neither at a node nor at the end of a file. -/
theorem walkFile_of_inactive (h : ∀ id ∈ ids, settings.isActive id = false) (i : Nat)
    (f : SourceFile) : (analyzer ids settings root).walkFile i f = [] := by
  have hwants : ∀ kind, ids.filter (wants settings kind) = [] := by
    intro kind
    rw [List.filter_eq_nil_iff]
    intro id hid
    rw [wants, h id hid, Bool.and_false]
    exact Bool.false_ne_true
  have hactive : ids.filter settings.isActive = [] := by
    rw [List.filter_eq_nil_iff]
    intro id hid
    rw [h id hid]
    exact Bool.false_ne_true
  have hdispatch : ∀ site c, (Rules.dispatcher ids settings).dispatch site c = ([], c) := by
    intro site c
    rw [dispatch_dispatcher, hwants]
    rfl
  have hleave : ∀ c, (Rules.dispatcher ids settings).leave (.ofFile i f) c = ([], c) := by
    intro c
    rw [Site.ofFile, leave_file, hactive]
    rfl
  rw [walkFile_eq, hleave, List.append_nil, fileRound,
    round_of_stateless _ fun site c => congrArg Prod.snd (hdispatch site c), List.flatMap_map,
    List.flatMap_eq_nil_iff]
  intro s _
  exact congrArg Prod.fst (hdispatch s.site _)

/-- A rule that is registered once reports in a run what it reports when it is registered alone: the
same findings in the same order, whatever else is registered before and behind it, how often, and
whether or not it is active.  An inactive rule reports nothing. -/
theorem filter_rule_analyze (files : List SourceFile) (hr : ids.count r = 1) :
    ((analyzer ids settings root).analyze files).findings.filter
          (fun f => f.rule = (ofId r).name) =
        ((analyzer [r] settings root).analyze files).findings ∧
      (settings.isActive r = false →
        ((analyzer ids settings root).analyze files).findings.filter
          (fun f => f.rule = (ofId r).name) = []) := by
  have hsame : ((analyzer ids settings root).analyze files).findings.filter
        (fun f => f.rule = (ofId r).name) =
      ((analyzer [r] settings root).analyze files).findings := by
    rw [← filter_eq_singleton r ids hr]
    exact filter_analyze r ids settings root files
  refine ⟨hsame, fun hinactive => ?_⟩
  rw [hsame]
  show sortFindings _ = []
  have hnothing : (files.mapIdx (analyzer [r] settings root).walkFile).flatten = [] := by
    rw [List.flatten_eq_nil_iff]
    intro found hfound
    obtain ⟨i, hi, rfl⟩ := List.mem_mapIdx.mp hfound
    refine walkFile_of_inactive [r] settings root ?_ i _
    intro id hid
    rw [List.mem_singleton.mp hid]
    exact hinactive
  rw [hnothing]
  exact List.mergeSort_nil

/-- The rule about jumps between two copies of another rule. -/
theorem filter_rule_analyze_goto :
    [RuleId.limitDereferences, .noComplexFlow, .limitDereferences].count .noComplexFlow = 1 ∧
      ((analyzer [.limitDereferences, .noComplexFlow, .limitDereferences] .default
            (some "/src")).analyze [⟨"a.php", none, [⟨.line 1, .goto "end", []⟩]⟩]).findings.filter
              (fun f => f.rule = (ofId .noComplexFlow).name) =
          ((analyzer [.noComplexFlow] .default (some "/src")).analyze
            [⟨"a.php", none, [⟨.line 1, .goto "end", []⟩]⟩]).findings ∧
        (Settings.default.isActive .noComplexFlow = false →
          ((analyzer [.limitDereferences, .noComplexFlow, .limitDereferences] .default
            (some "/src")).analyze [⟨"a.php", none, [⟨.line 1, .goto "end", []⟩]⟩]).findings.filter
              (fun f => f.rule = (ofId .noComplexFlow).name) = []) :=
  ⟨by decide, filter_rule_analyze .noComplexFlow _ .default (some "/src") _ (by decide)⟩

end Analyzer

end SafetyLint
