import SafetyLint.Proofs.Independence
import SafetyLint.Proofs.Memory

/-!
# Rules that answer at each stop for itself

A rule that remembers nothing answers the same at a stop whatever it was asked before, so what it
says in a walk is known from what it says at each stop.  Most rules say at most one thing about a
node: `filter_sightings_of_answers` says that the findings of such a rule in a walk are one for each
stop at which it speaks, in the order of the walk, whichever other rules are registered.
-/

namespace SafetyLint

open SafetyLint.Tree Config

namespace Dispatcher

open Rules

/-- At a stop of a file the rule makes the finding with the given message, on the line of the node,
and without a message none. -/
def Answers (id : RuleId) (settings : Settings) (file : OpenFile) (message? : Stop → Option String)
    (s : Stop) : Prop :=
  ((ofId id).check settings s.site (s.context (some file) [])).1 =
    .ok ((message? s).toList.map
      ((s.context (some file) []).finding (ofId id).toRuleInfo s.site.node.line))

variable {r : RuleId} {ids : List RuleId} {settings : Settings}

/-- A rule without a memory keeps the context when it is asked alone. -/
theorem snd_dispatch_singleton (hlinks : r ≠ .limitDereferences)
    (hheader : r ≠ .mandatoryDiagnostics) (site : Site) (c : Context) :
    ((dispatcher [r] settings).dispatch site c).2 = c := by
  rw [dispatch_singleton]
  split
  · exact snd_check_of_ne settings hlinks hheader site c
  · rfl

variable (message? : Stop → Option String)

/-- What a rule finds at a stop at which it answers. -/
theorem fst_dispatch_of_answers (hactive : settings.isActive r = true) {s : Stop} {file : OpenFile}
    (hidle : (ofId r).kinds.contains s.site.node.kind = false → message? s = none)
    (hanswer : Answers r settings file message? s) :
    ((dispatcher [r] settings).dispatch s.site (s.context (some file) [])).1 =
      (message? s).toList.map
        (reported settings (ofId r).toRuleInfo (some file) s.site.node.line) := by
  rw [dispatch_singleton]
  cases hkind : (ofId r).kinds.contains s.site.node.kind with
  | true =>
    rw [if_pos (by rw [wants, hkind, hactive]; rfl), hanswer, settle_ok]
    rfl
  | false =>
    rw [if_neg (by rw [wants, hkind]; exact Bool.false_ne_true), hidle hkind]
    rfl

/-- The findings of a rule that answers at each stop for itself are, in a walk with any other rules,
one for each stop at which it speaks, in the order of the walk. -/
theorem filter_sightings_of_answers (hlinks : r ≠ .limitDereferences)
    (hheader : r ≠ .mandatoryDiagnostics) (hr : ids.count r = 1)
    (hactive : settings.isActive r = true) (root : Option String) (i : Nat) (f : SourceFile)
    (hidle : ∀ s : Stop, (ofId r).kinds.contains s.site.node.kind = false → message? s = none)
    (hanswers : ∀ s ∈ Walk.preorder (Stop.ofFile i f),
      Answers r settings (.ofFile i f root) message? s) :
    (((dispatcher ids settings).visit 0 (.ofFile i f)
          (Context.empty.enterFile (.ofFile i f root))).1.flatMap Event.sightings).filter
            (fun x => x.2.rule = (ofId r).name) =
      (Walk.preorder (Stop.ofFile i f)).filterMap fun s => (message? s).map fun message =>
        (s.site, reported settings (ofId r).toRuleInfo (some (.ofFile i f root)) s.site.node.line
          message) := by
  refine (filter_sightings r ids settings i f root hr).1.trans ?_
  rw [leave_file_of_ne hheader hactive, List.map_nil, List.append_nil, fileRound,
    round_of_stateless _ (snd_dispatch_singleton hlinks hheader), roundSightings, List.flatMap_map,
    List.filterMap_eq_flatMap_toList]
  refine List.flatMap_congr fun s hs => ?_
  rw [fst_dispatch_of_answers message? hactive (hidle s) (hanswers s hs)]
  cases message? s <;> rfl

/-- The findings of a rule that speaks at some stops, saying one thing at each of them, are those of
the stops at which it speaks. -/
theorem filter_sightings_of_speaks (speaks : Stop → Bool) (text : Stop → String)
    (hlinks : r ≠ .limitDereferences) (hheader : r ≠ .mandatoryDiagnostics) (hr : ids.count r = 1)
    (hactive : settings.isActive r = true) (root : Option String) (i : Nat) (f : SourceFile)
    (hidle : ∀ s : Stop, (ofId r).kinds.contains s.site.node.kind = false → speaks s = false)
    (hanswers : ∀ s ∈ Walk.preorder (Stop.ofFile i f),
      Answers r settings (.ofFile i f root) (fun s => if speaks s then some (text s) else none) s) :
    (((dispatcher ids settings).visit 0 (.ofFile i f)
          (Context.empty.enterFile (.ofFile i f root))).1.flatMap Event.sightings).filter
            (fun x => x.2.rule = (ofId r).name) =
      ((Walk.preorder (Stop.ofFile i f)).filter speaks).map fun s =>
        (s.site, reported settings (ofId r).toRuleInfo (some (.ofFile i f root)) s.site.node.line
          (text s)) := by
  refine (filter_sightings_of_answers _ hlinks hheader hr hactive root i f ?_ hanswers).trans ?_
  · intro s hkind
    rw [hidle s hkind]
    rfl
  · rw [← List.filterMap_eq_filter, List.map_filterMap]
    refine List.filterMap_congr fun s _ => ?_
    cases h : speaks s <;> simp [Option.guard, h]

end Dispatcher

end SafetyLint
