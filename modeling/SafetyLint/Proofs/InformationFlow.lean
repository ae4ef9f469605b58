import SafetyLint.Proofs.FileOrder
import SafetyLint.Proofs.NoFailures
import SafetyLint.Proofs.RevisedRules

/-!
# How far side data reaches

Two files that differ in side data only are walked side by side.  The walks pass through nodes that
some revision makes equal, in contexts that it makes equal, and find the same things, apart from
what is found by rules that look at what the revision changes.  Those rules remember nothing, so
what they see does not reach the others by way of the context either.

The comparison of walks is `Comparison.revised`.  It takes the slots to fit, because the line on
which a failed last word would be reported depends on the text of the file.

The rule about returned values can be bounded more closely.  Its findings are traced back to the
places where they are made, and at each place it goes by whether the statement there is marked.
-/

namespace SafetyLint

open SafetyLint.Tree Config Rules

/-! ## Lists with equal images -/

theorem forall₂_of_map_eq {α β : Type} {g : α → β} {as as' : List α} (h : as.map g = as'.map g) :
    List.Forall₂ (fun a a' => g a = g a') as as' := by
  rw [← List.forall₂_eq_eq_eq, List.forall₂_map_left_iff, List.forall₂_map_right_iff] at h
  exact h

theorem flatMap_eq_of_forall₂ {α β : Type} {S : α → α → Prop} {as as' : List α}
    (h : List.Forall₂ S as as') {g g' : α → List β}
    (hg : ∀ a ∈ as, ∀ a' ∈ as', S a a' → g a = g' a') : as.flatMap g = as'.flatMap g' := by
  induction h with
  | nil => rfl
  | cons hs _ ih =>
    rw [List.flatMap_cons, List.flatMap_cons,
      hg _ (List.mem_cons_self ..) _ (List.mem_cons_self ..) hs,
      ih fun a ha a' ha' => hg a (List.mem_cons_of_mem _ ha) a' (List.mem_cons_of_mem _ ha')]

/-! ## Walks of revised files -/

namespace Tree
namespace Revision

variable (r : Revision)

theorem isFile_node (n : Node) : (r.node n).isFile = n.isFile := by cases n <;> rfl

theorem isFile_eq_of_site_eq {s s' : Site} (h : r.site s = r.site s') :
    s'.node.isFile = s.node.isFile := by
  have hfiles := congrArg (fun s : Site => s.node.isFile) h
  exact (r.isFile_node _).symm.trans (hfiles.symm.trans (r.isFile_node _))

theorem kind_eq_of_site_eq {s s' : Site} (h : r.site s = r.site s') :
    s'.node.kind = s.node.kind := by
  have hkinds := congrArg (fun s : Site => s.node.kind) h
  exact (r.kind_node _).symm.trans (hkinds.symm.trans (r.kind_node _))

theorem context_enter {s : Site} (hs : s.node.isFile = false) (c : Context) :
    r.context (Dispatcher.enter s c) = Dispatcher.enter (r.site s) (r.context c) := by
  obtain ⟨place, node⟩ := s
  cases node with
  | file f => exact absurd hs (by simp [Node.isFile])
  | _ => rfl

theorem context_popFunction (c : Context) :
    r.context c.popFunction = (r.context c).popFunction :=
  congrArg (fun functions => { r.context c with functions }) List.map_tail

theorem context_popClass (c : Context) : r.context c.popClass = (r.context c).popClass :=
  congrArg (fun classes => { r.context c with classes }) List.map_tail

theorem context_leave {d : Dispatcher} {s : Site} (hs : s.node.isFile = false) (c : Context) :
    r.context (d.leave s c).2 = (d.leave (r.site s) (r.context c)).2 := by
  obtain ⟨place, node⟩ := s
  cases node with
  | file f => exact absurd hs (by simp [Node.isFile])
  | classDecl decl => exact r.context_popClass c
  | function decl => exact r.context_popFunction c
  | method decl => exact r.context_popFunction c
  | _ => rfl

theorem forall₂_children {s s' : Site} (h : r.site s = r.site s') :
    List.Forall₂ (fun t t' => r.site t = r.site t') s.children s'.children := by
  refine forall₂_of_map_eq ?_
  rw [r.map_site_children, r.map_site_children, h]

end Revision
end Tree

/-- All findings of a rule that looks at what the revision changes are dropped. -/
def Tree.Revision.Drops (r : Revision) (settings : Settings) (keep : Finding → Bool) : Prop :=
  ∀ id, ¬ Spares r settings id → ∀ f : Finding, f.isOf id = true → keep f = false

namespace Comparison

open Dispatcher

/-- Findings that look the same, in contexts that a revision makes equal. -/
def revisedBy {β : Type} (r : Revision) (view : List Finding → List β)
    (happend : ∀ fs gs, view (fs ++ gs) = view fs ++ view gs) : Comparison where
  contexts c c' := c.Fits ∧ r.context c = r.context c'
  findings fs gs := view fs = view gs
  nil := rfl
  append hfs hgs := by rw [happend, happend, hfs, hgs]

/-- The same findings, but for those that are dropped, in contexts that a revision makes equal. -/
def revised (r : Revision) (keep : Finding → Bool) : Comparison :=
  revisedBy r (List.filter keep) fun _ _ => List.filter_append ..

/-- The same findings, in contexts of the same file. -/
def sameFile : Comparison := equal fun c c' => c.finding = c'.finding

variable {r : Revision} {settings : Settings}

section View

variable {β : Type} {view : List Finding → List β}
  {happend : ∀ fs gs, view (fs ++ gs) = view fs ++ view gs}

/-- The answer of a rule for which both questions come to the same where side data is revised. -/
theorem revised_answer {info : RuleInfo} {line line' : Nat} {q q' p : Context → Outcome × Context}
    (hq : Revised r q p) (hq' : Revised r q' p) (hs : Succeeds q) :
    (revisedBy r view happend).Runs (answer settings line info q)
      (answer settings line' info q') := by
  rintro c c' ⟨hfits, hc⟩
  have hsame : ((q c).1, r.context (q c).2) = ((q' c').1, r.context (q' c').2) :=
    (hq c).symm.trans ((congrArg p hc).trans (hq' c'))
  obtain ⟨houtcome, hnext⟩ := Prod.mk.inj hsame
  obtain ⟨findings, hfindings⟩ := hs.outcome hfits
  refine ⟨?_, hs.fits hfits, hnext⟩
  rw [answer, answer, ← houtcome, hfindings]
  rfl

/-- Walks of the nine rules through sites that a revision makes equal, if the answers of the rules
that look at what it changes look the same. -/
theorem walks_revisedBy (ids : List RuleId)
    (hlooks : ∀ {s s' : Site}, r.site s = r.site s' → ∀ id, ¬ Spares r settings id →
      (revisedBy r view happend).Runs
        (answer settings s.node.line (ofId id).toRuleInfo ((ofId id).check settings s))
        (answer settings s'.node.line (ofId id).toRuleInfo ((ofId id).check settings s'))) :
    (revisedBy r view happend).Walks (dispatcher ids settings) (dispatcher ids settings)
      fun s s' => r.site s = r.site s' where
  children := r.forall₂_children
  enter := by
    rintro s s' hs hfile hfile' c c' ⟨hfits, hc⟩
    refine ⟨hfits.of_slots_eq (enter_keeps hfile c).2, ?_⟩
    rw [r.context_enter hfile, r.context_enter hfile', hs, hc]
  dispatch := by
    intro s s' hs
    have hrules : (dispatcher ids settings).dispatch s' =
        ask settings s'.node.line (fun rule c => rule.check settings s' c)
          ((dispatcher ids settings).routes.get s.node.kind) := by
      rw [← r.kind_eq_of_site_eq hs]
      rfl
    rw [hrules]
    refine .ask fun rule hrule => ?_
    obtain ⟨id, hwants, rfl⟩ := exists_eq_ofId_of_mem_routes hrule
    by_cases hspares : Spares r settings id
    · have hsite' := revised_check settings s' id hspares
      rw [← hs] at hsite'
      exact revised_answer (revised_check settings s id hspares) hsite'
        (succeeds_check settings s id hwants)
    · exact hlooks hs id hspares
  leave := by
    intro s s' hs
    have hfile' := r.isFile_eq_of_site_eq hs
    cases hfile : s.node.isFile with
    | true =>
      obtain ⟨line, hleave⟩ := exists_leave_eq_ask (d := dispatcher ids settings) hfile
      obtain ⟨line', hleave'⟩ :=
        exists_leave_eq_ask (d := dispatcher ids settings) (hfile'.trans hfile)
      rw [hleave, hleave']
      refine .ask fun rule hrule => ?_
      obtain ⟨id, rfl⟩ := exists_eq_ofId_of_mem_rules hrule
      have hfinish := carried_finish (t := .revise r) (fun _ => rfl) settings id
      exact revised_answer hfinish hfinish (succeeds_finish settings id)
    | false =>
      rintro c c' ⟨hfits, hc⟩
      obtain ⟨hsilent, -, hslots⟩ := leave_keeps (d := dispatcher ids settings) hfile c
      obtain ⟨hsilent', -⟩ := leave_keeps (d := dispatcher ids settings) (hfile'.trans hfile) c'
      refine ⟨by rw [hsilent, hsilent']; rfl, hfits.of_slots_eq hslots, ?_⟩
      rw [r.context_leave hfile, r.context_leave (hfile'.trans hfile), hs, hc]

end View

variable {keep : Finding → Bool}

/-- The answer of a rule of which nothing is kept and that remembers nothing. -/
theorem dropped_answer {id : RuleId} {line line' : Nat} {q q' : Context → Outcome × Context}
    (hq : Confined (ofId id).toRuleInfo q) (hq' : Confined (ofId id).toRuleInfo q')
    (hnext : ∀ c, (q c).2 = c) (hnext' : ∀ c, (q' c).2 = c)
    (hkeep : ∀ f : Finding, f.isOf id = true → keep f = false) :
    (revised r keep).Runs (answer settings line (ofId id).toRuleInfo q)
      (answer settings line' (ofId id).toRuleInfo q') := by
  have hnone : ∀ {line q}, Confined (ofId id).toRuleInfo q → ∀ c : Context,
      (answer settings line (ofId id).toRuleInfo q c).1.filter keep = [] := by
    intro line q hq c
    rw [List.filter_eq_nil_iff]
    intro f hf
    have hname : f.rule = (ofId id).name := rule_of_mem_settle hq c hf
    rw [hkeep f (decide_eq_true hname)]
    exact Bool.false_ne_true
  rintro c c' ⟨hfits, hc⟩
  refine ⟨(hnone hq c).trans (hnone hq' c').symm, ?_⟩
  show (q c).2.Fits ∧ r.context (q c).2 = r.context (q' c').2
  rw [hnext, hnext']
  exact ⟨hfits, hc⟩

/-- The rules that look at what the revision changes may also be dropped. -/
theorem walks_revised (ids : List RuleId) (hkeep : r.Drops settings keep) :
    (revised r keep).Walks (dispatcher ids settings) (dispatcher ids settings)
      fun s s' => r.site s = r.site s' :=
  walks_revisedBy ids fun {s s'} _ id hspares =>
    dropped_answer (confined_check settings s id) (confined_check settings s' id)
      (fun c => snd_check_of_not_spares hspares s c)
      (fun c => snd_check_of_not_spares hspares s' c) (hkeep id hspares)

end Comparison

/-! ## Files -/

theorem Tree.Revision.site_ofFile (r : Revision) {f f' : SourceFile} (h : r.file f = r.file f')
    (i : Nat) : r.site (.ofFile i f) = r.site (.ofFile i f') :=
  congrArg (fun f : SourceFile => (⟨.root i, .file { f with text := none }⟩ : Site)) h

/-- The stops of files that a revision makes equal. -/
theorem Tree.Revision.forall₂_stops (r : Revision) {f f' : SourceFile} (h : r.file f = r.file f')
    (i : Nat) :
    List.Forall₂ (fun s s' : Stop => r.site s.site = r.site s'.site)
      (Walk.preorder (Stop.ofFile i f)) (Walk.preorder (Stop.ofFile i f')) := by
  have hsites : ∀ g, (Walk.preorder (Stop.ofFile i g)).map (fun s => r.site s.site) =
      Walk.preorder (r.site (.ofFile i g)) := by
    intro g
    show (Walk.preorder (Stop.ofFile i g)).map (r.site ∘ Stop.site) = _
    rw [← List.map_map, Stop.map_site_preorder, Walk.map_preorder _ r.map_site_children]
    rfl
  refine forall₂_of_map_eq ?_
  rw [hsites, hsites, r.site_ofFile h]

namespace Dispatcher

variable {settings : Settings} {line : Nat} {question : Rule → Context → Outcome × Context}
  {rules : List Rule}

theorem snd_ask_of_stateless (h : ∀ rule ∈ rules, ∀ c, (question rule c).2 = c) (c : Context) :
    (ask settings line question rules c).2 = c := by
  induction rules with
  | nil => rfl
  | cons rule rest ih =>
    rw [ask_cons, h rule (List.mem_cons_self ..)]
    exact ih fun r hr => h r (List.mem_cons_of_mem _ hr)

theorem fst_ask_of_silent (h : ∀ rule ∈ rules, question rule = Rule.silent settings) (c : Context) :
    (ask settings line question rules c).1 = [] := by
  induction rules generalizing c with
  | nil => rfl
  | cons rule rest ih =>
    have hfirst : (ask settings line question [rule] c).1 = [] := by
      rw [ask_singleton, h rule (List.mem_cons_self ..)]
      exact settle_ok settings rule.toRuleInfo line 0 c c []
    rw [ask_cons, hfirst]
    exact ih (fun r hr => h r (List.mem_cons_of_mem _ hr)) _

end Dispatcher

namespace Analyzer

open Dispatcher

variable {ids : List RuleId} {settings : Settings} {root : Option String} {r : Revision}

/-- One file, in whose walks the same is to be seen. -/
theorem view_walkFile_of_revised {β : Type} {view : List Finding → List β}
    {happend : ∀ fs gs, view (fs ++ gs) = view fs ++ view gs}
    (hwalks : (Comparison.revisedBy r view happend).Walks (Rules.dispatcher ids settings)
      (Rules.dispatcher ids settings) fun s s' => r.site s = r.site s')
    {f f' : SourceFile} (h : r.file f = r.file f') (i : Nat) :
    view ((analyzer ids settings root).walkFile i f) =
      view ((analyzer ids settings root).walkFile i f') := by
  have henter : r.context (enter (.ofFile i f) (Context.empty.enterFile (.ofFile i f root))) =
      r.context (enter (.ofFile i f') (Context.empty.enterFile (.ofFile i f' root))) := by
    rw [enter_ofFile, enter_ofFile]
    exact congrArg (fun f : SourceFile =>
      (⟨some ⟨0, f.path, f.text, Path.relativeTo f.path root⟩, [], [], []⟩ : Context)) h
  exact (hwalks.visit (r.site_ofFile h i) 0 ⟨fits_enter_ofFile i f root, henter⟩).1

section

variable {keep : Finding → Bool} (hkeep : r.Drops settings keep)
include hkeep

/-- One file. -/
theorem filter_walkFile_of_revised {f f' : SourceFile} (h : r.file f = r.file f') (i : Nat) :
    ((analyzer ids settings root).walkFile i f).filter keep =
      ((analyzer ids settings root).walkFile i f').filter keep :=
  view_walkFile_of_revised (Comparison.walks_revised ids hkeep) h i

/-- A run over many files. -/
theorem filter_analyze_of_revised {files files' : List SourceFile}
    (h : files.map r.file = files'.map r.file) :
    ((analyzer ids settings root).analyze files).findings.filter keep =
      ((analyzer ids settings root).analyze files').findings.filter keep := by
  have hblind := (isLocal_analyzer ids settings root).isNumberBlind
  rw [findings_analyze hblind, findings_analyze hblind, filter_sortFindings, filter_sortFindings,
    List.filter_flatMap, List.filter_flatMap]
  exact congrArg sortFindings (flatMap_eq_of_forall₂ (forall₂_of_map_eq h) fun f _ f' _ hf =>
    filter_walkFile_of_revised hkeep hf 0)

end

/-! ## Statements -/

/-- What is found in a walk of the file, each finding with the site at which it is made. -/
def sightings (a : Analyzer) (i : Nat) (f : SourceFile) : List Sighting :=
  (a.dispatcher.visit 0 (.ofFile i f)
    (Context.empty.enterFile (.ofFile i f a.root))).1.flatMap Event.sightings

/-- At this place there is a statement that has an ignore mark in one of the files and none in the
other. -/
def marksDiffer (i : Nat) (f f' : SourceFile) (place : Place) : Bool :=
  (Walk.preorder (Site.ofFile i f)).any fun s =>
    (Walk.preorder (Site.ofFile i f')).any fun s' =>
      s.place = place && s'.place = place &&
        ReturnValue.isMarkedSite s != ReturnValue.isMarkedSite s'

/-- The findings about returned values in one of two files or in another one, with their places, but
for the places where the marks of the two differ. -/
def agreedSightings (a : Analyzer) (i : Nat) (f f' g : SourceFile) : List (Place × Finding) :=
  ((a.sightings i g).filter fun x =>
    !marksDiffer i f f' x.1.place && x.2.isOf .checkReturnValue).map fun x => (x.1.place, x.2)

/-- The rule about returned values, registered any number of times. -/
def onlyReturnValue (ids : List RuleId) (settings : Settings) : Dispatcher :=
  Rules.dispatcher (ids.filter (· = .checkReturnValue)) settings

/-- Nobody is asked but the rule about returned values. -/
theorem dispatch_onlyReturnValue (site : Site) (c : Context) :
    (onlyReturnValue ids settings).dispatch site c =
      ask settings site.node.line (fun rule c => rule.check settings site c)
        (List.replicate ((ids.filter (· = .checkReturnValue)).countP
          (wants settings site.node.kind)) returnValue) c := by
  have hasked : ((ids.filter (· = .checkReturnValue)).filter
      (wants settings site.node.kind)).map ofId =
        List.replicate ((ids.filter (· = .checkReturnValue)).countP
          (wants settings site.node.kind)) returnValue := by
    rw [List.eq_replicate_iff, List.length_map, ← List.countP_eq_length_filter]
    refine ⟨rfl, fun rule hrule => ?_⟩
    obtain ⟨id, hid, rfl⟩ := List.mem_map.mp hrule
    rw [of_decide_eq_true (List.mem_filter.mp (List.mem_of_mem_filter hid)).2]
    rfl
  rw [onlyReturnValue, dispatch_dispatcher, hasked]

theorem snd_dispatch_onlyReturnValue (site : Site) (c : Context) :
    ((onlyReturnValue ids settings).dispatch site c).2 = c := by
  rw [dispatch_onlyReturnValue]
  refine snd_ask_of_stateless (fun rule hrule c => ?_) c
  rw [List.eq_of_mem_replicate hrule]
  rfl

theorem fst_leave_onlyReturnValue (i : Nat) (f : SourceFile) (c : Context) :
    ((onlyReturnValue ids settings).leave (.ofFile i f) c).1 = [] := by
  rw [onlyReturnValue, Site.ofFile, leave_file]
  refine fst_ask_of_silent (fun rule hrule => ?_) c
  obtain ⟨id, hid, rfl⟩ := List.mem_map.mp hrule
  rw [of_decide_eq_true (List.mem_filter.mp (List.mem_of_mem_filter hid)).2]
  rfl

/-- What the rule about returned values says in a walk, it says at each stop for itself. -/
theorem filter_sightings_checkReturnValue (i : Nat) (f : SourceFile) :
    ((analyzer ids settings root).sightings i f).filter (fun x => x.2.isOf .checkReturnValue) =
      (Walk.preorder (Stop.ofFile i f)).flatMap fun s =>
        ((onlyReturnValue ids settings).dispatch s.site
          (s.context (some (.ofFile i f root)) [])).1.map fun x => (s.site, x) := by
  refine (filter_sightings_others .checkReturnValue ids settings i f root).1.trans ?_
  show roundSightings ((onlyReturnValue ids settings).fileRound i f root).1 ++
    ((onlyReturnValue ids settings).leave (.ofFile i f) _).1.map _ = _
  rw [fst_leave_onlyReturnValue, List.map_nil, List.append_nil, fileRound,
    round_of_stateless _ snd_dispatch_onlyReturnValue, roundSightings, List.flatMap_map]

/-- At sites that differ in comments only, both marked or both not, the rule about returned values
says the same. -/
theorem dispatch_onlyReturnValue_congr {s s' : Site}
    (hs : Revision.withoutComments.site s = Revision.withoutComments.site s')
    (hmark : ReturnValue.isMarkedSite s = ReturnValue.isMarkedSite s') {c c' : Context}
    (hc : c.finding = c'.finding) :
    ((onlyReturnValue ids settings).dispatch s c).1 =
      ((onlyReturnValue ids settings).dispatch s' c').1 := by
  rw [dispatch_onlyReturnValue, dispatch_onlyReturnValue,
    Revision.withoutComments.kind_eq_of_site_eq hs]
  have hruns : ∀ n, Comparison.sameFile.Runs
      (ask settings s.node.line (fun rule c => rule.check settings s c)
        (List.replicate n returnValue))
      (ask settings s'.node.line (fun rule c => rule.check settings s' c)
        (List.replicate n returnValue)) := by
    refine fun n => .ask fun rule hrule => ?_
    rw [List.eq_of_mem_replicate hrule]
    intro c c' hc
    have hfindings := ReturnValue.findings_congr settings hs hmark hc
    exact ⟨congrArg (fun fs => settle settings ReturnValue.info 0 c (.ok fs)) hfindings, hc⟩
  exact (hruns _ c c' hc).1

/-- Findings at the stops of a file are reported under its path. -/
theorem finding_context_of_path_eq {f f' : SourceFile} (h : f.path = f'.path) (i : Nat)
    (root : Option String) (s s' : Stop) :
    (s.context (some (.ofFile i f root)) []).finding =
      (s'.context (some (.ofFile i f' root)) []).finding := by
  funext info line message
  show (⟨_, _, _, ⟨Path.relativeTo f.path root, line⟩, _, _⟩ : Finding) =
    ⟨_, _, _, ⟨Path.relativeTo f'.path root, line⟩, _, _⟩
  rw [h]

theorem isMarkedSite_eq_of_not_marksDiffer {i : Nat} {f f' : SourceFile} {s s' : Site}
    (hs : s ∈ Walk.preorder (Site.ofFile i f)) (hs' : s' ∈ Walk.preorder (Site.ofFile i f'))
    (hplace : s'.place = s.place) (h : marksDiffer i f f' s.place = false) :
    ReturnValue.isMarkedSite s = ReturnValue.isMarkedSite s' := by
  rw [marksDiffer, List.any_eq_false] at h
  have hpair := h s hs
  rw [Bool.not_eq_true, List.any_eq_false] at hpair
  have hmarks := hpair s' hs'
  rw [hplace, decide_eq_true rfl, Bool.and_self, Bool.true_and, Bool.not_eq_true,
    bne_eq_false_iff_eq] at hmarks
  exact hmarks

/-- The places at which marks differ put aside, what the rule about returned values says at each stop
for itself. -/
theorem agreedSightings_eq_flatMap (i : Nat) (f f' g : SourceFile) :
    (analyzer ids settings root).agreedSightings i f f' g =
      (Walk.preorder (Stop.ofFile i g)).flatMap fun s =>
        if marksDiffer i f f' s.site.place then []
        else ((onlyReturnValue ids settings).dispatch s.site
          (s.context (some (.ofFile i g root)) [])).1.map fun x => (s.site.place, x) := by
  rw [agreedSightings, ← List.filter_filter, filter_sightings_checkReturnValue,
    List.filter_flatMap, List.map_flatMap]
  refine List.flatMap_congr fun s _ => ?_
  rw [List.filter_map, List.map_map]
  cases h : marksDiffer i f f' s.site.place <;> simp [Function.comp_def, h]

/-- Where marks do not differ, files that differ in comments only have the same findings about
returned values at the same places. -/
theorem agreedSightings_eq {i : Nat} {f f' : SourceFile}
    (h : Revision.withoutComments.file f = Revision.withoutComments.file f') :
    (analyzer ids settings root).agreedSightings i f f' f =
      (analyzer ids settings root).agreedSightings i f f' f' := by
  have hpaths : (Revision.withoutComments.file f).path =
      (Revision.withoutComments.file f').path := congrArg SourceFile.path h
  have hpath : f.path = f'.path := hpaths
  rw [agreedSightings_eq_flatMap, agreedSightings_eq_flatMap]
  refine flatMap_eq_of_forall₂ (Revision.withoutComments.forall₂_stops h i)
    fun s hs s' hs' hss => ?_
  have hplace : s'.site.place = s.site.place := (congrArg Site.place hss).symm
  rw [hplace]
  cases hmarks : marksDiffer i f f' s.site.place with
  | true => rfl
  | false =>
    have hmark := isMarkedSite_eq_of_not_marksDiffer
      (Stop.map_site_preorder (Stop.ofFile i f) ▸ List.mem_map_of_mem hs)
      (Stop.map_site_preorder (Stop.ofFile i f') ▸ List.mem_map_of_mem hs') hplace hmarks
    rw [dispatch_onlyReturnValue_congr hss hmark (finding_context_of_path_eq hpath i root s s')]

/-! ## The three sorts of side data -/

/-- The finding is of a rule that looks at types. -/
def usesTypes (f : Finding) : Bool :=
  f.isOf .fixedLoopBounds || f.isOf .noHeapAllocation || f.isOf .checkReturnValue

/-- It is enough to drop the findings of the rules that look at the sort of side data that is
changed. -/
theorem drops_of {keep : Finding → Bool}
    (htext : r.text = id ∨ (settings.countComments = true ∧ settings.countBlankLines = true) ∨
      ∀ f : Finding, f.isOf .functionLength = true → keep f = false)
    (hcomments : r.comments = id ∨
      ∀ f : Finding, f.isOf .checkReturnValue = true → keep f = false)
    (htype : r.type = id ∨ ∀ f, usesTypes f = true → keep f = false)
    (hcalled : r.called = id) : r.Drops settings keep := by
  intro id h f hf
  cases id with
  | functionLength =>
    rcases htext with htext | hcounted | hdrop
    · exact absurd (Or.inl htext) h
    · exact absurd (Or.inr hcounted) h
    · exact hdrop f hf
  | fixedLoopBounds =>
    rcases htype with htype | hdrop
    · exact absurd htype h
    · exact hdrop f (by simp [usesTypes, hf])
  | noHeapAllocation =>
    rcases htype with htype | hdrop
    · exact absurd htype h
    · exact hdrop f (by simp [usesTypes, hf])
  | checkReturnValue =>
    rcases htype with htype | hdrop
    · rcases hcomments with hcomments | hdrop
      · exact absurd ⟨htype, hcomments, hcalled⟩ h
      · exact hdrop f hf
    · exact hdrop f (by simp [usesTypes, hf])
  | _ => exact absurd trivial h

theorem drops_withoutText (settings : Settings) :
    Revision.withoutText.Drops settings fun x => !x.isOf .functionLength :=
  drops_of (.inr (.inr fun f hf => by rw [hf]; rfl)) (.inl rfl) (.inl rfl) rfl

/-- If all lines count, no rule looks at the text. -/
theorem drops_withoutText_of_counted (hcomments : settings.countComments = true)
    (hblanks : settings.countBlankLines = true) :
    Revision.withoutText.Drops settings fun _ => true :=
  drops_of (.inr (.inl ⟨hcomments, hblanks⟩)) (.inl rfl) (.inl rfl) rfl

theorem drops_withoutComments (settings : Settings) :
    Revision.withoutComments.Drops settings fun x => !x.isOf .checkReturnValue :=
  drops_of (.inl rfl) (.inr fun f hf => by rw [hf]; rfl) (.inl rfl) rfl

theorem drops_withoutTypes (settings : Settings) :
    Revision.withoutTypes.Drops settings fun x => !usesTypes x :=
  drops_of (.inl rfl) (.inl rfl) (.inr fun f hf => by rw [hf]; rfl) rfl

/-- How far side data reaches, for the nine rules in any registration, with any settings and from
any root.

* Files that differ in their texts only have the same findings of all rules but the one about the
  length of functions, and of that rule too if comments and blank lines both count.
* Files that differ in comments only have the same findings of all rules but the one about returned
  values; and of that rule they have the same findings at the same places, but for places where a
  statement has an ignore mark in one file and none in the other.
* Files that differ in types only have the same findings of all rules but those about loops,
  allocations and returned values. -/
theorem side_data_reaches_few_rules (ids : List RuleId) (settings : Settings)
    (root : Option String) :
    (∀ files files' : List SourceFile,
      files.map Revision.withoutText.file = files'.map Revision.withoutText.file →
        ((analyzer ids settings root).analyze files).findings.filter
            (fun x => !x.isOf .functionLength) =
          ((analyzer ids settings root).analyze files').findings.filter
            (fun x => !x.isOf .functionLength) ∧
        (settings.countComments = true → settings.countBlankLines = true →
          ((analyzer ids settings root).analyze files).findings =
            ((analyzer ids settings root).analyze files').findings)) ∧
    (∀ files files' : List SourceFile,
      files.map Revision.withoutComments.file = files'.map Revision.withoutComments.file →
        ((analyzer ids settings root).analyze files).findings.filter
            (fun x => !x.isOf .checkReturnValue) =
          ((analyzer ids settings root).analyze files').findings.filter
            (fun x => !x.isOf .checkReturnValue)) ∧
    (∀ i f f', Revision.withoutComments.file f = Revision.withoutComments.file f' →
      (analyzer ids settings root).agreedSightings i f f' f =
        (analyzer ids settings root).agreedSightings i f f' f') ∧
    (∀ files files' : List SourceFile,
      files.map Revision.withoutTypes.file = files'.map Revision.withoutTypes.file →
        ((analyzer ids settings root).analyze files).findings.filter (fun x => !usesTypes x) =
          ((analyzer ids settings root).analyze files').findings.filter
            (fun x => !usesTypes x)) := by
  refine ⟨fun files files' h => ⟨?_, fun hcomments hblanks => ?_⟩, fun files files' h => ?_,
    fun i f f' h => agreedSightings_eq h, fun files files' h => ?_⟩
  · exact filter_analyze_of_revised (drops_withoutText settings) h
  · have hall : ((analyzer ids settings root).analyze files).findings.filter (fun _ => true) =
        ((analyzer ids settings root).analyze files').findings.filter (fun _ => true) :=
      filter_analyze_of_revised (drops_withoutText_of_counted hcomments hblanks) h
    rwa [List.filter_true, List.filter_true] at hall
  · exact filter_analyze_of_revised (drops_withoutComments settings) h
  · exact filter_analyze_of_revised (drops_withoutTypes settings) h

/-- Two calls whose values are dropped, once with a text, a mark and a type more than the other
time. -/
theorem side_data_reaches_few_rules_droppedCall :
    let a := analyzer RuleId.all .default none
    let call : Expr := .call "fclose" []
    let plain : Stmt := .ofExpr call
    let marked : Stmt := { plain with comments := ["// @void"] }
    let typed : Stmt := .ofExpr (call.typed .int)
    let file (text : Option String) (s : Stmt) : SourceFile := ⟨"a.php", text, [s]⟩
    (a.analyze [file (some "<?php") plain]).findings.filter (fun x => !x.isOf .functionLength) =
        (a.analyze [file none plain]).findings.filter (fun x => !x.isOf .functionLength) ∧
      (a.analyze [file (some "<?php") plain]).findings = (a.analyze [file none plain]).findings ∧
      (a.analyze [file none marked]).findings.filter (fun x => !x.isOf .checkReturnValue) =
        (a.analyze [file none plain]).findings.filter (fun x => !x.isOf .checkReturnValue) ∧
      a.agreedSightings 0 (file none marked) (file none plain) (file none marked) =
        a.agreedSightings 0 (file none marked) (file none plain) (file none plain) ∧
      (a.analyze [file none typed]).findings.filter (fun x => !usesTypes x) =
        (a.analyze [file none plain]).findings.filter (fun x => !usesTypes x) := by
  intro a call plain marked typed file
  obtain ⟨htext, hcomments, hmarks, htypes⟩ :=
    side_data_reaches_few_rules RuleId.all .default none
  obtain ⟨hothers, hcounted⟩ := htext [file (some "<?php") plain] [file none plain] rfl
  exact ⟨hothers, hcounted rfl rfl,
    hcomments [file none marked] [file none plain] rfl,
    hmarks 0 (file none marked) (file none plain) rfl,
    htypes [file none typed] [file none plain] rfl⟩

end Analyzer

end SafetyLint
