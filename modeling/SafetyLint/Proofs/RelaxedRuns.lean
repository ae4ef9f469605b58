import Mathlib.Data.List.Forall2
import SafetyLint.Proofs.AccessChains
import SafetyLint.Proofs.FileHeader
import SafetyLint.Proofs.Relaxation

/-!
# Relaxing never adds a finding

Two runs over the same files, under settings of which the second relax the first.  The marks of the
second run are a part of the marks of the first, in the same order.

Findings of different rules are interleaved, so it is not enough to compare what each rule says in
total; the two runs are compared stop by stop (`MilderRound`).  For each rule alone this is done
with what is known about it: rules without a memory answer at each stop for itself; the rule about
chains answers by the shape of the tree, whatever it remembers (`Dereferences.fileRound_eq`); and
for the rule about headers the two machines run side by side, with less pending in the second
(`Diagnostics.follows_replay`).

What all rules together say at a stop is grouped by rules, and each group is what the rule says
alone (`Dispatcher.grouped_dispatch`).  So the comparison passes from single rules to all of them
(`MilderRound.of_grouped`), then from stops to files, and sorting keeps it.
-/

namespace SafetyLint

open SafetyLint.Tree Config Rules

/-! ## Comparing rounds -/

/-- Stop by stop, the first answers are milder than the second. -/
def MilderRound (answers' answers : List (Stop × List Finding)) : Prop :=
  List.Forall₂ (fun a' a => Milder a'.2 a.2) answers' answers

theorem MilderRound.flatMap_snd {answers' answers : List (Stop × List Finding)}
    (h : MilderRound answers' answers) :
    Milder (answers'.flatMap Prod.snd) (answers.flatMap Prod.snd) := by
  induction h with
  | nil => exact .nil _
  | cons hfirst _ ih =>
    rw [List.flatMap_cons, List.flatMap_cons]
    exact hfirst.append ih

/-- No findings are milder than any. -/
theorem MilderRound.of_silent {answers' answers : List (Stop × List Finding)}
    (hsilent : ∀ a ∈ answers', a.2 = []) (hlength : answers'.length = answers.length) :
    MilderRound answers' answers := by
  induction answers' generalizing answers with
  | nil =>
    rw [List.eq_nil_of_length_eq_zero hlength.symm]
    exact .nil
  | cons a' rest' ih =>
    cases answers with
    | nil => exact absurd hlength (Nat.succ_ne_zero _)
    | cons a rest =>
      refine .cons ?_ (ih (fun b hb => hsilent b (List.mem_cons_of_mem _ hb))
        (Nat.succ.inj hlength))
      rw [hsilent a' (List.mem_cons_self ..)]
      exact .nil _

theorem Milder.flatMap {α : Type} {as : List α} {fs' fs : α → List Finding}
    (h : ∀ a ∈ as, Milder (fs' a) (fs a)) : Milder (as.flatMap fs') (as.flatMap fs) := by
  induction as with
  | nil => exact .nil _
  | cons a rest ih =>
    rw [List.flatMap_cons, List.flatMap_cons]
    exact (h a (List.mem_cons_self ..)).append (ih fun b hb => h b (List.mem_cons_of_mem _ hb))

/-- Findings as a run reports them, whatever severities it goes by. -/
theorem Milder.reported {s s' : Settings} {info : RuleInfo} {file : Option OpenFile} {line : Nat}
    {messages' messages : List String} (h : messages'.length ≤ messages.length) :
    Milder (messages'.map (reported s' info file line))
      (messages.map (reported s info file line)) :=
  of_length (m := (info.id.word, ⟨(file.map OpenFile.shown).getD "", line⟩)) (fun _ => rfl)
    (fun _ => rfl) h

namespace Dispatcher

/-- Severities do not touch marks. -/
theorem map_mark_settle (settings : Settings) (info : RuleInfo) (line : Nat) (c : Context)
    (fs : List Finding) :
    (settle settings info line c (.ok fs)).map Finding.mark = fs.map Finding.mark := by
  rw [settle]
  cases settings.severity? info.id with
  | none => rfl
  | some severity =>
    show List.map _ (List.map _ _) = _
    rw [List.map_map]
    rfl

theorem milder_settle {s s' : Settings} {info : RuleInfo} {line : Nat} {c : Context}
    {o' o : Outcome} (h : Eased o' o) :
    Milder (settle s' info line c o') (settle s info line c o) := by
  cases h with
  | ok h =>
    rw [Milder, map_mark_settle, map_mark_settle]
    exact h
  | error e => exact .refl _

theorem length_round (d : Dispatcher) (file : Option OpenFile) (stops : List Stop)
    (slots : List (RuleId × Slot)) : (d.round file stops slots).1.length = stops.length := by
  induction stops generalizing slots with
  | nil => rfl
  | cons s rest ih => rw [round_cons, List.length_cons, List.length_cons, ih]

end Dispatcher

/-! ## Single rules -/

theorem Rules.wants_mono {s s' : Settings} (h : s.Relaxes s') {kind : NodeKind} {id : RuleId}
    (hwants : wants s' kind id = true) : wants s kind id = true := by
  obtain ⟨hkind, hactive⟩ := Bool.and_eq_true_iff.mp hwants
  exact Bool.and_eq_true_iff.mpr ⟨hkind, h.isActive id hactive⟩

section SingleRules

variable {s s' : Settings} (h : s.Relaxes s')

/-- A rule that is inactive now says nothing. -/
theorem milderRound_of_inactive {id : RuleId} (hinactive : s'.isActive id = false) (i : Nat)
    (f : SourceFile) (root : Option String) :
    MilderRound ((dispatcher [id] s').fileRound i f root).1
      ((dispatcher [id] s).fileRound i f root).1 := by
  have hdispatch : ∀ site c, (dispatcher [id] s').dispatch site c = ([], c) := by
    intro site c
    rw [Dispatcher.dispatch_singleton, wants, hinactive, Bool.and_false]
    rfl
  refine .of_silent (fun a ha => ?_) ?_
  · rw [Dispatcher.fileRound, Dispatcher.round_of_stateless _
      fun site c => congrArg Prod.snd (hdispatch site c)] at ha
    obtain ⟨stop, -, rfl⟩ := List.mem_map.mp ha
    exact congrArg Prod.fst (hdispatch _ _)
  · rw [Dispatcher.fileRound, Dispatcher.fileRound, Dispatcher.length_round,
      Dispatcher.length_round]

include h

theorem milderRound_of_stateless {id : RuleId} (hlinks : id ≠ .limitDereferences)
    (hheader : id ≠ .mandatoryDiagnostics) (i : Nat) (f : SourceFile) (root : Option String) :
    MilderRound ((dispatcher [id] s').fileRound i f root).1
      ((dispatcher [id] s).fileRound i f root).1 := by
  have hstateless : ∀ (settings : Settings) site c,
      ((dispatcher [id] settings).dispatch site c).2 = c := by
    intro settings site c
    rw [Dispatcher.dispatch_singleton]
    split
    · exact snd_check_of_ne settings hlinks hheader site c
    · rfl
  have hmilder : ∀ site c, Milder ((dispatcher [id] s').dispatch site c).1
      ((dispatcher [id] s).dispatch site c).1 := by
    intro site c
    have hc := snd_check_of_ne s hlinks hheader site c
    have hc' := snd_check_of_ne s' hlinks hheader site c
    rw [Dispatcher.dispatch_singleton, Dispatcher.dispatch_singleton, hc, hc']
    split
    · next hwants =>
      rw [if_pos (wants_mono h hwants)]
      exact Dispatcher.milder_settle (eased_check h hlinks hheader site c)
    · exact .nil _
  rw [Dispatcher.fileRound, Dispatcher.fileRound,
    Dispatcher.round_of_stateless _ (hstateless s'), Dispatcher.round_of_stateless _ (hstateless s),
    MilderRound, List.forall₂_map_left_iff, List.forall₂_map_right_iff, List.forall₂_same]
  exact fun stop _ => hmilder stop.site _

/-! ### Chains -/

namespace Rules.Dereferences

theorem isSome_message? {kind : ExprKind}
    (hsome : (message? s'.maxDereferences kind).isSome = true) :
    (message? s.maxDereferences kind).isSome = true := by
  have hmax := h.maxDereferences
  unfold message? at hsome ⊢
  cases kind with
  | arrayDimFetch array index =>
    simp only at hsome ⊢
    split at hsome
    · next hboth =>
      obtain ⟨hfew, hlink⟩ := Bool.and_eq_true_iff.mp hboth
      have hfew' := of_decide_eq_true hfew
      rw [if_pos (Bool.and_eq_true_iff.mpr ⟨decide_eq_true (by omega), hlink⟩)]
      rfl
    · exact absurd hsome Bool.false_ne_true
  | call callee args =>
    cases callee with
    | name name => exact hsome
    | expr target => rfl
  | _ => exact hsome

theorem isSome_verdict {stop : Stop}
    (hsome : (verdict s'.maxDereferences stop).isSome = true) :
    (verdict s.maxDereferences stop).isSome = true := by
  have hmax := h.maxDereferences
  obtain ⟨⟨place, node⟩, above⟩ := stop
  unfold verdict at hsome ⊢
  cases node with
  | expr e =>
    simp only at hsome ⊢
    split
    · next hlink =>
      rw [if_pos hlink] at hsome
      split at hsome
      · next hboth =>
        obtain ⟨hhead, hdeep⟩ := Bool.and_eq_true_iff.mp hboth
        have hdeep' := of_decide_eq_true hdeep
        rw [if_pos (Bool.and_eq_true_iff.mpr ⟨hhead, decide_eq_true (by omega)⟩)]
        rfl
      · exact absurd hsome Bool.false_ne_true
    · next hlink =>
      rw [if_neg hlink] at hsome
      exact isSome_message? h hsome
  | _ => exact hsome

theorem milderRound (hactive' : s'.isActive .limitDereferences = true) (i : Nat) (f : SourceFile)
    (root : Option String) :
    MilderRound ((dispatcher [.limitDereferences] s').fileRound i f root).1
      ((dispatcher [.limitDereferences] s).fileRound i f root).1 := by
  rw [(fileRound_eq hactive' i f root).1, (fileRound_eq (h.isActive _ hactive') i f root).1,
    MilderRound, List.forall₂_map_left_iff, List.forall₂_map_right_iff, List.forall₂_same]
  exact fun stop _ => .reported (length_toList_le (isSome_verdict h))

end Rules.Dereferences

/-! ### Headers -/

namespace Rules.Diagnostics

theorem isSome_message? {kind : ExprKind} (hsome : (message? s' kind).isSome = true) :
    (message? s kind).isSome = true := by
  unfold message? at hsome ⊢
  cases kind with
  | call callee args =>
    cases callee with
    | name name =>
      simp only at hsome ⊢
      split at hsome
      · next hname =>
        rw [List.contains_iff_mem] at hname
        rw [if_pos (List.contains_iff_mem.mpr (h.suppressionFunctions hname))]
        rfl
      · exact absurd hsome Bool.false_ne_true
    | expr target => exact hsome
  | _ => exact hsome

/-- A value that is wrong under the relaxed settings was required before. -/
theorem isSome_wrongValue? {d : Directive} (hsome : (wrongValue? s' d).isSome = true) :
    (wrongValue? s d).isSome = true := by
  obtain ⟨message, hmessage⟩ := Option.isSome_iff_exists.mp hsome
  obtain ⟨expected, hlookup, hsame, -⟩ := wrongValue?_eq_some_iff.mp hmessage
  obtain ⟨value, hvalue, rfl | hnone⟩ := h.requiredDirectives _ _ hlookup
  · exact Option.isSome_iff_exists.mpr
      ⟨_, wrongValue?_eq_some_iff.mpr ⟨expected, hvalue, hsame, rfl⟩⟩
  · exact absurd hnone (Option.some_ne_none _)

omit h in
theorem length_filterMap_le {α : Type} {f' f : α → Option String}
    (hsome : ∀ a, (f' a).isSome = true → (f a).isSome = true) (as : List α) :
    (as.filterMap f').length ≤ (as.filterMap f).length := by
  rw [List.filterMap_eq_flatMap_toList, List.filterMap_eq_flatMap_toList]
  induction as with
  | nil => exact Nat.le_refl _
  | cons a rest ih =>
    rw [List.flatMap_cons, List.flatMap_cons, List.length_append, List.length_append]
    exact Nat.add_le_add (length_toList_le (hsome a)) ih

theorem length_remarks_le (n : Node) : (remarks s' n).length ≤ (remarks s n).length := by
  cases n with
  | expr e => exact length_toList_le (isSome_message? h)
  | _ => exact length_filterMap_le (fun d => isSome_wrongValue? h) _

/-- How the headers of the two runs stand to each other: less is pending in the second. -/
structure Follows (s s' : Settings) (header' header : Header) : Prop where
  sound' : Sound s' header'
  sound : Sound s header
  pending : (pending s' header').Subperm (pending s header)

theorem follows_initial : Follows s s' ⟨false, []⟩ ⟨false, []⟩ where
  sound' := sound_initial s'
  sound := sound_initial s
  pending := by
    refine List.subperm_of_subset ?_ fun name hname => ?_
    · exact s'.pairwise_directiveNames.imp fun hlt => String.ne_of_lt hlt
    · show name ∈ s.directiveNames
      have hname' : name ∈ s'.directiveNames := hname
      rw [Settings.mem_directiveNames, Option.isSome_iff_exists] at hname' ⊢
      obtain ⟨value', hvalue'⟩ := hname'
      obtain ⟨value, hvalue, -⟩ := h.requiredDirectives name value' hvalue'
      exact ⟨value, hvalue⟩

/-- One node. -/
theorem follows_step {header' header : Header} (hf : Follows s s' header' header) (n : Node) :
    (step s' n header').1.length ≤ (step s n header).1.length ∧
      Follows s s' (step s' n header').2 (step s n header).2 := by
  cases hn : isBoundary n with
  | true =>
    obtain ⟨hmessages', hpending'⟩ := step_of_isBoundary s' hn header'
    obtain ⟨hmessages, hpending⟩ := step_of_isBoundary s hn header
    -- both headers end here, and the second has less to report
    refine ⟨?_, hf.sound'.step n, hf.sound.step n, ?_⟩
    · rw [hmessages', hmessages, List.length_map, List.length_map]
      exact hf.pending.length_le
    · rw [hpending', hpending]
  | false =>
    obtain ⟨hmessages', hpending'⟩ := step_of_not_isBoundary hn hf.sound'
    obtain ⟨hmessages, hpending⟩ := step_of_not_isBoundary hn hf.sound
    refine ⟨?_, hf.sound'.step n, hf.sound.step n, ?_⟩
    · rw [hmessages', hmessages]
      exact length_remarks_le h n
    · rw [hpending', hpending]
      exact hf.pending.filter _

/-- Many stops. -/
theorem follows_replay {header' header : Header} (hf : Follows s s' header' header)
    (stops : List Stop) :
    List.Forall₂ (fun a' a => a'.1 = a.1 ∧ a'.2.length ≤ a.2.length)
        (replay (fun stop => step s' stop.site.node) stops header').1
        (replay (fun stop => step s stop.site.node) stops header).1 ∧
      Follows s s' (replay (fun stop => step s' stop.site.node) stops header').2
        (replay (fun stop => step s stop.site.node) stops header).2 := by
  induction stops generalizing header' header with
  | nil => exact ⟨.nil, hf⟩
  | cons stop rest ih =>
    obtain ⟨hlength, hnext⟩ := follows_step h hf stop.site.node
    obtain ⟨hlater, hlast⟩ := ih hnext
    exact ⟨.cons ⟨rfl, hlength⟩ hlater, hlast⟩

theorem milderRound (hactive' : s'.isActive .mandatoryDiagnostics = true) (i : Nat)
    (f : SourceFile) (root : Option String) :
    MilderRound ((dispatcher [.mandatoryDiagnostics] s').fileRound i f root).1
      ((dispatcher [.mandatoryDiagnostics] s).fileRound i f root).1 := by
  rw [(fileRound_eq hactive' root i f).1, (fileRound_eq (h.isActive _ hactive') root i f).1,
    MilderRound, List.forall₂_map_left_iff, List.forall₂_map_right_iff]
  refine (follows_replay h (follows_initial h) _).1.imp fun a' a hboth => ?_
  obtain ⟨hstop, hlength⟩ := hboth
  rw [hstop]
  exact .reported hlength

/-- The last word. -/
theorem milder_leave (hactive' : s'.isActive .mandatoryDiagnostics = true) (i : Nat)
    (f : SourceFile) (root : Option String) :
    Milder ((dispatcher [.mandatoryDiagnostics] s').leave (.ofFile i f)
        ((dispatcher [.mandatoryDiagnostics] s').fileEnd i f root)).1
      ((dispatcher [.mandatoryDiagnostics] s).leave (.ofFile i f)
        ((dispatcher [.mandatoryDiagnostics] s).fileEnd i f root)).1 := by
  have hactive := h.isActive _ hactive'
  have hpending :=
    (follows_replay h (follows_initial h) (Walk.preorder (Stop.ofFile i f))).2.pending
  rw [leave_eq hactive' i f (fileRound_eq hactive' root i f).2,
    leave_eq hactive i f (fileRound_eq hactive root i f).2]
  refine .reported ?_
  rw [List.length_map, List.length_map]
  exact hpending.length_le

end Rules.Diagnostics

/-! ### Any rule -/

theorem milderRound_singleton (r : RuleId) (i : Nat) (f : SourceFile) (root : Option String) :
    MilderRound ((dispatcher [r] s').fileRound i f root).1
      ((dispatcher [r] s).fileRound i f root).1 := by
  cases hactive' : s'.isActive r with
  | false => exact milderRound_of_inactive hactive' i f root
  | true =>
    by_cases hlinks : r = .limitDereferences
    · subst hlinks
      exact Dereferences.milderRound h hactive' i f root
    · by_cases hheader : r = .mandatoryDiagnostics
      · subst hheader
        exact Diagnostics.milderRound h hactive' i f root
      · exact milderRound_of_stateless h hlinks hheader i f root

theorem milder_leave_singleton (r : RuleId) (i : Nat) (f : SourceFile) (root : Option String) :
    Milder ((dispatcher [r] s').leave (.ofFile i f) ((dispatcher [r] s').fileEnd i f root)).1
      ((dispatcher [r] s).leave (.ofFile i f) ((dispatcher [r] s).fileEnd i f root)).1 := by
  cases hactive' : s'.isActive r with
  | false =>
    rw [Site.ofFile, Dispatcher.leave_file, List.filter_cons_of_neg
      (by rw [hactive']; exact Bool.false_ne_true)]
    exact .nil _
  | true =>
    by_cases hheader : r = .mandatoryDiagnostics
    · subst hheader
      exact Diagnostics.milder_leave h hactive' i f root
    · rw [Dispatcher.leave_file_of_ne hheader hactive']
      exact .nil _

end SingleRules

/-! ## All rules together -/

/-- The findings are grouped by rules, in the order of the list. -/
def Grouped (ids : List RuleId) (fs : List Finding) : Prop :=
  fs = ids.flatMap fun r => fs.filter (Finding.isOf r)

theorem Milder.of_grouped {ids : List RuleId} {fs' fs : List Finding} (hgrouped' : Grouped ids fs')
    (hgrouped : Grouped ids fs)
    (hrules : ∀ r ∈ ids, Milder (fs'.filter (Finding.isOf r)) (fs.filter (Finding.isOf r))) :
    Milder fs' fs := by
  rw [hgrouped', hgrouped]
  exact .flatMap hrules

/-- If the answers are grouped at every stop, it is enough to compare them rule by rule. -/
theorem MilderRound.of_grouped {ids : List RuleId} {answers' answers : List (Stop × List Finding)}
    (hgrouped' : ∀ a ∈ answers', Grouped ids a.2) (hgrouped : ∀ a ∈ answers, Grouped ids a.2)
    (hlength : answers'.length = answers.length)
    (hrules : ∀ r ∈ ids, MilderRound (answers'.map fun a => (a.1, a.2.filter (Finding.isOf r)))
      (answers.map fun a => (a.1, a.2.filter (Finding.isOf r)))) :
    MilderRound answers' answers := by
  induction answers' generalizing answers with
  | nil =>
    rw [List.eq_nil_of_length_eq_zero hlength.symm]
    exact .nil
  | cons a' rest' ih =>
    cases answers with
    | nil => exact absurd hlength (Nat.succ_ne_zero _)
    | cons a rest =>
      refine .cons ?_ (ih (fun b hb => hgrouped' b (List.mem_cons_of_mem _ hb))
        (fun b hb => hgrouped b (List.mem_cons_of_mem _ hb)) (Nat.succ.inj hlength)
        fun r hr => (List.forall₂_cons.mp (hrules r hr)).2)
      exact .of_grouped (hgrouped' a' (List.mem_cons_self ..)) (hgrouped a (List.mem_cons_self ..))
        fun r hr => (List.forall₂_cons.mp (hrules r hr)).1

section AllRules

variable {ids : List RuleId} (hids : ids.Nodup)
include hids

namespace Dispatcher

theorem filter_eq_singleton_of_mem {r : RuleId} (hr : r ∈ ids) : ids.filter (· = r) = [r] :=
  filter_eq_singleton r ids (List.count_eq_one_of_mem hids hr)

/-- What some of the rules answer is what each of them answers when it is asked alone, one after the
other. -/
theorem ask_filter_eq_flatMap {settings : Settings} {line : Nat}
    {question : Rule → Context → Outcome × Context}
    (hq : ∀ id, Confined (ofId id).toRuleInfo (question (ofId id))) (p : RuleId → Bool)
    (c : Context) :
    (ask settings line question ((ids.filter p).map ofId) c).1 =
      ids.flatMap fun r => (ask settings line question (([r].filter p).map ofId) c).1 := by
  have hskip : ∀ as : List RuleId,
      (as.filter p).flatMap (fun r => (ask settings line question [ofId r] c).1) =
        as.flatMap fun r => (ask settings line question (([r].filter p).map ofId) c).1 := by
    intro as
    induction as with
    | nil => rfl
    | cons r rest ih =>
      rw [List.flatMap_cons, ← ih]
      cases hp : p r with
      | true =>
        rw [List.filter_cons_of_pos hp, List.filter_cons_of_pos hp, List.flatMap_cons]
        rfl
      | false =>
        have hp' : ¬ p r = true := by
          rw [hp]
          exact Bool.false_ne_true
        rw [List.filter_cons_of_neg hp', List.filter_cons_of_neg hp']
        rfl
  exact (ask_eq_flatMap hq (hids.filter p) c).trans (hskip ids)

theorem grouped_dispatch (settings : Settings) (site : Site) (c : Context) :
    Grouped ids ((dispatcher ids settings).dispatch site c).1 := by
  have hparts : ((dispatcher ids settings).dispatch site c).1 =
      ids.flatMap fun r => ((dispatcher [r] settings).dispatch site c).1 := by
    simp only [dispatch_dispatcher]
    exact ask_filter_eq_flatMap hids (confined_check settings site) _ c
  refine hparts.trans (List.flatMap_congr fun r hr => ?_)
  rw [(filter_dispatch r ids settings site (Context.Agree.refl r c)).1,
    filter_eq_singleton_of_mem hids hr]

theorem grouped_leave (settings : Settings) (i : Nat) (f : SourceFile) (c : Context) :
    Grouped ids ((dispatcher ids settings).leave (.ofFile i f) c).1 := by
  have hparts : ((dispatcher ids settings).leave (.ofFile i f) c).1 =
      ids.flatMap fun r => ((dispatcher [r] settings).leave (.ofFile i f) c).1 := by
    simp only [Site.ofFile, leave_file]
    exact ask_filter_eq_flatMap hids (confined_finish settings) _ c
  refine hparts.trans (List.flatMap_congr fun r hr => ?_)
  have hfilter := (filter_leave_file r ids settings (Place.root i) f (Context.Agree.refl r c)).1
  rw [filter_eq_singleton_of_mem hids hr] at hfilter
  exact hfilter.symm

theorem grouped_round (settings : Settings) (file : Option OpenFile) (stops : List Stop)
    (slots : List (RuleId × Slot)) :
    ∀ a ∈ ((dispatcher ids settings).round file stops slots).1, Grouped ids a.2 := by
  induction stops generalizing slots with
  | nil => exact fun a ha => absurd ha List.not_mem_nil
  | cons stop rest ih =>
    rw [round_cons]
    refine List.forall_mem_cons.mpr ⟨?_, ih _⟩
    exact grouped_dispatch hids settings stop.site _

end Dispatcher

variable {s s' : Settings} (h : s.Relaxes s')
include h

theorem milderRound_fileRound (i : Nat) (f : SourceFile) (root : Option String) :
    MilderRound ((dispatcher ids s').fileRound i f root).1
      ((dispatcher ids s).fileRound i f root).1 := by
  refine .of_grouped (Dispatcher.grouped_round hids s' _ _ _)
    (Dispatcher.grouped_round hids s _ _ _) ?_ fun r hr => ?_
  · rw [Dispatcher.fileRound, Dispatcher.fileRound, Dispatcher.length_round,
      Dispatcher.length_round]
  · have halone : ∀ settings : Settings,
        ((dispatcher ids settings).fileRound i f root).1.map
            (fun a => (a.1, a.2.filter (Finding.isOf r))) =
          ((dispatcher [r] settings).fileRound i f root).1 := by
      intro settings
      rw [← Dispatcher.filter_eq_singleton_of_mem hids hr]
      exact (Dispatcher.filter_round r ids settings _ _ rfl).1
    rw [halone s', halone s]
    exact milderRound_singleton h r i f root

theorem milder_leave (i : Nat) (f : SourceFile) (root : Option String) :
    Milder ((dispatcher ids s').leave (.ofFile i f) ((dispatcher ids s').fileEnd i f root)).1
      ((dispatcher ids s).leave (.ofFile i f) ((dispatcher ids s).fileEnd i f root)).1 := by
  refine .of_grouped (Dispatcher.grouped_leave hids s' i f _)
    (Dispatcher.grouped_leave hids s i f _) fun r hr => ?_
  have halone : ∀ settings : Settings,
      ((dispatcher ids settings).leave (.ofFile i f)
          ((dispatcher ids settings).fileEnd i f root)).1.filter (Finding.isOf r) =
        ((dispatcher [r] settings).leave (.ofFile i f)
          ((dispatcher [r] settings).fileEnd i f root)).1 := by
    intro settings
    rw [← Dispatcher.filter_eq_singleton_of_mem hids hr]
    exact (Dispatcher.filter_leave_file r ids settings (Place.root i) f
      (Dispatcher.agree_fileEnd r ids settings i f root)).1
  rw [halone s', halone s]
  exact milder_leave_singleton h r i f root

/-- One file. -/
theorem milder_walkFile (root : Option String) (i : Nat) (f : SourceFile) :
    Milder ((analyzer ids s' root).walkFile i f) ((analyzer ids s root).walkFile i f) := by
  rw [Analyzer.walkFile_eq, Analyzer.walkFile_eq]
  exact (milderRound_fileRound hids h i f root).flatMap_snd.append (milder_leave hids h i f root)

end AllRules

/-- Relaxing the settings never adds a finding.  With rules that are registered once each, in any
order, the marks of a run under relaxed settings are a part of the marks of the run, in the same
order. -/
theorem Analyzer.marks_sublist_of_relaxes {ids : List RuleId} (hids : ids.Nodup)
    {s s' : Settings} (h : s.Relaxes s') (root : Option String) (files : List SourceFile) :
    (((analyzer ids s' root).analyze files).findings.map Finding.mark).Sublist
      (((analyzer ids s root).analyze files).findings.map Finding.mark) := by
  refine map_mark_sortFindings_sublist ?_
  rw [List.mapIdx_eq_zipIdx_map, List.mapIdx_eq_zipIdx_map, ← List.flatMap_def, ← List.flatMap_def]
  exact Milder.flatMap fun p _ => milder_walkFile hids h root p.2 p.1

/-- Settings that relax those of a user who wrote nothing: in limits, in lists, in the value of a
directive and by an exception. -/
def Config.Settings.lenient : Settings :=
  { Settings.default with
    maxLoopIterations := 2000
    initMethods := Settings.default.initMethods ++ ["start"]
    resourceFunctions := ["fopen"]
    countComments := false
    minAssertions := 1
    allowedGlobals := ⟨Settings.default.allowedGlobals.patterns ++ ["app*"]⟩
    maxDereferences := 2
    requiredDirectives := [("strict_types", none)]
    excepted := [.noComplexFlow] }

theorem Config.Settings.relaxes_lenient : Settings.default.Relaxes lenient where
  maxLoopIterations := by decide
  initMethods := List.subset_append_left _ _
  resourceFunctions := by decide
  containerMethods := List.Subset.refl _
  containerTypes := List.Subset.refl _
  maxFunctionLines := Nat.le_refl _
  countComments _ := rfl
  countBlankLines hcount := hcount
  assertionFunctions := List.Subset.refl _
  assertionMethods := List.Subset.refl _
  exceptionFunctions := List.Subset.refl _
  minAssertions := by decide
  maxClassProperties := Nat.le_refl _
  allowedPublicProperties _ hallows := hallows
  allowedGlobals name hallows := by
    obtain ⟨pattern, hpattern, hmatch⟩ := List.any_eq_true.mp hallows
    exact List.any_eq_true.mpr ⟨pattern, List.mem_append_left _ hpattern, hmatch⟩
  maxLinesToFirstUse := Nat.le_refl _
  ignoredFunctions := List.Subset.refl _
  allowFluentChains hfluent := hfluent
  maxDereferences := by decide
  suppressionFunctions := List.Subset.refl _
  requiredDirectives name value' hvalue' := by
    rw [lenient, List.lookup_cons] at hvalue'
    split at hvalue'
    · next hname =>
      refine ⟨some (.int 1), ?_, Or.inr (Option.some_inj.mp hvalue').symm⟩
      rw [eq_of_beq hname]
      rfl
    · exact absurd hvalue' (Option.some_ne_none _).symm
  isActive id hactive := by
    obtain ⟨henabled, -⟩ := Bool.and_eq_true_iff.mp hactive
    exact Bool.and_eq_true_iff.mpr ⟨henabled, rfl⟩

/-- All nine rules over a file with a jump, which is excepted, and a chain of two calls, which is
short enough under the lenient settings. -/
theorem Analyzer.marks_sublist_lenient :
    RuleId.all.Nodup ∧ Settings.default.Relaxes Settings.lenient ∧
      (((analyzer RuleId.all .lenient none).analyze [⟨"a.php", none, [.goto "end",
          .ofExpr (((Expr.var "a").methodCall "b" []).methodCall "c" [])]⟩]).findings.map
            Finding.mark).Sublist
        (((analyzer RuleId.all .default none).analyze [⟨"a.php", none, [.goto "end",
          .ofExpr (((Expr.var "a").methodCall "b" []).methodCall "c" [])]⟩]).findings.map
            Finding.mark) :=
  ⟨by decide, Settings.relaxes_lenient,
    marks_sublist_of_relaxes (by decide) Settings.relaxes_lenient none _⟩

end SafetyLint
