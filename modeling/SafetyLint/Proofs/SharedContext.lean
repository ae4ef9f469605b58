import SafetyLint.Proofs.InformationFlow
import Mathlib.Data.List.Chain

/-!
# Files in one context

Whoever walks files by hand may keep one context for all of them.  Entering a file empties the slots
and closes the scopes, and as a rule it also opens the file.  A file that is already open is not
opened again, and two files without a path are taken for the same one: when a file without a path
follows another one, the first stays open.

So what is found in a file in its turn is what is found in it alone, except that a file without a
path is read with the text of the first of the files without a path that come in a row.
`lend` makes this exchange of texts, and `inTurn_eq` is the statement: whatever is walked before a
file, its findings are those of the file, with the lent text, walked from the empty context.

The exchange is seen by the rule about the length of functions only.  That is how far texts reach.
-/

namespace SafetyLint

open SafetyLint.Tree Config Rules

/-! ## Walks in one context and walks alone -/

namespace Dispatcher

/-- What is found at sites that are visited one after the other in one context. -/
def inTurn (d : Dispatcher) : List Site → Context → List (List Finding)
  | [], _ => []
  | s :: rest, c => (found (d.visit 0 s) c).1 :: d.inTurn rest (found (d.visit 0 s) c).2

/-- What is found in a file that is walked in a context of its own. -/
def alone (d : Dispatcher) (f : SourceFile) : List Finding :=
  (found (d.visit 0 (.ofFile 0 f)) .empty).1

/-- A visit depends on the context that entering makes. -/
theorem found_visit_congr {d : Dispatcher} {site : Site} {c c' : Context}
    (h : enter site c = enter site c') (depth : Nat) :
    found (d.visit depth site) c = found (d.visit depth site) c' := by
  rw [found_visit, found_visit, h]

/-- It makes no difference whether a file is opened beforehand. -/
theorem alone_eq_walkFile (ids : List RuleId) (settings : Settings) (f : SourceFile) :
    (dispatcher ids settings).alone f = (analyzer ids settings none).walkFile 0 f := by
  have henter : enter (.ofFile 0 f) .empty =
      enter (.ofFile 0 f) (Context.empty.enterFile (.ofFile 0 f none)) := by
    rw [enter_ofFile]
    rfl
  exact congrArg Prod.fst (found_visit_congr henter 0)

end Dispatcher

/-! ## Lent texts -/

namespace Tree

/-- The text of the file, if it has no path. -/
def SourceFile.namelessText? (f : SourceFile) : Option (Option String) :=
  if f.path = "" then some f.text else none

/-- The file as it is read when a file without a path and with that text may be open. -/
def lendTo (text : Option (Option String)) (f : SourceFile) : SourceFile :=
  if f.path = "" then { f with text := text.getD f.text } else f

/-- The files as they are read one after the other when such a file may be open. -/
def lendFrom : Option (Option String) → List SourceFile → List SourceFile
  | _, [] => []
  | text, f :: rest => lendTo text f :: lendFrom (lendTo text f).namelessText? rest

/-- The files as they are read in one context: each file without a path has the text of the first of
the files without a path that come in a row. -/
def lend (files : List SourceFile) : List SourceFile := lendFrom none files

theorem path_lendTo (text : Option (Option String)) (f : SourceFile) :
    (lendTo text f).path = f.path := by
  rw [lendTo]
  split <;> rfl

theorem stmts_lendTo (text : Option (Option String)) (f : SourceFile) :
    (lendTo text f).stmts = f.stmts := by
  rw [lendTo]
  split <;> rfl

theorem lendTo_of_path_ne (text : Option (Option String)) {f : SourceFile} (h : f.path ≠ "") :
    lendTo text f = f :=
  if_neg h

theorem lendTo_none (f : SourceFile) : lendTo none f = f := by
  rw [lendTo]
  split <;> rfl

/-- Only texts are exchanged. -/
theorem map_withoutText_lendFrom (text : Option (Option String)) (files : List SourceFile) :
    (lendFrom text files).map Revision.withoutText.file =
      files.map Revision.withoutText.file := by
  induction files generalizing text with
  | nil => rfl
  | cons f rest ih =>
    have hfile : Revision.withoutText.file (lendTo text f) = Revision.withoutText.file f := by
      rw [lendTo]
      split <;> rfl
    rw [lendFrom, List.map_cons, List.map_cons, ih, hfile]

/-- Nothing is lent if no file without a path follows another one. -/
theorem lendFrom_eq_self {files : List SourceFile}
    (h : files.IsChain fun f g => ¬ (f.path = "" ∧ g.path = "")) {text : Option (Option String)}
    (htext : ∀ f ∈ files.head?, f.path = "" → text = none) : lendFrom text files = files := by
  induction files generalizing text with
  | nil => rfl
  | cons f rest ih =>
    obtain ⟨hnext, hrest⟩ := List.isChain_cons.mp h
    have hself : lendTo text f = f := by
      by_cases hpath : f.path = ""
      · rw [htext f rfl hpath, lendTo_none]
      · exact lendTo_of_path_ne text hpath
    rw [lendFrom, hself, ih hrest]
    intro g hg hgpath
    exact if_neg fun hpath => hnext g hg ⟨hpath, hgpath⟩

end Tree

/-! ## The open file -/

namespace Context

/-- The text of the open file, if that has no path. -/
def namelessText? (c : Context) : Option (Option String) :=
  c.file.bind fun o => if o.path = "" then some o.text else none

/-- The open file is none of those with this number and the following ones, and it is reported under
its path. -/
def OpenedBefore (c : Context) (number : Nat) : Prop :=
  ∀ o, c.file = some o → o.number < number ∧ o.shown = o.path

end Context

namespace Dispatcher

/-- Entering a file leaves one open that has its path, and the text that it is lent. -/
theorem exists_enter_eq {c : Context} {i : Nat} (hc : c.OpenedBefore i) (f : SourceFile) :
    ∃ n ≤ i, enter (.ofFile i f) c =
      ⟨some ⟨n, f.path, (lendTo c.namelessText? f).text, f.path⟩, [], [], []⟩ := by
  cases hfile : c.file with
  | none =>
    have htext : c.namelessText? = none := by rw [Context.namelessText?, hfile]; rfl
    refine ⟨i, le_refl i, ?_⟩
    show (if c.file.any _ = true then _ else _) = _
    rw [htext, lendTo_none, hfile]
    rfl
  | some o =>
    obtain ⟨number, path, text, shown⟩ := o
    have hnumber : number < i := (hc _ hfile).1
    obtain rfl : shown = path := (hc _ hfile).2
    have hother : number ≠ i := Nat.ne_of_lt hnumber
    show ∃ n ≤ i, (if c.file.any (fun o => o.isFile i f.path) = true then _ else _) = _
    by_cases hboth : shown = "" ∧ f.path = ""
    · -- both have no path: what is open stays open
      have hsame : c.file.any (fun o => o.isFile i f.path) = true := by
        simp [hfile, OpenFile.isFile, hboth]
      have htext : (lendTo c.namelessText? f).text = text := by
        simp [lendTo, Context.namelessText?, hfile, hboth]
      refine ⟨number, Nat.le_of_lt hnumber, ?_⟩
      rw [if_pos hsame, htext, Context.clear, hfile, hboth.1, hboth.2]
    · have hnew : c.file.any (fun o => o.isFile i f.path) = false := by
        simpa [hfile, OpenFile.isFile, hother] using hboth
      have htext : (lendTo c.namelessText? f).text = f.text := by
        by_cases hpath : f.path = ""
        · have hnone : c.namelessText? = none := by
            simpa [Context.namelessText?, hfile] using fun h => hboth ⟨h, hpath⟩
          rw [hnone, lendTo_none]
        · rw [lendTo_of_path_ne _ hpath]
      refine ⟨i, le_refl i, ?_⟩
      rw [hnew, htext]
      rfl

/-- A revision that changes nothing. -/
def unchanged : Revision := ⟨id, id, id, id, Revision.shortName_id⟩

theorem drops_unchanged (settings : Settings) : unchanged.Drops settings fun _ => true :=
  Analyzer.drops_of (.inl rfl) (.inl rfl) (.inl rfl) rfl

variable (ids : List RuleId) (settings : Settings)

/-- What is found in a file that was entered with a text depends on this text, not on what was open
before. -/
theorem fst_found_visit_of_enter_eq {c : Context} {i n : Nat} {f g : SourceFile}
    (hpath : g.path = f.path) (hstmts : g.stmts = f.stmts)
    (henter : enter (.ofFile i f) c = ⟨some ⟨n, f.path, g.text, f.path⟩, [], [], []⟩) :
    (found ((dispatcher ids settings).visit 0 (.ofFile i f)) c).1 =
      (dispatcher ids settings).alone g := by
  have hsite : unchanged.site (.ofFile i f) = unchanged.site (.ofFile i g) := by
    show (⟨.root i, .file ⟨f.path, none, unchanged.stmts f.stmts⟩⟩ : Site) =
      ⟨.root i, .file ⟨g.path, none, unchanged.stmts g.stmts⟩⟩
    rw [hpath, hstmts]
  have hcontext : unchanged.context (enter (.ofFile i f) c) =
      unchanged.context (enter (.ofFile i g) (Context.empty.enterFile (.ofFile i g none))) := by
    rw [henter, enter_ofFile]
    show (⟨some ⟨0, f.path, g.text, f.path⟩, [], [], []⟩ : Context) =
      ⟨some ⟨0, g.path, g.text, g.path⟩, [], [], []⟩
    rw [hpath]
  have hfits : (enter (.ofFile i f) c).Fits :=
    Context.fits_of_slots_eq_nil (congrArg Context.slots henter)
  have hsame : (found ((dispatcher ids settings).visit 0 (.ofFile i f)) c).1.filter
        (fun _ => true) =
      ((analyzer ids settings none).walkFile i g).filter (fun _ => true) :=
    ((Comparison.walks_revised ids (drops_unchanged settings)).visit hsite 0 ⟨hfits, hcontext⟩).1
  rw [List.filter_true, List.filter_true] at hsame
  have hblind := (isLocal_analyzer ids settings none).isNumberBlind
  rw [hsame, Analyzer.walkFile_eq_walkFile_zero hblind, alone_eq_walkFile]

/-- One file in its turn: what is found, and which file is open afterwards. -/
theorem found_visit_inTurn {c : Context} {i : Nat} (hc : c.OpenedBefore i) (f : SourceFile) :
    (found ((dispatcher ids settings).visit 0 (.ofFile i f)) c).1 =
        (dispatcher ids settings).alone (lendTo c.namelessText? f) ∧
      (found ((dispatcher ids settings).visit 0 (.ofFile i f)) c).2.OpenedBefore (i + 1) ∧
      (found ((dispatcher ids settings).visit 0 (.ofFile i f)) c).2.namelessText? =
        (lendTo c.namelessText? f).namelessText? := by
  obtain ⟨n, hn, henter⟩ := exists_enter_eq hc f
  have hpath := path_lendTo c.namelessText? f
  have hstmts := stmts_lendTo c.namelessText? f
  have hopen : (found ((dispatcher ids settings).visit 0 (.ofFile i f)) c).2.file =
      some ⟨n, f.path, (lendTo c.namelessText? f).text, f.path⟩ :=
    ((Comparison.walks_inFile (isLocal_analyzer ids settings none) _).visit_single _ 0
      (congrArg Context.file henter)).2
  refine ⟨fst_found_visit_of_enter_eq ids settings hpath hstmts henter, fun o ho => ?_, ?_⟩
  · rw [hopen, Option.some_inj] at ho
    rw [← ho]
    exact ⟨Nat.lt_succ_of_le hn, rfl⟩
  · rw [Context.namelessText?, hopen, SourceFile.namelessText?, hpath]
    rfl

/-- Files that are walked one after the other are found to be what they are alone, as they are
read. -/
theorem inTurn_mapIdx (files : List SourceFile) {c : Context} {i : Nat} (hc : c.OpenedBefore i) :
    (dispatcher ids settings).inTurn (files.mapIdx fun j f => .ofFile (i + j) f) c =
      (lendFrom c.namelessText? files).map (dispatcher ids settings).alone := by
  induction files generalizing c i with
  | nil => rfl
  | cons f rest ih =>
    obtain ⟨hfound, hopened, htext⟩ := found_visit_inTurn ids settings hc f
    have hnumbers : (fun j f => Site.ofFile (i + (j + 1)) f) =
        fun j f => Site.ofFile (i + 1 + j) f := by
      funext j f
      rw [Nat.add_assoc, Nat.add_comm 1 j]
    rw [List.mapIdx_cons, hnumbers, inTurn, lendFrom, List.map_cons]
    exact congrArg₂ List.cons hfound (htext ▸ ih hopened)

theorem inTurn_eq (files : List SourceFile) :
    (dispatcher ids settings).inTurn (files.mapIdx Site.ofFile) .empty =
      (lend files).map (dispatcher ids settings).alone := by
  have hzero : (fun j f => Site.ofFile (0 + j) f) = Site.ofFile := by
    funext j f
    rw [Nat.zero_add]
  have hempty : Context.empty.OpenedBefore 0 := fun o ho => by cases ho
  rw [← hzero]
  exact inTurn_mapIdx ids settings files hempty

/-! ## What is exchanged, and who sees it -/

/-- Files that differ in their texts only: what is found in each of them alone, apart from what a
rule finds that looks at texts. -/
theorem map_filter_alone_of_revised {r : Revision} {keep : Finding → Bool}
    (hkeep : r.Drops settings keep) {files files' : List SourceFile}
    (h : files.map r.file = files'.map r.file) :
    (files.map fun f => ((dispatcher ids settings).alone f).filter keep) =
      files'.map fun f => ((dispatcher ids settings).alone f).filter keep := by
  rw [← List.forall₂_eq_eq_eq, List.forall₂_map_left_iff, List.forall₂_map_right_iff]
  refine (forall₂_of_map_eq h).imp fun f f' hf => ?_
  rw [alone_eq_walkFile, alone_eq_walkFile]
  exact Analyzer.filter_walkFile_of_revised hkeep hf 0

/-- What is found in files that are walked one after the other in one context, by the nine rules in
any registration and with any settings.

* In each file there is found what is found in it alone once it is lent the text with which it is
  read: a file without a path that follows other files without a path has the text of the first of
  them.
* If no file without a path follows another one, it is what is found in the files alone.
* In any case it is what is found in the files alone, but for the findings about the length of
  functions.
* If comments and blank lines both count, these are the same too. -/
theorem files_in_one_context (files : List SourceFile) :
    (dispatcher ids settings).inTurn (files.mapIdx Site.ofFile) .empty =
        (lend files).map (dispatcher ids settings).alone ∧
    (files.IsChain (fun f g => ¬ (f.path = "" ∧ g.path = "")) →
      (dispatcher ids settings).inTurn (files.mapIdx Site.ofFile) .empty =
        files.map (dispatcher ids settings).alone) ∧
    ((dispatcher ids settings).inTurn (files.mapIdx Site.ofFile) .empty).map
          (List.filter fun x => !x.isOf .functionLength) =
        (files.map (dispatcher ids settings).alone).map
          (List.filter fun x => !x.isOf .functionLength) ∧
    (settings.countComments = true → settings.countBlankLines = true →
      (dispatcher ids settings).inTurn (files.mapIdx Site.ofFile) .empty =
        files.map (dispatcher ids settings).alone) := by
  have hturn := inTurn_eq ids settings files
  have htexts := map_withoutText_lendFrom none files
  refine ⟨hturn, fun hchain => ?_, ?_, fun hcomments hblanks => ?_⟩
  · have hlend : lend files = files := lendFrom_eq_self hchain fun _ _ _ => rfl
    rw [hturn, hlend]
  · rw [hturn, List.map_map, List.map_map]
    exact map_filter_alone_of_revised ids settings (Analyzer.drops_withoutText settings) htexts
  · have hsame := map_filter_alone_of_revised ids settings
      (Analyzer.drops_withoutText_of_counted hcomments hblanks) htexts
    simp only [List.filter_true] at hsame
    exact hturn.trans hsame

/-- A file without a path that holds a function of four lines. -/
def namelessFunction (text : Option String) : SourceFile :=
  ⟨"", text, [.ofFunction (.named "f" 1 4)]⟩

/-- A file without a path between two files under one path; and two files without a path, where all
lines count. -/
theorem files_in_one_context_namelessFunction :
    let files : List SourceFile :=
      [⟨"a.php", none, []⟩, namelessFunction none, ⟨"a.php", some "<?php", []⟩]
    (files.IsChain fun f g => ¬ (f.path = "" ∧ g.path = "")) ∧
      (dispatcher RuleId.all .default).inTurn (files.mapIdx Site.ofFile) .empty =
        files.map (dispatcher RuleId.all .default).alone ∧
      (dispatcher RuleId.all .default).inTurn
          ([namelessFunction (some ""), namelessFunction none].mapIdx Site.ofFile) .empty =
        [namelessFunction (some ""), namelessFunction none].map
          (dispatcher RuleId.all .default).alone := by
  intro files
  have hchain : files.IsChain fun f g => ¬ (f.path = "" ∧ g.path = "") := by decide
  obtain ⟨-, halone, -⟩ := files_in_one_context RuleId.all .default files
  obtain ⟨-, -, -, hcounted⟩ := files_in_one_context RuleId.all .default
    [namelessFunction (some ""), namelessFunction none]
  exact ⟨hchain, halone hchain, hcounted rfl rfl⟩

/-- Two files without a path. -/
def namelessFiles : List SourceFile :=
  [⟨"", some "<?php", []⟩, namelessFunction (some "function f()\n\x7b\n  g();\n\x7d")]

/-- Functions have three lines at most, and comments do not count. -/
def shortFunctions : Settings :=
  { Settings.default with maxFunctionLines := 3, countComments := false }

theorem stops_namelessFunction (text : Option String) :
    Walk.preorder (Stop.ofFile 0 (namelessFunction text)) =
      [.ofFile 0 (namelessFunction text),
        ⟨⟨⟨0, [0]⟩, .function (.named "f" 1 4)⟩, [.file (namelessFunction text)]⟩] := by
  rw [Walk.preorder_of_children_eq_singleton (a := Stop.ofFile 0 (namelessFunction text))
    (c := ⟨⟨⟨0, [0]⟩, .function (.named "f" 1 4)⟩, [.file (namelessFunction text)]⟩) rfl,
    Walk.preorder_of_children_eq_nil rfl]

/-- The function of four lines is too long alone, and passes in its turn, where it is read with the
text of the file before it. -/
theorem inTurn_ne_alone_namelessFiles :
    (dispatcher [.functionLength] shortFunctions).inTurn (namelessFiles.mapIdx Site.ofFile) .empty ≠
      namelessFiles.map (dispatcher [.functionLength] shortFunctions).alone := by
  have hlent : (dispatcher [.functionLength] shortFunctions).alone
      (namelessFunction (some "<?php")) = [] := by
    rw [alone_eq_walkFile, Analyzer.walkFile_eq, fileRound, fileEnd, fileRound,
      stops_namelessFunction]
    decide
  have hown : (dispatcher [.functionLength] shortFunctions).alone
      (namelessFunction (some "function f()\n\x7b\n  g();\n\x7d")) ≠ [] := by
    rw [alone_eq_walkFile, Analyzer.walkFile_eq, fileRound, fileEnd, fileRound,
      stops_namelessFunction]
    decide
  rw [inTurn_eq]
  intro h
  have hsecond := congrArg (fun found => found[1]?) h
  exact hown ((Option.some_inj.mp hsecond).symm.trans hlent)

end Dispatcher

end SafetyLint
