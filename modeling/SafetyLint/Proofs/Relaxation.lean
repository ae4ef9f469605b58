import Mathlib.Data.List.Basic
import SafetyLint.Proofs.Preorder
import SafetyLint.Proofs.StableOrder
import SafetyLint.Rules.All

/-!
# Settings that ask for less

Settings relax others when they allow all that the others allow: greater limits, longer lists of
what is accepted, shorter lists of what is looked for, fewer and weaker directives, fewer active
rules.  `Settings.Relaxes` says so field by field; severities do not matter.

Relaxing does not make a rule say more about a node.  It may say something else, since limits and
counts are part of the texts, so findings are compared by their marks: which rule and where.  For
the rules that keep nothing in mind this is shown here, rule by rule; `eased_check` puts them
together.  All findings of a rule on a node stand on the line of the node, with one exception, so
mostly it is enough to compare how many there are.

Where a rule leaves something out of a count, as the rule about the length of functions does with
comments and blank lines, relaxing may change the way of counting.  Then the ways of counting have
to be compared with each other (`FunctionLength.measuredLength_le`).
-/

namespace SafetyLint

open SafetyLint.Tree Config

/-! ## Settings -/

namespace Config

/-- The second settings are at least as permissive as the first. -/
structure Settings.Relaxes (s s' : Settings) : Prop where
  maxLoopIterations : s.maxLoopIterations ≤ s'.maxLoopIterations
  initMethods : s.initMethods ⊆ s'.initMethods
  resourceFunctions : s'.resourceFunctions ⊆ s.resourceFunctions
  containerMethods : s'.containerMethods ⊆ s.containerMethods
  containerTypes : s'.containerTypes ⊆ s.containerTypes
  maxFunctionLines : s.maxFunctionLines ≤ s'.maxFunctionLines
  countComments : s'.countComments = true → s.countComments = true
  countBlankLines : s'.countBlankLines = true → s.countBlankLines = true
  assertionFunctions : s.assertionFunctions ⊆ s'.assertionFunctions
  assertionMethods : s.assertionMethods ⊆ s'.assertionMethods
  exceptionFunctions : s.exceptionFunctions ⊆ s'.exceptionFunctions
  minAssertions : s'.minAssertions ≤ s.minAssertions
  maxClassProperties : s.maxClassProperties ≤ s'.maxClassProperties
  allowedPublicProperties : ∀ name, s.allowedPublicProperties.allows name = true →
    s'.allowedPublicProperties.allows name = true
  allowedGlobals : ∀ name, s.allowedGlobals.allows name = true →
    s'.allowedGlobals.allows name = true
  maxLinesToFirstUse : s.maxLinesToFirstUse ≤ s'.maxLinesToFirstUse
  ignoredFunctions : s.ignoredFunctions ⊆ s'.ignoredFunctions
  allowFluentChains : s.allowFluentChains = true → s'.allowFluentChains = true
  maxDereferences : s.maxDereferences ≤ s'.maxDereferences
  suppressionFunctions : s'.suppressionFunctions ⊆ s.suppressionFunctions
  /-- A directive that is still required was required, with the same value unless it may have any
  value now. -/
  requiredDirectives : ∀ name value', s'.requiredDirectives.lookup name = some value' →
    ∃ value, s.requiredDirectives.lookup name = some value ∧ (value' = value ∨ value' = none)
  /-- Rules may be disabled or excepted. -/
  isActive : ∀ id, s'.isActive id = true → s.isActive id = true

end Config

/-! ## Findings and outcomes -/

theorem length_toList_le {o' o : Option String} (h : o'.isSome = true → o.isSome = true) :
    o'.toList.length ≤ o.toList.length := by
  cases o' with
  | none => exact Nat.zero_le _
  | some text' =>
    obtain ⟨text, rfl⟩ := Option.isSome_iff_exists.mp (h rfl)
    exact Nat.le_refl _

/-- The marks of the first findings are a part of the marks of the second. -/
def Milder (fs' fs : List Finding) : Prop :=
  (fs'.map Finding.mark).Sublist (fs.map Finding.mark)

namespace Milder

theorem refl (fs : List Finding) : Milder fs fs := List.Sublist.refl _

theorem nil (fs : List Finding) : Milder [] fs := List.nil_sublist _

theorem append {fs' fs gs' gs : List Finding} (hf : Milder fs' fs) (hg : Milder gs' gs) :
    Milder (fs' ++ gs') (fs ++ gs) := by
  rw [Milder, List.map_append, List.map_append]
  exact List.Sublist.append hf hg

/-- Findings with one mark are compared by their number. -/
theorem of_length {say' say : String → Finding} {m : String × Location}
    (hsay' : ∀ text, (say' text).mark = m) (hsay : ∀ text, (say text).mark = m)
    {messages' messages : List String} (h : messages'.length ≤ messages.length) :
    Milder (messages'.map say') (messages.map say) := by
  have hmarks : ∀ say : String → Finding, (∀ text, (say text).mark = m) →
      ∀ texts : List String,
        (texts.map say).map Finding.mark = List.replicate texts.length m := by
    intro say hsay texts
    rw [List.map_map, ← List.map_const']
    exact List.map_congr_left fun text _ => hsay text
  rw [Milder, hmarks say' hsay', hmarks say hsay, List.replicate_sublist_replicate]
  exact h

/-- Findings of a rule on one line. -/
theorem finding {c : Context} {info : RuleInfo} {line : Nat} {messages' messages : List String}
    (h : messages'.length ≤ messages.length) :
    Milder (messages'.map (c.finding info line)) (messages.map (c.finding info line)) :=
  of_length (m := (info.id.word, c.location line)) (fun _ => rfl) (fun _ => rfl) h

/-- One finding at most. -/
theorem of_isSome {c : Context} {info : RuleInfo} {line : Nat} {message' message : Option String}
    (h : message'.isSome = true → message.isSome = true) :
    Milder (message'.toList.map (c.finding info line))
      (message.toList.map (c.finding info line)) :=
  finding (length_toList_le h)

end Milder

/-- The first outcome is milder, or both are the same failure. -/
inductive Eased : Outcome → Outcome → Prop where
  | ok {fs' fs : List Finding} (h : Milder fs' fs) : Eased (.ok fs') (.ok fs)
  | error (e : RuleError) : Eased (.error e) (.error e)

namespace Rules

theorem not_mono {p q : Bool} (hpq : p = true → q = true) (hq : (!q) = true) : (!p) = true := by
  rw [Bool.not_eq_true', ← Bool.not_eq_true] at hq ⊢
  exact fun hp => hq (hpq hp)

variable {s s' : Settings} (h : s.Relaxes s')
include h

/-! ## Loops -/

namespace LoopBounds

theorem hasFixedBound_mono {typeOf : TypeOracle} {condition : Expr}
    (hbound : hasFixedBound typeOf s.maxLoopIterations condition = true) :
    hasFixedBound typeOf s'.maxLoopIterations condition = true := by
  have hle : (s.maxLoopIterations : Int) ≤ s'.maxLoopIterations :=
    Int.ofNat_le.mpr h.maxLoopIterations
  have hany : ∀ bound? : Option Int,
      (bound?.any fun bound => bound ≤ (s.maxLoopIterations : Int)) = true →
        (bound?.any fun bound => bound ≤ (s'.maxLoopIterations : Int)) = true := by
    intro bound? hb
    obtain ⟨bound, rfl, hbound⟩ := (Option.any_eq_true _ _).mp hb
    exact decide_eq_true (Int.le_trans (of_decide_eq_true hbound) hle)
  unfold hasFixedBound at hbound ⊢
  split at hbound
  · exact hany _ hbound
  · exact hany _ hbound
  · exact absurd hbound Bool.false_ne_true

theorem isSome_forMessage? {typeOf : TypeOracle} {conditions steps : List Expr}
    (hsome : (forMessage? typeOf s'.maxLoopIterations conditions steps).isSome = true) :
    (forMessage? typeOf s.maxLoopIterations conditions steps).isSome = true := by
  unfold forMessage? at hsome ⊢
  split
  · rfl
  · next hparts =>
    rw [if_neg hparts] at hsome
    split
    · next hany =>
      obtain ⟨condition, hmem, hbound⟩ := List.any_eq_true.mp hany
      rw [if_pos (List.any_eq_true.mpr ⟨condition, hmem, hasFixedBound_mono h hbound⟩)] at hsome
      exact hsome
    · rfl

theorem isSome_foreachMessage? {typeOf : TypeOracle} {iterable : Expr}
    (hsome : (foreachMessage? typeOf s'.maxLoopIterations iterable).isSome = true) :
    (foreachMessage? typeOf s.maxLoopIterations iterable).isSome = true := by
  unfold foreachMessage? at hsome ⊢
  cases hsize : sizeOf typeOf iterable with
  | known n =>
    rw [hsize] at hsome
    have hle := h.maxLoopIterations
    by_cases hn : s'.maxLoopIterations < n
    · simp only [if_pos (Nat.lt_of_le_of_lt hle hn)]
      rfl
    · simp only [if_neg hn] at hsome
      exact absurd hsome Bool.false_ne_true
  | finite =>
    rw [hsize] at hsome
    exact hsome
  | unknown => rfl

theorem eased_check (typeOf : TypeOracle) (site : Site) (c : Context) :
    Eased (check typeOf s' site c).1 (check typeOf s site c).1 := by
  obtain ⟨place, node⟩ := site
  cases node with
  | stmt st =>
    obtain ⟨span, kind, comments⟩ := st
    cases kind with
    | forLoop init condition step body => exact .ok (.of_isSome (isSome_forMessage? h))
    | foreach iterable key value body => exact .ok (.of_isSome (isSome_foreachMessage? h))
    | whileLoop | doWhile => exact .ok (.refl _)
    | _ => exact .error _
  | _ => exact .ok (.refl _)

end LoopBounds

/-! ## Allocation -/

namespace Allocation

theorem inInitMethod_mono {c : Context} (hin : inInitMethod s c = true) :
    inInitMethod s' c = true := by
  obtain ⟨scope, hscope, hname⟩ := (Option.any_eq_true _ _).mp hin
  refine (Option.any_eq_true _ _).mpr ⟨scope, hscope, ?_⟩
  rw [List.contains_iff_mem] at hname ⊢
  exact h.initMethods hname

theorem isContainer_mono {type : Ty} (hcontainer : isContainer s' type = true) :
    isContainer s type = true := by
  obtain ⟨name, hname, hany⟩ := (Option.any_eq_true _ _).mp hcontainer
  refine (Option.any_eq_true _ _).mpr ⟨name, hname, ?_⟩
  rw [Bool.or_eq_true, List.contains_iff_mem, List.contains_iff_mem] at hany ⊢
  exact hany.imp (fun hm => h.containerTypes hm) fun hm => h.containerTypes hm

theorem isSome_message? {kind : ExprKind} (hsome : (message? s' kind).isSome = true) :
    (message? s kind).isSome = true := by
  unfold message? at hsome ⊢
  cases kind with
  | new owner args => rfl
  | array items => exact hsome
  | call callee args =>
    cases callee with
    | name name =>
      simp only at hsome ⊢
      split at hsome
      · next hname =>
        rw [List.contains_iff_mem] at hname
        rw [if_pos (List.contains_iff_mem.mpr (h.resourceFunctions hname))]
        rfl
      · exact absurd hsome Bool.false_ne_true
    | expr target => exact hsome
  | methodCall receiver method args =>
    simp only at hsome ⊢
    split at hsome
    · next hboth =>
      obtain ⟨hmethod, hcontainer⟩ := (Bool.and_eq_true _ _).mp hboth
      rw [List.contains_iff_mem] at hmethod
      rw [List.contains_iff_mem.mpr (h.containerMethods hmethod), isContainer_mono h hcontainer]
      rfl
    · exact absurd hsome Bool.false_ne_true
  | _ => exact hsome

theorem milder_findings (site : Site) (c : Context) :
    Milder (findings s' site c) (findings s site c) := by
  unfold findings
  split
  · next e hnode =>
    split
    · exact .nil _
    · next hin =>
      rw [if_neg fun hin' => hin (inInitMethod_mono h hin')]
      exact .of_isSome (isSome_message? h)
  · exact .nil _

end Allocation

/-! ## Lengths of functions -/

namespace FunctionLength

omit h in
/-- A declaration has at least as many lines by its range as are found in the text. -/
theorem length_le_lineCount {o : OpenFile} {span : Span} {lines : List (List Char)}
    (hlines : o.lines? span.firstLine span.lastLine = some lines) :
    lines.length ≤ span.lineCount := by
  obtain ⟨text, -, rfl⟩ := Option.map_eq_some_iff.mp hlines
  rw [Text.linesBetween, List.length_take, Span.lineCount]
  omega

omit h in
theorem countedLines_le_length (settings : Settings) (lines : List (List Char)) :
    countedLines settings lines ≤ lines.length := by
  rw [countedLines]
  omega

omit h in
/-- What is left out of a count, when the relaxed settings leave out more. -/
theorem leftOut_le {count count' : Bool} (hcount : count' = true → count = true) (n : Nat) :
    (if count = true then 0 else n) ≤ if count' = true then 0 else n := by
  by_cases hcount' : count' = true
  · rw [if_pos hcount', if_pos (hcount hcount')]
  · rw [if_neg hcount']
    split
    · exact Nat.zero_le _
    · exact Nat.le_refl _

theorem countedLines_le (lines : List (List Char)) :
    countedLines s' lines ≤ countedLines s lines := by
  have hcomments := leftOut_le h.countComments (Text.commentLines lines)
  have hblanks := leftOut_le h.countBlankLines (Text.blankLines lines)
  rw [countedLines, countedLines]
  omega

/-- Three ways of counting: by the range, by the lines of the text, and by some of these lines.
Relaxing goes from the first towards the last. -/
theorem measuredLength_le (c : Context) (decl : FunctionDecl) :
    measuredLength s' c decl ≤ measuredLength s c decl := by
  unfold measuredLength
  by_cases hall' : (s'.countComments && s'.countBlankLines) = true
  · obtain ⟨hcomments, hblanks⟩ := Bool.and_eq_true_iff.mp hall'
    rw [if_pos hall', if_pos (Bool.and_eq_true_iff.mpr
      ⟨h.countComments hcomments, h.countBlankLines hblanks⟩)]
  · rw [if_neg hall']
    cases hlines : c.file.bind fun f => f.lines? decl.span.firstLine decl.span.lastLine with
    | none =>
      show decl.span.lineCount ≤ if _ then decl.span.lineCount else decl.span.lineCount
      rw [ite_self]
    | some lines =>
      obtain ⟨o, -, ho⟩ := Option.bind_eq_some_iff.mp hlines
      show countedLines s' lines ≤ if _ then decl.span.lineCount else countedLines s lines
      -- the first settings count by the range or by the lines of the text
      split
      · exact Nat.le_trans (countedLines_le_length s' lines) (length_le_lineCount ho)
      · exact countedLines_le h lines

theorem isSome_message? {c : Context} {label : String} {decl : FunctionDecl}
    (hsome : (message? s' c label decl).isSome = true) :
    (message? s c label decl).isSome = true := by
  have hlength := measuredLength_le h c decl
  have hmax := h.maxFunctionLines
  unfold message? at hsome ⊢
  simp only at hsome ⊢
  split at hsome
  · next hlong =>
    obtain ⟨hbody, hlong⟩ := Bool.and_eq_true_iff.mp hlong
    have hlong' := of_decide_eq_true hlong
    rw [if_pos (Bool.and_eq_true_iff.mpr ⟨hbody, decide_eq_true (by omega)⟩)]
    rfl
  · exact absurd hsome Bool.false_ne_true

theorem milder_findings (site : Site) (c : Context) :
    Milder (findings s' site c) (findings s site c) := by
  obtain ⟨place, node⟩ := site
  cases node with
  | function decl => exact .of_isSome (isSome_message? h)
  | method decl => exact .of_isSome (isSome_message? h)
  | _ => exact .nil _

end FunctionLength

/-! ## Assertions -/

namespace Assertions

omit h in
theorem callsBelow_mono {names names' : List String} (hnames : names ⊆ names') {n : Node}
    (hcalls : callsBelow names n = true) : callsBelow names' n = true := by
  rw [callsBelow, Walk.occurs_eq_any, List.any_eq_true] at hcalls ⊢
  obtain ⟨m, hm, hcall⟩ := hcalls
  refine ⟨m, hm, ?_⟩
  unfold callsOneOf at hcall ⊢
  split at hcall
  · split at hcall
    · rw [List.contains_iff_mem] at hcall ⊢
      exact hnames hcall
    · exact hcall
  · exact hcall

omit h in
theorem ite_one_le {p q : Prop} [Decidable p] [Decidable q] (hpq : p → q) :
    (if p then 1 else 0) ≤ if q then 1 else 0 := by
  by_cases hp : p
  · rw [if_pos hp, if_pos (hpq hp)]
  · rw [if_neg hp]
    exact Nat.zero_le _

theorem weight_le (n : Node) : weight s n ≤ weight s' n := by
  have hraises : ∀ m, callsBelow s.exceptionFunctions m = true →
      callsBelow s'.exceptionFunctions m = true := fun m => callsBelow_mono h.exceptionFunctions
  have hmethods : ∀ name, s.assertionMethods.contains name = true →
      s'.assertionMethods.contains name = true := by
    intro name hname
    rw [List.contains_iff_mem] at hname ⊢
    exact h.assertionMethods hname
  cases n with
  | stmt st =>
    obtain ⟨span, kind, comments⟩ := st
    cases kind with
    | ifElse condition branch elseIfs otherwise =>
      refine Nat.add_le_add_left (ite_one_le fun hany => ?_) _
      obtain ⟨st, hst, hcalls⟩ := List.any_eq_true.mp hany
      exact List.any_eq_true.mpr ⟨st, hst, hraises _ hcalls⟩
    | _ => exact Nat.le_refl _
  | expr e =>
    obtain ⟨span, kind, type⟩ := e
    cases kind with
    | call callee args =>
      cases callee with
      | name name =>
        refine ite_one_le fun hname => ?_
        rw [List.contains_iff_mem] at hname ⊢
        exact h.assertionFunctions hname
      | expr target => exact Nat.le_refl _
    | methodCall receiver method args => exact ite_one_le (hmethods method)
    | staticCall owner method args => exact ite_one_le (hmethods method)
    | ternary condition thenValue otherwise => exact ite_one_le (hraises _)
    | _ => exact Nat.le_refl _
  | _ => exact Nat.le_refl _

omit h in
theorem total_le_total {α : Type} {f g : α → Nat} (hfg : ∀ a, f a ≤ g a) (as : List α) :
    total f as ≤ total g as := by
  induction as with
  | nil => exact Nat.le_refl _
  | cons a rest ih => exact Nat.add_le_add (hfg a) ih

theorem count_le (decl : FunctionDecl) : count s decl ≤ count s' decl :=
  total_le_total (weight_le h) _

theorem isSome_message? {decl : FunctionDecl} (hsome : (message? s' decl).isSome = true) :
    (message? s decl).isSome = true := by
  have hcount := count_le h decl
  have hmin := h.minAssertions
  unfold message? at hsome ⊢
  split
  · next hbody =>
    rw [if_pos hbody] at hsome
    exact hsome
  · next hbody =>
    rw [if_neg hbody] at hsome
    simp only at hsome ⊢
    split at hsome
    · next hfew =>
      rw [if_pos (by omega)]
      rfl
    · exact absurd hsome Bool.false_ne_true

theorem milder_findings (site : Site) (c : Context) :
    Milder (findings s' site c) (findings s site c) := by
  obtain ⟨place, node⟩ := site
  cases node with
  | function decl => exact .of_isSome (isSome_message? h)
  | method decl =>
    refine .of_isSome fun hsome => ?_
    cases hmagic : isMagic decl.name with
    | true =>
      simp only [hmagic] at hsome
      exact absurd hsome Bool.false_ne_true
    | false =>
      simp only [hmagic] at hsome ⊢
      exact isSome_message? h hsome
  | _ => exact .nil _

end Assertions

/-! ## The scope of data -/

namespace DataScope

theorem length_classMessages_le (d : ClassDecl) :
    (classMessages s' d).length ≤ (classMessages s d).length := by
  have hexposed : ∀ properties : List Property,
      (properties.filter fun p =>
          p.2 = .pub && !s'.allowedPublicProperties.allows p.1).length ≤
        (properties.filter fun p =>
          p.2 = .pub && !s.allowedPublicProperties.allows p.1).length := by
    intro properties
    refine (List.monotone_filter_right properties fun p hp => ?_).length_le
    obtain ⟨hpublic, hdenied⟩ := Bool.and_eq_true_iff.mp hp
    exact Bool.and_eq_true_iff.mpr
      ⟨hpublic, not_mono (h.allowedPublicProperties p.1) hdenied⟩
  have hmax := h.maxClassProperties
  simp only [classMessages, List.length_append, List.length_map]
  refine Nat.add_le_add ?_ (hexposed _)
  split
  · next hmany =>
    rw [if_pos (by omega)]
    exact Nat.le_refl _
  · exact Nat.zero_le _

theorem length_globalMessages_le (names : List String) :
    (globalMessages s' names).length ≤ (globalMessages s names).length := by
  rw [globalMessages, globalMessages, List.length_map, List.length_map]
  exact (List.monotone_filter_right names fun name hdenied =>
    not_mono (h.allowedGlobals name) hdenied).length_le

/-- Here the findings have lines of their own. -/
theorem milder_lateFindings (site : Site) (c : Context) (decl : FunctionDecl) :
    Milder (lateFindings s' site c decl) (lateFindings s site c decl) := by
  have hmax := h.maxLinesToFirstUse
  unfold lateFindings
  split
  · exact .nil _
  · rw [Milder, List.map_map, List.map_map]
    refine List.Sublist.map (fun u : FirstUse => (info.id.word, c.location u.assigned)) ?_
    refine List.monotone_filter_right _ fun u hlate => ?_
    rw [isLate, Bool.and_eq_true, decide_eq_true_eq, decide_eq_true_eq] at hlate ⊢
    omega

theorem milder_findings (site : Site) (c : Context) :
    Milder (findings s' site c) (findings s site c) := by
  obtain ⟨place, node⟩ := site
  cases node with
  | classDecl d => exact .finding (length_classMessages_le h d)
  | function decl => exact milder_lateFindings h _ c decl
  | method decl => exact milder_lateFindings h _ c decl
  | stmt st =>
    obtain ⟨span, kind, comments⟩ := st
    cases kind with
    | global names => exact .finding (length_globalMessages_le h names)
    | _ => exact .nil _
  | _ => exact .nil _

end DataScope

/-! ## Returned values -/

namespace ReturnValue

theorem isExempt_mono {call : Expr} (hexempt : isExempt s call = true) :
    isExempt s' call = true := by
  unfold isExempt at hexempt ⊢
  split at hexempt
  · rw [List.contains_iff_mem] at hexempt ⊢
    exact h.ignoredFunctions hexempt
  · obtain ⟨hfluent, hcall⟩ := Bool.and_eq_true_iff.mp hexempt
    exact Bool.and_eq_true_iff.mpr ⟨h.allowFluentChains hfluent, hcall⟩
  · exact hexempt

theorem discards_mono {st : Stmt} {call : Expr} (hdiscards : discards s' st call = true) :
    discards s st call = true := by
  rw [discards, Bool.and_eq_true, Bool.and_eq_true, Bool.and_eq_true, Bool.and_eq_true]
    at hdiscards ⊢
  obtain ⟨⟨⟨hcall, hexempt⟩, hvoid⟩, hinformative⟩ := hdiscards
  exact ⟨⟨⟨hcall, not_mono (isExempt_mono h) hexempt⟩, hvoid⟩, hinformative⟩

theorem milder_findings (site : Site) (c : Context) :
    Milder (findings s' site c) (findings s site c) := by
  unfold findings
  split
  · split
    · split
      · next hdiscards =>
        rw [if_pos (discards_mono h hdiscards)]
        exact .refl _
      · exact .nil _
    · exact .nil _
  · exact .nil _

end ReturnValue

/-- A rule without a memory says no more when it is asked under relaxed settings. -/
theorem eased_check {id : RuleId} (hlinks : id ≠ .limitDereferences)
    (hheader : id ≠ .mandatoryDiagnostics) (site : Site) (c : Context) :
    Eased ((ofId id).check s' site c).1 ((ofId id).check s site c).1 := by
  cases id with
  | noComplexFlow => exact .ok (.refl _)
  | fixedLoopBounds => exact LoopBounds.eased_check h Expr.type site c
  | noHeapAllocation => exact .ok (Allocation.milder_findings h site c)
  | functionLength => exact .ok (FunctionLength.milder_findings h site c)
  | minimumAssertions => exact .ok (Assertions.milder_findings h site c)
  | restrictDataScope => exact .ok (DataScope.milder_findings h site c)
  | checkReturnValue => exact .ok (ReturnValue.milder_findings h site c)
  | limitDereferences => exact absurd rfl hlinks
  | mandatoryDiagnostics => exact absurd rfl hheader

end Rules

end SafetyLint
