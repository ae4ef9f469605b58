import SafetyLint.Proofs.AccessChains
import SafetyLint.Proofs.SideData
import SafetyLint.Proofs.Transport

/-!
# What rules see of side data

A rule that does not look at some side data gives on revised nodes, in revised contexts, the answers
that it gave before.  `Rules.Spares` says for each rule which revisions those are: the rules about
loops and allocations look at types, the rule about the length of functions looks at the text unless
all lines count, the rule about returned values looks at types, comments and qualifiers, and the
other five rules look at no side data at all.  `carried_check` is the result.

The rules look deep into a node, each in its own way, so the proofs follow the definitions of the
rules, with one lemma for each function that takes a part of the tree.
-/

namespace SafetyLint

open SafetyLint.Tree Config

/-! ## Revised contexts -/

namespace Tree
namespace Revision

variable (r : Revision)

/-- The open file with revised side data.  Its number, by which rules do not go, is forgotten. -/
def openFile (o : OpenFile) : OpenFile := ⟨0, o.path, r.text o.text, o.shown⟩

def scope (s : FunctionScope) : FunctionScope := ⟨r.function s.decl, s.kind⟩

/-- The context with revised side data. -/
def context (c : Context) : Context :=
  ⟨c.file.map r.openFile, c.functions.map r.scope, c.classes.map r.classDecl, c.slots⟩

theorem name_scope (s : FunctionScope) : (r.scope s).name = s.name := r.name_function s.decl

theorem function?_context (c : Context) : (r.context c).function? = c.function?.map r.scope :=
  List.head?_map ..

theorem class?_context (c : Context) : (r.context c).class? = c.class?.map r.classDecl :=
  List.head?_map ..

theorem inClass_context (c : Context) : (r.context c).inClass = c.inClass :=
  congrArg not (List.isEmpty_map ..)

theorem location_context (c : Context) : (r.context c).location = c.location := by
  obtain ⟨_ | o, functions, classes, slots⟩ := c <;> rfl

theorem finding_context (c : Context) : (r.context c).finding = c.finding := by
  funext info line message
  rw [Context.finding, Context.finding, location_context]

end Revision
end Tree

/-- To revise side data is a transport, which lets slots alone. -/
def Transport.revise (r : Revision) : Transport where
  context := r.context
  value _ v := v
  finding_context := r.finding_context
  slot_context c k rule := by
    show c.slot k rule = _
    cases c.slot k rule <;> rfl
  context_putSlot _ _ _ _ := rfl

/-- The second question gets, where side data is revised, the answer of the first. -/
abbrev Revised (r : Revision) (q q' : Context → Outcome × Context) : Prop :=
  Carried (.revise r) q q'

namespace Rules

variable (r : Revision)

/-! ## Rules that look at no side data -/

namespace ComplexFlow

theorem recursion?_revised (current : FunctionScope) (c : Context) (k : ExprKind) :
    recursion? (r.scope current) (r.context c) (r.exprKind k) = recursion? current c k := by
  have howner : ((r.context c).class?.bind ClassDecl.name) = c.class?.bind ClassDecl.name := by
    rw [r.class?_context]
    cases c.class? with
    | none => rfl
    | some d => exact r.name_classDecl d
  cases k with
  | call target args =>
    cases target with
    | name name =>
      simp only [recursion?, Revision.exprKind, Revision.callee, r.name_scope, r.shortName_called]
    | expr e => rfl
  | methodCall receiver method args =>
    simp only [recursion?, Revision.exprKind, r.name_scope, r.inClass_context]
    rfl
  | staticCall owner method args =>
    cases owner with
    | name owner =>
      simp only [recursion?, Revision.exprKind, Revision.classRef, r.name_scope, howner]
      rfl
    | _ => rfl
  | _ => rfl

theorem message?_revised (n : Node) (c : Context) :
    message? (r.node n) (r.context c) = message? n c := by
  cases n with
  | stmt s =>
    obtain ⟨span, kind, comments⟩ := s
    cases kind <;> rfl
  | expr e =>
    show (r.context c).function?.bind (fun current => recursion? current _ (r.expr e).kind) =
      c.function?.bind fun current => recursion? current c e.kind
    rw [r.function?_context, r.kind_expr]
    cases c.function? with
    | none => rfl
    | some current => exact recursion?_revised r current c e.kind
  | _ => rfl

theorem revised_check (settings : Settings) (site : Site) :
    Revised r (complexFlow.check settings site) (complexFlow.check settings (r.site site)) :=
  .of_messages (r.line_node site.node) fun c =>
    congrArg Option.toList (message?_revised r site.node c)

end ComplexFlow

namespace Assertions

theorem callsOneOf_revised (names : List String) (n : Node) :
    callsOneOf names (r.node n) = callsOneOf names n := by
  cases n with
  | expr e =>
    obtain ⟨span, kind, type⟩ := e
    cases kind with
    | call target args =>
      cases target with
      | name name => exact congrArg names.contains (r.shortName_called name)
      | expr e => rfl
    | _ => rfl
  | _ => rfl

theorem callsBelow_revised (names : List String) (n : Node) :
    callsBelow names (r.node n) = callsBelow names n :=
  r.occurs_node (callsOneOf_revised r names) n

theorem throwsDirectly_revised (branch : List Stmt) :
    throwsDirectly (branch.map r.stmt) = throwsDirectly branch := by
  rw [throwsDirectly, throwsDirectly, List.any_map]
  refine congrArg branch.any (funext fun s => ?_)
  obtain ⟨span, kind, comments⟩ := s
  cases kind with
  | expression e =>
    obtain ⟨span, kind, type⟩ := e
    cases kind <;> rfl
  | _ => rfl

/-- An assertion counts the same whatever its side data. -/
theorem weight_revised (settings : Settings) (n : Node) :
    weight settings (r.node n) = weight settings n := by
  cases n with
  | stmt s =>
    obtain ⟨span, kind, comments⟩ := s
    cases kind with
    | ifElse condition branch elseIfs otherwise =>
      have hbelow : (branch.map r.stmt).any
            (fun s => callsBelow settings.exceptionFunctions (.ofStmt s)) =
          branch.any fun s => callsBelow settings.exceptionFunctions (.ofStmt s) := by
        rw [List.any_map]
        refine congrArg branch.any (funext fun s => ?_)
        show callsBelow _ (.ofStmt (r.stmt s)) = _
        rw [← r.node_ofStmt, callsBelow_revised]
      simp only [weight, Revision.node, Revision.stmt, Revision.stmtKind, r.stmts_eq_map,
        throwsDirectly_revised, hbelow]
    | _ => rfl
  | expr e =>
    obtain ⟨span, kind, type⟩ := e
    cases kind with
    | call target args =>
      cases target with
      | name name =>
        simp only [weight, Revision.node, Revision.expr, Revision.exprKind, Revision.callee,
          r.shortName_called]
      | expr e => rfl
    | ternary condition thenValue otherwise =>
      have hbelow := callsBelow_revised r settings.exceptionFunctions
        (.expr ⟨span, .ternary condition thenValue otherwise, type⟩)
      exact congrArg (fun raises : Bool => if raises then 1 else 0) hbelow
    | _ => rfl
  | _ => rfl

theorem count_revised (settings : Settings) (decl : FunctionDecl) :
    count settings (r.function decl) = count settings decl := by
  have hnodes := r.map_node_collect [.call, .methodCall, .staticCall, .ifElse, .ternary]
    (.function decl)
  show total (weight settings) (Walk.collect _ (r.node (.function decl))) = _
  rw [← hnodes, total_map]
  exact congrArg (total · _) (funext fun n => weight_revised r settings n)

theorem message?_revised (settings : Settings) (decl : FunctionDecl) :
    message? settings (r.function decl) = message? settings decl := by
  rw [message?, message?, r.isAbstract_function, r.body_function, Option.isNone_map,
    r.name_function, count_revised]

theorem revised_check (settings : Settings) (site : Site) :
    Revised r (assertions.check settings site) (assertions.check settings (r.site site)) := by
  obtain ⟨place, node⟩ := site
  refine .of_messages (r.line_node node) fun c => congrArg Option.toList ?_
  cases node with
  | function decl => exact message?_revised r settings decl
  | method decl =>
    show (if isMagic (r.function decl).name then none else message? settings (r.function decl)) = _
    rw [r.name_function, message?_revised]
  | _ => rfl

end Assertions

namespace DataScope

theorem propertiesOf_revised (m : Member) : propertiesOf (r.member m) = propertiesOf m := by
  cases m with
  | property d =>
    obtain ⟨span, names, visibility, isStatic, defaults⟩ := d
    rfl
  | method d =>
    have hparams : (d.params.map r.param).filterMap (fun p => p.promoted.map fun v => (p.name, v)) =
        d.params.filterMap fun p => p.promoted.map fun v => (p.name, v) := by
      rw [List.filterMap_map]
      exact List.filterMap_congr fun p _ => by cases p; rfl
    simp only [propertiesOf, Revision.member, r.name_function, r.params_function, hparams]
  | _ => rfl

theorem classMessages_revised (settings : Settings) (d : ClassDecl) :
    classMessages settings (r.classDecl d) = classMessages settings d := by
  have hproperties : (d.members.map r.member).flatMap propertiesOf =
      d.members.flatMap propertiesOf := by
    rw [List.flatMap_map]
    exact List.flatMap_congr fun m _ => propertiesOf_revised r m
  have hname : className (r.classDecl d) = className d := by
    rw [className, className, r.name_classDecl]
  rw [classMessages, classMessages, r.members_classDecl, hproperties, hname]

/-! Places and names are the same in a revised tree, and so are the first uses of variables. -/

theorem plainVar?_revised (e : Expr) : plainVar? (r.expr e) = plainVar? e := by
  obtain ⟨span, kind, type⟩ := e
  cases kind <;> rfl

theorem assignment?_revised (s : Site) : assignment? (r.site s) = assignment? s := by
  obtain ⟨place, node⟩ := s
  cases node with
  | expr e =>
    obtain ⟨span, kind, type⟩ := e
    cases kind with
    | assign target value =>
      exact congrArg (Option.map fun name => (name, span.firstLine)) (plainVar?_revised r target)
    | _ => rfl
  | _ => rfl

theorem targetPlace?_revised (s : Site) : targetPlace? (r.site s) = targetPlace? s := by
  obtain ⟨place, node⟩ := s
  cases node with
  | expr e =>
    obtain ⟨span, kind, type⟩ := e
    cases kind <;> rfl
  | _ => rfl

theorem read?_revised (targets : List Place) (s : Site) :
    read? targets (r.site s) = read? targets s := by
  obtain ⟨place, node⟩ := s
  cases node with
  | expr e =>
    show (if targets.contains place then none
      else (plainVar? (r.expr e)).map fun name => (name, (r.expr e).span.firstLine)) = _
    rw [plainVar?_revised, r.span_expr]
    rfl
  | _ => rfl

theorem firstUses_revised (root : Site) : firstUses (r.site root) = firstUses root := by
  rw [firstUses, firstUses, ← r.map_site_collect]
  generalize Walk.collect (Site.isOf [.assign, .var]) root = sites
  have htargets : (sites.map r.site).filterMap targetPlace? = sites.filterMap targetPlace? := by
    rw [List.filterMap_map]
    exact List.filterMap_congr fun s _ => targetPlace?_revised r s
  have hreads : ∀ targets, (sites.map r.site).filterMap (read? targets) =
      sites.filterMap (read? targets) := by
    intro targets
    rw [List.filterMap_map]
    exact List.filterMap_congr fun s _ => read?_revised r targets s
  have hassigned : (sites.map r.site).filterMap assignment? = sites.filterMap assignment? := by
    rw [List.filterMap_map]
    exact List.filterMap_congr fun s _ => assignment?_revised r s
  simp only [htargets, hreads, hassigned]

theorem lateFindings_revised (settings : Settings) (site : Site) (c : Context)
    (decl : FunctionDecl) :
    lateFindings settings (r.site site) ((Transport.revise r).context c) (r.function decl) =
      lateFindings settings site c decl := by
  have hmessage : lateMessage settings (r.function decl) = lateMessage settings decl := by
    funext u
    unfold lateMessage
    rw [r.name_function]
  rw [lateFindings, lateFindings, r.body_function, Option.isNone_map, firstUses_revised, hmessage,
    Transport.finding_context]

theorem revised_check (settings : Settings) (site : Site) :
    Revised r (dataScope.check settings site) (dataScope.check settings (r.site site)) := by
  obtain ⟨place, node⟩ := site
  cases node with
  | classDecl d =>
    have hmessages := classMessages_revised r settings d
    exact .of_messages (r.line_node (.classDecl d)) fun _ => hmessages
  | function decl => exact .plain fun c => lateFindings_revised r settings _ c decl
  | method decl => exact .plain fun c => lateFindings_revised r settings _ c decl
  | stmt s =>
    obtain ⟨span, kind, comments⟩ := s
    cases kind with
    | global names => exact .of_messages rfl fun _ => rfl
    | _ => exact Carried.silent settings
  | _ => exact Carried.silent settings

end DataScope

namespace Dereferences

theorem linkTarget?_revised (e : Expr) : linkTarget? (r.expr e) = (linkTarget? e).map r.expr := by
  obtain ⟨span, kind, type⟩ := e
  cases kind <;> rfl

theorem isLink_revised (e : Expr) : isLink (r.expr e) = isLink e := by
  rw [isLink, isLink, linkTarget?_revised, Option.isSome_map]

theorem isStaticCall_revised (e : Expr) : isStaticCall (r.expr e) = isStaticCall e := by
  obtain ⟨span, kind, type⟩ := e
  cases kind <;> rfl

/-- A revised chain has the links and the bottom of the chain. -/
theorem chain_revised (e : Expr) :
    hops (r.expr e) = hops e ∧ bottom (r.expr e) = r.expr (bottom e) := by
  induction e using hops.induct with
  | case1 e target htarget ih =>
    have hrevised : linkTarget? (r.expr e) = some (r.expr target) := by
      rw [linkTarget?_revised, htarget]
      rfl
    rw [hops_of_target hrevised, hops_of_target htarget, bottom_of_target hrevised,
      bottom_of_target htarget, ih.1]
    exact ⟨rfl, ih.2⟩
  | case2 e hnone =>
    have hlink : isLink e = false := by rw [isLink, hnone]; rfl
    have hrevised : isLink (r.expr e) = false := (isLink_revised r e).trans hlink
    rw [hops_of_not_isLink hrevised, hops_of_not_isLink hlink, bottom_of_not_isLink hrevised,
      bottom_of_not_isLink hlink]
    exact ⟨rfl, rfl⟩

theorem depth_revised (e : Expr) : depth (r.expr e) = depth e := by
  rw [depth, depth, (chain_revised r e).1, (chain_revised r e).2, isStaticCall_revised]

theorem chainMessage_revised (max : Nat) (e : Expr) :
    chainMessage max (r.expr e) = chainMessage max e := by
  rw [chainMessage, chainMessage, depth_revised, r.kind_expr]
  cases e.kind with
  | methodCall receiver method args =>
    simp only [Revision.exprKind, isStaticCall_revised]
  | _ => rfl

theorem checkLink_revised (max : Nat) (place : Place) (e : Expr) :
    checkLink max place (r.expr e) = checkLink max place e := by
  funext covered
  rw [checkLink, checkLink, depth_revised, chainMessage_revised, (chain_revised r e).1]

theorem isCallableArray_revised (items : List ArrayItem) :
    isCallableArray (items.map r.item) = isCallableArray items := by
  match items with
  | [] => rfl
  | [_] => rfl
  | [⟨_, ⟨_, target, _⟩⟩, ⟨_, ⟨_, method, _⟩⟩] =>
    show (_ && _) = (_ && _)
    refine congrArg₂ and ?_ ?_
    · cases target <;> rfl
    · cases method <;> rfl
  | _ :: _ :: _ :: _ => rfl

theorem message?_revised (max : Nat) (k : ExprKind) :
    message? max (r.exprKind k) = message? max k := by
  cases k with
  | arrayDimFetch array index => simp only [message?, Revision.exprKind, isLink_revised]
  | call target args => cases target <;> rfl
  | array items =>
    simp only [message?, Revision.exprKind, r.items_eq_map, isCallableArray_revised]
  | _ => rfl

theorem revised_check (settings : Settings) (site : Site) :
    Revised r (dereferences.check settings site) (dereferences.check settings (r.site site)) := by
  obtain ⟨place, node⟩ := site
  show Revised r (check settings ⟨place, node⟩) (check settings ⟨place, r.node node⟩)
  cases node with
  | expr e =>
    have hspan := congrArg Span.firstLine (r.span_expr e)
    by_cases hlink : isLink e = true
    · have hrevised : isLink (r.expr e) = true := (isLink_revised r e).trans hlink
      rw [check_of_isLink settings place hlink, Revision.node,
        check_of_isLink settings place hrevised, r.span_expr, checkLink_revised]
      exact .slotQuestion fun _ => rfl
    · have hrevised : ¬ isLink (r.expr e) = true := by rwa [isLink_revised]
      rw [check_of_not_isLink settings place hlink, Revision.node,
        check_of_not_isLink settings place hrevised, r.kind_expr, message?_revised]
      exact .of_messages hspan fun _ => rfl
  | _ => exact Carried.silent settings

end Dereferences

namespace Diagnostics

theorem message?_revised (settings : Settings) (k : ExprKind) :
    message? settings (r.exprKind k) = message? settings k := by
  cases k with
  | call target args =>
    cases target with
    | name name =>
      simp only [message?, Revision.exprKind, Revision.callee, r.shortName_called]
    | expr e => rfl
  | _ => rfl

theorem revised_check (settings : Settings) (site : Site) :
    Revised r (diagnostics.check settings site) (diagnostics.check settings (r.site site)) := by
  obtain ⟨place, node⟩ := site
  cases node with
  | classDecl d =>
    have hspan := congrArg Span.firstLine (r.span_classDecl d)
    show Revised r (reportMissing settings d.span.firstLine)
      (reportMissing settings (r.classDecl d).span.firstLine)
    rw [hspan]
    exact carried_reportMissing (fun _ => rfl) settings d.span.firstLine
  | stmt s =>
    obtain ⟨span, kind, comments⟩ := s
    cases kind with
    | declareBlock directives =>
      exact carried_checkDirectives (fun _ => rfl) settings directives span.firstLine
    | namespaceBlock name body =>
      exact carried_reportMissing (fun _ => rfl) settings span.firstLine
    | _ => exact Carried.silent settings
  | expr e =>
    refine .of_messages (r.line_node (.expr e)) fun _ => congrArg Option.toList ?_
    rw [← message?_revised r settings e.kind, r.kind_expr]
  | _ => exact Carried.silent settings

end Diagnostics

/-! ## Rules that look at types -/

variable {r}

theorem type_expr_of_eq_id (h : r.type = id) (e : Expr) : (r.expr e).type = e.type := by
  rw [r.type_expr, h]
  rfl

namespace LoopBounds

section

variable (h : r.type = id)
include h

theorem constant?_revised (e : Expr) :
    constant? Expr.type (r.expr e) = constant? Expr.type e := by
  have htype := type_expr_of_eq_id h e
  obtain ⟨span, kind, type⟩ := e
  rw [constant?, constant?, htype]
  cases kind <;> rfl

theorem hasFixedBound_revised (max : Nat) (condition : Expr) :
    hasFixedBound Expr.type max (r.expr condition) = hasFixedBound Expr.type max condition := by
  obtain ⟨span, kind, type⟩ := condition
  cases kind with
  | binary op left right =>
    cases op <;> simp only [hasFixedBound, Revision.expr, Revision.exprKind, constant?_revised h]
  | _ => rfl

theorem forMessage?_revised (max : Nat) (conditions steps : List Expr) :
    forMessage? Expr.type max (conditions.map r.expr) (steps.map r.expr) =
      forMessage? Expr.type max conditions steps := by
  have hbounds : (conditions.map r.expr).any (hasFixedBound Expr.type max) =
      conditions.any (hasFixedBound Expr.type max) := by
    rw [List.any_map]
    exact congrArg conditions.any (funext fun e => hasFixedBound_revised h max e)
  rw [forMessage?, forMessage?, hbounds, List.isEmpty_map, List.isEmpty_map]

theorem sizeOf_revised (iterable : Expr) :
    sizeOf Expr.type (r.expr iterable) = sizeOf Expr.type iterable := by
  have htype := type_expr_of_eq_id h iterable
  obtain ⟨span, kind, type⟩ := iterable
  unfold sizeOf
  rw [htype]
  split
  · rfl
  · rfl
  · rfl
  · cases kind with
    | array items =>
      show Size.known (r.items items).length = _
      rw [r.items_eq_map, List.length_map]
    | _ => rfl

theorem message?_revised (max : Nat) (s : Stmt) :
    message? Expr.type max (r.stmt s) = message? Expr.type max s := by
  obtain ⟨span, kind, comments⟩ := s
  cases kind with
  | forLoop init conditions steps body =>
    show Except.ok (forMessage? Expr.type max (r.exprs conditions) (r.exprs steps)) = _
    rw [r.exprs_eq_map, r.exprs_eq_map, forMessage?_revised h]
    rfl
  | foreach iterable key value body =>
    show Except.ok (foreachMessage? Expr.type max (r.expr iterable)) =
      Except.ok (foreachMessage? Expr.type max iterable)
    rw [foreachMessage?, foreachMessage?, sizeOf_revised h]
  | whileLoop condition body =>
    obtain ⟨_, kind, _⟩ := condition
    cases kind <;> rfl
  | doWhile condition body =>
    obtain ⟨_, kind, _⟩ := condition
    cases kind <;> rfl
  | _ => rfl

theorem revised_check (settings : Settings) (site : Site) :
    Revised r (loopBounds.check settings site) (loopBounds.check settings (r.site site)) := by
  obtain ⟨place, node⟩ := site
  cases node with
  | stmt s =>
    have hmessage := message?_revised h settings.maxLoopIterations s
    refine .of_outcome fun c => ?_
    show (message? Expr.type _ (r.stmt s)).map (fun message : Option String =>
      message.toList.map (((Transport.revise r).context c).finding info (r.node (.stmt s)).line)) = _
    rw [hmessage, Transport.finding_context, r.line_node]
  | _ => exact Carried.silent settings

end

end LoopBounds

namespace Allocation

theorem inInitMethod_revised (settings : Settings) (c : Context) :
    inInitMethod settings (r.context c) = inInitMethod settings c := by
  rw [inInitMethod, inInitMethod, r.function?_context]
  cases c.function? with
  | none => rfl
  | some scope =>
    show settings.initMethods.contains (Text.shortName (r.scope scope).name) = _
    rw [r.name_scope]
    rfl

theorem message?_revised (h : r.type = id) (settings : Settings) (k : ExprKind) :
    message? settings (r.exprKind k) = message? settings k := by
  cases k with
  | array items => simp only [message?, Revision.exprKind, r.items_eq_map, List.isEmpty_map]
  | call target args =>
    cases target with
    | name name =>
      simp only [message?, Revision.exprKind, Revision.callee, r.shortName_called]
    | expr e => rfl
  | methodCall receiver method args =>
    simp only [message?, Revision.exprKind, type_expr_of_eq_id h]
  | _ => rfl

theorem revised_check (h : r.type = id) (settings : Settings) (site : Site) :
    Revised r (allocation.check settings site) (allocation.check settings (r.site site)) := by
  obtain ⟨place, node⟩ := site
  cases node with
  | expr e =>
    have hmessage := message?_revised h settings e.kind
    refine .plain fun c => ?_
    show (if inInitMethod settings (r.context c) then []
      else (message? settings (r.expr e).kind).toList.map ((r.context c).finding info
        (r.node (.expr e)).line)) = _
    rw [inInitMethod_revised, r.kind_expr, hmessage, r.finding_context, r.line_node]
    rfl
  | _ => exact Carried.silent settings

end Allocation

namespace ReturnValue

theorem isCall_revised (e : Expr) : isCall (r.expr e) = isCall e := by
  obtain ⟨span, kind, type⟩ := e
  cases kind <;> rfl

theorem isExempt_revised (settings : Settings) (call : Expr) :
    isExempt settings (r.expr call) = isExempt settings call := by
  obtain ⟨span, kind, type⟩ := call
  cases kind with
  | call target args =>
    cases target with
    | name name => exact congrArg settings.ignoredFunctions.contains (r.shortName_called name)
    | expr e => rfl
  | methodCall receiver method args =>
    simp only [isExempt, Revision.expr, Revision.exprKind, isCall_revised]
  | _ => rfl

section

variable (h : r.type = id)
include h

theorem discards_revised (settings : Settings) {s : Stmt} (hmark : isMarked (r.stmt s) = isMarked s)
    (call : Expr) : discards settings (r.stmt s) (r.expr call) = discards settings s call := by
  rw [discards, discards, hmark, isCall_revised, isExempt_revised, type_expr_of_eq_id h]

variable (hcalled : r.called = id)
include hcalled

theorem describe_revised (call : Expr) : describe (r.expr call) = describe call := by
  obtain ⟨span, kind, type⟩ := call
  cases kind with
  | call target args =>
    cases target with
    | name name =>
      show "function " ++ r.called name ++ "()" = _
      rw [hcalled]
      rfl
    | expr e => rfl
  | methodCall receiver method args =>
    simp only [describe, Revision.expr, Revision.exprKind, type_expr_of_eq_id h]
  | staticCall owner method args => cases owner <;> rfl
  | _ => rfl

/-- Of the comments only the marks matter, and of the context only the location. -/
theorem findings_revised (settings : Settings) (place : Place) {s : Stmt}
    (hmark : isMarked (r.stmt s) = isMarked s) {c c' : Context} (hc : c'.finding = c.finding) :
    findings settings ⟨place, .stmt (r.stmt s)⟩ c' = findings settings ⟨place, .stmt s⟩ c := by
  obtain ⟨span, kind, comments⟩ := s
  cases kind with
  | expression call =>
    show (if discards settings (r.stmt ⟨span, .expression call, comments⟩) (r.expr call) then
      [c'.finding info span.firstLine _] else []) = _
    rw [discards_revised h settings hmark, hc, describe_revised h hcalled]
    rfl
  | _ => rfl

theorem revised_check (hcomments : r.comments = id) (settings : Settings) (site : Site) :
    Revised r (returnValue.check settings site) (returnValue.check settings (r.site site)) := by
  obtain ⟨place, node⟩ := site
  cases node with
  | stmt s =>
    have hmark : isMarked (r.stmt s) = isMarked s := by
      rw [isMarked, isMarked, r.comments_stmt, hcomments]
      rfl
    exact .plain fun c => findings_revised h hcalled settings place hmark (r.finding_context c)
  | _ => exact Carried.silent settings

end

/-- A comment in front of the statement at a site has an ignore mark. -/
def isMarkedSite (s : Site) : Bool :=
  match s.node with
  | .stmt s => isMarked s
  | _ => false

theorem findings_of_isMarkedSite {settings : Settings} {s : Site} (h : isMarkedSite s = true)
    (c : Context) : findings settings s c = [] := by
  obtain ⟨place, node⟩ := s
  cases node with
  | stmt s =>
    obtain ⟨span, kind, comments⟩ := s
    cases kind with
    | expression call =>
      have hmark : isMarked ⟨span, .expression call, comments⟩ = true := h
      have hdiscards : discards settings ⟨span, .expression call, comments⟩ call = false := by
        rw [discards, hmark]
        simp
      show (if discards settings _ call then _ else []) = []
      rw [hdiscards]
      rfl
    | _ => rfl
  | _ => rfl

/-- Without its comments a statement is reported like one that has no mark. -/
theorem findings_withoutComments {settings : Settings} {s : Site} (h : isMarkedSite s = false)
    {c c' : Context} (hc : c'.finding = c.finding) :
    findings settings (Revision.withoutComments.site s) c' = findings settings s c := by
  obtain ⟨place, node⟩ := s
  cases node with
  | stmt s =>
    have hmark : isMarked (Revision.withoutComments.stmt s) = isMarked s := by
      rw [isMarked, Revision.comments_stmt]
      exact h.symm
    exact findings_revised rfl rfl settings place hmark hc
  | _ => rfl

/-- Sites that differ in comments only, both marked or both not, are reported alike. -/
theorem findings_congr (settings : Settings) {s s' : Site}
    (hs : Revision.withoutComments.site s = Revision.withoutComments.site s')
    (hmark : isMarkedSite s = isMarkedSite s') {c c' : Context} (hc : c.finding = c'.finding) :
    findings settings s c = findings settings s' c' := by
  cases h : isMarkedSite s with
  | true => rw [findings_of_isMarkedSite h, findings_of_isMarkedSite (hmark ▸ h)]
  | false =>
    rw [← findings_withoutComments h hc.symm, hs]
    exact findings_withoutComments (hmark ▸ h) rfl

end ReturnValue

/-! ## The rule that looks at the text -/

namespace FunctionLength

/-- The text is not looked at if all lines count. -/
theorem measuredLength_revised {settings : Settings}
    (h : r.text = id ∨ settings.countComments = true ∧ settings.countBlankLines = true)
    (c : Context) (decl : FunctionDecl) :
    measuredLength settings (r.context c) (r.function decl) = measuredLength settings c decl := by
  rw [measuredLength, measuredLength, r.span_function]
  rcases h with htext | ⟨hcomments, hblanks⟩
  · have hlines : ((r.context c).file.bind fun f =>
          f.lines? decl.span.firstLine decl.span.lastLine) =
        c.file.bind fun f => f.lines? decl.span.firstLine decl.span.lastLine := by
      obtain ⟨_ | o, functions, classes, slots⟩ := c
      · rfl
      · show (r.text o.text).map _ = o.text.map _
        rw [htext]
        rfl
    rw [hlines]
  · simp only [hcomments, hblanks, Bool.and_self, if_true]

theorem message?_revised {settings : Settings}
    (h : r.text = id ∨ settings.countComments = true ∧ settings.countBlankLines = true)
    (c : Context) (label : String) (decl : FunctionDecl) :
    message? settings (r.context c) label (r.function decl) = message? settings c label decl := by
  rw [message?, message?, measuredLength_revised h, r.body_function, Option.isSome_map,
    r.name_function]

theorem revised_check {settings : Settings}
    (h : r.text = id ∨ settings.countComments = true ∧ settings.countBlankLines = true)
    (site : Site) :
    Revised r (functionLength.check settings site) (functionLength.check settings (r.site site)) := by
  obtain ⟨place, node⟩ := site
  refine .of_messages (r.line_node node) fun c => congrArg Option.toList ?_
  cases node with
  | function decl => exact message?_revised h c "Function" decl
  | method decl => exact message?_revised h c "Method" decl
  | _ => rfl

end FunctionLength

/-! ## The nine rules -/

/-- The revision spares what the rule looks at. -/
def Spares (r : Revision) (settings : Settings) : RuleId → Prop
  | .fixedLoopBounds => r.type = id
  | .noHeapAllocation => r.type = id
  | .functionLength => r.text = id ∨ settings.countComments = true ∧ settings.countBlankLines = true
  | .checkReturnValue => r.type = id ∧ r.comments = id ∧ r.called = id
  | _ => True

/-- A rule gives the same answers on revised nodes if what it looks at is spared. -/
theorem revised_check (settings : Settings) (site : Site) :
    ∀ id, Spares r settings id →
      Revised r ((ofId id).check settings site) ((ofId id).check settings (r.site site))
  | .noComplexFlow, _ => ComplexFlow.revised_check r settings site
  | .fixedLoopBounds, h => LoopBounds.revised_check h settings site
  | .noHeapAllocation, h => Allocation.revised_check h settings site
  | .functionLength, h => FunctionLength.revised_check h site
  | .minimumAssertions, _ => Assertions.revised_check r settings site
  | .restrictDataScope, _ => DataScope.revised_check r settings site
  | .checkReturnValue, h => ReturnValue.revised_check h.1 h.2.2 h.2.1 settings site
  | .limitDereferences, _ => Dereferences.revised_check r settings site
  | .mandatoryDiagnostics, _ => Diagnostics.revised_check r settings site

/-- A rule that looks at side data remembers nothing. -/
theorem snd_check_of_not_spares {settings : Settings} {id : RuleId} (h : ¬ Spares r settings id)
    (site : Site) (c : Context) : ((ofId id).check settings site c).2 = c := by
  refine snd_check_of_ne settings ?_ ?_ site c
  · rintro rfl
    exact h trivial
  · rintro rfl
    exact h trivial

end Rules

end SafetyLint
