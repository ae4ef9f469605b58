import SafetyLint.Proofs.Answers
import SafetyLint.Proofs.Coverage
import SafetyLint.Tree.Build

/-!
# Assertions add up over the tree

The rule about assertions collects some nodes below a function in one search, and starts another
search at each branch and each conditional expression that it found.  What it arrives at is a sum
over the tree, which `assertionsIn` says by recursion over the parts: the assertions in a part are
the ones that the part makes itself, and those in the parts that stand in it, whatever these are.

The searches go over nodes and the sum goes over parts.  They meet at spots: the nodes of a search
are the nodes that show spots (`Spot.filterMap_node?_below`), so what is counted of a part has to be
what is counted of its node, and a part without a node has to count nothing (`own_part`).

* `count_eq`: the count of the rule is the sum over the defaults of the parameters and the body.
* `assertions_add_up`: which functions the rule reports in a walk, and what it says about them.
-/

namespace SafetyLint

open SafetyLint.Tree Config Text

/-! ## Spots and the nodes that show them -/

namespace Tree
namespace Spot

theorem map_part_children (r : Spot) :
    (Walk.Branching.children r).map part = Walk.Branching.children r.part := by
  show (r.part.branches.map _).map part = r.part.branches.map Prod.snd
  rw [List.map_map]
  rfl

/-- What a part weighs by itself and what the node weighs that shows it, if one does: where the two
agree, they agree in total over everything at and below a spot. -/
theorem total_preorder {g : Part → Nat} {w : Node → Nat}
    (h : ∀ r : Spot, g r.part = total w r.node?.toList) (r : Spot) :
    total g (Walk.preorder r.part) = total w (r.front.flatMap Walk.preorder) := by
  rw [← filterMap_node?_preorder, total_filterMap, ← total_congr fun r _ => h r,
    ← Walk.map_preorder part map_part_children, total_map]

/-- The same for a search. -/
theorem any_preorder {p : Part → Bool} {q : Node → Bool}
    (h : ∀ r : Spot, p r.part = r.node?.any q) (r : Spot) :
    (Walk.preorder r.part).any p = (r.front.flatMap Walk.preorder).any q := by
  rw [← filterMap_node?_preorder, ← Walk.map_preorder part map_part_children, List.any_map,
    List.any_filterMap]
  refine congrArg (List.any _) (funext fun r => (h r).trans ?_)
  cases r.node? <;> rfl

end Spot

theorem Part.weight_lt_of_mem_fields {p q : Part} (h : q ∈ p.fields.flatten) :
    q.weight < p.weight :=
  Nat.lt_of_le_of_lt (le_total_of_mem weight h) p.total_fields_lt

end Tree

namespace Rules
namespace Assertions

/-! ## The assertions in a part -/

/-- The part is a call of one of the functions. -/
def isCallOf (names : List String) : Part → Bool
  | .expr ⟨_, .call (.name name) _, _⟩ => names.contains (shortName name)
  | _ => false

/-- Somewhere in the part, but not by the part itself, one of the functions is called. -/
def callsInside (names : List String) (p : Part) : Bool := (Walk.below p).any (isCallOf names)

/-- The statement is a throw expression. -/
def isThrow : Stmt → Bool
  | ⟨_, .expression ⟨_, .throw _, _⟩, _⟩ => true
  | _ => false

/-- The assertions that a part makes itself: as a call of an assertion, as a branch that throws and
as one that raises an error by a call, or as a conditional expression that does so. -/
def ownAssertions (settings : Settings) : Part → Nat
  | .stmt ⟨_, .ifElse _ branch _ _, _⟩ =>
    (if branch.any isThrow then 1 else 0)
      + if branch.any fun s => callsInside settings.exceptionFunctions (.stmt s) then 1 else 0
  | .expr ⟨_, .call (.name name) _, _⟩ =>
    if settings.assertionFunctions.contains (shortName name) then 1 else 0
  | .expr ⟨_, .methodCall _ method _, _⟩ =>
    if settings.assertionMethods.contains method then 1 else 0
  | .expr ⟨_, .staticCall _ method _, _⟩ =>
    if settings.assertionMethods.contains method then 1 else 0
  | .expr ⟨span, .ternary condition thenValue otherwise, type⟩ =>
    if callsInside settings.exceptionFunctions
      (.expr ⟨span, .ternary condition thenValue otherwise, type⟩) then 1 else 0
  | _ => 0

/-- The assertions in a part: its own, and those in all fields of the part. -/
def assertionsIn (settings : Settings) (p : Part) : Nat :=
  ownAssertions settings p
    + total (fun q : { q : Part // q ∈ p.fields.flatten } => assertionsIn settings q.1)
        p.fields.flatten.attach
termination_by p.weight
decreasing_by exact Part.weight_lt_of_mem_fields q.2

variable (settings : Settings)

theorem assertionsIn_eq (p : Part) :
    assertionsIn settings p =
      ownAssertions settings p + total (assertionsIn settings) p.fields.flatten := by
  rw [assertionsIn, total_attach (assertionsIn settings)]

/-- The assertions in a part are the own ones of everything at and below it. -/
theorem assertionsIn_eq_total (p : Part) :
    assertionsIn settings p = total (ownAssertions settings) (Walk.preorder p) := by
  induction p using Walk.induct with
  | step p ih =>
    rw [assertionsIn_eq, Walk.preorder_cons, total_cons, total_flatMap, ← total_congr ih]
    exact congrArg (_ + ·) (Part.total_branches _ p).symm

/-! ## The searches of the rule -/

theorem isCallOf_part (names : List String) (r : Spot) :
    isCallOf names r.part = r.node?.any (callsOneOf names) := by
  obtain ⟨path, holder, part⟩ := r
  cases part with
  | stmt s =>
    show false = (if s.kind.isDecl then none else some (.stmt s)).any (callsOneOf names)
    split <;> rfl
  | expr e =>
    obtain ⟨span, kind, type⟩ := e
    cases kind with
    | call callee args => cases callee <;> rfl
    | _ => rfl
  | function d =>
    show false = callsOneOf names (Node.ofFunction holder d)
    unfold Node.ofFunction
    split <;> rfl
  | _ => rfl

/-- A search below a node that shows a part is a search in the part. -/
theorem callsInside_eq {names : List String} {r : Spot} {n : Node} (hfront : r.front = [n])
    (hpart : isCallOf names r.part = false) (hnode : callsOneOf names n = false) :
    callsInside names r.part = callsBelow names n := by
  have hany := Spot.any_preorder (isCallOf_part names) r
  rw [hfront, List.flatMap_singleton, Walk.preorder_eq, Walk.preorder_eq, List.any_cons,
    List.any_cons, hpart, hnode, Bool.false_or, Bool.false_or] at hany
  rw [callsInside, hany, callsBelow, Walk.occurs_eq_any]

theorem callsInside_stmt (names : List String) (s : Stmt) :
    callsInside names (.stmt s) = callsBelow names (.ofStmt s) := by
  refine callsInside_eq (r := ⟨[], none, .stmt s⟩) rfl rfl ?_
  obtain ⟨span, kind, comments⟩ := s
  cases kind <;> rfl

theorem callsInside_expr {names : List String} {e : Expr} (hpart : isCallOf names (.expr e) = false)
    (hnode : callsOneOf names (.expr e) = false) :
    callsInside names (.expr e) = callsBelow names (.expr e) :=
  callsInside_eq (r := ⟨[], none, .expr e⟩) rfl hpart hnode

theorem throwsDirectly_eq (branch : List Stmt) : throwsDirectly branch = branch.any isThrow := by
  refine congrArg (List.any branch) (funext fun s => ?_)
  obtain ⟨span, kind, comments⟩ := s
  cases kind with
  | expression e =>
    obtain ⟨exprSpan, kind, type⟩ := e
    cases kind <;> rfl
  | _ => rfl

/-- A part makes the assertions that the rule counts at its node. -/
theorem ownAssertions_part (r : Spot) :
    ownAssertions settings r.part = total (Assertions.weight settings) r.node?.toList := by
  obtain ⟨path, holder, part⟩ := r
  cases part with
  | stmt s =>
    obtain ⟨span, kind, comments⟩ := s
    cases kind with
    | ifElse condition branch elseIfs otherwise =>
      show ite _ _ _ + ite _ _ _ = ite _ _ _ + ite _ _ _ + 0
      rw [Nat.add_zero, throwsDirectly_eq, funext (callsInside_stmt settings.exceptionFunctions)]
    | _ => rfl
  | expr e =>
    obtain ⟨span, kind, type⟩ := e
    cases kind with
    | call callee args => cases callee <;> rfl
    | ternary condition thenValue otherwise =>
      show ite _ _ _ = ite _ _ _ + 0
      rw [Nat.add_zero, callsInside_expr rfl rfl]
    | _ => rfl
  | function d =>
    show 0 = Assertions.weight settings (Node.ofFunction holder d) + 0
    unfold Node.ofFunction
    split <;> rfl
  | _ => rfl

/-- Off the kinds of nodes that the rule collects, nothing is counted. -/
theorem weight_of_not_isOf (n : Node)
    (h : n.isOf [.call, .methodCall, .staticCall, .ifElse, .ternary] = false) :
    Assertions.weight settings n = 0 := by
  cases n with
  | stmt s =>
    obtain ⟨span, kind, comments⟩ := s
    cases kind <;> first | rfl | cases h
  | expr e =>
    obtain ⟨span, kind, type⟩ := e
    cases kind <;> first | rfl | cases h
  | _ => rfl

/-- The assertions of a function: those in the defaults of its parameters and in its body. -/
def assertionsOf (settings : Settings) (decl : FunctionDecl) : Nat :=
  total (fun e => assertionsIn settings (.expr e)) (decl.params.filterMap Param.default)
    + total (fun s => assertionsIn settings (.stmt s)) (decl.body.getD [])

theorem fields_function (decl : FunctionDecl) :
    (Part.function decl).fields.flatten =
      decl.params.map Part.param ++ (decl.body.getD []).map Part.stmt := by
  obtain ⟨span, name, params, body, isAbstract, isStatic, visibility⟩ := decl
  cases body <;> cases visibility <;>
    simp [Part.fields, Part.contents, Stored.content, List.map_eq_flatMap]

theorem fields_param (p : Param) :
    (Part.param p).fields.flatten = p.default.toList.map Part.expr := by
  obtain ⟨span, name, promoted, default⟩ := p
  cases promoted <;> cases default <;> rfl

theorem assertionsIn_function (decl : FunctionDecl) :
    assertionsIn settings (.function decl) = assertionsOf settings decl := by
  have hparam : ∀ p : Param, assertionsIn settings (.param p) =
      total (fun e => assertionsIn settings (.expr e)) p.default.toList := by
    intro p
    rw [assertionsIn_eq, fields_param, total_map]
    exact Nat.zero_add _
  rw [assertionsIn_eq, fields_function, total_append, total_map, total_map, assertionsOf,
    total_filterMap, total_congr fun p _ => hparam p]
  exact Nat.zero_add _

/-- The count of the rule is the number of assertions of the function. -/
theorem count_eq (decl : FunctionDecl) : count settings decl = assertionsOf settings decl := by
  have hwalk := Spot.total_preorder (ownAssertions_part settings) ⟨[], none, .function decl⟩
  have hfront : Spot.front ⟨[], none, .function decl⟩ = [.function decl] := rfl
  rw [← assertionsIn_eq_total, assertionsIn_function, hfront, List.flatMap_singleton,
    Walk.preorder_eq, total_cons] at hwalk
  rw [count, Walk.collect_eq_filter, total_filter (weight_of_not_isOf settings), hwalk]
  exact (Nat.zero_add _).symm

/-! ## What is reported -/

/-- The function or method has a body of its own and too few assertions in it, and it is no method
whose name starts with two underscores. -/
def Lacks (settings : Settings) (scope : FunctionScope) : Prop :=
  scope.decl.body.isSome ∧ scope.decl.isAbstract = false ∧
    ¬ (scope.kind = .method ∧ ['_', '_'] <+: scope.decl.name.toList) ∧
    assertionsOf settings scope.decl < settings.minAssertions

instance : DecidablePred (Lacks settings) := fun _ => inferInstanceAs (Decidable (_ ∧ _))

def lackMessage (decl : FunctionDecl) : String :=
  "Function \"" ++ decl.name ++ "\" contains " ++ toString (assertionsOf settings decl)
    ++ " assertions, but at least " ++ toString settings.minAssertions ++ " are required."

/-- What the rule says about a node. -/
def lack? (n : Node) : Option String :=
  (n.functionScope?.filter (Lacks settings)).map fun scope => lackMessage settings scope.decl

theorem lack?_of_functionScope? {n : Node} {scope : FunctionScope}
    (h : n.functionScope? = some scope) :
    lack? settings n =
      if Lacks settings scope then some (lackMessage settings scope.decl) else none := by
  rw [lack?, h, Option.filter_some]
  simp only [decide_eq_true_eq]
  split <;> rfl

theorem message?_eq (decl : FunctionDecl) :
    message? settings decl =
      if decl.body.isSome ∧ decl.isAbstract = false ∧
          assertionsOf settings decl < settings.minAssertions then
        some (lackMessage settings decl)
      else none := by
  rw [message?, count_eq]
  show (if _ then none else if _ then some (lackMessage settings decl) else none) = _
  generalize lackMessage settings decl = text
  cases decl.isAbstract <;> cases decl.body <;> simp

theorem lack?_function (decl : FunctionDecl) :
    lack? settings (.function decl) = message? settings decl := by
  rw [lack?_of_functionScope? settings rfl, message?_eq]
  simp [Lacks]

theorem lack?_method (decl : FunctionDecl) :
    lack? settings (.method decl) =
      if isMagic decl.name then none else message? settings decl := by
  have hmagic : isMagic decl.name = true ↔ ['_', '_'] <+: decl.name.toList :=
    List.isPrefixOf_iff_prefix
  rw [lack?_of_functionScope? settings rfl, message?_eq]
  by_cases hname : isMagic decl.name = true
  · simp [Lacks, hname, hmagic.mp hname]
  · simp [Lacks, hname, mt hmagic.mpr hname]

theorem answers (file : OpenFile) (s : Stop) :
    Dispatcher.Answers .minimumAssertions settings file (fun s => lack? settings s.site.node)
      s := by
  obtain ⟨⟨place, node⟩, above⟩ := s
  cases node with
  | function decl =>
    rw [Dispatcher.Answers, lack?_function]
    rfl
  | method decl =>
    rw [Dispatcher.Answers, lack?_method]
    rfl
  | _ => rfl

/-- Assertions add up over the tree.

* The count of a function is the sum over the defaults of its parameters and the statements of its
  body of the assertions in them.
* The assertions in a part are its own and, summed up, those in what stands in the fields of the
  part, of whatever sort these are.
* With the rule registered once and active, it reports in a walk exactly those functions and methods
  that have a body of their own with fewer assertions than required, each once and with the number
  of its assertions.  Methods whose names start with two underscores are left out. -/
theorem assertions_add_up :
    (∀ decl : FunctionDecl, count settings decl =
        total (fun e => assertionsIn settings (.expr e)) (decl.params.filterMap Param.default) +
          total (fun s => assertionsIn settings (.stmt s)) (decl.body.getD [])) ∧
      (∀ p : Part, assertionsIn settings p =
        ownAssertions settings p + total (assertionsIn settings) p.fields.flatten) ∧
      ∀ (ids : List RuleId) (root : Option String) (i : Nat) (f : SourceFile),
        ids.count .minimumAssertions = 1 → settings.isActive .minimumAssertions = true →
          (((dispatcher ids settings).visit 0 (.ofFile i f)
              (Context.empty.enterFile (.ofFile i f root))).1.flatMap Event.sightings).filter
                (fun x => x.2.rule = info.name) =
            (Walk.preorder (Stop.ofFile i f)).filterMap fun s =>
              (s.site.node.functionScope?.filter (Lacks settings)).map fun scope =>
                (s.site, reported settings info (some (.ofFile i f root)) s.site.node.line
                  (lackMessage settings scope.decl)) := by
  refine ⟨count_eq settings, assertionsIn_eq settings, ?_⟩
  intro ids root i f hr hactive
  refine (Dispatcher.filter_sightings_of_answers (fun s => lack? settings s.site.node) (by decide)
    (by decide) hr hactive root i f ?_ fun s _ => answers settings _ s).trans ?_
  · rintro ⟨⟨place, node⟩, above⟩ hkind
    cases node with
    | function decl => cases hkind
    | method decl => cases hkind
    | _ => rfl
  · refine List.filterMap_congr fun s _ => ?_
    rw [lack?, Option.map_map]
    rfl

/-- A function with one assertion, in a closure in the default of a parameter. -/
def guarded : FunctionDecl :=
  let check : Stmt := .ofExpr (.call "\\App\\assert" [])
  (FunctionDecl.named "load" 1 9).withParams
    [{ Param.named "on" 1 with default := some (.closure [check]) }]

def guardedFile : SourceFile := ⟨"a.php", none, [.ofFunction guarded]⟩

theorem assertions_add_up_guardedFile :
    RuleId.all.count .minimumAssertions = 1 ∧
      Settings.default.isActive .minimumAssertions = true ∧
      (((dispatcher RuleId.all .default).visit 0 (.ofFile 0 guardedFile)
          (Context.empty.enterFile (.ofFile 0 guardedFile none))).1.flatMap
            Event.sightings).filter (fun x => x.2.rule = info.name) =
        (Walk.preorder (Stop.ofFile 0 guardedFile)).filterMap fun s =>
          (s.site.node.functionScope?.filter (Lacks .default)).map fun scope =>
            (s.site, reported .default info (some (.ofFile 0 guardedFile none)) s.site.node.line
              (lackMessage .default scope.decl)) :=
  ⟨by decide, by decide,
    (assertions_add_up .default).2.2 RuleId.all none 0 guardedFile (by decide) (by decide)⟩

/-- The qualified call counts, and one assertion is less than two. -/
example : Lacks .default ⟨guarded, .function⟩ ∧ assertionsOf .default guarded = 1 := by
  have hcount : assertionsOf .default guarded = 1 := by
    simp [assertionsOf, assertionsIn_eq, ownAssertions, Part.fields, Part.contents,
      ExprKind.contents, StmtKind.contents, Stored.content, guarded, FunctionDecl.withParams,
      FunctionDecl.named, Param.named, Expr.closure, Expr.call, Expr.ofKind, Stmt.ofExpr,
      Stmt.ofKind]
    decide
  exact ⟨⟨rfl, rfl, by decide, by rw [hcount]; decide⟩, hcount⟩

end Assertions
end Rules
end SafetyLint
