import SafetyLint.Format.Dump
import SafetyLint.Proofs.TreeForms

/-!
# Dumps give trees back

A tree is written in three steps, each of which loses nothing: the form of the tree, the JSON value
of the form, the text of the value.  The last two steps are undone by `Fits.read_write` and
`Json.parse_renderAt`; here it is shown that a form describes the tree that it was made of, by
recursion over the tree like the forms themselves.

What is asked of a tree: that it holds no double, that its numbers have at most 64 bits, and that
its value is not deeper than a reader goes.
-/

namespace SafetyLint
namespace Format

open SafetyLint.Tree

/-! ## Parts without recursion -/

theorem textOf?_textForm? (s : Option String) : textOf? (textForm? s) = s := by
  cases s <;> rfl

theorem textsOf_textsForm (ss : List String) : textsOf (textsForm ss) = ss := by
  rw [textsOf, textsForm, itemsOf, List.map_map]
  exact List.map_id ss

theorem spanOf_spanForm (s : Span) : spanOf (spanForm s) = s := rfl

theorem visibilityOf_visibilityForm (v : Visibility) : visibilityOf (visibilityForm v) = v :=
  Visibility.ofWord_word v

theorem visibilityOf?_visibilityForm? (v : Option Visibility) :
    visibilityOf? (visibilityForm? v) = v := by
  cases v with
  | none => rfl
  | some v => exact congrArg some (Visibility.ofWord_word v)

theorem map_directiveOf_map_directiveForm (ds : List Directive) :
    (ds.map directiveForm).map directiveOf = ds := by
  rw [List.map_map]
  exact List.map_id ds

theorem tyOf_tyForm (t : Ty) : tyOf (tyForm t) = t := by
  cases t with
  | array size => cases size <;> rfl
  | _ => rfl

/-! ## The recursive family -/

-- In each case the goal is first brought to the constructor with the parts that its forms describe;
-- what remains are the statements about those parts.

mutual

theorem stmtOf_stmtForm : ∀ s : Stmt, stmtOf (stmtForm s) = s
  | ⟨span, kind, comments⟩ => by
    show Stmt.mk (spanOf (spanForm span)) (stmtKindOf (stmtKindForm kind))
      (textsOf (textsForm comments)) = _
    rw [spanOf_spanForm, stmtKindOf_stmtKindForm kind, textsOf_textsForm]

theorem stmtList_stmtForms : ∀ body : List Stmt, stmtList (stmtForms body) = body
  | [] => rfl
  | s :: rest => by
    show stmtOf (stmtForm s) :: stmtList (stmtForms rest) = _
    rw [stmtOf_stmtForm s, stmtList_stmtForms rest]

theorem bodyOf?_bodyForm? : ∀ body : Option (List Stmt), bodyOf? (bodyForm? body) = body
  | none => rfl
  | some body => by
    show some (stmtList (stmtForms body)) = _
    rw [stmtList_stmtForms body]

theorem stmtKindOf_stmtKindForm : ∀ k : StmtKind, stmtKindOf (stmtKindForm k) = k
  | .namespaceBlock name body => by
    show StmtKind.namespaceBlock (textOf? (textForm? name)) (stmtList (stmtForms body)) = _
    rw [textOf?_textForm?, stmtList_stmtForms body]
  | .declareBlock directives => by
    show StmtKind.declareBlock ((directives.map directiveForm).map directiveOf) = _
    rw [map_directiveOf_map_directiveForm]
  | .useNames names => by
    show StmtKind.useNames (textsOf (textsForm names)) = _
    rw [textsOf_textsForm]
  | .classDecl ⟨span, name, members⟩ => by
    show StmtKind.classDecl ⟨spanOf (spanForm span), textOf? (textForm? name),
      memberList (memberForms members)⟩ = _
    rw [spanOf_spanForm, textOf?_textForm?, memberList_memberForms members]
  | .functionDecl ⟨span, name, params, body, isAbstract, isStatic, visibility⟩ => by
    show StmtKind.functionDecl ⟨spanOf (spanForm span), name, paramList (paramForms params),
      bodyOf? (bodyForm? body), isAbstract, isStatic,
      visibilityOf? (visibilityForm? visibility)⟩ = _
    rw [spanOf_spanForm, paramList_paramForms params, bodyOf?_bodyForm? body,
      visibilityOf?_visibilityForm?]
  | .expression e => by
    show StmtKind.expression (exprOf (exprForm e)) = _
    rw [exprOf_exprForm e]
  | .echo es => by
    show StmtKind.echo (exprList (exprForms es)) = _
    rw [exprList_exprForms es]
  | .returnValue e => by
    show StmtKind.returnValue (exprOf? (exprForm? e)) = _
    rw [exprOf?_exprForm? e]
  | .ifElse condition thenBody elseIfs otherwise => by
    show StmtKind.ifElse (exprOf (exprForm condition)) (stmtList (stmtForms thenBody))
      (elseIfList (elseIfForms elseIfs)) (bodyOf? (bodyForm? otherwise)) = _
    rw [exprOf_exprForm condition, stmtList_stmtForms thenBody, elseIfList_elseIfForms elseIfs,
      bodyOf?_bodyForm? otherwise]
  | .forLoop init condition step body => by
    show StmtKind.forLoop (exprList (exprForms init)) (exprList (exprForms condition))
      (exprList (exprForms step)) (stmtList (stmtForms body)) = _
    rw [exprList_exprForms init, exprList_exprForms condition, exprList_exprForms step,
      stmtList_stmtForms body]
  | .whileLoop condition body => by
    show StmtKind.whileLoop (exprOf (exprForm condition)) (stmtList (stmtForms body)) = _
    rw [exprOf_exprForm condition, stmtList_stmtForms body]
  | .doWhile condition body => by
    show StmtKind.doWhile (exprOf (exprForm condition)) (stmtList (stmtForms body)) = _
    rw [exprOf_exprForm condition, stmtList_stmtForms body]
  | .foreach iterable key value body => by
    show StmtKind.foreach (exprOf (exprForm iterable)) (exprOf? (exprForm? key))
      (exprOf (exprForm value)) (stmtList (stmtForms body)) = _
    rw [exprOf_exprForm iterable, exprOf?_exprForm? key, exprOf_exprForm value,
      stmtList_stmtForms body]
  | .switch subject cases => by
    show StmtKind.switch (exprOf (exprForm subject)) (caseList (caseForms cases)) = _
    rw [exprOf_exprForm subject, caseList_caseForms cases]
  | .tryCatch body catches cleanup => by
    show StmtKind.tryCatch (stmtList (stmtForms body)) (catchList (catchForms catches))
      (bodyOf? (bodyForm? cleanup)) = _
    rw [stmtList_stmtForms body, catchList_catchForms catches, bodyOf?_bodyForm? cleanup]
  | .breakLoop => rfl
  | .continueLoop => rfl
  | .goto _ => rfl
  | .label _ => rfl
  | .global names => by
    show StmtKind.global (textsOf (textsForm names)) = _
    rw [textsOf_textsForm]
  | .block body => by
    show StmtKind.block (stmtList (stmtForms body)) = _
    rw [stmtList_stmtForms body]
  | .nop => rfl

theorem elseIfList_elseIfForms : ∀ bs : List ElseIf, elseIfList (elseIfForms bs) = bs
  | [] => rfl
  | ⟨span, condition, body⟩ :: rest => by
    show ⟨spanOf (spanForm span), exprOf (exprForm condition), stmtList (stmtForms body)⟩ ::
      elseIfList (elseIfForms rest) = _
    rw [spanOf_spanForm, exprOf_exprForm condition, stmtList_stmtForms body,
      elseIfList_elseIfForms rest]

theorem caseList_caseForms : ∀ cs : List Case, caseList (caseForms cs) = cs
  | [] => rfl
  | ⟨test, body⟩ :: rest => by
    show ⟨exprOf? (exprForm? test), stmtList (stmtForms body)⟩ :: caseList (caseForms rest) = _
    rw [exprOf?_exprForm? test, stmtList_stmtForms body, caseList_caseForms rest]

theorem catchList_catchForms : ∀ cs : List Catch, catchList (catchForms cs) = cs
  | [] => rfl
  | ⟨types, var, body⟩ :: rest => by
    show ⟨textsOf (textsForm types), textOf? (textForm? var), stmtList (stmtForms body)⟩ ::
      catchList (catchForms rest) = _
    rw [textsOf_textsForm, textOf?_textForm?, stmtList_stmtForms body, catchList_catchForms rest]

theorem memberList_memberForms : ∀ ms : List Member, memberList (memberForms ms) = ms
  | [] => rfl
  | .property ⟨span, names, visibility, isStatic, defaults⟩ :: rest => by
    show Member.property ⟨spanOf (spanForm span), textsOf (textsForm names),
      visibilityOf (visibilityForm visibility), isStatic, exprList (exprForms defaults)⟩ ::
      memberList (memberForms rest) = _
    rw [spanOf_spanForm, textsOf_textsForm, visibilityOf_visibilityForm,
      exprList_exprForms defaults, memberList_memberForms rest]
  | .method ⟨span, name, params, body, isAbstract, isStatic, visibility⟩ :: rest => by
    show Member.method ⟨spanOf (spanForm span), name, paramList (paramForms params),
      bodyOf? (bodyForm? body), isAbstract, isStatic, visibilityOf? (visibilityForm? visibility)⟩ ::
      memberList (memberForms rest) = _
    rw [spanOf_spanForm, paramList_paramForms params, bodyOf?_bodyForm? body,
      visibilityOf?_visibilityForm?, memberList_memberForms rest]
  | .constant span names :: rest => by
    show Member.constant (spanOf (spanForm span)) (textsOf (textsForm names)) ::
      memberList (memberForms rest) = _
    rw [spanOf_spanForm, textsOf_textsForm, memberList_memberForms rest]
  | .traitUse span names :: rest => by
    show Member.traitUse (spanOf (spanForm span)) (textsOf (textsForm names)) ::
      memberList (memberForms rest) = _
    rw [spanOf_spanForm, textsOf_textsForm, memberList_memberForms rest]

theorem paramList_paramForms : ∀ ps : List Param, paramList (paramForms ps) = ps
  | [] => rfl
  | ⟨span, name, promoted, default⟩ :: rest => by
    show ⟨spanOf (spanForm span), name, visibilityOf? (visibilityForm? promoted),
      exprOf? (exprForm? default)⟩ :: paramList (paramForms rest) = _
    rw [spanOf_spanForm, visibilityOf?_visibilityForm?, exprOf?_exprForm? default,
      paramList_paramForms rest]

theorem exprOf_exprForm : ∀ e : Expr, exprOf (exprForm e) = e
  | ⟨span, kind, type⟩ => by
    show Expr.mk (spanOf (spanForm span)) (exprKindOf (exprKindForm kind)) (tyOf (tyForm type)) = _
    rw [spanOf_spanForm, exprKindOf_exprKindForm kind, tyOf_tyForm]

theorem exprList_exprForms : ∀ es : List Expr, exprList (exprForms es) = es
  | [] => rfl
  | e :: rest => by
    show exprOf (exprForm e) :: exprList (exprForms rest) = _
    rw [exprOf_exprForm e, exprList_exprForms rest]

theorem exprOf?_exprForm? : ∀ e : Option Expr, exprOf? (exprForm? e) = e
  | none => rfl
  | some ⟨span, kind, type⟩ => by
    show some (Expr.mk (spanOf (spanForm span)) (exprKindOf (exprKindForm kind))
      (tyOf (tyForm type))) = _
    rw [spanOf_spanForm, exprKindOf_exprKindForm kind, tyOf_tyForm]

theorem exprKindOf_exprKindForm : ∀ k : ExprKind, exprKindOf (exprKindForm k) = k
  | .var _ => rfl
  | .literal _ => rfl
  | .constFetch _ => rfl
  | .classConstFetch owner name => by
    show ExprKind.classConstFetch (classRefOf (classRefForm owner)) name = _
    rw [classRefOf_classRefForm owner]
  | .array items => by
    show ExprKind.array (arrayItemList (itemForms items)) = _
    rw [arrayItemList_itemForms items]
  | .new owner args => by
    show ExprKind.new (classRefOf (classRefForm owner)) (exprList (exprForms args)) = _
    rw [classRefOf_classRefForm owner, exprList_exprForms args]
  | .call callee args => by
    show ExprKind.call (calleeOf (calleeForm callee)) (exprList (exprForms args)) = _
    rw [calleeOf_calleeForm callee, exprList_exprForms args]
  | .methodCall receiver method args => by
    show ExprKind.methodCall (exprOf (exprForm receiver)) method (exprList (exprForms args)) = _
    rw [exprOf_exprForm receiver, exprList_exprForms args]
  | .staticCall owner method args => by
    show ExprKind.staticCall (classRefOf (classRefForm owner)) method
      (exprList (exprForms args)) = _
    rw [classRefOf_classRefForm owner, exprList_exprForms args]
  | .propertyFetch object property => by
    show ExprKind.propertyFetch (exprOf (exprForm object)) property = _
    rw [exprOf_exprForm object]
  | .staticPropertyFetch owner property => by
    show ExprKind.staticPropertyFetch (classRefOf (classRefForm owner)) property = _
    rw [classRefOf_classRefForm owner]
  | .arrayDimFetch array index => by
    show ExprKind.arrayDimFetch (exprOf (exprForm array)) (exprOf? (exprForm? index)) = _
    rw [exprOf_exprForm array, exprOf?_exprForm? index]
  | .assign target value => by
    show ExprKind.assign (exprOf (exprForm target)) (exprOf (exprForm value)) = _
    rw [exprOf_exprForm target, exprOf_exprForm value]
  | .binary op left right => by
    show ExprKind.binary (.ofWord op.word) (exprOf (exprForm left)) (exprOf (exprForm right)) = _
    rw [BinaryOp.ofWord_word, exprOf_exprForm left, exprOf_exprForm right]
  | .unary op operand => by
    show ExprKind.unary (.ofWord op.word) (exprOf (exprForm operand)) = _
    rw [UnaryOp.ofWord_word, exprOf_exprForm operand]
  | .ternary condition thenValue otherwise => by
    show ExprKind.ternary (exprOf (exprForm condition)) (exprOf? (exprForm? thenValue))
      (exprOf (exprForm otherwise)) = _
    rw [exprOf_exprForm condition, exprOf?_exprForm? thenValue, exprOf_exprForm otherwise]
  | .closure params uses body => by
    show ExprKind.closure (paramList (paramForms params)) (textsOf (textsForm uses))
      (stmtList (stmtForms body)) = _
    rw [paramList_paramForms params, textsOf_textsForm, stmtList_stmtForms body]
  | .arrowFunction params body => by
    show ExprKind.arrowFunction (paramList (paramForms params)) (exprOf (exprForm body)) = _
    rw [paramList_paramForms params, exprOf_exprForm body]
  | .errorSuppress operand => by
    show ExprKind.errorSuppress (exprOf (exprForm operand)) = _
    rw [exprOf_exprForm operand]
  | .throw value => by
    show ExprKind.throw (exprOf (exprForm value)) = _
    rw [exprOf_exprForm value]
  | .other label children => by
    show ExprKind.other label (exprList (exprForms children)) = _
    rw [exprList_exprForms children]

theorem calleeOf_calleeForm : ∀ c : Callee, calleeOf (calleeForm c) = c
  | .name _ => rfl
  | .expr e => by
    show Callee.expr (exprOf (exprForm e)) = _
    rw [exprOf_exprForm e]

theorem classRefOf_classRefForm : ∀ r : ClassRef, classRefOf (classRefForm r) = r
  | .name _ => rfl
  | .expr e => by
    show ClassRef.expr (exprOf (exprForm e)) = _
    rw [exprOf_exprForm e]
  | .anonymous ⟨span, name, members⟩ => by
    show ClassRef.anonymous ⟨spanOf (spanForm span), textOf? (textForm? name),
      memberList (memberForms members)⟩ = _
    rw [spanOf_spanForm, textOf?_textForm?, memberList_memberForms members]

theorem arrayItemList_itemForms : ∀ items : List ArrayItem, arrayItemList (itemForms items) = items
  | [] => rfl
  | ⟨key, value⟩ :: rest => by
    show ⟨exprOf? (exprForm? key), exprOf (exprForm value)⟩ :: arrayItemList (itemForms rest) = _
    rw [exprOf?_exprForm? key, exprOf_exprForm value, arrayItemList_itemForms rest]

end

/-- The form of a source file describes the file. -/
theorem fileOf_fileForm (f : SourceFile) : fileOf (fileForm f) = f := by
  show SourceFile.mk f.path (textOf? (textForm? f.text)) (stmtList (stmtForms f.stmts)) = _
  rw [textOf?_textForm?, stmtList_stmtForms]

/-! ## Dumps -/

/-- A source file without doubles is read back from its value and from its text, be it compact or
over several lines, with all fields that were left out or written as `null`.  The numbers of the
file have at most 64 bits, and its value has at most as many arrays and objects inside each other as
a reader takes in. -/
theorem decodeDump_renderAt_encodeFile (f : SourceFile) (pretty : Bool)
    (hfloat : ∀ x ∈ f.leaves, ¬ x.isFloat) (hrange : ∀ x ∈ f.leaves, x.inRange)
    (hdepth : (encodeFile f).depth ≤ depthLimit) :
    decodeFile (encodeFile f) = .ok f ∧
      decodeDump (Json.renderAt pretty 0 (encodeFile f)) = .ok f := by
  have hexact : (Part.file f).Exact := by
    intro p hp x hx
    have hleaf : x ∈ f.leaves := List.mem_flatMap.mpr ⟨p, hp, hx⟩
    rw [Leaf.isExact, Bool.eq_false_iff.mpr (hfloat x hleaf), hrange x hleaf]
    rfl
  have hfits : Fits (.entity .sourceFile) (fileForm f) := Part.fitsForm_of_exact hexact
  have hroom : (Mode.live 0).Room (encodeFile f).depth := by
    show 0 + _ ≤ depthLimit
    omega
  have hread : readLive .sourceFile (encodeFile f) = .ok (fileForm f) :=
    hfits.read_write (.live 0) false hroom
  have hparse : Json.parse (Json.renderAt pretty 0 (encodeFile f)) = ⟨encodeFile f, false⟩ :=
    Json.parse_renderAt pretty hfits.exact_write
  constructor
  · rw [decodeFile, hread]
    exact congrArg Except.ok (fileOf_fileForm f)
  · rw [decodeDump, readText, hparse, hread]
    exact congrArg Except.ok (fileOf_fileForm f)

/-- A class with a static property, a comment and fields that are left out. -/
def limitsFile : SourceFile :=
  ⟨"src/Limits.php", none,
    [⟨⟨1, 3⟩, .classDecl ⟨⟨1, 3⟩, none,
      [.property ⟨⟨2, 2⟩, ["low"], .priv, true, [⟨⟨2, 2⟩, .literal (.int (-5)), .unknown⟩]⟩]⟩,
      ["// bounds"]⟩]⟩

theorem leaves_limitsFile :
    limitsFile.leaves =
      [.number 1, .number 3, .number 1, .number 3, .number 2, .number 2, .number 2, .number 2,
        .scalar (.int (-5))] := by
  rw [SourceFile.leaves]
  -- one part inside the other, down to the literal
  iterate 7 rw [Walk.preorder_of_children_eq_singleton rfl]
  rw [Walk.preorder_of_children_eq_nil rfl]
  rfl

theorem decodeDump_limitsFile :
    (∀ x ∈ limitsFile.leaves, ¬ x.isFloat) ∧ (∀ x ∈ limitsFile.leaves, x.inRange) ∧
      (encodeFile limitsFile).depth ≤ depthLimit ∧
      decodeDump (Json.renderAt true 0 (encodeFile limitsFile)) = .ok limitsFile := by
  have hfloat : ∀ x ∈ limitsFile.leaves, ¬ x.isFloat := by
    rw [leaves_limitsFile]
    decide
  have hrange : ∀ x ∈ limitsFile.leaves, x.inRange := by
    rw [leaves_limitsFile]
    decide
  have hdepth : (encodeFile limitsFile).depth ≤ depthLimit := by decide
  exact ⟨hfloat, hrange, hdepth,
    (decodeDump_renderAt_encodeFile limitsFile true hfloat hrange hdepth).2⟩

end Format
end SafetyLint
