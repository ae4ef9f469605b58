import SafetyLint.Proofs.InformationFlow
import SafetyLint.Proofs.Parts
import SafetyLint.Tree.Build

/-!
# Qualifiers do not matter

A function may be called by a name with qualifiers in front.  `Qualifiers` says which qualifier to
put in front of which called name of a tree, if any, and `SourceFile.qualify` does so.  The rules go
by short names and show short names, with one exception: the rule about returned values shows a
called name as it is written.

What stands in front of a name does not change what follows the last separators
(`shortName_qualify`).  So a file and the file with qualifiers become one when all qualifiers are
taken away (`withoutQualifiers_qualify`), and the walks through the two are compared as walks
through files that a revision makes equal.  The rule about returned values is compared up to the
wording of what it says.
-/

namespace SafetyLint

open SafetyLint.Tree Config Rules

/-! ## Short names -/

namespace Text

/-- What follows the last place where `sep` occurs, if it occurs. -/
def afterLast? (sep : List Char) : List Char → Option (List Char)
  | [] => none
  | c :: rest =>
    (afterLast? sep rest).or
      (if sep.isPrefixOf (c :: rest) then some ((c :: rest).drop sep.length) else none)

theorem afterLast_eq (sep cs : List Char) : afterLast sep cs = (afterLast? sep cs).getD cs := by
  have hgo : ∀ best, afterLast.go sep best cs = (afterLast? sep cs).getD best := by
    induction cs with
    | nil => exact fun _ => rfl
    | cons c rest ih =>
      intro best
      rw [afterLast.go, afterLast?]
      split <;> rw [ih] <;> cases afterLast? sep rest <;> rfl
  exact hgo cs

theorem afterLast?_append_eq_none {sep xs ys : List Char} (h : afterLast? sep (xs ++ ys) = none) :
    afterLast? sep ys = none := by
  induction xs with
  | nil => exact h
  | cons x rest ih =>
    rw [List.cons_append, afterLast?, Option.or_eq_none_iff] at h
    exact ih h.1

/-- What follows the last place is the end of the text, and the separator does not occur in it. -/
theorem of_afterLast?_eq_some {sep cs tail : List Char} (hsep : sep ≠ [])
    (h : afterLast? sep cs = some tail) : tail <:+ cs ∧ afterLast? sep tail = none := by
  induction cs with
  | nil => cases h
  | cons c rest ih =>
    rw [afterLast?] at h
    cases hrest : afterLast? sep rest with
    | some found =>
      rw [hrest] at h
      obtain ⟨hsuffix, hnone⟩ := ih (hrest.trans h)
      exact ⟨hsuffix.trans (List.suffix_cons ..), hnone⟩
    | none =>
      rw [hrest, Option.none_or] at h
      split at h
      · obtain ⟨n, hn⟩ : ∃ n, sep.length = n + 1 :=
          Nat.exists_eq_succ_of_ne_zero (by simpa using hsep)
        rw [hn, List.drop_succ_cons, Option.some_inj] at h
        subst h
        refine ⟨(List.drop_suffix n rest).trans (List.suffix_cons ..), ?_⟩
        rw [← List.take_append_drop n rest] at hrest
        exact afterLast?_append_eq_none hrest
      · cases h

theorem afterLast_suffix (sep : List Char) (hsep : sep ≠ []) (cs : List Char) :
    afterLast sep cs <:+ cs ∧ afterLast? sep (afterLast sep cs) = none := by
  rw [afterLast_eq]
  cases h : afterLast? sep cs with
  | none => exact ⟨List.suffix_refl cs, h⟩
  | some tail => exact of_afterLast?_eq_some hsep h

/-- What follows a backslash decides what follows the last one. -/
theorem afterLast_append_backslash (xs ys : List Char) :
    afterLast ['\\'] (xs ++ '\\' :: ys) = afterLast ['\\'] ys := by
  have hsome : afterLast? ['\\'] (xs ++ '\\' :: ys) = some (afterLast ['\\'] ys) := by
    induction xs with
    | nil =>
      rw [List.nil_append, afterLast?, afterLast_eq]
      cases afterLast? ['\\'] ys <;> rfl
    | cons x rest ih =>
      rw [List.cons_append, afterLast?, ih]
      rfl
  rw [afterLast_eq, hsome]
  rfl

/-- A pair of colons does not reach over a backslash. -/
theorem afterLast?_append_backslash (xs ys : List Char) :
    afterLast? [':', ':'] (xs ++ '\\' :: ys) =
      (afterLast? [':', ':'] ys).or
        ((afterLast? [':', ':'] xs).map fun tail => tail ++ '\\' :: ys) := by
  induction xs with
  | nil =>
    rw [List.nil_append, afterLast?]
    rfl
  | cons x rest ih =>
    have hhere : (if [':', ':'].isPrefixOf (x :: (rest ++ '\\' :: ys)) then
          some ((x :: (rest ++ '\\' :: ys)).drop [':', ':'].length) else none) =
        (if [':', ':'].isPrefixOf (x :: rest) then
          some ((x :: rest).drop [':', ':'].length) else none).map fun tail =>
            tail ++ '\\' :: ys := by
      cases rest with
      | nil => simp [List.isPrefixOf]
      | cons y rest => by_cases h : ':' = x ∧ ':' = y <;> simp [List.isPrefixOf, h]
    rw [List.cons_append, afterLast?, afterLast?, ih, hhere, Option.or_assoc, Option.map_or]

/-- A qualifier in front of a name does not change its short name, whatever the qualifier is and
whatever qualifiers the name has. -/
theorem shortName_qualify (qualifier name : String) :
    shortName (qualifier ++ "\\" ++ name) = shortName name := by
  have htext : (qualifier ++ "\\" ++ name).toList = qualifier.toList ++ '\\' :: name.toList := by
    rw [String.toList_append, String.toList_append, List.append_assoc]
    rfl
  rw [shortName, shortName, htext, afterLast_eq [':', ':'], afterLast?_append_backslash,
    afterLast_eq [':', ':'] name.toList]
  cases afterLast? [':', ':'] name.toList with
  | some tail => rfl
  | none =>
    cases afterLast? [':', ':'] qualifier.toList with
    | some tail => exact congrArg String.ofList (afterLast_append_backslash tail name.toList)
    | none => exact congrArg String.ofList (afterLast_append_backslash _ name.toList)

/-- A short name is its own short name. -/
theorem shortName_shortName (name : String) : shortName (shortName name) = shortName name := by
  obtain ⟨-, hcolons⟩ := afterLast_suffix [':', ':'] (by simp) name.toList
  obtain ⟨hsuffix, hbackslash⟩ :=
    afterLast_suffix ['\\'] (by simp) (afterLast [':', ':'] name.toList)
  obtain ⟨front, hfront⟩ := hsuffix
  rw [← hfront] at hcolons
  have hnone := afterLast?_append_eq_none hcolons
  rw [shortName, shortName, String.toList_ofList, afterLast_eq [':', ':'] (afterLast _ _), hnone,
    Option.getD_none, afterLast_eq ['\\'] (afterLast ['\\'] _), hbackslash, Option.getD_none]

end Text

/-! ## Trees with qualifiers -/

namespace Tree

/-- Qualifiers for the names of called functions, each by the field path that leads to the name. -/
def Qualifiers := FieldPath → Option String

namespace Qualifiers

/-- The qualifiers for a part inside, at the end of a step. -/
def into (q : Qualifiers) (field index : Nat) : Qualifiers := fun π => q (⟨field, index⟩ :: π)

mutual

def stmt (q : Qualifiers) : Stmt → Stmt
  | ⟨span, kind, comments⟩ => ⟨span, stmtKind (q.into 1 0) kind, comments⟩

def stmts (q : Qualifiers) (field index : Nat) : List Stmt → List Stmt
  | [] => []
  | s :: rest => stmt (q.into field index) s :: stmts q field (index + 1) rest

def body? (q : Qualifiers) (field : Nat) : Option (List Stmt) → Option (List Stmt)
  | none => none
  | some body => some (stmts q field 0 body)

def stmtKind (q : Qualifiers) : StmtKind → StmtKind
  | .namespaceBlock name body => .namespaceBlock name (stmts q 1 0 body)
  | .declareBlock directives => .declareBlock directives
  | .useNames names => .useNames names
  | .classDecl decl => .classDecl (classDecl (q.into 0 0) decl)
  | .functionDecl decl => .functionDecl (function (q.into 0 0) decl)
  | .expression e => .expression (expr (q.into 0 0) e)
  | .echo es => .echo (exprs q 0 0 es)
  | .returnValue e => .returnValue (expr? q 0 e)
  | .ifElse condition thenBody branches otherwise =>
    .ifElse (expr (q.into 0 0) condition) (stmts q 1 0 thenBody) (elseIfs q 2 0 branches)
      (body? q 3 otherwise)
  | .forLoop init condition step body =>
    .forLoop (exprs q 0 0 init) (exprs q 1 0 condition) (exprs q 2 0 step) (stmts q 3 0 body)
  | .whileLoop condition body => .whileLoop (expr (q.into 0 0) condition) (stmts q 1 0 body)
  | .doWhile condition body => .doWhile (expr (q.into 0 0) condition) (stmts q 1 0 body)
  | .foreach iterable key value body =>
    .foreach (expr (q.into 0 0) iterable) (expr? q 1 key) (expr (q.into 2 0) value)
      (stmts q 3 0 body)
  | .switch subject branches => .switch (expr (q.into 0 0) subject) (cases q 1 0 branches)
  | .tryCatch body handlers cleanup =>
    .tryCatch (stmts q 0 0 body) (catches q 1 0 handlers) (body? q 2 cleanup)
  | .breakLoop => .breakLoop
  | .continueLoop => .continueLoop
  | .goto label => .goto label
  | .label name => .label name
  | .global names => .global names
  | .block body => .block (stmts q 0 0 body)
  | .nop => .nop

def elseIfs (q : Qualifiers) (field index : Nat) : List ElseIf → List ElseIf
  | [] => []
  | b :: rest => elseIf (q.into field index) b :: elseIfs q field (index + 1) rest

def elseIf (q : Qualifiers) : ElseIf → ElseIf
  | ⟨span, condition, body⟩ => ⟨span, expr (q.into 1 0) condition, stmts q 2 0 body⟩

def cases (q : Qualifiers) (field index : Nat) : List Case → List Case
  | [] => []
  | c :: rest => case (q.into field index) c :: cases q field (index + 1) rest

def case (q : Qualifiers) : Case → Case
  | ⟨test, body⟩ => ⟨expr? q 0 test, stmts q 1 0 body⟩

def catches (q : Qualifiers) (field index : Nat) : List Catch → List Catch
  | [] => []
  | c :: rest => handler (q.into field index) c :: catches q field (index + 1) rest

def handler (q : Qualifiers) : Catch → Catch
  | ⟨types, var, body⟩ => ⟨types, var, stmts q 2 0 body⟩

def classDecl (q : Qualifiers) : ClassDecl → ClassDecl
  | ⟨span, name, ms⟩ => ⟨span, name, members q 2 0 ms⟩

def members (q : Qualifiers) (field index : Nat) : List Member → List Member
  | [] => []
  | m :: rest => member (q.into field index) m :: members q field (index + 1) rest

def member (q : Qualifiers) : Member → Member
  | .property decl => .property (property (q.into 0 0) decl)
  | .method decl => .method (function (q.into 0 0) decl)
  | .constant span names => .constant span names
  | .traitUse span names => .traitUse span names

def property (q : Qualifiers) : PropertyDecl → PropertyDecl
  | ⟨span, names, visibility, isStatic, defaults⟩ =>
    ⟨span, names, visibility, isStatic, exprs q 4 0 defaults⟩

def function (q : Qualifiers) : FunctionDecl → FunctionDecl
  | ⟨span, name, ps, body, isAbstract, isStatic, visibility⟩ =>
    ⟨span, name, params q 2 0 ps, body? q 3 body, isAbstract, isStatic, visibility⟩

def params (q : Qualifiers) (field index : Nat) : List Param → List Param
  | [] => []
  | p :: rest => param (q.into field index) p :: params q field (index + 1) rest

def param (q : Qualifiers) : Param → Param
  | ⟨span, name, promoted, default⟩ => ⟨span, name, promoted, expr? q 3 default⟩

def expr (q : Qualifiers) : Expr → Expr
  | ⟨span, kind, type⟩ => ⟨span, exprKind (q.into 1 0) kind, type⟩

def exprs (q : Qualifiers) (field index : Nat) : List Expr → List Expr
  | [] => []
  | e :: rest => expr (q.into field index) e :: exprs q field (index + 1) rest

def expr? (q : Qualifiers) (field : Nat) : Option Expr → Option Expr
  | none => none
  | some e => some (expr (q.into field 0) e)

def exprKind (q : Qualifiers) : ExprKind → ExprKind
  | .var name => .var name
  | .literal value => .literal value
  | .constFetch name => .constFetch name
  | .classConstFetch owner name => .classConstFetch (classRef (q.into 0 0) owner) name
  | .array elements => .array (items q 0 0 elements)
  | .new owner args => .new (classRef (q.into 0 0) owner) (exprs q 1 0 args)
  | .call target args => .call (callee (q.into 0 0) target) (exprs q 1 0 args)
  | .methodCall receiver method args =>
    .methodCall (expr (q.into 0 0) receiver) method (exprs q 2 0 args)
  | .staticCall owner method args =>
    .staticCall (classRef (q.into 0 0) owner) method (exprs q 2 0 args)
  | .propertyFetch object property => .propertyFetch (expr (q.into 0 0) object) property
  | .staticPropertyFetch owner property =>
    .staticPropertyFetch (classRef (q.into 0 0) owner) property
  | .arrayDimFetch array index => .arrayDimFetch (expr (q.into 0 0) array) (expr? q 1 index)
  | .assign target value => .assign (expr (q.into 0 0) target) (expr (q.into 1 0) value)
  | .binary op left right => .binary op (expr (q.into 1 0) left) (expr (q.into 2 0) right)
  | .unary op operand => .unary op (expr (q.into 1 0) operand)
  | .ternary condition thenValue otherwise =>
    .ternary (expr (q.into 0 0) condition) (expr? q 1 thenValue) (expr (q.into 2 0) otherwise)
  | .closure ps uses body => .closure (params q 0 0 ps) uses (stmts q 2 0 body)
  | .arrowFunction ps body => .arrowFunction (params q 0 0 ps) (expr (q.into 1 0) body)
  | .errorSuppress operand => .errorSuppress (expr (q.into 0 0) operand)
  | .throw value => .throw (expr (q.into 0 0) value)
  | .other label children => .other label (exprs q 1 0 children)

/-- Here the qualifiers are put in front. -/
def callee (q : Qualifiers) : Callee → Callee
  | .name name =>
    match q [] with
    | some qualifier => .name (qualifier ++ "\\" ++ name)
    | none => .name name
  | .expr e => .expr (expr (q.into 0 0) e)

def classRef (q : Qualifiers) : ClassRef → ClassRef
  | .name name => .name name
  | .expr e => .expr (expr (q.into 0 0) e)
  | .anonymous decl => .anonymous (classDecl (q.into 0 0) decl)

def items (q : Qualifiers) (field index : Nat) : List ArrayItem → List ArrayItem
  | [] => []
  | i :: rest => item (q.into field index) i :: items q field (index + 1) rest

def item (q : Qualifiers) : ArrayItem → ArrayItem
  | ⟨key, value⟩ => ⟨expr? q 0 key, expr (q.into 1 0) value⟩

end

end Qualifiers

/-- The file with qualifiers in front of called names. -/
def SourceFile.qualify (f : SourceFile) (q : Qualifiers) : SourceFile :=
  ⟨f.path, f.text, q.stmts 2 0 f.stmts⟩

/-- Takes the qualifiers of called names away. -/
def Revision.withoutQualifiers : Revision :=
  ⟨id, id, id, Text.shortName, Text.shortName_shortName⟩

namespace Revision

mutual

theorem withoutQualifiers_stmt :
    ∀ (q : Qualifiers) (s : Stmt), withoutQualifiers.stmt (q.stmt s) = withoutQualifiers.stmt s
  | _, ⟨span, kind, comments⟩ =>
    congrArg (Stmt.mk span · comments) (withoutQualifiers_stmtKind _ kind)

theorem withoutQualifiers_stmts : ∀ (q : Qualifiers) (field index : Nat) (body : List Stmt),
    withoutQualifiers.stmts (q.stmts field index body) = withoutQualifiers.stmts body
  | _, _, _, [] => rfl
  | q, field, index, s :: rest =>
    congrArg₂ List.cons (withoutQualifiers_stmt _ s)
      (withoutQualifiers_stmts q field (index + 1) rest)

theorem withoutQualifiers_body? : ∀ (q : Qualifiers) (field : Nat) (body : Option (List Stmt)),
    withoutQualifiers.body? (q.body? field body) = withoutQualifiers.body? body
  | _, _, none => rfl
  | q, field, some body => congrArg some (withoutQualifiers_stmts q field 0 body)

theorem withoutQualifiers_stmtKind : ∀ (q : Qualifiers) (k : StmtKind),
    withoutQualifiers.stmtKind (q.stmtKind k) = withoutQualifiers.stmtKind k
  | _, .namespaceBlock name body =>
    congrArg (StmtKind.namespaceBlock name) (withoutQualifiers_stmts _ _ _ body)
  | _, .declareBlock _ => rfl
  | _, .useNames _ => rfl
  | _, .classDecl decl => congrArg StmtKind.classDecl (withoutQualifiers_classDecl _ decl)
  | _, .functionDecl decl => congrArg StmtKind.functionDecl (withoutQualifiers_function _ decl)
  | _, .expression e => congrArg StmtKind.expression (withoutQualifiers_expr _ e)
  | _, .echo es => congrArg StmtKind.echo (withoutQualifiers_exprs _ _ _ es)
  | _, .returnValue e => congrArg StmtKind.returnValue (withoutQualifiers_expr? _ _ e)
  | _, .ifElse condition thenBody branches otherwise => by
    show StmtKind.ifElse _ _ _ _ = StmtKind.ifElse _ _ _ _
    rw [withoutQualifiers_expr _ condition, withoutQualifiers_stmts _ _ _ thenBody,
      withoutQualifiers_elseIfs _ _ _ branches, withoutQualifiers_body? _ _ otherwise]
  | _, .forLoop init condition step body => by
    show StmtKind.forLoop _ _ _ _ = StmtKind.forLoop _ _ _ _
    rw [withoutQualifiers_exprs _ _ _ init, withoutQualifiers_exprs _ _ _ condition,
      withoutQualifiers_exprs _ _ _ step, withoutQualifiers_stmts _ _ _ body]
  | _, .whileLoop condition body =>
    congrArg₂ StmtKind.whileLoop (withoutQualifiers_expr _ condition)
      (withoutQualifiers_stmts _ _ _ body)
  | _, .doWhile condition body =>
    congrArg₂ StmtKind.doWhile (withoutQualifiers_expr _ condition)
      (withoutQualifiers_stmts _ _ _ body)
  | _, .foreach iterable key value body => by
    show StmtKind.foreach _ _ _ _ = StmtKind.foreach _ _ _ _
    rw [withoutQualifiers_expr _ iterable, withoutQualifiers_expr? _ _ key,
      withoutQualifiers_expr _ value, withoutQualifiers_stmts _ _ _ body]
  | _, .switch subject branches =>
    congrArg₂ StmtKind.switch (withoutQualifiers_expr _ subject)
      (withoutQualifiers_cases _ _ _ branches)
  | _, .tryCatch body handlers cleanup => by
    show StmtKind.tryCatch _ _ _ = StmtKind.tryCatch _ _ _
    rw [withoutQualifiers_stmts _ _ _ body, withoutQualifiers_catches _ _ _ handlers,
      withoutQualifiers_body? _ _ cleanup]
  | _, .breakLoop => rfl
  | _, .continueLoop => rfl
  | _, .goto _ => rfl
  | _, .label _ => rfl
  | _, .global _ => rfl
  | _, .block body => congrArg StmtKind.block (withoutQualifiers_stmts _ _ _ body)
  | _, .nop => rfl

theorem withoutQualifiers_elseIfs : ∀ (q : Qualifiers) (field index : Nat) (bs : List ElseIf),
    withoutQualifiers.elseIfs (q.elseIfs field index bs) = withoutQualifiers.elseIfs bs
  | _, _, _, [] => rfl
  | q, field, index, b :: rest =>
    congrArg₂ List.cons (withoutQualifiers_elseIf _ b)
      (withoutQualifiers_elseIfs q field (index + 1) rest)

theorem withoutQualifiers_elseIf : ∀ (q : Qualifiers) (b : ElseIf),
    withoutQualifiers.elseIf (q.elseIf b) = withoutQualifiers.elseIf b
  | _, ⟨span, condition, body⟩ =>
    congrArg₂ (ElseIf.mk span) (withoutQualifiers_expr _ condition)
      (withoutQualifiers_stmts _ _ _ body)

theorem withoutQualifiers_cases : ∀ (q : Qualifiers) (field index : Nat) (cs : List Case),
    withoutQualifiers.cases (q.cases field index cs) = withoutQualifiers.cases cs
  | _, _, _, [] => rfl
  | q, field, index, c :: rest =>
    congrArg₂ List.cons (withoutQualifiers_case _ c)
      (withoutQualifiers_cases q field (index + 1) rest)

theorem withoutQualifiers_case :
    ∀ (q : Qualifiers) (c : Case), withoutQualifiers.case (q.case c) = withoutQualifiers.case c
  | _, ⟨test, body⟩ =>
    congrArg₂ Case.mk (withoutQualifiers_expr? _ _ test) (withoutQualifiers_stmts _ _ _ body)

theorem withoutQualifiers_catches : ∀ (q : Qualifiers) (field index : Nat) (cs : List Catch),
    withoutQualifiers.catches (q.catches field index cs) = withoutQualifiers.catches cs
  | _, _, _, [] => rfl
  | q, field, index, c :: rest =>
    congrArg₂ List.cons (withoutQualifiers_handler _ c)
      (withoutQualifiers_catches q field (index + 1) rest)

theorem withoutQualifiers_handler : ∀ (q : Qualifiers) (c : Catch),
    withoutQualifiers.handler (q.handler c) = withoutQualifiers.handler c
  | _, ⟨types, var, body⟩ => congrArg (Catch.mk types var) (withoutQualifiers_stmts _ _ _ body)

theorem withoutQualifiers_classDecl : ∀ (q : Qualifiers) (d : ClassDecl),
    withoutQualifiers.classDecl (q.classDecl d) = withoutQualifiers.classDecl d
  | _, ⟨span, name, ms⟩ => congrArg (ClassDecl.mk span name) (withoutQualifiers_members _ _ _ ms)

theorem withoutQualifiers_members : ∀ (q : Qualifiers) (field index : Nat) (ms : List Member),
    withoutQualifiers.members (q.members field index ms) = withoutQualifiers.members ms
  | _, _, _, [] => rfl
  | q, field, index, m :: rest =>
    congrArg₂ List.cons (withoutQualifiers_member _ m)
      (withoutQualifiers_members q field (index + 1) rest)

theorem withoutQualifiers_member : ∀ (q : Qualifiers) (m : Member),
    withoutQualifiers.member (q.member m) = withoutQualifiers.member m
  | _, .property decl => congrArg Member.property (withoutQualifiers_property _ decl)
  | _, .method decl => congrArg Member.method (withoutQualifiers_function _ decl)
  | _, .constant _ _ => rfl
  | _, .traitUse _ _ => rfl

theorem withoutQualifiers_property : ∀ (q : Qualifiers) (d : PropertyDecl),
    withoutQualifiers.property (q.property d) = withoutQualifiers.property d
  | _, ⟨span, names, visibility, isStatic, defaults⟩ =>
    congrArg (PropertyDecl.mk span names visibility isStatic)
      (withoutQualifiers_exprs _ _ _ defaults)

theorem withoutQualifiers_function : ∀ (q : Qualifiers) (d : FunctionDecl),
    withoutQualifiers.function (q.function d) = withoutQualifiers.function d
  | _, ⟨span, name, ps, body, isAbstract, isStatic, visibility⟩ =>
    congrArg₂ (FunctionDecl.mk span name · · isAbstract isStatic visibility)
      (withoutQualifiers_params _ _ _ ps)
      (withoutQualifiers_body? _ _ body)

theorem withoutQualifiers_params : ∀ (q : Qualifiers) (field index : Nat) (ps : List Param),
    withoutQualifiers.params (q.params field index ps) = withoutQualifiers.params ps
  | _, _, _, [] => rfl
  | q, field, index, p :: rest =>
    congrArg₂ List.cons (withoutQualifiers_param _ p)
      (withoutQualifiers_params q field (index + 1) rest)

theorem withoutQualifiers_param : ∀ (q : Qualifiers) (p : Param),
    withoutQualifiers.param (q.param p) = withoutQualifiers.param p
  | _, ⟨span, name, promoted, default⟩ =>
    congrArg (Param.mk span name promoted) (withoutQualifiers_expr? _ _ default)

theorem withoutQualifiers_expr :
    ∀ (q : Qualifiers) (e : Expr), withoutQualifiers.expr (q.expr e) = withoutQualifiers.expr e
  | _, ⟨span, kind, type⟩ => congrArg (Expr.mk span · type) (withoutQualifiers_exprKind _ kind)

theorem withoutQualifiers_exprs : ∀ (q : Qualifiers) (field index : Nat) (es : List Expr),
    withoutQualifiers.exprs (q.exprs field index es) = withoutQualifiers.exprs es
  | _, _, _, [] => rfl
  | q, field, index, e :: rest =>
    congrArg₂ List.cons (withoutQualifiers_expr _ e)
      (withoutQualifiers_exprs q field (index + 1) rest)

theorem withoutQualifiers_expr? : ∀ (q : Qualifiers) (field : Nat) (e : Option Expr),
    withoutQualifiers.expr? (q.expr? field e) = withoutQualifiers.expr? e
  | _, _, none => rfl
  | _, _, some e => congrArg some (withoutQualifiers_expr _ e)

theorem withoutQualifiers_exprKind : ∀ (q : Qualifiers) (k : ExprKind),
    withoutQualifiers.exprKind (q.exprKind k) = withoutQualifiers.exprKind k
  | _, .var _ => rfl
  | _, .literal _ => rfl
  | _, .constFetch _ => rfl
  | _, .classConstFetch owner name =>
    congrArg (ExprKind.classConstFetch · name) (withoutQualifiers_classRef _ owner)
  | _, .array elements => congrArg ExprKind.array (withoutQualifiers_items _ _ _ elements)
  | _, .new owner args =>
    congrArg₂ ExprKind.new (withoutQualifiers_classRef _ owner) (withoutQualifiers_exprs _ _ _ args)
  | _, .call target args =>
    congrArg₂ ExprKind.call (withoutQualifiers_callee _ target) (withoutQualifiers_exprs _ _ _ args)
  | _, .methodCall receiver method args =>
    congrArg₂ (ExprKind.methodCall · method ·) (withoutQualifiers_expr _ receiver)
      (withoutQualifiers_exprs _ _ _ args)
  | _, .staticCall owner method args =>
    congrArg₂ (ExprKind.staticCall · method ·) (withoutQualifiers_classRef _ owner)
      (withoutQualifiers_exprs _ _ _ args)
  | _, .propertyFetch object property =>
    congrArg (ExprKind.propertyFetch · property) (withoutQualifiers_expr _ object)
  | _, .staticPropertyFetch owner property =>
    congrArg (ExprKind.staticPropertyFetch · property) (withoutQualifiers_classRef _ owner)
  | _, .arrayDimFetch array index =>
    congrArg₂ ExprKind.arrayDimFetch (withoutQualifiers_expr _ array)
      (withoutQualifiers_expr? _ _ index)
  | _, .assign target value =>
    congrArg₂ ExprKind.assign (withoutQualifiers_expr _ target) (withoutQualifiers_expr _ value)
  | _, .binary op left right =>
    congrArg₂ (ExprKind.binary op) (withoutQualifiers_expr _ left) (withoutQualifiers_expr _ right)
  | _, .unary op operand => congrArg (ExprKind.unary op) (withoutQualifiers_expr _ operand)
  | _, .ternary condition thenValue otherwise => by
    show ExprKind.ternary _ _ _ = ExprKind.ternary _ _ _
    rw [withoutQualifiers_expr _ condition, withoutQualifiers_expr? _ _ thenValue,
      withoutQualifiers_expr _ otherwise]
  | _, .closure ps uses body =>
    congrArg₂ (ExprKind.closure · uses ·) (withoutQualifiers_params _ _ _ ps)
      (withoutQualifiers_stmts _ _ _ body)
  | _, .arrowFunction ps body =>
    congrArg₂ ExprKind.arrowFunction (withoutQualifiers_params _ _ _ ps)
      (withoutQualifiers_expr _ body)
  | _, .errorSuppress operand => congrArg ExprKind.errorSuppress (withoutQualifiers_expr _ operand)
  | _, .throw value => congrArg ExprKind.throw (withoutQualifiers_expr _ value)
  | _, .other label children =>
    congrArg (ExprKind.other label) (withoutQualifiers_exprs _ _ _ children)

theorem withoutQualifiers_callee : ∀ (q : Qualifiers) (c : Callee),
    withoutQualifiers.callee (q.callee c) = withoutQualifiers.callee c
  | q, .name name => by
    rw [Qualifiers.callee]
    cases q [] with
    | none => rfl
    | some qualifier => exact congrArg Callee.name (Text.shortName_qualify qualifier name)
  | _, .expr e => by
    rw [Qualifiers.callee, callee, callee, withoutQualifiers_expr _ e]

theorem withoutQualifiers_classRef : ∀ (q : Qualifiers) (c : ClassRef),
    withoutQualifiers.classRef (q.classRef c) = withoutQualifiers.classRef c
  | _, .name _ => rfl
  | _, .expr e => by
    rw [Qualifiers.classRef, classRef, classRef, withoutQualifiers_expr _ e]
  | _, .anonymous decl => by
    rw [Qualifiers.classRef, classRef, classRef, withoutQualifiers_classDecl _ decl]

theorem withoutQualifiers_items : ∀ (q : Qualifiers) (field index : Nat) (is : List ArrayItem),
    withoutQualifiers.items (q.items field index is) = withoutQualifiers.items is
  | _, _, _, [] => rfl
  | q, field, index, i :: rest => by
    rw [Qualifiers.items, items, items, withoutQualifiers_item _ i,
      withoutQualifiers_items q field (index + 1) rest]

theorem withoutQualifiers_item : ∀ (q : Qualifiers) (i : ArrayItem),
    withoutQualifiers.item (q.item i) = withoutQualifiers.item i
  | _, ⟨key, value⟩ => by
    rw [Qualifiers.item, item, item, withoutQualifiers_expr? _ _ key,
      withoutQualifiers_expr _ value]

end

theorem withoutQualifiers_qualify (f : SourceFile) (q : Qualifiers) :
    withoutQualifiers.file (f.qualify q) = withoutQualifiers.file f :=
  congrArg (SourceFile.mk f.path f.text) (withoutQualifiers_stmts q 2 0 f.stmts)

/-- The outer call gets an empty qualifier, the inner one a longer one. -/
example :
    (⟨"a.php", none, [.ofExpr (.call "f" [.call "g" []])]⟩ : SourceFile).qualify
        (fun π => if π.length = 5 then some "" else some "A\\B::C") =
      ⟨"a.php", none, [.ofExpr (.call "\\f" [.call "A\\B::C\\g" []])]⟩ := by
  rfl

end Revision

end Tree

/-! ## Findings -/

/-- The finding without the wording of the rule about returned values. -/
def Finding.muted (x : Finding) : Finding :=
  if x.code = RuleId.checkReturnValue.word then { x with message := "" } else x

/-- Findings that are equal but for the wording of the rule about returned values. -/
theorem Finding.of_muted_eq {x y : Finding} (h : x.muted = y.muted) :
    y = { x with message := y.message } ∧
      (x.code ≠ RuleId.checkReturnValue.word → y.message = x.message) := by
  obtain ⟨code, rule, severity, location, message, suggestion⟩ := x
  obtain ⟨code', rule', severity', location', message', suggestion'⟩ := y
  unfold muted at h
  split at h <;> split at h <;> simp_all

theorem Finding.mark_comp_muted : Finding.mark ∘ Finding.muted = Finding.mark := by
  funext x
  unfold muted mark
  rw [Function.comp_apply]
  split <;> rfl

/-- Sorting does not look at the wording. -/
theorem map_muted_sortFindings (fs : List Finding) :
    (sortFindings fs).map Finding.muted = sortFindings (fs.map Finding.muted) := by
  have hlocation : ∀ x : Finding, x.muted.location = x.location := by
    intro x
    unfold Finding.muted
    split <;> rfl
  refine List.map_mergeSort fun a _ b _ => ?_
  rw [hlocation, hlocation]

namespace Rules.ReturnValue

/-- The rule shows the name of a called function as it is written. -/
theorem describe_of_name {call : Expr} {name : String} {args : List Expr}
    (h : call.kind = .call (.name name) args) : describe call = "function " ++ name ++ "()" := by
  rw [describe, h]

/-- The finding is about a statement at the site that is a call, and describes that call. -/
def Describes (s : Site) (x : Finding) : Prop :=
  ∃ statement call, s.node = .stmt statement ∧ statement.kind = .expression call ∧
    x.message = "Return value of " ++ describe call
      ++ " is not used. Either use the return value or add a @ignoreReturnValue annotation."

theorem describes_of_mem_findings {settings : Settings} {s : Site} {c : Context} {x : Finding}
    (hx : x ∈ findings settings s c) : Describes s x := by
  unfold findings at hx
  split at hx
  case h_1 statement hnode =>
    split at hx
    case h_1 call hkind =>
      split at hx
      · exact ⟨statement, call, hnode, hkind, congrArg Finding.message (List.mem_singleton.mp hx)⟩
      · cases hx
    case h_2 => cases hx
  case h_2 => cases hx

/-- The rule reports the same statements without qualifiers. -/
theorem muted_findings_withoutQualifiers (settings : Settings) (s : Site) {c c' : Context}
    (hc : c'.finding = c.finding) :
    (findings settings (Revision.withoutQualifiers.site s) c').map Finding.muted =
      (findings settings s c).map Finding.muted := by
  obtain ⟨place, node⟩ := s
  cases node with
  | stmt s =>
    obtain ⟨span, kind, comments⟩ := s
    cases kind with
    | expression call =>
      show (if discards settings (Revision.withoutQualifiers.stmt ⟨span, _, comments⟩)
          (Revision.withoutQualifiers.expr call) then
        [c'.finding info span.firstLine _] else []).map Finding.muted =
        (if discards settings ⟨span, .expression call, comments⟩ call then
          [c.finding info span.firstLine _] else []).map Finding.muted
      rw [discards_revised rfl settings rfl, hc]
      split <;> rfl
    | _ => rfl
  | _ => rfl

theorem muted_findings_congr (settings : Settings) {s s' : Site}
    (hs : Revision.withoutQualifiers.site s = Revision.withoutQualifiers.site s') {c c' : Context}
    (hc : c.finding = c'.finding) :
    (findings settings s c).map Finding.muted = (findings settings s' c').map Finding.muted := by
  rw [← muted_findings_withoutQualifiers settings s (c := c) rfl, hs,
    muted_findings_withoutQualifiers settings s' hc]

end Rules.ReturnValue

/-! ## Walks -/

namespace Comparison

open Dispatcher

/-- Findings that are equal but for the wording of the rule about returned values, in contexts that
are equal but for qualifiers. -/
def withoutQualifiers : Comparison :=
  revisedBy .withoutQualifiers (List.map Finding.muted) fun _ _ => List.map_append ..

/-- Settling what was found does not look at the wording. -/
theorem muted_settle_congr (settings : Settings) (info : RuleInfo) {fs fs' : List Finding}
    (h : fs.map Finding.muted = fs'.map Finding.muted) (line line' : Nat) (c c' : Context) :
    (settle settings info line c (.ok fs)).map Finding.muted =
      (settle settings info line' c' (.ok fs')).map Finding.muted := by
  have hmuted : ∀ (fs : List Finding) line c,
      (settle settings info line c (.ok fs)).map Finding.muted =
        settle settings info 0 .empty (.ok (fs.map Finding.muted)) := by
    intro fs line c
    rw [settle_ok_eq_map, settle_ok_eq_map, List.map_map, List.map_map]
    refine List.map_congr_left fun x _ => ?_
    show Finding.muted { x with severity := (settings.severity? info.id).getD x.severity } =
      { x.muted with severity := (settings.severity? info.id).getD x.muted.severity }
    unfold Finding.muted
    split <;> rfl
  rw [hmuted, hmuted, h]

/-- All rules spare qualifiers but the rule about returned values. -/
theorem spares_withoutQualifiers (settings : Settings) {id : RuleId}
    (h : id ≠ .checkReturnValue) : Spares .withoutQualifiers settings id := by
  cases id with
  | checkReturnValue => exact absurd rfl h
  | functionLength => exact .inl rfl
  | fixedLoopBounds => rfl
  | noHeapAllocation => rfl
  | _ => trivial

theorem walks_withoutQualifiers (ids : List RuleId) (settings : Settings) :
    withoutQualifiers.Walks (dispatcher ids settings) (dispatcher ids settings)
      fun s s' => Revision.withoutQualifiers.site s = Revision.withoutQualifiers.site s' := by
  refine walks_revisedBy ids fun {s s'} hs id hspares => ?_
  obtain rfl : id = .checkReturnValue := by
    by_contra hne
    exact hspares (spares_withoutQualifiers settings hne)
  rintro c c' ⟨hfits, hc⟩
  have hfinding : c.finding = c'.finding := by
    rw [← Revision.finding_context .withoutQualifiers c, hc, Revision.finding_context]
  have hmuted := ReturnValue.muted_findings_congr settings hs hfinding
  exact ⟨muted_settle_congr settings ReturnValue.info hmuted s.node.line s'.node.line c c',
    hfits, hc⟩

end Comparison

namespace Analyzer

open Dispatcher

variable {ids : List RuleId} {settings : Settings} {root : Option String}

/-- Runs over files that are equal but for qualifiers. -/
theorem muted_analyze_of_withoutQualifiers {files files' : List SourceFile}
    (h : files.map Revision.withoutQualifiers.file = files'.map Revision.withoutQualifiers.file) :
    ((analyzer ids settings root).analyze files).findings.map Finding.muted =
      ((analyzer ids settings root).analyze files').findings.map Finding.muted := by
  have hblind := (isLocal_analyzer ids settings root).isNumberBlind
  rw [findings_analyze hblind, findings_analyze hblind, map_muted_sortFindings,
    map_muted_sortFindings, List.map_flatMap, List.map_flatMap]
  exact congrArg sortFindings (flatMap_eq_of_forall₂ (forall₂_of_map_eq h) fun f _ f' _ hf =>
    view_walkFile_of_revised (Comparison.walks_withoutQualifiers ids settings) hf 0)

/-- What the rule about returned values says describes a discarded call as it is written. -/
theorem describes_of_mem_dispatch {s : Site} {c : Context} {x : Finding}
    (hx : x ∈ ((onlyReturnValue ids settings).dispatch s c).1) : ReturnValue.Describes s x := by
  rw [dispatch_onlyReturnValue] at hx
  have hruns : ∀ n, (Comparison.single (fun _ => True) (ReturnValue.Describes s)).Runs
      (ask settings s.node.line (fun rule c => rule.check settings s c)
        (List.replicate n returnValue))
      (ask settings s.node.line (fun rule c => rule.check settings s c)
        (List.replicate n returnValue)) := by
    refine fun n => .ask fun rule hrule c _ _ => ⟨?_, trivial⟩
    rw [List.eq_of_mem_replicate hrule]
    intro x hx
    have hsettled : x ∈ settle settings ReturnValue.info s.node.line c
        (.ok (ReturnValue.findings settings s c)) := hx
    rw [settle_ok_eq_map] at hsettled
    obtain ⟨y, hy, rfl⟩ := List.mem_map.mp hsettled
    obtain ⟨statement, call, hnode, hkind, hmessage⟩ := ReturnValue.describes_of_mem_findings hy
    exact ⟨statement, call, hnode, hkind, hmessage⟩
  exact (hruns _ c c trivial).1 x hx

theorem describes_of_mem_sightings {i : Nat} {f : SourceFile} {s : Site} {x : Finding}
    (hx : (s, x) ∈ (analyzer ids settings root).sightings i f)
    (hrule : x.isOf .checkReturnValue = true) : ReturnValue.Describes s x := by
  have hmem : (s, x) ∈ ((analyzer ids settings root).sightings i f).filter
      fun x => x.2.isOf .checkReturnValue := List.mem_filter.mpr ⟨hx, hrule⟩
  rw [filter_sightings_checkReturnValue] at hmem
  obtain ⟨stop, -, hmap⟩ := List.mem_flatMap.mp hmem
  obtain ⟨y, hy, heq⟩ := List.mem_map.mp hmap
  obtain ⟨rfl, rfl⟩ := Prod.mk.inj heq
  exact describes_of_mem_dispatch hy

/-- To put qualifiers in front of the names of called functions, any qualifier in front of any of
them, changes nothing that is found and nothing that is said about it, with one exception: the rule
about returned values shows the name of a called function as it is written. -/
theorem qualifiers_do_not_matter (ids : List RuleId) (settings : Settings) (root : Option String)
    (files : List SourceFile) (q : Nat → Qualifiers) :
    let found := ((analyzer ids settings root).analyze files).findings
    let foundQualified := ((analyzer ids settings root).analyze
      (files.mapIdx fun i f => f.qualify (q i))).findings
    found.map (fun x => (x.code, x.location)) =
        foundQualified.map (fun x => (x.code, x.location)) ∧
      List.Forall₂ (fun x y => y = { x with message := y.message } ∧
        (x.code ≠ RuleId.checkReturnValue.word → y.message = x.message)) found foundQualified ∧
      ∀ i f s x, (s, x) ∈ (analyzer ids settings root).sightings i f →
        x.isOf .checkReturnValue = true →
          ∃ statement call, s.node = .stmt statement ∧ statement.kind = .expression call ∧
            ∀ name args, call.kind = .call (.name name) args →
              x.message = "Return value of " ++ ("function " ++ name ++ "()")
        ++ " is not used. Either use the return value or add a @ignoreReturnValue annotation." := by
  intro found foundQualified
  have hfiles : files.map Revision.withoutQualifiers.file =
      (files.mapIdx fun i f => f.qualify (q i)).map Revision.withoutQualifiers.file := by
    refine List.ext_getElem (by simp) fun i _ _ => ?_
    rw [List.getElem_map, List.getElem_map, List.getElem_mapIdx, Revision.withoutQualifiers_qualify]
  have hmuted : found.map Finding.muted = foundQualified.map Finding.muted :=
    muted_analyze_of_withoutQualifiers hfiles
  have hpairs := (forall₂_of_map_eq hmuted).imp fun _ _ h => Finding.of_muted_eq h
  refine ⟨?_, hpairs, fun i f s x hx hrule => ?_⟩
  · have hmarks := congrArg (List.map Finding.mark) hmuted
    rwa [List.map_map, List.map_map, Finding.mark_comp_muted] at hmarks
  · obtain ⟨statement, call, hnode, hkind, hmessage⟩ := describes_of_mem_sightings hx hrule
    refine ⟨statement, call, hnode, hkind, fun name args hcall => ?_⟩
    rw [hmessage, ReturnValue.describe_of_name hcall]

end Analyzer

end SafetyLint
