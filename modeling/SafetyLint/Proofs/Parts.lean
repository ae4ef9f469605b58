import SafetyLint.Proofs.Preorder
import SafetyLint.Tree.File
import Mathlib.Data.List.Range

/-!
# Parts of a tree by their fields

The recursive family of the tree has many sorts: statements, expressions, declarations, branches,
members, references.  A part is a value of any of these sorts, and `Part.contents` lists what stands
in it: one entry for each argument of its constructor, in the order of the declaration.  The content
of an argument says which parts it holds and which numbers and scalars.  An argument whose type is
unknown to `Stored` does not elaborate, so no field can be left out unnoticed.

A part of a tree is found by a field path: each step gives the number of a field, and the number of
the part within that field.  A spot is a part together with its field path, and the spots of a tree
are visited in the order of the fields, except that the last field of a do-while loop comes first
(`Part.inOrder`).

* `Spot.mem_preorder_iff`: the spots of a tree are those that a field path leads to.
* `Spot.pairwise_preorder`: they come in the order of their paths (`Part.Before`).
-/

namespace SafetyLint
namespace Tree

/-! ## Parts and what stands in them -/

/-- A part of a tree, of whatever sort. -/
inductive Part where
  | file (f : SourceFile)
  | stmt (s : Stmt)
  | stmtKind (k : StmtKind)
  | elseIf (b : ElseIf)
  | case (c : Case)
  | handler (c : Catch)
  | classDecl (d : ClassDecl)
  | member (m : Member)
  | property (d : PropertyDecl)
  | function (d : FunctionDecl)
  | param (p : Param)
  | expr (e : Expr)
  | exprKind (k : ExprKind)
  | callee (c : Callee)
  | classRef (r : ClassRef)
  | item (i : ArrayItem)

/-- A number or a scalar that stands in a part. -/
inductive Leaf where
  /-- A line, or the size of an array. -/
  | number (n : Nat)
  | int (i : Int)
  | scalar (x : Scalar)

/-- What an argument of a constructor holds. -/
structure Content where
  parts : List Part
  leaves : List Leaf

namespace Part

/-- The size of a part. -/
noncomputable def weight : Part → Nat
  | file f => sizeOf f
  | stmt s => sizeOf s
  | stmtKind k => sizeOf k
  | elseIf b => sizeOf b
  | case c => sizeOf c
  | handler c => sizeOf c
  | classDecl d => sizeOf d
  | member m => sizeOf m
  | property d => sizeOf d
  | function d => sizeOf d
  | param p => sizeOf p
  | expr e => sizeOf e
  | exprKind k => sizeOf k
  | callee c => sizeOf c
  | classRef r => sizeOf r
  | item i => sizeOf i

end Part

/-- A type of arguments whose content is known.  What an argument holds is not larger than the
argument. -/
class Stored (α : Type) [SizeOf α] where
  content : α → Content
  weight_le : ∀ a, total Part.weight (content a).parts ≤ sizeOf a

namespace Stored

/-- An argument that holds no part. -/
abbrev plain {α : Type} [SizeOf α] (leaves : α → List Leaf) : Stored α :=
  ⟨fun a => ⟨[], leaves a⟩, fun _ => Nat.zero_le _⟩

/-- An argument that is a part. -/
abbrev single {α : Type} [SizeOf α] (part : α → Part) (h : ∀ a, (part a).weight = sizeOf a) :
    Stored α :=
  ⟨fun a => ⟨[part a], []⟩, fun a => by rw [total_cons, total_nil, h a]; exact Nat.le_refl _⟩

instance : Stored String := plain fun _ => []
instance : Stored Bool := plain fun _ => []
instance : Stored Visibility := plain fun _ => []
instance : Stored BinaryOp := plain fun _ => []
instance : Stored UnaryOp := plain fun _ => []
instance : Stored Span := plain fun s => [.number s.firstLine, .number s.lastLine]
instance : Stored Scalar := plain fun x => [.scalar x]
instance : Stored Directive := plain fun d => [.scalar d.value]

instance : Stored Ty := plain fun
  | .constantInt value => [.int value]
  | .constantScalar value => [.scalar value]
  | .array (some size) => [.number size]
  | _ => []

instance : Stored Stmt := single .stmt fun _ => rfl
instance : Stored StmtKind := single .stmtKind fun _ => rfl
instance : Stored ElseIf := single .elseIf fun _ => rfl
instance : Stored Case := single .case fun _ => rfl
instance : Stored Catch := single .handler fun _ => rfl
instance : Stored ClassDecl := single .classDecl fun _ => rfl
instance : Stored Member := single .member fun _ => rfl
instance : Stored PropertyDecl := single .property fun _ => rfl
instance : Stored FunctionDecl := single .function fun _ => rfl
instance : Stored Param := single .param fun _ => rfl
instance : Stored Expr := single .expr fun _ => rfl
instance : Stored ExprKind := single .exprKind fun _ => rfl
instance : Stored Callee := single .callee fun _ => rfl
instance : Stored ClassRef := single .classRef fun _ => rfl
instance : Stored ArrayItem := single .item fun _ => rfl

variable {α : Type} [SizeOf α] [Stored α]

instance : Stored (List α) where
  content as := ⟨as.flatMap fun a => (content a).parts, as.flatMap fun a => (content a).leaves⟩
  weight_le as := by
    induction as with
    | nil => exact Nat.zero_le _
    | cons a rest ih =>
      have ha := weight_le a
      simp only [List.flatMap_cons, total_append, List.cons.sizeOf_spec] at ih ⊢
      omega

instance : Stored (Option α) where
  content
    | none => ⟨[], []⟩
    | some a => content a
  weight_le
    | none => Nat.zero_le _
    | some a => by
      have ha := weight_le a
      simp only [Option.some.sizeOf_spec]
      omega

end Stored

open Stored

/-! ## The fields of a part -/

/-- The content of each argument of a statement. -/
def StmtKind.contents : StmtKind → List Content
  | .namespaceBlock name body => [content name, content body]
  | .declareBlock directives => [content directives]
  | .useNames names => [content names]
  | .classDecl decl => [content decl]
  | .functionDecl decl => [content decl]
  | .expression e => [content e]
  | .echo es => [content es]
  | .returnValue e => [content e]
  | .ifElse condition thenBody elseIfs otherwise =>
    [content condition, content thenBody, content elseIfs, content otherwise]
  | .forLoop init condition step body =>
    [content init, content condition, content step, content body]
  | .whileLoop condition body => [content condition, content body]
  | .doWhile condition body => [content condition, content body]
  | .foreach iterable key value body =>
    [content iterable, content key, content value, content body]
  | .switch subject cases => [content subject, content cases]
  | .tryCatch body catches cleanup => [content body, content catches, content cleanup]
  | .breakLoop => []
  | .continueLoop => []
  | .goto target => [content target]
  | .label name => [content name]
  | .global names => [content names]
  | .block body => [content body]
  | .nop => []

/-- The content of each argument of an expression. -/
def ExprKind.contents : ExprKind → List Content
  | .var name => [content name]
  | .literal value => [content value]
  | .constFetch name => [content name]
  | .classConstFetch owner name => [content owner, content name]
  | .array items => [content items]
  | .new owner args => [content owner, content args]
  | .call callee args => [content callee, content args]
  | .methodCall receiver method args => [content receiver, content method, content args]
  | .staticCall owner method args => [content owner, content method, content args]
  | .propertyFetch object property => [content object, content property]
  | .staticPropertyFetch owner property => [content owner, content property]
  | .arrayDimFetch base index => [content base, content index]
  | .assign target value => [content target, content value]
  | .binary op left right => [content op, content left, content right]
  | .unary op operand => [content op, content operand]
  | .ternary condition thenValue otherwise =>
    [content condition, content thenValue, content otherwise]
  | .closure params uses body => [content params, content uses, content body]
  | .arrowFunction params body => [content params, content body]
  | .errorSuppress operand => [content operand]
  | .throw value => [content value]
  | .other label children => [content label, content children]

namespace Part

/-- The content of each argument of a part. -/
def contents : Part → List Content
  | file ⟨path, text, stmts⟩ => [content path, content text, content stmts]
  | stmt ⟨span, kind, comments⟩ => [content span, content kind, content comments]
  | stmtKind k => k.contents
  | elseIf ⟨span, condition, body⟩ => [content span, content condition, content body]
  | case ⟨test, body⟩ => [content test, content body]
  | handler ⟨types, var, body⟩ => [content types, content var, content body]
  | classDecl ⟨span, name, members⟩ => [content span, content name, content members]
  | member (.property decl) => [content decl]
  | member (.method decl) => [content decl]
  | member (.constant span names) => [content span, content names]
  | member (.traitUse span names) => [content span, content names]
  | property ⟨span, names, visibility, isStatic, defaults⟩ =>
    [content span, content names, content visibility, content isStatic, content defaults]
  | function ⟨span, name, params, body, isAbstract, isStatic, visibility⟩ =>
    [content span, content name, content params, content body, content isAbstract,
      content isStatic, content visibility]
  | param ⟨span, name, promoted, default⟩ =>
    [content span, content name, content promoted, content default]
  | expr ⟨span, kind, type⟩ => [content span, content kind, content type]
  | exprKind k => k.contents
  | callee (.name name) => [content name]
  | callee (.expr e) => [content e]
  | classRef (.name name) => [content name]
  | classRef (.expr e) => [content e]
  | classRef (.anonymous decl) => [content decl]
  | item ⟨key, value⟩ => [content key, content value]

/-- The parts in each field. -/
def fields (p : Part) : List (List Part) := p.contents.map Content.parts

/-- The numbers and scalars that stand in a part, outside of the parts in it. -/
def leaves (p : Part) : List Leaf := p.contents.flatMap Content.leaves

end Part

/-- A step from a part to a part in it: the number of the field, and the number within the field. -/
structure Step where
  field : Nat
  index : Nat
  deriving DecidableEq, Repr

/-- The way from a part to one inside it. -/
abbrev FieldPath := List Step

namespace Part

/-- The part at the end of a step. -/
def get? (p : Part) (s : Step) : Option Part := p.fields[s.field]?.bind fun field => field[s.index]?

/-! ## The order of the fields -/

/-- The part is the only one whose fields are not visited in the order of their declaration. -/
def isDoWhile : Part → Bool
  | stmtKind (.doWhile _ _) => true
  | _ => false

/-- The fields of a part in the order of a visit: the body of a do-while loop comes before its
condition. -/
def inOrder {α : Type} (p : Part) (fields : List α) : List α :=
  if p.isDoWhile then fields.reverse else fields

/-- One field is visited before another one. -/
def FieldBefore (p : Part) (i j : Nat) : Prop := if p.isDoWhile then j < i else i < j

/-- One step is taken before another one: into an earlier field, or to an earlier part of the same
field. -/
def StepBefore (p : Part) (s t : Step) : Prop :=
  p.FieldBefore s.field t.field ∨ s.field = t.field ∧ s.index < t.index

/-- What is at the end of one path is visited before what is at the end of the other: a part before
what stands in it, and what stands in it in the order of the steps. -/
def Before (p : Part) : FieldPath → FieldPath → Prop
  | [], [] => False
  | [], _ :: _ => True
  | _ :: _, [] => False
  | s :: π, t :: ρ => p.StepBefore s t ∨ s = t ∧ ∃ q, p.get? s = some q ∧ q.Before π ρ

theorem not_fieldBefore_self (p : Part) (i : Nat) : ¬ p.FieldBefore i i := by
  rw [FieldBefore]
  split <;> exact Nat.lt_irrefl i

/-- No path comes before itself. -/
theorem not_before_self (p : Part) (π : FieldPath) : ¬ p.Before π π := by
  induction π generalizing p with
  | nil => exact id
  | cons s π ih =>
    rintro ((hfield | ⟨-, hindex⟩) | ⟨-, q, -, hbefore⟩)
    · exact p.not_fieldBefore_self _ hfield
    · exact Nat.lt_irrefl _ hindex
    · exact ih q hbefore

/-- The parts in a part, each with the step that leads to it, in the order of a visit. -/
def branches (p : Part) : List (Step × Part) :=
  (p.inOrder p.fields.zipIdx).flatMap fun field =>
    field.1.zipIdx.map fun q => (⟨field.2, q.2⟩, q.1)

theorem mem_inOrder {α : Type} {p : Part} {fields : List α} {x : α} :
    x ∈ p.inOrder fields ↔ x ∈ fields := by
  rw [inOrder]
  split
  · exact List.mem_reverse
  · exact Iff.rfl

theorem mem_branches {p q : Part} {s : Step} : (s, q) ∈ p.branches ↔ p.get? s = some q := by
  rw [branches, List.mem_flatMap, get?, Option.bind_eq_some_iff]
  constructor
  · rintro ⟨⟨field, j⟩, hfield, hq⟩
    obtain ⟨⟨q', k⟩, hq', heq⟩ := List.mem_map.mp hq
    cases heq
    exact ⟨field, List.mem_zipIdx_iff_getElem?.mp (mem_inOrder.mp hfield),
      List.mem_zipIdx_iff_getElem?.mp hq'⟩
  · rintro ⟨field, hfield, hq⟩
    exact ⟨(field, s.field), mem_inOrder.mpr (List.mem_zipIdx_iff_getElem?.mpr hfield),
      List.mem_map.mpr ⟨(q, s.index), List.mem_zipIdx_iff_getElem?.mpr hq, rfl⟩⟩

theorem pairwise_zipIdx {α : Type} (l : List α) :
    l.zipIdx.Pairwise fun a b => a.2 < b.2 := by
  have h := List.pairwise_lt_range' (s := 0) (n := l.length)
  rw [← List.zipIdx_map_snd] at h
  exact List.pairwise_map.mp h

theorem pairwise_inOrder_fields (p : Part) :
    (p.inOrder p.fields.zipIdx).Pairwise fun a b => p.FieldBefore a.2 b.2 := by
  unfold inOrder FieldBefore
  cases p.isDoWhile with
  | true => exact List.pairwise_reverse.mpr (pairwise_zipIdx p.fields)
  | false => exact pairwise_zipIdx p.fields

theorem pairwise_branches (p : Part) :
    p.branches.Pairwise fun a b => p.StepBefore a.1 b.1 := by
  rw [branches, List.pairwise_flatMap]
  refine ⟨fun field _ => ?_, p.pairwise_inOrder_fields.imp fun {a b} hab x hx y hy => ?_⟩
  · rw [List.pairwise_map]
    exact (pairwise_zipIdx field.1).imp fun h => Or.inr ⟨rfl, h⟩
  · obtain ⟨q, -, rfl⟩ := List.mem_map.mp hx
    obtain ⟨r, -, rfl⟩ := List.mem_map.mp hy
    exact Or.inl hab

/-- The parts in the order of a visit, without their steps. -/
theorem map_snd_branches (p : Part) : p.branches.map Prod.snd = (p.inOrder p.fields).flatten := by
  have hfield : ∀ field : List Part × Nat,
      (field.1.zipIdx.map fun q => ((⟨field.2, q.2⟩, q.1) : Step × Part)).map Prod.snd =
        field.1 := by
    intro field
    rw [List.map_map]
    exact List.zipIdx_map_fst 0 field.1
  have horder : p.inOrder p.fields = (p.inOrder p.fields.zipIdx).map Prod.fst := by
    unfold inOrder
    cases p.isDoWhile with
    | true => rw [if_pos rfl, if_pos rfl, List.map_reverse, List.zipIdx_map_fst]
    | false => exact (List.zipIdx_map_fst 0 p.fields).symm
  rw [horder, branches, List.map_flatMap, List.flatten_eq_flatMap, List.flatMap_map]
  exact List.flatMap_congr fun field _ => hfield field

/-! ## Weight -/

theorem total_flatten_fields (p : Part) :
    total weight p.fields.flatten =
      total (fun c : Content => total weight c.parts) p.contents := by
  rw [fields]
  induction p.contents with
  | nil => rfl
  | cons c rest ih => rw [List.map_cons, List.flatten_cons, total_append, total_cons, ih]

theorem total_reverse_flatten (g : Part → Nat) (fields : List (List Part)) :
    total g fields.reverse.flatten = total g fields.flatten := by
  induction fields with
  | nil => rfl
  | cons field rest ih =>
    rw [List.reverse_cons, List.flatten_append, total_append, ih, List.flatten_singleton,
      List.flatten_cons, total_append, Nat.add_comm]

/-- What stands in a part is together smaller than the part: its size counts one for the constructor
and the sizes of all arguments. -/
theorem total_contents_lt (p : Part) :
    total (fun c : Content => total weight c.parts) p.contents < p.weight := by
  cases p with
  | stmtKind k => cases k <;> simp [contents, StmtKind.contents, weight] <;> grind [weight_le]
  | exprKind k => cases k <;> simp [contents, ExprKind.contents, weight] <;> grind [weight_le]
  | member m => cases m <;> simp [contents, weight] <;> grind [weight_le]
  | callee c => cases c <;> simp [contents, weight] <;> grind [weight_le]
  | classRef r => cases r <;> simp [contents, weight] <;> grind [weight_le]
  | file f => cases f; simp [contents, weight]; grind [weight_le]
  | stmt s => cases s; simp [contents, weight]; grind [weight_le]
  | elseIf b => cases b; simp [contents, weight]; grind [weight_le]
  | case c => cases c; simp [contents, weight]; grind [weight_le]
  | handler c => cases c; simp [contents, weight]; grind [weight_le]
  | classDecl d => cases d; simp [contents, weight]; grind [weight_le]
  | property d =>
    cases d
    simp only [contents, weight, total_cons, total_nil, PropertyDecl.mk.sizeOf_spec]
    grind [weight_le]
  | function d =>
    cases d
    simp only [contents, weight, total_cons, total_nil, FunctionDecl.mk.sizeOf_spec]
    grind [weight_le]
  | param p => cases p; simp [contents, weight]; grind [weight_le]
  | expr e => cases e; simp [contents, weight]; grind [weight_le]
  | item i => cases i; simp [contents, weight]; grind [weight_le]

/-- The order of a visit does not matter for a total. -/
theorem total_branches (g : Part → Nat) (p : Part) :
    total g (p.branches.map Prod.snd) = total g p.fields.flatten := by
  rw [map_snd_branches]
  unfold inOrder
  cases p.isDoWhile with
  | true => exact total_reverse_flatten g p.fields
  | false => rfl

theorem total_fields_lt (p : Part) : total weight p.fields.flatten < p.weight := by
  rw [total_flatten_fields]
  exact p.total_contents_lt

theorem total_branches_lt (p : Part) : total weight (p.branches.map Prod.snd) < p.weight := by
  rw [total_branches]
  exact p.total_fields_lt

end Part

instance : Walk.Branching Part where
  children p := p.branches.map Prod.snd
  exists_weight := ⟨Part.weight, Part.total_branches_lt⟩

namespace Part

theorem mem_children_iff {p q : Part} :
    q ∈ Walk.Branching.children p ↔ ∃ c ∈ p.contents, q ∈ c.parts := by
  show q ∈ p.branches.map Prod.snd ↔ _
  rw [map_snd_branches, List.mem_flatten]
  constructor
  · rintro ⟨field, hfield, hq⟩
    obtain ⟨c, hc, rfl⟩ := List.mem_map.mp (mem_inOrder.mp hfield)
    exact ⟨c, hc, hq⟩
  · rintro ⟨c, hc, hq⟩
    exact ⟨c.parts, mem_inOrder.mpr (List.mem_map_of_mem hc), hq⟩

end Part

/-- All numbers and scalars of a file. -/
def SourceFile.leaves (f : SourceFile) : List Leaf :=
  (Walk.preorder (Part.file f)).flatMap Part.leaves

/-! ## Spots -/

/-- A part in its place: the way to it from the root, and the part that it directly stands in. -/
structure Spot where
  path : FieldPath
  holder : Option Part
  part : Part

namespace Spot

/-- The spot of a whole file. -/
def ofFile (f : SourceFile) : Spot := ⟨[], none, .file f⟩

/-- The spot one step further, where a given part is. -/
def step (r : Spot) (s : Step) (q : Part) : Spot := ⟨r.path ++ [s], some r.part, q⟩

/-- The spots directly below a spot, in the order of a visit. -/
def children (r : Spot) : List Spot := r.part.branches.map fun b => r.step b.1 b.2

instance : Walk.Branching Spot where
  children := children
  exists_weight := by
    refine ⟨fun r => r.part.weight, fun r => ?_⟩
    have h := r.part.total_branches_lt
    rw [total_map] at h
    rw [children, total_map]
    exact h

/-- The spot at the end of a path. -/
def locate? (r : Spot) : FieldPath → Option Spot
  | [] => some r
  | s :: π => (r.part.get? s).bind fun q => (r.step s q).locate? π

theorem locate?_cons (r : Spot) (s : Step) (π : FieldPath) :
    r.locate? (s :: π) = (r.part.get? s).bind fun q => (r.step s q).locate? π := rfl

theorem locate?_append (r : Spot) (π ρ : FieldPath) :
    r.locate? (π ++ ρ) = (r.locate? π).bind fun t => t.locate? ρ := by
  induction π generalizing r with
  | nil => rfl
  | cons s π ih =>
    rw [List.cons_append, locate?_cons, locate?_cons]
    cases r.part.get? s with
    | none => rfl
    | some q => exact ih (r.step s q)

/-- A path leads to a spot with this path. -/
theorem path_of_locate? {r t : Spot} {π : FieldPath} (h : r.locate? π = some t) :
    t.path = r.path ++ π := by
  induction π generalizing r with
  | nil => rw [← Option.some_inj.mp h, List.append_nil]
  | cons s π ih =>
    obtain ⟨q, -, hrest⟩ := Option.bind_eq_some_iff.mp h
    rw [ih hrest, step, List.append_assoc]
    rfl

theorem mem_children_iff {r t : Spot} :
    t ∈ Walk.Branching.children r ↔ ∃ s q, r.part.get? s = some q ∧ t = r.step s q := by
  show t ∈ r.children ↔ _
  rw [children, List.mem_map]
  constructor
  · rintro ⟨⟨s, q⟩, hbranch, rfl⟩
    exact ⟨s, q, Part.mem_branches.mp hbranch, rfl⟩
  · rintro ⟨s, q, hget, rfl⟩
    exact ⟨(s, q), Part.mem_branches.mpr hget, rfl⟩

/-- The spots at and below a spot are those to which a path leads from there. -/
theorem mem_preorder_iff {r t : Spot} :
    t ∈ Walk.preorder r ↔ ∃ π, r.locate? π = some t := by
  constructor
  · intro h
    induction r using Walk.induct with
    | step r ih =>
      rcases Walk.mem_preorder_iff.mp h with rfl | ⟨c, hc, ht⟩
      · exact ⟨[], rfl⟩
      · obtain ⟨π, hπ⟩ := ih c hc ht
        obtain ⟨s, q, hget, rfl⟩ := mem_children_iff.mp hc
        refine ⟨s :: π, ?_⟩
        rw [locate?_cons, hget]
        exact hπ
  · rintro ⟨π, hπ⟩
    induction π generalizing r with
    | nil =>
      rw [← Option.some_inj.mp hπ]
      exact Walk.self_mem_preorder r
    | cons s π ih =>
      obtain ⟨q, hget, hrest⟩ := Option.bind_eq_some_iff.mp hπ
      exact Walk.mem_preorder_iff.mpr
        (Or.inr ⟨r.step s q, mem_children_iff.mpr ⟨s, q, hget, rfl⟩, ih hrest⟩)

/-- Seen from `r`, the path of one spot comes before the path of the other. -/
def Precedes (r t u : Spot) : Prop :=
  ∃ π ρ, t.path = r.path ++ π ∧ u.path = r.path ++ ρ ∧ r.part.Before π ρ

/-- What holds below a child holds below its parent, with one more step in front. -/
theorem Precedes.of_step {r t u : Spot} {s : Step} {q : Part} (hget : r.part.get? s = some q)
    (h : (r.step s q).Precedes t u) : r.Precedes t u := by
  obtain ⟨π, ρ, hπ, hρ, hbefore⟩ := h
  refine ⟨s :: π, s :: ρ, ?_, ?_, Or.inr ⟨rfl, q, hget, hbefore⟩⟩
  · rw [hπ, step, List.append_assoc]
    rfl
  · rw [hρ, step, List.append_assoc]
    rfl

/-- Spots come in the order of their paths. -/
theorem pairwise_preorder (r : Spot) : (Walk.preorder r).Pairwise r.Precedes := by
  induction r using Walk.induct with
  | step r ih =>
    have hbelow : ∀ {s q t}, t ∈ Walk.preorder (r.step s q) →
        ∃ π, t.path = r.path ++ s :: π := by
      intro s q t ht
      obtain ⟨π, hπ⟩ := mem_preorder_iff.mp ht
      refine ⟨π, ?_⟩
      rw [path_of_locate? hπ, step, List.append_assoc]
      rfl
    rw [Walk.preorder_cons, List.pairwise_cons]
    refine ⟨fun t ht => ?_, List.pairwise_flatMap.mpr ⟨fun c hc => ?_, ?_⟩⟩
    · -- the root comes before everything below it
      obtain ⟨c, hc, htc⟩ := List.mem_flatMap.mp ht
      obtain ⟨s, q, -, rfl⟩ := mem_children_iff.mp hc
      obtain ⟨π, hπ⟩ := hbelow htc
      exact ⟨[], s :: π, (List.append_nil _).symm, hπ, trivial⟩
    · -- two spots below one child
      obtain ⟨s, q, hget, rfl⟩ := mem_children_iff.mp hc
      exact (ih _ hc).imp (Precedes.of_step hget)
    · -- two spots below different children
      show r.children.Pairwise _
      rw [children, List.pairwise_map]
      refine r.part.pairwise_branches.imp fun {a b} hab t ht u hu => ?_
      obtain ⟨π, hπ⟩ := hbelow ht
      obtain ⟨ρ, hρ⟩ := hbelow hu
      exact ⟨a.1 :: π, b.1 :: ρ, hπ, hρ, Or.inl hab⟩

end Spot

end Tree
end SafetyLint
