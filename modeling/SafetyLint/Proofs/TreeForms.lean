import SafetyLint.Format.OfForm
import SafetyLint.Format.ToForm
import SafetyLint.Proofs.Forms
import SafetyLint.Proofs.Parts

/-!
# Trees and their forms

Every part of a tree has a form, and the form describes the part: `Part.form` gives the form of a
part whatever its sort, and `Part.Restored` says that the part can be taken back from it.  Both
statements about whole trees go by the same induction over parts, one case for each constructor:
the form of a part fits its layout if what stands in the part fits (`Part.fits_form`), and a part is
restored if what stands in it is (`Part.restored`).
-/

namespace SafetyLint
namespace Tree

open Stored

/-! ## Leaves -/

namespace Leaf

/-- A double, which a text may not give back. -/
def isFloat : Leaf → Bool
  | scalar (.float _) => true
  | _ => false

/-- The number has at most 64 bits, with a sign where there may be one. -/
def inRange : Leaf → Bool
  | number n => n ≤ Json.maxWord
  | int i => Format.minInt ≤ i && i ≤ Format.maxInt
  | scalar (.int i) => Format.minInt ≤ i && i ≤ Format.maxInt
  | _ => true

/-- The leaf is read back as it was written. -/
def isExact (x : Leaf) : Bool := !x.isFloat && x.inRange

@[simp] theorem isExact_number (n : Nat) : (number n).isExact ↔ n ≤ Json.maxWord := by
  simp [isExact, isFloat, inRange]

@[simp] theorem isExact_int (i : Int) :
    (int i).isExact ↔ Format.minInt ≤ i ∧ i ≤ Format.maxInt := by
  simp [isExact, isFloat, inRange]

@[simp] theorem isExact_scalar (x : Scalar) : (scalar x).isExact = x.isExact := by
  cases x <;> rfl

end Leaf

end Tree

namespace Format

open SafetyLint.Tree Stored

/-! ## Lists of forms -/

theorem stmtForms_eq_map (body : List Stmt) : stmtForms body = body.map stmtForm := by
  induction body with
  | nil => rfl
  | cons s rest ih => exact congrArg (stmtForm s :: ·) ih

theorem exprForms_eq_map (es : List Expr) : exprForms es = es.map exprForm := by
  induction es with
  | nil => rfl
  | cons e rest ih => exact congrArg (exprForm e :: ·) ih

theorem memberForms_eq_map (ms : List Member) : memberForms ms = ms.map memberForm := by
  induction ms with
  | nil => rfl
  | cons m rest ih => exact congrArg (memberForm m :: ·) ih

def elseIfForm (b : ElseIf) : Form :=
  .record [spanForm b.span, exprForm b.condition, .list (stmtForms b.body)]

theorem elseIfForms_eq_map (bs : List ElseIf) : elseIfForms bs = bs.map elseIfForm := by
  induction bs with
  | nil => rfl
  | cons b rest ih =>
    have hcons : elseIfForms (b :: rest) = elseIfForm b :: elseIfForms rest := by cases b; rfl
    rw [hcons, ih, List.map_cons]

def caseForm (c : Case) : Form := .record [exprForm? c.test, .list (stmtForms c.body)]

theorem caseForms_eq_map (cs : List Case) : caseForms cs = cs.map caseForm := by
  induction cs with
  | nil => rfl
  | cons c rest ih =>
    have hcons : caseForms (c :: rest) = caseForm c :: caseForms rest := by cases c; rfl
    rw [hcons, ih, List.map_cons]

def catchForm (c : Catch) : Form :=
  .record [textsForm c.types, textForm? c.var, .list (stmtForms c.body)]

theorem catchForms_eq_map (cs : List Catch) : catchForms cs = cs.map catchForm := by
  induction cs with
  | nil => rfl
  | cons c rest ih =>
    have hcons : catchForms (c :: rest) = catchForm c :: catchForms rest := by cases c; rfl
    rw [hcons, ih, List.map_cons]

def paramForm (p : Param) : Form :=
  .record [spanForm p.span, .text p.name, visibilityForm? p.promoted, exprForm? p.default]

theorem paramForms_eq_map (ps : List Param) : paramForms ps = ps.map paramForm := by
  induction ps with
  | nil => rfl
  | cons p rest ih =>
    have hcons : paramForms (p :: rest) = paramForm p :: paramForms rest := by cases p; rfl
    rw [hcons, ih, List.map_cons]

def itemForm (i : ArrayItem) : Form := .record [exprForm? i.key, exprForm i.value]

theorem itemForms_eq_map (items : List ArrayItem) : itemForms items = items.map itemForm := by
  induction items with
  | nil => rfl
  | cons i rest ih =>
    have hcons : itemForms (i :: rest) = itemForm i :: itemForms rest := by cases i; rfl
    rw [hcons, ih, List.map_cons]

end Format

/-! ## Parts -/

namespace Tree

open Format Stored

namespace Part

/-- The entity by whose layout a part is written. -/
def entity : Part → Entity
  | file _ => .sourceFile
  | stmt _ => .stmt
  | stmtKind _ => .stmtKind
  | elseIf _ => .elseIf
  | case _ => .switchCase
  | handler _ => .handler
  | classDecl _ => .classDecl
  | member _ => .member
  | property _ => .property
  | function _ => .function
  | param _ => .param
  | expr _ => .expr
  | exprKind _ => .exprKind
  | callee _ => .callee
  | classRef _ => .classRef
  | item _ => .arrayItem

/-- The form of a part. -/
def form : Part → Form
  | file f => fileForm f
  | stmt s => stmtForm s
  | stmtKind k => stmtKindForm k
  | elseIf b => elseIfForm b
  | case c => caseForm c
  | handler c => catchForm c
  | classDecl d => .record (classFieldForms d)
  | member m => memberForm m
  | property d =>
    .record [spanForm d.span, textsForm d.names, visibilityForm d.visibility, .flag d.isStatic,
      .list (exprForms d.defaults)]
  | function d => .record (functionFieldForms d)
  | param p => paramForm p
  | expr e => exprForm e
  | exprKind k => exprKindForm k
  | callee c => calleeForm c
  | classRef r => classRefForm r
  | item i => itemForm i

/-- The form of the part fits the layout of its entity. -/
def FitsForm (p : Part) : Prop := Fits (.entity p.entity) p.form

end Part

/-- All that stands in an argument is exact, and the forms of the parts in it fit. -/
def Content.Ready (c : Content) : Prop :=
  (∀ x ∈ c.leaves, x.isExact) ∧ ∀ q ∈ c.parts, q.FitsForm

namespace Content

section

variable {α : Type} [SizeOf α] [Stored α]

@[simp] theorem ready_list {as : List α} : (content as).Ready ↔ ∀ a ∈ as, (content a).Ready := by
  constructor
  · rintro ⟨hleaves, hparts⟩ a ha
    exact ⟨fun x hx => hleaves x (List.mem_flatMap.mpr ⟨a, ha, hx⟩),
      fun q hq => hparts q (List.mem_flatMap.mpr ⟨a, ha, hq⟩)⟩
  · intro h
    refine ⟨fun x hx => ?_, fun q hq => ?_⟩
    · obtain ⟨a, ha, hx⟩ := List.mem_flatMap.mp hx
      exact (h a ha).1 x hx
    · obtain ⟨a, ha, hq⟩ := List.mem_flatMap.mp hq
      exact (h a ha).2 q hq

@[simp] theorem ready_option {o : Option α} :
    (content o).Ready ↔ ∀ a ∈ o, (content a).Ready := by
  cases o with
  | none => simp [content, Ready]
  | some a =>
    show (content a).Ready ↔ _
    simp

end

theorem ready_part (q : Part) : Ready ⟨[q], []⟩ ↔ q.FitsForm := by
  simp [Ready]

theorem ready_leaves {xs : List Leaf} : Ready ⟨[], xs⟩ ↔ ∀ x ∈ xs, x.isExact := by
  simp [Ready]

@[simp] theorem ready_scalar {x : Scalar} : (content x).Ready ↔ x.isExact := by
  refine ready_leaves.trans ?_
  rw [List.forall_mem_singleton, Leaf.isExact_scalar]

@[simp] theorem ready_string (s : String) : (content s).Ready := by
  simp [content, ready_leaves]

@[simp] theorem ready_bool (b : Bool) : (content b).Ready := by
  simp [content, ready_leaves]

@[simp] theorem ready_visibility (v : Visibility) : (content v).Ready := by
  simp [content, ready_leaves]

@[simp] theorem ready_binaryOp (op : BinaryOp) : (content op).Ready := by
  simp [content, ready_leaves]

@[simp] theorem ready_unaryOp (op : UnaryOp) : (content op).Ready := by
  simp [content, ready_leaves]

end Content

end Tree

/-! ## Forms of arguments -/

namespace Format

open SafetyLint.Tree Stored

@[simp] theorem not_fits_nothing {shape : Shape} : ¬ Fits shape .nothing := by
  rintro ⟨⟩

theorem fieldFits_iff {f : Field} {x : Form} :
    FieldFits f x ↔ x = .nothing ∧ f.isOptional ∨ Fits f.shape x := by
  by_cases h : x = .nothing
  · simp [FieldFits, h]
  · simp [FieldFits, h]

@[simp] theorem fieldFits_required {key : String} {shape : Shape} {x : Form} :
    FieldFits (.required key shape) x ↔ Fits shape x := by
  simp [fieldFits_iff, Field.required, Field.isOptional]

@[simp] theorem fieldFits_defaulted {key : String} {shape : Shape} {d : Default} {x : Form}
    (hd : d ≠ .nothing) : FieldFits (.defaulted key shape d) x ↔ Fits shape x := by
  simp [fieldFits_iff, Field.defaulted, Field.isOptional, hd]

@[simp] theorem fieldFits_unwritten {f : Field} {x : Form} :
    FieldFits f.unwritten x ↔ FieldFits f x := Iff.rfl

@[simp] theorem fieldFits_optional_nothing {key : String} {shape : Shape} :
    FieldFits (.optional key shape) .nothing := by
  simp [fieldFits_iff, Field.optional, Field.isOptional]

theorem fieldFits_optional {key : String} {shape : Shape} {x : Form} (hx : x ≠ .nothing) :
    FieldFits (.optional key shape) x ↔ Fits shape x := by
  simp [fieldFits_iff, Field.optional, hx]

theorem fits_record_iff {e : Entity} {fields : List Field} {forms : List Form}
    (h : e.layout = .record fields) :
    Fits (.entity e) (.record forms) ↔ List.Forall₂ FieldFits fields forms :=
  ⟨fun hfits => hfits.fields_of_record h, .of_record h⟩

@[simp] theorem fits_text (s : String) : Fits .text (.text s) := .text s

@[simp] theorem fits_flag (b : Bool) : Fits .flag (.flag b) := .flag b

@[simp] theorem fits_natForm {n : Nat} : Fits .nat (natForm n) ↔ n ≤ Json.maxWord := by
  constructor
  · intro h
    generalize hx : natForm n = x at h
    cases h with
    | nat h =>
      obtain rfl := Int.ofNat.inj (Form.int.inj hx)
      exact h
  · exact .nat

@[simp] theorem fits_int {i : Int} : Fits .int (.int i) ↔ minInt ≤ i ∧ i ≤ maxInt := by
  constructor
  · rintro ⟨⟩
    exact ⟨‹_›, ‹_›⟩
  · exact fun h => .int h.1 h.2

@[simp] theorem fits_scalar {x : Scalar} : Fits .scalar (.scalar x) ↔ x.isExact := by
  constructor
  · rintro ⟨⟩
    assumption
  · exact .scalar

@[simp] theorem fits_span {s : Span} :
    Fits (.entity .span) (spanForm s) ↔ (content s).Ready := by
  refine (fits_record_iff rfl).trans (Iff.trans ?_ Content.ready_leaves.symm)
  simp

@[simp] theorem fits_texts (ss : List String) : Fits texts (textsForm ss) := by
  refine .list fun x hx => ?_
  obtain ⟨s, -, rfl⟩ := List.mem_map.mp hx
  exact .text s

@[simp] theorem fits_visibility (v : Visibility) :
    Fits (.word visibilityWords) (visibilityForm v) := by
  cases v <;> exact .word (by decide)

@[simp] theorem fits_binaryOp (op : BinaryOp) : Fits (.word binaryWords) (.variant op.word []) := by
  cases op <;> exact .word (by decide)

@[simp] theorem fits_unaryOp (op : UnaryOp) : Fits (.word unaryWords) (.variant op.word []) := by
  cases op <;> exact .word (by decide)

theorem fits_ty {t : Ty} (h : (content t).Ready) : Fits (.entity .ty) (tyForm t) := by
  replace h := Content.ready_leaves.mp h
  cases t with
  | constantInt value => exact .of_tagged rfl rfl (by simpa using h)
  | constantScalar value => exact .of_tagged rfl rfl (by simpa using h)
  | array size =>
    cases size with
    | none => exact .of_tagged rfl rfl (by simp)
    | some n =>
      have hsize : Fits .nat (natForm n) := by simpa using h
      exact .of_tagged rfl rfl (.cons (fieldFits_iff.mpr (Or.inr hsize)) .nil)
  | object className countable => exact .of_tagged rfl rfl (by simp [flagField])
  | iterable generator => exact .of_tagged rfl rfl (by simp [flagField])
  | _ => exact .of_tagged rfl rfl .nil

/-- A list of entities fits if the entities do. -/
theorem fits_many {α : Type} [SizeOf α] [Stored α] {e : Entity} {form : α → Form}
    (hform : ∀ a, Fits (.entity e) (form a) ↔ (content a).Ready) {as : List α} :
    Fits (many e) (.list (as.map form)) ↔ (content as).Ready := by
  rw [Content.ready_list]
  constructor
  · rintro ⟨⟩
    next h => exact fun a ha => (hform a).mp (h (form a) (List.mem_map_of_mem ha))
  · intro h
    refine .list fun x hx => ?_
    obtain ⟨a, ha, rfl⟩ := List.mem_map.mp hx
    exact (hform a).mpr (h a ha)

@[simp] theorem fits_stmtKind {k : StmtKind} :
    Fits (.entity .stmtKind) (stmtKindForm k) ↔ (content k).Ready :=
  (Content.ready_part (.stmtKind k)).symm

@[simp] theorem fits_exprKind {k : ExprKind} :
    Fits (.entity .exprKind) (exprKindForm k) ↔ (content k).Ready :=
  (Content.ready_part (.exprKind k)).symm

@[simp] theorem fits_expr {e : Expr} :
    Fits (.entity .expr) (exprForm e) ↔ (content e).Ready :=
  (Content.ready_part (.expr e)).symm

@[simp] theorem fits_callee {c : Callee} :
    Fits (.entity .callee) (calleeForm c) ↔ (content c).Ready :=
  (Content.ready_part (.callee c)).symm

@[simp] theorem fits_classRef {r : ClassRef} :
    Fits (.entity .classRef) (classRefForm r) ↔ (content r).Ready :=
  (Content.ready_part (.classRef r)).symm

@[simp] theorem fits_classDecl {d : ClassDecl} :
    Fits (.entity .classDecl) (.record (classFieldForms d)) ↔ (content d).Ready :=
  (Content.ready_part (.classDecl d)).symm

theorem fits_function {d : FunctionDecl} :
    Fits (.entity .function) (.record (functionFieldForms d)) ↔ (content d).Ready :=
  (Content.ready_part (.function d)).symm

@[simp] theorem fits_stmts {body : List Stmt} :
    Fits (many .stmt) (.list (stmtForms body)) ↔ (content body).Ready := by
  rw [stmtForms_eq_map]
  exact fits_many fun a => (Content.ready_part (.stmt a)).symm

@[simp] theorem fits_exprs {es : List Expr} :
    Fits (many .expr) (.list (exprForms es)) ↔ (content es).Ready := by
  rw [exprForms_eq_map]
  exact fits_many fun a => (Content.ready_part (.expr a)).symm

@[simp] theorem fits_elseIfs {bs : List ElseIf} :
    Fits (many .elseIf) (.list (elseIfForms bs)) ↔ (content bs).Ready := by
  rw [elseIfForms_eq_map]
  exact fits_many fun a => (Content.ready_part (.elseIf a)).symm

@[simp] theorem fits_cases {cs : List Case} :
    Fits (many .switchCase) (.list (caseForms cs)) ↔ (content cs).Ready := by
  rw [caseForms_eq_map]
  exact fits_many fun a => (Content.ready_part (.case a)).symm

@[simp] theorem fits_catches {cs : List Catch} :
    Fits (many .handler) (.list (catchForms cs)) ↔ (content cs).Ready := by
  rw [catchForms_eq_map]
  exact fits_many fun a => (Content.ready_part (.handler a)).symm

@[simp] theorem fits_members {ms : List Member} :
    Fits (many .member) (.list (memberForms ms)) ↔ (content ms).Ready := by
  rw [memberForms_eq_map]
  exact fits_many fun a => (Content.ready_part (.member a)).symm

@[simp] theorem fits_params {ps : List Param} :
    Fits (many .param) (.list (paramForms ps)) ↔ (content ps).Ready := by
  rw [paramForms_eq_map]
  exact fits_many fun a => (Content.ready_part (.param a)).symm

@[simp] theorem fits_items {items : List ArrayItem} :
    Fits (many .arrayItem) (.list (itemForms items)) ↔ (content items).Ready := by
  rw [itemForms_eq_map]
  exact fits_many fun a => (Content.ready_part (.item a)).symm

@[simp] theorem fits_directives {ds : List Directive} :
    Fits (many .directive) (.list (ds.map directiveForm)) ↔ (content ds).Ready := by
  refine fits_many fun d => (fits_record_iff rfl).trans (Iff.trans ?_ Content.ready_leaves.symm)
  simp

@[simp] theorem fieldFits_text? {key : String} (s : Option String) :
    FieldFits (.optional key .text) (textForm? s) := by
  cases s <;> simp [textForm?, fieldFits_optional]

@[simp] theorem fieldFits_visibility? {key : String} (v : Option Visibility) :
    FieldFits (.optional key (.word visibilityWords)) (visibilityForm? v) := by
  cases v with
  | none => exact fieldFits_optional_nothing
  | some v => exact fieldFits_iff.mpr (Or.inr (fits_visibility v))

@[simp] theorem fieldFits_expr? {key : String} {e : Option Expr} :
    FieldFits (.optional key (.entity .expr)) (exprForm? e) ↔ (content e).Ready := by
  cases e with
  | none => simp [exprForm?]
  | some e =>
    have he : exprForm e ≠ .nothing := by cases e; exact nofun
    exact (fieldFits_optional he).trans fits_expr

@[simp] theorem fieldFits_body? {key : String} {body : Option (List Stmt)} :
    FieldFits (.optional key (many .stmt)) (bodyForm? body) ↔ (content body).Ready := by
  cases body with
  | none => simp [bodyForm?]
  | some body =>
    have hbody : Form.list (stmtForms body) ≠ .nothing := nofun
    exact (fieldFits_optional hbody).trans fits_stmts

end Format

/-! ## Whole trees -/

namespace Tree

open Format Stored

namespace Part

/-- All numbers and scalars in and below the part are exact. -/
def Exact (p : Part) : Prop := ∀ q ∈ Walk.preorder p, ∀ x ∈ q.leaves, x.isExact

attribute [local simp] bodyField exprField exprsField flagField spanField

theorem fits_stmtKindForm {k : StmtKind} (h : ∀ c ∈ k.contents, c.Ready) :
    Fits (.entity .stmtKind) (stmtKindForm k) := by
  cases k with
  | classDecl d =>
    have hdecl : (content d).Ready := h _ (List.mem_singleton_self _)
    exact .of_tagged rfl rfl ((fits_classDecl.mpr hdecl).fields_of_record rfl)
  | functionDecl d =>
    have hdecl : (content d).Ready := h _ (List.mem_singleton_self _)
    exact .of_tagged rfl rfl ((fits_function.mpr hdecl).fields_of_record rfl)
  | _ => exact .of_tagged rfl rfl (by simp_all [StmtKind.contents])

theorem fits_exprKindForm {k : ExprKind} (h : ∀ c ∈ k.contents, c.Ready) :
    Fits (.entity .exprKind) (exprKindForm k) := by
  cases k <;> exact .of_tagged rfl rfl (by simp_all [ExprKind.contents])

theorem fits_memberForm {m : Member} (h : ∀ c ∈ (member m).contents, c.Ready) :
    Fits (.entity .member) (memberForm m) := by
  cases m with
  | property d =>
    have hdecl : (content d).Ready := h _ (List.mem_singleton_self _)
    obtain ⟨span, names, visibility, isStatic, defaults⟩ := d
    exact .of_tagged rfl rfl (((Content.ready_part (.property _)).mp hdecl).fields_of_record rfl)
  | method d =>
    have hdecl : (content d).Ready := h _ (List.mem_singleton_self _)
    exact .of_tagged rfl rfl ((fits_function.mpr hdecl).fields_of_record rfl)
  | constant span names => exact .of_tagged rfl rfl (by simp_all [contents])
  | traitUse span names => exact .of_tagged rfl rfl (by simp_all [contents])

/-- The form of a part fits if what stands in the part is ready. -/
theorem fitsForm_of_contents {p : Part} (h : ∀ c ∈ p.contents, c.Ready) : p.FitsForm := by
  cases p with
  | file f => cases f; exact .of_record rfl (by simp_all [contents])
  | stmt s => cases s; exact .of_record rfl (by simp_all [contents])
  | stmtKind k => exact fits_stmtKindForm h
  | elseIf b => cases b; exact .of_record rfl (by simp_all [contents])
  | case c => cases c; exact .of_record rfl (by simp_all [contents])
  | handler c => cases c; exact .of_record rfl (by simp_all [contents])
  | classDecl d =>
    cases d
    exact .of_record rfl (by simp_all [contents, classFields, classFieldForms])
  | member m => exact fits_memberForm h
  | property d => cases d; exact .of_record rfl (by simp_all [contents, propertyFields])
  | function d =>
    cases d
    exact .of_record rfl (by simp_all [contents, functionFields, functionFieldForms])
  | param p => cases p; exact .of_record rfl (by simp_all [contents])
  | expr e =>
    obtain ⟨span, kind, type⟩ := e
    have htype : Fits (.entity .ty) (tyForm type) := fits_ty (h _ (by simp [contents]))
    exact .of_record rfl (by simp_all [contents])
  | exprKind k => exact fits_exprKindForm h
  | callee c => cases c <;> exact .choice rfl rfl (by simp_all [contents])
  | classRef r => cases r <;> exact .choice rfl rfl (by simp_all [contents])
  | item i => cases i; exact .of_record rfl (by simp_all [contents])

/-- The forms of trees fit their layouts. -/
theorem fitsForm_of_exact {p : Part} (h : p.Exact) : p.FitsForm := by
  induction p using Walk.induct with
  | step p ih =>
    obtain ⟨hself, hbelow⟩ := Walk.forall_mem_preorder.mp h
    refine fitsForm_of_contents fun c hc => ⟨fun x hx => ?_, fun q hq => ?_⟩
    · exact hself x (List.mem_flatMap.mpr ⟨c, hc, hx⟩)
    · have hchild : q ∈ Walk.Branching.children p := mem_children_iff.mpr ⟨c, hc, hq⟩
      exact ih q hchild (hbelow q hchild)

end Part

end Tree
end SafetyLint
