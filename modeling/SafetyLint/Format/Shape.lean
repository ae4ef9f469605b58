import SafetyLint.Tree.Basic

/-!
# Shapes

The written form of a value is described by data.  A shape says what a JSON value has to be; the
composite shapes are named entities, and a table gives each entity its layout: a record with fixed
fields, a tagged object whose tag chooses the fields, or a choice written as an object with one
member.

A value that fits its shape becomes a form: its fields in the order of the layout, absent ones
replaced by their defaults and unknown members gone.  What a form says no longer depends on how the
text was laid out.
-/

namespace SafetyLint
namespace Format

/-- The entities that have a written form. -/
inductive Entity where
  | sourceFile
  | span
  | stmt
  | stmtKind
  | directive
  | elseIf
  | switchCase
  | handler
  | classDecl
  | member
  | property
  | function
  | param
  | expr
  | exprKind
  | callee
  | classRef
  | arrayItem
  | ty
  | location
  | suggestion
  | finding
  | report
  deriving DecidableEq, Repr

/-- What a JSON value has to be. -/
inductive Shape where
  | flag
  /-- A whole number of 64 bits without sign. -/
  | nat
  /-- A whole number of 64 bits with sign. -/
  | int
  | text
  /-- A truth value, a number or a text. -/
  | scalar
  /-- One of some words. -/
  | word (words : List String)
  | entity (e : Entity)
  | list (of : Shape)
  deriving DecidableEq, Repr

/-- What an absent field stands for. -/
inductive Default where
  /-- Nothing; such a field may also be written as `null`. -/
  | nothing
  | emptyList
  | no
  /-- A word or a variant without fields. -/
  | variant (name : String)
  deriving DecidableEq, Repr

/-- A field of a record.  A field without default has to be present; one that is omitted is not
written when it has its default. -/
structure Field where
  key : String
  shape : Shape
  default : Option Default
  omitted : Bool
  deriving DecidableEq, Repr

namespace Field

def required (key : String) (shape : Shape) : Field := ⟨key, shape, none, false⟩

def optional (key : String) (shape : Shape) : Field := ⟨key, shape, some .nothing, false⟩

def defaulted (key : String) (shape : Shape) (d : Default) : Field := ⟨key, shape, some d, false⟩

/-- The field is not written when it has its default. -/
def unwritten (f : Field) : Field := { f with omitted := true }

/-- The field may be written as `null`. -/
def isOptional (f : Field) : Bool := f.default = some .nothing

end Field

/-- How an entity is laid out. -/
inductive Layout where
  /-- An object with these fields. -/
  | record (fields : List Field)
  /-- An object whose member `tag` names the variant, with the fields of that variant. -/
  | tagged (tag : String) (variants : List (String × List Field))
  /-- An object with one member, whose key names the variant. -/
  | choice (variants : List (String × Shape))

/-- A value that fits its shape. -/
inductive Form where
  | nothing
  | flag (b : Bool)
  | int (i : Int)
  | text (s : String)
  | scalar (x : Tree.Scalar)
  | list (items : List Form)
  | record (fields : List Form)
  | variant (name : String) (fields : List Form)
  deriving Inhabited

/-- The form that an absent field stands for. -/
def Default.form : Default → Form
  | nothing => .nothing
  | emptyList => .list []
  | no => .flag false
  | variant name => .variant name []

/-- The form is the one that an absent field stands for. -/
def Default.isForm : Default → Form → Bool
  | nothing, .nothing => true
  | emptyList, .list [] => true
  | no, .flag b => !b
  | variant name, .variant other [] => name == other
  | _, _ => false

/-- Recognising a default is comparing with it. -/
theorem Default.isForm_iff (d : Default) (f : Form) : d.isForm f = true ↔ f = d.form := by
  cases d with
  | nothing => cases f <;> simp [isForm, form]
  | emptyList =>
    cases f with
    | list items => cases items <;> simp [isForm, form]
    | _ => simp [isForm, form]
  | no => cases f <;> simp [isForm, form]
  | variant name =>
    cases f with
    | variant other fields =>
      cases fields with
      | nil =>
        simp only [isForm, form, beq_iff_eq, Form.variant.injEq, and_true]
        exact eq_comm
      | cons head tail => simp [isForm, form]
    | _ => simp [isForm, form]

end Format
end SafetyLint
