import SafetyLint.Engine.RuleId
import SafetyLint.Finding
import SafetyLint.Tree.Site

/-!
# The context of a walk

While a file is walked, the context knows the file and the functions and classes that are open, and
keeps one slot for each rule that has to remember something from node to node.

A slot has the kind of its first use.  Whoever asks for it as another kind gets an error and changes
nothing.  Entering a file empties all slots and closes what was left open.
-/

namespace SafetyLint

open SafetyLint.Tree

/-! ## Errors of rules -/

/-- Why a rule could not check a node. -/
inductive RuleError where
  /-- A node has not the parts that the rule relies on. -/
  | malformedNode (kind : NodeKind) (line : Nat) (detail : String)
  /-- A function or a class should be open and is not. -/
  | missingScope (scope : String) (line : Nat)
  /-- Anything else that must not happen. -/
  | internal (detail : String)
  deriving DecidableEq, Repr

def RuleError.message : RuleError → String
  | malformedNode kind line detail =>
    "malformed " ++ kind.title ++ " node at line " ++ toString line ++ ": " ++ detail
  | missingScope scope line => "no enclosing " ++ scope ++ " for node at line " ++ toString line
  | internal detail => "internal error: " ++ detail

/-- What is reported when a rule fails. -/
def RuleError.report (e : RuleError) (rule : RuleId) : String :=
  "An error occurred while processing rule " ++ rule.word ++ ": " ++ e.message

/-! ## Open files and scopes -/

/-- The file that is being walked. -/
structure OpenFile where
  /-- The number of the file in its run. -/
  number : Nat
  path : String
  text : Option String
  /-- The path as it is reported. -/
  shown : String
  deriving DecidableEq, Repr

namespace OpenFile

/-- Opens a file, whose path is reported as seen from `root`. -/
def ofFile (number : Nat) (f : SourceFile) (root : Option String) : OpenFile :=
  ⟨number, f.path, f.text, Path.relativeTo f.path root⟩

/-- The open file is file `number`, whose path is given.  Files without a path are not told
apart. -/
def isFile (o : OpenFile) (number : Nat) (path : String) : Bool :=
  o.number = number || (o.path = "" && path = "")

/-- The lines `first` to `last` of the text. -/
def lines? (o : OpenFile) (first last : Nat) : Option (List (List Char)) :=
  o.text.map fun text => Text.linesBetween text.toList first last

end OpenFile

/-- Whether a function stands alone or in a class. -/
inductive FunctionKind where
  | function
  | method
  deriving DecidableEq, Repr

/-- An open function or method. -/
structure FunctionScope where
  decl : FunctionDecl
  kind : FunctionKind

def FunctionScope.name (s : FunctionScope) : String := s.decl.name

/-! ## Slots -/

/-- What a rule about file headers remembers: whether the header was looked at, and the required
directives that have not come yet. -/
structure Header where
  started : Bool
  unseen : List String
  deriving DecidableEq, Repr, Inhabited

/-- A type of a host's own, known by its name.  What it holds is kept as text, and `initial` is what
it starts with. -/
structure HostType where
  name : String
  initial : String
  deriving DecidableEq, Repr

/-- The kinds of things that are kept in slots. -/
inductive SlotKind where
  /-- Links of access chains that are already reported. -/
  | links
  | header
  | count
  | note
  | host (type : HostType)
  deriving DecidableEq, Repr

/-- What a slot of some kind holds. -/
def SlotKind.Value : SlotKind → Type
  | links => List Place
  | header => Header
  | count => Int
  | note => String
  | host _ => String

/-- What a slot holds before anything is written to it. -/
def SlotKind.initial : (k : SlotKind) → k.Value
  | links => ([] : List Place)
  | header => (⟨false, []⟩ : Header)
  | count => (0 : Int)
  | note => ""
  | host type => type.initial

/-- A slot with its content. -/
structure Slot where
  kind : SlotKind
  value : kind.Value

/-- The content of a slot, if it is of this kind. -/
def Slot.as? (s : Slot) (k : SlotKind) : Option k.Value :=
  if h : s.kind = k then some (h ▸ s.value) else none

@[simp] theorem Slot.as?_mk (k : SlotKind) (v : k.Value) : (Slot.mk k v).as? k = some v := by
  simp [as?]

/-- Writes a slot into a list with one slot for each rule. -/
def setSlot (rule : RuleId) (slot : Slot) : List (RuleId × Slot) → List (RuleId × Slot)
  | [] => [(rule, slot)]
  | (r, s) :: rest => if r = rule then (rule, slot) :: rest else (r, s) :: setSlot rule slot rest

theorem lookup_setSlot_self (rule : RuleId) (slot : Slot) (slots : List (RuleId × Slot)) :
    (setSlot rule slot slots).lookup rule = some slot := by
  induction slots with
  | nil => simp [setSlot]
  | cons p rest ih =>
    obtain ⟨r, s⟩ := p
    rw [setSlot]
    split
    · simp
    · next h =>
      have : (rule == r) = false := by simpa using fun e => h e.symm
      simp [List.lookup_cons, this, ih]

theorem lookup_setSlot_of_ne {rule other : RuleId} (slot : Slot) (slots : List (RuleId × Slot))
    (h : other ≠ rule) : (setSlot rule slot slots).lookup other = slots.lookup other := by
  have hne : (other == rule) = false := by simpa using h
  induction slots with
  | nil => simp [setSlot, List.lookup_cons, hne]
  | cons p rest ih =>
    obtain ⟨r, s⟩ := p
    rw [setSlot]
    split
    · next hr => subst hr; simp [List.lookup_cons, hne]
    · simp [List.lookup_cons, ih]

/-- Of two writes to one slot the second one counts. -/
theorem setSlot_setSlot (rule : RuleId) (first second : Slot) (slots : List (RuleId × Slot)) :
    setSlot rule second (setSlot rule first slots) = setSlot rule second slots := by
  induction slots with
  | nil => simp [setSlot]
  | cons p rest ih =>
    obtain ⟨r, s⟩ := p
    by_cases h : r = rule
    · simp [setSlot, h]
    · simp [setSlot, h, ih]

/-! ## Contexts -/

/-- Where a walk stands and what the rules remember. -/
structure Context where
  file : Option OpenFile
  /-- The open functions, innermost first. -/
  functions : List FunctionScope
  /-- The open classes, innermost first. -/
  classes : List ClassDecl
  slots : List (RuleId × Slot)

namespace Context

/-- The context before any file. -/
def empty : Context := ⟨none, [], [], []⟩

/-- Forgets what the rules remember and what is open, but not the file. -/
def clear (c : Context) : Context := { c with functions := [], classes := [], slots := [] }

/-- Starts a file. -/
def enterFile (c : Context) (f : OpenFile) : Context := { c.clear with file := some f }

def pushFunction (c : Context) (decl : FunctionDecl) (kind : FunctionKind) : Context :=
  { c with functions := ⟨decl, kind⟩ :: c.functions }

def popFunction (c : Context) : Context := { c with functions := c.functions.tail }

def pushClass (c : Context) (decl : ClassDecl) : Context := { c with classes := decl :: c.classes }

def popClass (c : Context) : Context := { c with classes := c.classes.tail }

/-- The innermost open function.  Closures open none. -/
def function? (c : Context) : Option FunctionScope := c.functions.head?

/-- The innermost open class. -/
def class? (c : Context) : Option ClassDecl := c.classes.head?

/-- Some class is open. -/
def inClass (c : Context) : Bool := !c.classes.isEmpty

/-- A line of the file that is walked. -/
def location (c : Context) (line : Nat) : Location :=
  ⟨(c.file.map OpenFile.shown).getD "", line⟩

/-- The rule has a slot. -/
def hasSlot (c : Context) (rule : RuleId) : Bool := (c.slots.lookup rule).isSome

/-- The error of a slot that is of another kind. -/
def slotError (rule : RuleId) : RuleError :=
  .internal ("per-file state of " ++ rule.word ++ " has an unexpected type")

/-- The content of the rule's slot; one that was never used has its initial content. -/
def slot (c : Context) (k : SlotKind) (rule : RuleId) : Except RuleError k.Value :=
  match c.slots.lookup rule with
  | none => .ok k.initial
  | some s =>
    match s.as? k with
    | some v => .ok v
    | none => .error (slotError rule)

theorem slot_of_lookup_eq_none {c : Context} {rule : RuleId} (k : SlotKind)
    (h : c.slots.lookup rule = none) : c.slot k rule = .ok k.initial := by
  rw [slot, h]

/-- A slot is read as what it is. -/
theorem slot_of_lookup_eq_some {c : Context} {rule : RuleId} {k : SlotKind} {v : k.Value}
    (h : c.slots.lookup rule = some ⟨k, v⟩) : c.slot k rule = .ok v := by
  simp only [slot, h, Slot.as?_mk]

/-- A slot is not read as anything else. -/
theorem slot_of_kind_ne {c : Context} {rule : RuleId} {s : Slot} {k : SlotKind}
    (h : c.slots.lookup rule = some s) (hk : s.kind ≠ k) :
    c.slot k rule = .error (slotError rule) := by
  simp only [slot, h, Slot.as?, dif_neg hk]

/-- Writes the rule's slot. -/
def putSlot (c : Context) (k : SlotKind) (rule : RuleId) (v : k.Value) : Context :=
  { c with slots := setSlot rule ⟨k, v⟩ c.slots }

/-- What was written to a slot is read from it. -/
@[simp] theorem slot_putSlot (c : Context) (k : SlotKind) (rule : RuleId) (v : k.Value) :
    (c.putSlot k rule v).slot k rule = .ok v := by
  exact slot_of_lookup_eq_some (lookup_setSlot_self ..)

@[simp] theorem putSlot_putSlot (c : Context) (k : SlotKind) (rule : RuleId) (v w : k.Value) :
    (c.putSlot k rule v).putSlot k rule w = c.putSlot k rule w := by
  rw [putSlot, putSlot, putSlot, setSlot_setSlot]

end Context

end SafetyLint
