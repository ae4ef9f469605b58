import SafetyLint.Proofs.Answers
import SafetyLint.Proofs.OpenScopes

/-!
# What stands above a node decides

Two rules ask the context which function and which class are open.  What they answer can be said
without a walk: the open function is the innermost function or method among the ancestors of the
node, closures not counted, and the open class is the innermost class among them
(`Stop.function?`, `Stop.class?`).  The two need not belong together, as the default of a property
of a class inside a method shows: its innermost class is the inner one, and its innermost method is
the outer one.

The one question of the context that is not about ancestors is whether any class is open when a
method calls itself.  A method always stands in a class (`exists_class_above`), so the answer is
yes.

`ancestors_decide` is the statement about whole files.
-/

namespace SafetyLint

open SafetyLint.Tree Config Text

namespace Walk

variable {α : Type} [Branching α]

/-- What holds of a root and passes from elements to their children holds of everything below the
root. -/
theorem forall_mem_preorder_of_children {P : α → Prop} {root : α} (hroot : P root)
    (hchild : ∀ a, P a → ∀ c ∈ Branching.children a, P c) : ∀ a ∈ preorder root, P a := by
  induction root using induct with
  | step root ih =>
    rw [forall_mem_preorder]
    exact ⟨hroot, fun c hc => ih c hc (hchild root hroot c hc)⟩

end Walk

/-! ## Ancestors -/

namespace Tree
namespace Stop

/-- The innermost function or method above a stop. -/
def function? (s : Stop) : Option FunctionScope := s.above.findSome? Node.functionScope?

/-- The innermost class above a stop. -/
def class? (s : Stop) : Option ClassDecl := s.above.findSome? Node.openClass?

/-- The innermost function or method above a stop, if it is a method. -/
def method? (s : Stop) : Option FunctionScope :=
  s.function?.filter fun scope => scope.kind = .method

variable {s : Stop} (file : Option OpenFile) (slots : List (RuleId × Slot))

/-- At a node that opens no function, the open one is the innermost function above. -/
theorem function?_context (h : s.site.node.functionScope? = none) :
    (s.context file slots).function? = s.function? := by
  show ((s.site.node :: s.above).filterMap Node.functionScope?).head? = _
  rw [List.filterMap_cons_none h, List.head?_filterMap]
  rfl

theorem class?_context (h : s.site.node.openClass? = none) :
    (s.context file slots).class? = s.class? := by
  show ((s.site.node :: s.above).filterMap Node.openClass?).head? = _
  rw [List.filterMap_cons_none h, List.head?_filterMap]
  rfl

/-- Where a method is on the way to a stop, there is a class above the stop. -/
theorem exists_class_above {i : Nat} {f : SourceFile} :
    ∀ s ∈ Walk.preorder (ofFile i f), ∀ d, Node.method d ∈ s.site.node :: s.above →
      ∃ owner, Node.classDecl owner ∈ s.above := by
  refine Walk.forall_mem_preorder_of_children (fun d hd => ?_) fun s hs t ht d hd => ?_
  · cases List.mem_singleton.mp hd
  · rw [above_of_mem_children ht] at hd ⊢
    rcases List.mem_cons.mp hd with hnode | habove
    · have hmem : Node.method d ∈ s.site.node.children := by
        rw [hnode, ← Site.map_node_children, ← map_site_children, List.map_map]
        exact List.mem_map_of_mem ht
      obtain ⟨owner, howner⟩ := Node.exists_eq_classDecl_of_method_mem hmem
      exact ⟨owner, howner ▸ List.mem_cons_self ..⟩
    · obtain ⟨owner, howner⟩ := hs d habove
      exact ⟨owner, List.mem_cons_of_mem _ howner⟩

/-- A class is open where a method is. -/
theorem inClass_context {i : Nat} {f : SourceFile} (hs : s ∈ Walk.preorder (ofFile i f))
    {scope : FunctionScope} (hscope : s.function? = some scope) (hkind : scope.kind = .method) :
    (s.context file slots).inClass = true := by
  obtain ⟨n, hn, hopens⟩ := List.exists_of_findSome?_eq_some hscope
  have hmethod : n = .method scope.decl := by
    cases n with
    | method d => cases hopens; rfl
    | function d => cases hopens; cases hkind
    | _ => cases hopens
  obtain ⟨owner, howner⟩ := exists_class_above s hs scope.decl
    (hmethod ▸ List.mem_cons_of_mem _ hn)
  have hopen : owner ∈ classesOf (s.site.node :: s.above) :=
    List.mem_filterMap.mpr ⟨_, List.mem_cons_of_mem _ howner, rfl⟩
  rw [Context.inClass, context, Bool.not_eq_true', List.isEmpty_eq_false_iff]
  exact List.ne_nil_of_mem hopen

end Stop
end Tree

namespace Rules

/-! ## Jumps and recursion -/

namespace ComplexFlow

/-- At the stop there is a jump, or the function above calls itself: by its short name, as a method
by a method call with its short name, or as a method by a static call that names the class above or
one of the words for it. -/
def isComplex (s : Stop) : Bool :=
  match s.site.node with
  | .stmt ⟨_, .goto _, _⟩ => true
  | .expr ⟨_, .call (.name name) _, _⟩ =>
    s.function?.any fun scope => shortName name = shortName scope.name
  | .expr ⟨_, .methodCall _ method _, _⟩ =>
    s.method?.any fun scope => method = shortName scope.name
  | .expr ⟨_, .staticCall (.name owner) method _, _⟩ =>
    (s.method?.any fun scope => method = shortName scope.name) &&
      (sameLetters (shortName owner) "self" || sameLetters (shortName owner) "static" ||
        (s.class?.bind ClassDecl.name).any fun name => shortName owner = shortName name)
  | _ => false

/-- What is said about a node with complex flow. -/
def complexText : Node → String
  | .expr ⟨_, .call _ _, _⟩ => "Recursive function calls are not allowed."
  | .expr ⟨_, .methodCall _ _ _, _⟩ => "Recursive method calls are not allowed."
  | .expr _ => "Recursive static method calls are not allowed."
  | _ => "Goto statements are not allowed."

theorem isSelfReference_eq (owner : String) (enclosing : Option String) :
    isSelfReference owner enclosing =
      (sameLetters (shortName owner) "self" || sameLetters (shortName owner) "static" ||
        enclosing.any fun name => shortName owner = shortName name) := by
  have hsame : (fun name => shortName name == shortName owner) =
      fun name => decide (shortName owner = shortName name) := by
    funext name
    rw [beq_eq_decide, decide_eq_decide]
    exact eq_comm
  rw [← hsame]
  rfl

section

variable {s : Stop} {e : Expr} (hnode : s.site.node = .expr e)
include hnode

/-- Without a function above, no expression is complex. -/
theorem isComplex_of_function?_eq_none (h : s.function? = none) : isComplex s = false := by
  obtain ⟨span, kind, type⟩ := e
  rw [isComplex, hnode, Stop.method?, h]
  cases kind with
  | call callee args => cases callee <;> rfl
  | staticCall owner method args => cases owner <;> rfl
  | _ => rfl

theorem recursion?_eq {scope : FunctionScope} {c : Context} (hscope : s.function? = some scope)
    (hclass : c.class? = s.class?) (hmethod : scope.kind = .method → c.inClass = true) :
    recursion? scope c e.kind =
      if isComplex s then some (complexText s.site.node) else none := by
  have hin : (scope.kind = .method && c.inClass) = decide (scope.kind = .method) := by
    by_cases hkind : scope.kind = .method <;> simp [hkind, hmethod]
  obtain ⟨span, kind, type⟩ := e
  rw [isComplex, hnode, Stop.method?, hscope]
  cases kind with
  | call callee args =>
    cases callee with
    | name name => simp [recursion?, complexText]
    | expr e => rfl
  | methodCall receiver method args => simp [recursion?, complexText, hin]
  | staticCall owner method args =>
    cases owner with
    | name name => simp [recursion?, complexText, isSelfReference_eq, hclass]
    | _ => rfl
  | _ => rfl

end

theorem message?_context {i : Nat} {f : SourceFile} {s : Stop}
    (hs : s ∈ Walk.preorder (Stop.ofFile i f)) (file : Option OpenFile)
    (slots : List (RuleId × Slot)) :
    message? s.site.node (s.context file slots) =
      if isComplex s then some (complexText s.site.node) else none := by
  cases hnode : s.site.node with
  | stmt stmt =>
    obtain ⟨span, kind, comments⟩ := stmt
    rw [isComplex, hnode]
    cases kind <;> rfl
  | expr e =>
    have hfunction := Stop.function?_context (s := s) file slots (by rw [hnode]; rfl)
    have hclass := Stop.class?_context (s := s) file slots (by rw [hnode]; rfl)
    rw [message?, hfunction, ← hnode]
    cases hopen : s.function? with
    | none => rw [isComplex_of_function?_eq_none hnode hopen]; rfl
    | some scope =>
      exact recursion?_eq hnode hopen hclass (Stop.inClass_context file slots hs hopen)
  | _ =>
    rw [isComplex, hnode]
    rfl

theorem answers {i : Nat} {f : SourceFile} (settings : Settings) (file : OpenFile) {s : Stop}
    (hs : s ∈ Walk.preorder (Stop.ofFile i f)) :
    Dispatcher.Answers .noComplexFlow settings file
      (fun s => if isComplex s then some (complexText s.site.node) else none) s := by
  rw [Dispatcher.Answers, ← message?_context hs (some file) []]
  rfl

/-- Where the rule is not asked, nothing is complex. -/
theorem isComplex_of_idle (s : Stop) (h : complexFlow.kinds.contains s.site.node.kind = false) :
    isComplex s = false := by
  obtain ⟨⟨place, node⟩, above⟩ := s
  cases node with
  | stmt stmt =>
    obtain ⟨span, kind, comments⟩ := stmt
    cases kind <;> first | rfl | cases h
  | expr e =>
    obtain ⟨span, kind, type⟩ := e
    cases kind <;> first | rfl | cases h
  | _ => rfl

end ComplexFlow

/-! ## Allocation -/

namespace Allocation

/-- The function above the stop, if there is one, does not initialize anything. -/
def isLate (settings : Settings) (s : Stop) : Bool :=
  !s.function?.any fun scope => settings.initMethods.contains (shortName scope.name)

/-- The node allocates: as a new object, as an array with items, as a call of a function that
allocates, or as a call of a method by which a container grows. -/
def allocates (settings : Settings) : Node → Bool
  | .expr ⟨_, .new _ _, _⟩ => true
  | .expr ⟨_, .array items, _⟩ => !items.isEmpty
  | .expr ⟨_, .call (.name name) _, _⟩ => settings.resourceFunctions.contains (shortName name)
  | .expr ⟨_, .methodCall receiver method _, _⟩ =>
    settings.containerMethods.contains method &&
      match receiver.type with
      | .object name _ =>
        settings.containerTypes.contains name || settings.containerTypes.contains (shortName name)
      | _ => false
  | _ => false

/-- What is said about a node that allocates. -/
def allocationText : Node → String
  | .expr ⟨_, .new _ _, _⟩ => "Object instantiation is not allowed after initialization."
  | .expr ⟨_, .array _, _⟩ => "Dynamic array creation is not allowed after initialization."
  | .expr ⟨_, .call (.name name) _, _⟩ =>
    "Resource allocation function \"" ++ shortName name
      ++ "\" is not allowed after initialization."
  | .expr ⟨_, .methodCall _ method _, _⟩ =>
    "Container method \"" ++ method
      ++ "\" that allocates memory is not allowed after initialization."
  | _ => ""

theorem message?_eq (settings : Settings) (e : Expr) :
    message? settings e.kind =
      if allocates settings (.expr e) then some (allocationText (.expr e)) else none := by
  obtain ⟨span, kind, type⟩ := e
  cases kind with
  | array items => cases items <;> rfl
  | call callee args => cases callee <;> rfl
  | methodCall receiver method args =>
    obtain ⟨receiverSpan, receiverKind, type⟩ := receiver
    cases type <;> rfl
  | _ => rfl

theorem answers (settings : Settings) (file : OpenFile) (s : Stop) :
    Dispatcher.Answers .noHeapAllocation settings file
      (fun s => if allocates settings s.site.node && isLate settings s then
        some (allocationText s.site.node) else none) s := by
  obtain ⟨⟨place, node⟩, above⟩ := s
  cases node with
  | expr e =>
    let s : Stop := ⟨⟨place, .expr e⟩, above⟩
    have hlate : inInitMethod settings (s.context (some file) []) = !isLate settings s := by
      rw [inInitMethod, isLate, Bool.not_not, Stop.function?_context (some file) [] rfl]
    show Except.ok (if inInitMethod settings (s.context (some file) []) = true then [] else _) =
      Except.ok (List.map _ (if (allocates settings (.expr e) && isLate settings s) = true then
        some (allocationText (.expr e)) else none).toList)
    rw [hlate, message?_eq]
    cases isLate settings s <;> cases allocates settings (.expr e) <;> rfl
  | _ => rfl

/-- Where the rule is not asked, nothing allocates. -/
theorem allocates_of_idle (settings : Settings) (n : Node)
    (h : allocation.kinds.contains n.kind = false) : allocates settings n = false := by
  cases n with
  | expr e =>
    obtain ⟨span, kind, type⟩ := e
    cases kind <;> first | rfl | cases h
  | _ => rfl

end Allocation

/-- Two rules go by the ancestors of a node.  With the rule registered once and active:

* the rule about complex flow reports each jump and each call by which the innermost function above
  calls itself, once and nothing else (`ComplexFlow.isComplex`);
* the rule about allocation reports each node that allocates, once and nothing else, unless the
  innermost function above initializes something (`Allocation.isLate`, `Allocation.allocates`). -/
theorem ancestors_decide (ids : List RuleId) (settings : Settings) (root : Option String) (i : Nat)
    (f : SourceFile) :
    (ids.count .noComplexFlow = 1 → settings.isActive .noComplexFlow = true →
      (((dispatcher ids settings).visit 0 (.ofFile i f)
          (Context.empty.enterFile (.ofFile i f root))).1.flatMap Event.sightings).filter
            (fun x => x.2.rule = ComplexFlow.info.name) =
        ((Walk.preorder (Stop.ofFile i f)).filter ComplexFlow.isComplex).map fun s =>
          (s.site, reported settings ComplexFlow.info (some (.ofFile i f root)) s.site.node.line
            (ComplexFlow.complexText s.site.node))) ∧
    (ids.count .noHeapAllocation = 1 → settings.isActive .noHeapAllocation = true →
      (((dispatcher ids settings).visit 0 (.ofFile i f)
          (Context.empty.enterFile (.ofFile i f root))).1.flatMap Event.sightings).filter
            (fun x => x.2.rule = Allocation.info.name) =
        ((Walk.preorder (Stop.ofFile i f)).filter fun s =>
            Allocation.allocates settings s.site.node && Allocation.isLate settings s).map fun s =>
          (s.site, reported settings Allocation.info (some (.ofFile i f root)) s.site.node.line
            (Allocation.allocationText s.site.node))) := by
  refine ⟨fun hr hactive => ?_, fun hr hactive => ?_⟩
  · exact Dispatcher.filter_sightings_of_speaks ComplexFlow.isComplex
      (fun s => ComplexFlow.complexText s.site.node) (by decide) (by decide) hr hactive root i f
      ComplexFlow.isComplex_of_idle fun s hs => ComplexFlow.answers settings _ hs
  · refine Dispatcher.filter_sightings_of_speaks _
      (fun s => Allocation.allocationText s.site.node) (by decide) (by decide) hr hactive root i f
      (fun s h => ?_) fun s _ => Allocation.answers settings _ s
    rw [Allocation.allocates_of_idle settings _ h, Bool.false_and]

/-- A method that makes an object of a class without a name.  The default of a property there stands
below the outer method and the inner class. -/
def nestedClasses : SourceFile :=
  let count : PropertyDecl :=
    { PropertyDecl.named "count" .pub 4 with defaults := [.staticCall "Outer" "run" []] }
  let inner : ClassDecl := ⟨.line 3, none, [.property count]⟩
  let run : FunctionDecl :=
    (FunctionDecl.named "run" 2 5).withBody [.ofExpr (.ofKind (.new (.anonymous inner) []))]
  ⟨"a.php", none, [.ofClass ((ClassDecl.named "Outer" 1 6).withMember (.method run))]⟩

theorem ancestors_decide_nestedClasses :
    RuleId.all.count .noComplexFlow = 1 ∧ Settings.default.isActive .noComplexFlow = true ∧
      RuleId.all.count .noHeapAllocation = 1 ∧ Settings.default.isActive .noHeapAllocation = true ∧
      (((dispatcher RuleId.all .default).visit 0 (.ofFile 0 nestedClasses)
          (Context.empty.enterFile (.ofFile 0 nestedClasses none))).1.flatMap
            Event.sightings).filter (fun x => x.2.rule = ComplexFlow.info.name) =
        ((Walk.preorder (Stop.ofFile 0 nestedClasses)).filter ComplexFlow.isComplex).map (fun s =>
          (s.site, reported .default ComplexFlow.info (some (.ofFile 0 nestedClasses none))
            s.site.node.line (ComplexFlow.complexText s.site.node))) ∧
      (((dispatcher RuleId.all .default).visit 0 (.ofFile 0 nestedClasses)
          (Context.empty.enterFile (.ofFile 0 nestedClasses none))).1.flatMap
            Event.sightings).filter (fun x => x.2.rule = Allocation.info.name) =
        ((Walk.preorder (Stop.ofFile 0 nestedClasses)).filter fun s =>
            Allocation.allocates .default s.site.node && Allocation.isLate .default s).map fun s =>
          (s.site, reported .default Allocation.info (some (.ofFile 0 nestedClasses none))
            s.site.node.line (Allocation.allocationText s.site.node)) := by
  obtain ⟨hflow, hallocation⟩ := ancestors_decide RuleId.all .default none 0 nestedClasses
  exact ⟨by decide, by decide, by decide, by decide, hflow (by decide) (by decide),
    hallocation (by decide) (by decide)⟩

/-- In such a default a call of the outer method by the name of the outer class goes unnoticed, and
one by the word for the own class does not. -/
example (place : Place) :
    ["Outer", "SELF"].map (fun owner => ComplexFlow.isComplex
      ⟨⟨place, .expr (.staticCall owner "run" [])⟩, [.classDecl ⟨.line 3, none, []⟩,
        .method (.named "run" 2 5), .classDecl (.named "Outer" 1 6)]⟩) = [false, true] := by
  rfl

end Rules

end SafetyLint
