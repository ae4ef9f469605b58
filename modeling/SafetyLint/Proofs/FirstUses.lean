import SafetyLint.Config.Basic
import SafetyLint.Proofs.Preorder
import SafetyLint.Rules.DataScope
import SafetyLint.Tree.Build
import Mathlib.Order.Bounds.Defs

/-!
# Variables that are used late

The check for late uses makes two rounds through what stands below a function.  The first one finds
the assignments and notes the places of their targets, the second one finds the variables in other
places.  Here the same is said about the tree itself: `Assigns` of a node, and `ReadBelow`, which
follows children and leaves out the target of an assignment where it meets one.

A place is noted as a target exactly if the site there is the first child of an assignment
(`mem_targets_iff`), because below one root a place belongs to one site.  From that the reads that
the second round finds are those of the tree (`mem_reads_iff`), and `mem_firstUses_iff` puts both
together.  The main statement, `late_use_findings`, is about the findings on a function.
-/

namespace SafetyLint
namespace Rules
namespace DataScope

open SafetyLint.Tree Config

/-! ## Assignments and reads in a tree -/

/-- The node is an assignment to the variable itself, and starts on the line. -/
def Assigns (n : Node) (name : String) (line : Nat) : Prop :=
  ∃ span type targetSpan targetType value,
    n = .expr ⟨span, .assign ⟨targetSpan, .var name, targetType⟩ value, type⟩ ∧
      span.firstLine = line

/-- The children of a node, but for the target of an assignment. -/
def readParts : Node → List Node
  | .expr ⟨_, .assign _ value, _⟩ => [.expr value]
  | n => n.children

/-- The variable occurs below the node, on the line, and is not the target of an assignment
there. -/
inductive ReadBelow : Node → String → Nat → Prop
  | here {n : Node} {span : Span} {name : String} {type : Ty}
      (h : .expr ⟨span, .var name, type⟩ ∈ readParts n) : ReadBelow n name span.firstLine
  | deeper {n child : Node} {name : String} {line : Nat} (hchild : child ∈ n.children)
      (h : ReadBelow child name line) : ReadBelow n name line

/-- The first assignment to the variable below the node, in pre-order, starts on the line. -/
def FirstAssigned (root : Node) (name : String) (line : Nat) : Prop :=
  ∃ before n after, Walk.below root = before ++ n :: after ∧ Assigns n name line ∧
    ∀ m ∈ before, ∀ l, ¬ Assigns m name l

/-- Below the node the first variable is assigned to before the second one is. -/
def AssignedBefore (root : Node) (first second : String) : Prop :=
  ∃ before after, Walk.below root = before ++ after ∧ (∃ n ∈ before, ∃ l, Assigns n first l) ∧
    ∀ n ∈ before, ∀ l, ¬ Assigns n second l

/-- A variable that is assigned to and read below the node, with the line of the first assignment
and the least line of a read. -/
structure IsFirstUse (root : Node) (u : FirstUse) : Prop where
  name_ne : u.name ≠ "this"
  assigned : FirstAssigned root u.name u.assigned
  used : IsLeast {line | ReadBelow root u.name line} u.used

theorem not_assignedBefore_self (root : Node) (name : String) :
    ¬ AssignedBefore root name name := by
  rintro ⟨before, after, -, ⟨n, hn, line, hassigns⟩, hnone⟩
  exact hnone n hn line hassigns

/-! ## First pairs and least numbers -/

theorem firsts_cons (p : String × Nat) (l : List (String × Nat)) :
    firsts (p :: l) = p :: (firsts l).filter fun q => q.1 ≠ p.1 := rfl

/-- The first pairs are those that a search for their names finds. -/
theorem mem_firsts_iff {p : String × Nat} {l : List (String × Nat)} :
    p ∈ firsts l ↔ l.find? (fun q => q.1 = p.1) = some p := by
  induction l with
  | nil => simp [firsts]
  | cons a l ih =>
    rw [firsts_cons, List.mem_cons, List.mem_filter, ih, decide_eq_true_iff, List.find?_cons]
    by_cases hname : a.1 = p.1
    · rw [decide_eq_true hname, Option.some_inj, eq_comm (a := a)]
      exact or_iff_left fun h => h.2 hname.symm
    · rw [decide_eq_false hname, and_iff_left (Ne.symm hname)]
      exact or_iff_right fun h => hname (congrArg Prod.fst h.symm)

/-- The first pairs stand in the order in which their names come up. -/
theorem pairwise_firsts (l : List (String × Nat)) :
    (firsts l).Pairwise fun p q => ∃ before after, l = before ++ after ∧
      (∃ x ∈ before, x.1 = p.1) ∧ ∀ x ∈ before, x.1 ≠ q.1 := by
  induction l with
  | nil => exact List.Pairwise.nil
  | cons a l ih =>
    rw [firsts_cons, List.pairwise_cons]
    constructor
    · intro q hq
      have hne := of_decide_eq_true (List.mem_filter.mp hq).2
      exact ⟨[a], l, rfl, ⟨a, List.mem_singleton_self a, rfl⟩,
        List.forall_mem_singleton.mpr hne.symm⟩
    · refine (List.Pairwise.and_mem.mp (ih.filter _)).imp ?_
      rintro p q ⟨-, hq, before, after, rfl, ⟨x, hx, hxp⟩, hbefore⟩
      have hne := of_decide_eq_true (List.mem_filter.mp hq).2
      exact ⟨a :: before, after, rfl, ⟨x, List.mem_cons_of_mem a hx, hxp⟩,
        List.forall_mem_cons.mpr ⟨hne.symm, hbefore⟩⟩

theorem least?_eq_some_iff {name : String} {pairs : List (String × Nat)} {n : Nat} :
    least? name pairs = some n ↔ IsLeast {line | (name, line) ∈ pairs} n := by
  have hmem : ∀ line, line ∈ (pairs.filter fun p => p.1 = name).map Prod.snd ↔
      (name, line) ∈ pairs := by
    intro line
    simp [List.mem_map, List.mem_filter]
  rw [least?, List.min?_eq_some_iff, hmem]
  refine and_congr_right fun _ => forall_congr' fun line => ?_
  rw [hmem]
  rfl

/-! ## What the two rounds find -/

/-- The node is an assignment, to whatever. -/
def IsAssignment (n : Node) : Prop :=
  ∃ span target value type, n = .expr ⟨span, .assign target value, type⟩

theorem Assigns.isAssignment {n : Node} {name : String} {line : Nat} (h : Assigns n name line) :
    IsAssignment n := by
  obtain ⟨span, type, targetSpan, targetType, value, rfl, -⟩ := h
  exact ⟨span, _, value, type, rfl⟩

/-- The node is an occurrence of the variable, on the line. -/
def IsVariable (n : Node) (name : String) (line : Nat) : Prop :=
  ∃ span type, n = .expr ⟨span, .var name, type⟩ ∧ span.firstLine = line

theorem plainVar?_eq_some_iff {e : Expr} {name : String} :
    plainVar? e = some name ↔ name ≠ "this" ∧ e.kind = .var name := by
  obtain ⟨span, kind, type⟩ := e
  cases kind with
  | var v =>
    by_cases hv : v = "this"
    · simp only [plainVar?, if_pos hv, ExprKind.var.injEq]
      refine iff_of_false (fun h => by cases h) ?_
      rintro ⟨hname, rfl⟩
      exact hname hv
    · simp only [plainVar?, if_neg hv, Option.some_inj, ExprKind.var.injEq]
      refine ⟨?_, And.right⟩
      rintro rfl
      exact ⟨hv, rfl⟩
  | _ => simp [plainVar?]

theorem assigns_assign_iff {span : Span} {target value : Expr} {type : Ty} {name : String}
    {line : Nat} :
    Assigns (.expr ⟨span, .assign target value, type⟩) name line ↔
      target.kind = .var name ∧ span.firstLine = line := by
  constructor
  · rintro ⟨span', type', targetSpan, targetType, value', hnode, hline⟩
    cases hnode
    exact ⟨rfl, hline⟩
  · obtain ⟨targetSpan, kind, targetType⟩ := target
    rintro ⟨rfl, hline⟩
    exact ⟨span, type, targetSpan, targetType, value, rfl, hline⟩

theorem assignment?_eq_some_iff {s : Site} {name : String} {line : Nat} :
    assignment? s = some (name, line) ↔ name ≠ "this" ∧ Assigns s.node name line := by
  obtain ⟨place, node⟩ := s
  cases node with
  | expr e =>
    obtain ⟨span, kind, type⟩ := e
    cases kind with
    | assign target value =>
      show (plainVar? target).map (fun name => (name, span.firstLine)) = some (name, line) ↔ _
      simp only [Option.map_eq_some_iff, plainVar?_eq_some_iff, Prod.mk.injEq, assigns_assign_iff]
      constructor
      · rintro ⟨v, ⟨hname, hkind⟩, rfl, hline⟩
        exact ⟨hname, hkind, hline⟩
      · rintro ⟨hname, hkind, hline⟩
        exact ⟨name, ⟨hname, hkind⟩, rfl, hline⟩
    | _ =>
      refine iff_of_false (fun h => by cases h) fun h => ?_
      obtain ⟨_, _, _, _, hnode⟩ := h.2.isAssignment
      cases hnode
  | _ =>
    refine iff_of_false (fun h => by cases h) fun h => ?_
    obtain ⟨_, _, _, _, hnode⟩ := h.2.isAssignment
    cases hnode

theorem targetPlace?_eq_some_iff {s : Site} {place : Place} :
    targetPlace? s = some place ↔ IsAssignment s.node ∧ place = s.place.child 0 := by
  obtain ⟨own, node⟩ := s
  cases node with
  | expr e =>
    obtain ⟨span, kind, type⟩ := e
    cases kind with
    | assign target value =>
      show some (own.child 0) = some place ↔ _
      rw [Option.some_inj, eq_comm, and_iff_right ⟨span, target, value, type, rfl⟩]
    | _ => simp [targetPlace?, IsAssignment]
  | _ => simp [targetPlace?, IsAssignment]

theorem read?_eq_some_iff {targets : List Place} {s : Site} {name : String} {line : Nat} :
    read? targets s = some (name, line) ↔
      name ≠ "this" ∧ s.place ∉ targets ∧ IsVariable s.node name line := by
  rw [read?]
  by_cases htarget : s.place ∈ targets
  · rw [if_pos (List.contains_iff_mem.mpr htarget)]
    exact iff_of_false (fun h => by cases h) fun h => h.2.1 htarget
  · rw [if_neg (mt List.contains_iff_mem.mp htarget), and_iff_right htarget]
    obtain ⟨place, node⟩ := s
    cases node with
    | expr e =>
      obtain ⟨span, kind, type⟩ := e
      simp only [Option.map_eq_some_iff, plainVar?_eq_some_iff, Prod.mk.injEq, IsVariable]
      constructor
      · rintro ⟨v, ⟨hname, rfl⟩, rfl, hline⟩
        exact ⟨hname, span, type, rfl, hline⟩
      · rintro ⟨hname, span', type', hnode, hline⟩
        cases hnode
        exact ⟨name, ⟨hname, rfl⟩, rfl, hline⟩
    | _ => simp [IsVariable]

/-! ## Places of targets -/

theorem isOf_of_isAssignment {s : Site} (h : IsAssignment s.node) :
    Site.isOf [.assign, .var] s = true := by
  obtain ⟨place, node⟩ := s
  obtain ⟨span, target, value, type, rfl⟩ := h
  rfl

theorem isOf_of_isVariable {s : Site} {name : String} {line : Nat}
    (h : IsVariable s.node name line) : Site.isOf [.assign, .var] s = true := by
  obtain ⟨place, node⟩ := s
  obtain ⟨span, type, rfl, -⟩ := h
  rfl

/-- What only assignments and variables answer may be asked of everything below a site. -/
theorem filterMap_collect {β : Type} {f : Site → Option β}
    (hf : ∀ s b, f s = some b → Site.isOf [.assign, .var] s = true) (root : Site) :
    (Walk.collect (Site.isOf [.assign, .var]) root).filterMap f =
      (Walk.below root).filterMap f := by
  rw [Walk.collect_eq_filter, List.filterMap_filter]
  refine List.filterMap_congr fun s _ => ?_
  cases hs : f s with
  | none => exact ite_self none
  | some b => exact if_pos (hf s b hs)

/-- The places of the targets of the assignments below a site. -/
def targets (root : Site) : List Place := (Walk.below root).filterMap targetPlace?

theorem mem_targets_iff {root : Site} {place : Place} :
    place ∈ targets root ↔
      ∃ p ∈ Walk.below root, IsAssignment p.node ∧ place = p.place.child 0 := by
  rw [targets, List.mem_filterMap]
  exact exists_congr fun p => and_congr_right fun _ => targetPlace?_eq_some_iff

theorem readParts_of_not_isAssignment {n : Node} (h : ¬ IsAssignment n) :
    readParts n = n.children := by
  cases n with
  | expr e =>
    obtain ⟨span, kind, type⟩ := e
    cases kind with
    | assign target value => exact absurd ⟨span, target, value, type, rfl⟩ h
    | _ => rfl
  | _ => rfl

section Root

variable {root p : Site} (hroot : ¬ IsAssignment root.node) (hp : p ∈ Walk.preorder root)
include hroot hp

/-- A place below a root is noted as a target if it is the first one below an assignment. -/
theorem mem_targets_iff_of_mem_children {s : Site} (hs : s ∈ Walk.Branching.children p) :
    s.place ∈ targets root ↔ IsAssignment p.node ∧ s.place = p.place.child 0 := by
  rw [mem_targets_iff]
  constructor
  · rintro ⟨q, hq, hassignment, hplace⟩
    obtain ⟨i, -, hchild⟩ := Site.mem_children_iff.mp hs
    have hq' : q ∈ Walk.preorder root := by
      rw [Walk.preorder_eq]
      exact List.mem_cons_of_mem root hq
    obtain rfl : p = q :=
      Site.eq_of_place_eq hp hq' (Place.child_inj.mp (hchild.symm.trans hplace)).1
    exact ⟨hassignment, hplace⟩
  · rintro ⟨hassignment, hplace⟩
    rw [Walk.preorder_eq, List.mem_cons] at hp
    rcases hp with rfl | hbelow
    · -- only what stands below the root is looked at, so the root must not be an assignment
      exact absurd hassignment hroot
    · exact ⟨p, hbelow, hassignment, hplace⟩

/-- The children in places that are not noted are those apart from the target of an assignment. -/
theorem mem_readParts_iff {n : Node} :
    n ∈ readParts p.node ↔
      ∃ s ∈ Walk.Branching.children p, s.place ∉ targets root ∧ s.node = n := by
  have htargets := fun s (hs : s ∈ Walk.Branching.children p) =>
    mem_targets_iff_of_mem_children hroot hp hs
  by_cases hassignment : IsAssignment p.node
  · obtain ⟨place, node⟩ := p
    obtain ⟨span, target, value, type, hnode⟩ := hassignment
    obtain rfl : node = .expr ⟨span, .assign target value, type⟩ := hnode
    have hchildren : Walk.Branching.children
          (⟨place, .expr ⟨span, .assign target value, type⟩⟩ : Site) =
        [⟨place.child 0, .expr target⟩, ⟨place.child 1, .expr value⟩] := rfl
    rw [hchildren] at htargets ⊢
    -- the value stands next to the target, in a place that no assignment notes
    have hother : place.child 1 ≠ place.child 0 := fun h =>
      Nat.one_ne_zero (Place.child_inj.mp h).2
    have hvalue : place.child 1 ∉ targets root := fun h =>
      hother ((htargets ⟨place.child 1, .expr value⟩ (by simp)).mp h).2
    have htarget : place.child 0 ∈ targets root :=
      (htargets ⟨place.child 0, .expr target⟩ (by simp)).mpr ⟨⟨_, _, _, _, rfl⟩, rfl⟩
    simp [readParts, htarget, hvalue, eq_comm]
  · have hnone : ∀ s ∈ Walk.Branching.children p, s.place ∉ targets root := fun s hs h =>
      hassignment ((htargets s hs).mp h).1
    rw [readParts_of_not_isAssignment hassignment, ← Site.map_node_children, List.mem_map]
    exact exists_congr fun s => and_congr_right fun hs => (and_iff_right (hnone s hs)).symm

/-- What is read below a node, found at the sites whose places are not noted. -/
theorem readBelow_iff {name : String} {line : Nat} :
    ReadBelow p.node name line ↔
      ∃ s ∈ Walk.below p, s.place ∉ targets root ∧ IsVariable s.node name line := by
  induction p using Walk.induct with
  | step p ih =>
    have hbelow : ∀ s : Site, s ∈ Walk.below p ↔
        ∃ c ∈ Walk.Branching.children p, s = c ∨ s ∈ Walk.below c := by
      intro s
      rw [Walk.below, List.mem_flatMap]
      exact exists_congr fun c => and_congr_right fun _ => by
        rw [Walk.preorder_eq, List.mem_cons]
    have hchild : ∀ c ∈ Walk.Branching.children p, c ∈ Walk.preorder root := fun c hc =>
      Walk.mem_preorder_trans hp (Walk.mem_preorder_of_mem_children hc)
    constructor
    · intro hread
      cases hread with
      | here h =>
        obtain ⟨s, hs, hplace, hnode⟩ := (mem_readParts_iff hroot hp).mp h
        exact ⟨s, (hbelow s).mpr ⟨s, hs, Or.inl rfl⟩, hplace, _, _, hnode, rfl⟩
      | deeper hmem h =>
        rw [← Site.map_node_children, List.mem_map] at hmem
        obtain ⟨c, hc, rfl⟩ := hmem
        obtain ⟨s, hs, hfound⟩ := (ih c hc (hchild c hc)).mp h
        exact ⟨s, (hbelow s).mpr ⟨c, hc, Or.inr hs⟩, hfound⟩
    · rintro ⟨s, hs, hplace, hvariable⟩
      obtain ⟨c, hc, rfl | hs⟩ := (hbelow s).mp hs
      · obtain ⟨span, type, hnode, rfl⟩ := hvariable
        exact .here ((mem_readParts_iff hroot hp).mpr ⟨s, hc, hplace, hnode⟩)
      · have hmem : c.node ∈ p.node.children := by
          rw [← Site.map_node_children]
          exact List.mem_map_of_mem hc
        exact .deeper hmem ((ih c hc (hchild c hc)).mpr ⟨s, hs, hplace, hvariable⟩)

end Root

/-! ## First uses -/

/-- The assignments to variables below a site, with names and lines. -/
def assignments (root : Site) : List (String × Nat) := (Walk.below root).filterMap assignment?

/-- The variables below a site in places that are not noted, with names and lines. -/
def reads (root : Site) : List (String × Nat) := (Walk.below root).filterMap (read? (targets root))

theorem firstUses_eq (root : Site) :
    firstUses root = (firsts (assignments root)).filterMap fun p =>
      (least? p.1 (reads root)).map fun used => ⟨p.1, p.2, used⟩ := by
  have htargets : ∀ s place, targetPlace? s = some place → Site.isOf [.assign, .var] s = true :=
    fun s place h => isOf_of_isAssignment (targetPlace?_eq_some_iff.mp h).1
  have hassignments : ∀ s p, assignment? s = some p → Site.isOf [.assign, .var] s = true :=
    fun s p h => isOf_of_isAssignment (assignment?_eq_some_iff.mp h).2.isAssignment
  have hreads : ∀ s p, read? (targets root) s = some p → Site.isOf [.assign, .var] s = true :=
    fun s p h => isOf_of_isVariable (read?_eq_some_iff.mp h).2.2
  rw [firstUses, filterMap_collect htargets, filterMap_collect hassignments, ← targets,
    filterMap_collect hreads]
  rfl

theorem mem_reads_iff {root : Site} (hroot : ¬ IsAssignment root.node) {name : String}
    {line : Nat} : (name, line) ∈ reads root ↔ name ≠ "this" ∧ ReadBelow root.node name line := by
  rw [reads, List.mem_filterMap, readBelow_iff hroot (Walk.self_mem_preorder root)]
  simp only [read?_eq_some_iff]
  constructor
  · rintro ⟨s, hs, hname, hfound⟩
    exact ⟨hname, s, hs, hfound⟩
  · rintro ⟨hname, s, hs, hfound⟩
    exact ⟨s, hs, hname, hfound⟩

theorem map_node_below (root : Site) : (Walk.below root).map Site.node = Walk.below root.node :=
  Walk.map_below Site.node Site.map_node_children root

/-- The node at the site assigns to the variable. -/
theorem any_assignment?_iff {name : String} (hname : name ≠ "this") {s : Site} :
    ((assignment? s).any fun q => q.1 = name) = true ↔ ∃ line, Assigns s.node name line := by
  rw [Option.any_eq_true]
  constructor
  · rintro ⟨⟨v, line⟩, hs, hv⟩
    obtain rfl : v = name := of_decide_eq_true hv
    exact ⟨line, (assignment?_eq_some_iff.mp hs).2⟩
  · rintro ⟨line, hassigns⟩
    exact ⟨(name, line), assignment?_eq_some_iff.mpr ⟨hname, hassigns⟩, decide_eq_true rfl⟩

/-- None of the nodes at the sites assigns to the variable. -/
theorem forall_not_assigns_iff {name : String} (hname : name ≠ "this") {sites : List Site} :
    (∀ s ∈ sites, (!(assignment? s).any fun q => q.1 = name) = true) ↔
      ∀ n ∈ sites.map Site.node, ∀ line, ¬ Assigns n name line := by
  rw [List.forall_mem_map]
  refine forall_congr' fun s => forall_congr' fun _ => ?_
  rw [Bool.not_eq_true', ← Bool.not_eq_true, any_assignment?_iff hname, not_exists]

theorem mem_firsts_assignments_iff {root : Site} {name : String} {line : Nat} :
    (name, line) ∈ firsts (assignments root) ↔
      name ≠ "this" ∧ FirstAssigned root.node name line := by
  rw [mem_firsts_iff, assignments, List.find?_filterMap, Option.bind_eq_some_iff, FirstAssigned,
    ← map_node_below]
  simp only [List.find?_eq_some_iff_append]
  constructor
  · rintro ⟨s, ⟨-, before, after, hbelow, hbefore⟩, hs⟩
    obtain ⟨hname, hassigns⟩ := assignment?_eq_some_iff.mp hs
    refine ⟨hname, before.map Site.node, s.node, after.map Site.node, ?_, hassigns,
      (forall_not_assigns_iff hname).mp hbefore⟩
    rw [hbelow, List.map_append, List.map_cons]
  · rintro ⟨hname, before, n, after, hbelow, hassigns, hbefore⟩
    obtain ⟨before, rest, hsites, rfl, hrest⟩ := List.map_eq_append_iff.mp hbelow
    obtain ⟨s, after, rfl, rfl, -⟩ := List.map_eq_cons_iff.mp hrest
    exact ⟨s, ⟨(any_assignment?_iff hname).mpr ⟨line, hassigns⟩, before, after, hsites,
      (forall_not_assigns_iff hname).mpr hbefore⟩, assignment?_eq_some_iff.mpr ⟨hname, hassigns⟩⟩

theorem pairwise_firsts_assignments (root : Site) :
    (firsts (assignments root)).Pairwise fun p q => AssignedBefore root.node p.1 q.1 := by
  refine (List.Pairwise.and_mem.mp (pairwise_firsts (assignments root))).imp ?_
  rintro ⟨name, line⟩ ⟨other, line'⟩ ⟨-, hother, before, after, hsplit, ⟨x, hx, hxname⟩, hbefore⟩
  have hname : other ≠ "this" := (mem_firsts_assignments_iff.mp hother).1
  obtain ⟨sites, rest, hsites, rfl, -⟩ := List.filterMap_eq_append_iff.mp hsplit
  refine ⟨sites.map Site.node, rest.map Site.node, ?_, ?_, ?_⟩
  · rw [← map_node_below, hsites, List.map_append]
  · obtain ⟨s, hs, hassigns⟩ := List.mem_filterMap.mp hx
    obtain rfl : x.1 = name := hxname
    exact ⟨s.node, List.mem_map_of_mem hs, x.2, (assignment?_eq_some_iff.mp hassigns).2⟩
  · refine (forall_not_assigns_iff hname).mp fun s hs => ?_
    rw [Bool.not_eq_true', ← Bool.not_eq_true, Option.any_eq_true]
    rintro ⟨q, hq, hqname⟩
    exact hbefore q (List.mem_filterMap.mpr ⟨s, hs, hq⟩) (of_decide_eq_true hqname)

/-- What is found as a first use is one. -/
theorem mem_firstUses_iff {root : Site} (hroot : ¬ IsAssignment root.node) {u : FirstUse} :
    u ∈ firstUses root ↔ IsFirstUse root.node u := by
  obtain ⟨name, assigned, used⟩ := u
  have hused : ∀ name, name ≠ "this" → ∀ used, least? name (reads root) = some used ↔
      IsLeast {line | ReadBelow root.node name line} used := by
    intro name hname used
    have hset : {line | (name, line) ∈ reads root} = {line | ReadBelow root.node name line} :=
      Set.ext fun line => (mem_reads_iff hroot).trans (and_iff_right hname)
    rw [least?_eq_some_iff, hset]
  rw [firstUses_eq, List.mem_filterMap]
  simp only [Option.map_eq_some_iff, FirstUse.mk.injEq]
  constructor
  · rintro ⟨⟨v, line⟩, hfirst, least, hleast, rfl, rfl, rfl⟩
    obtain ⟨hname, hassigned⟩ := mem_firsts_assignments_iff.mp hfirst
    exact ⟨hname, hassigned, (hused v hname least).mp hleast⟩
  · rintro ⟨hname, hassigned, hleast⟩
    exact ⟨(name, assigned), mem_firsts_assignments_iff.mpr ⟨hname, hassigned⟩, used,
      (hused name hname used).mpr hleast, rfl, rfl, rfl⟩

theorem pairwise_firstUses (root : Site) :
    (firstUses root).Pairwise fun u w => AssignedBefore root.node u.name w.name := by
  rw [firstUses_eq]
  refine (pairwise_firsts_assignments root).filterMap _ ?_
  rintro p q hbefore u hu w hw
  obtain ⟨least, -, rfl⟩ := Option.map_eq_some_iff.mp hu
  obtain ⟨least', -, rfl⟩ := Option.map_eq_some_iff.mp hw
  exact hbefore

/-! ## Findings about late uses -/

/-- What is found on a function or method that has a body, with any settings: one finding for each
of some variables.

* They are the variables that are assigned to and read below the function and whose first read, by
  lines, comes more lines after the first assignment, in pre-order, than is allowed.
* They stand in the order of their first assignments, and no name comes twice.

Each finding is placed on the line of the first assignment, and its message gives the name, the
distance and both lines. -/
theorem late_use_findings (settings : Settings) {site : Site} {decl : FunctionDecl}
    (hnode : site.node = .function decl ∨ site.node = .method decl)
    (hbody : decl.body.isSome = true) (c : Context) :
    ∃ uses : List FirstUse,
      dataScope.check settings site c =
        (.ok (uses.map fun u => c.finding info u.assigned (lateMessage settings decl u)), c) ∧
      (∀ u, u ∈ uses ↔ IsFirstUse site.node u ∧ u.assigned ≤ u.used ∧
        settings.maxLinesToFirstUse < u.used - u.assigned) ∧
      uses.Pairwise (fun u w => AssignedBefore site.node u.name w.name) ∧
      (uses.map FirstUse.name).Nodup := by
  have hroot : ¬ IsAssignment site.node := by
    rintro ⟨_, _, _, _, hassignment⟩
    rcases hnode with h | h <;> cases h.symm.trans hassignment
  have hcheck : dataScope.check settings site c = (.ok (lateFindings settings site c decl), c) := by
    show Rule.plain findings settings site c = _
    rw [Rule.plain_apply, findings]
    rcases hnode with h | h <;> rw [h]
  have hsome : decl.body.isNone = false := by rw [← Option.not_isSome, hbody, Bool.not_true]
  have hordered := (pairwise_firstUses site).filter (isLate settings)
  refine ⟨(firstUses site).filter (isLate settings), ?_, fun u => ?_, hordered, ?_⟩
  · rw [hcheck, lateFindings, hsome]
    rfl
  · rw [List.mem_filter, mem_firstUses_iff hroot, isLate, Bool.and_eq_true, decide_eq_true_iff,
      decide_eq_true_iff]
  · rw [List.Nodup, List.pairwise_map]
    refine hordered.imp fun {u w} hbefore hname => ?_
    exact not_assignedBefore_self _ _ (hname ▸ hbefore)

/-- The assignment `$x = 1` on line 2, whose target is on line 1. -/
def setX : Expr :=
  (Expr.ofKind (.assign (.ofKind (.var "x")) (.ofKind (.literal (.int 1))))).onLine 2

/-- The variable `$x` on line 20. -/
def readX : Expr := (Expr.ofKind (.var "x")).onLine 20

/-- A function that sets a variable and returns it. -/
def lateReturn : FunctionDecl :=
  (FunctionDecl.named "f" 1 21).withBody
    [.ofKind (.expression setX), .ofKind (.returnValue (some readX))]

theorem below_lateReturn :
    Walk.below (⟨.root 0, .function lateReturn⟩ : Site) =
      [⟨⟨0, [0]⟩, .stmt (.ofKind (.expression setX))⟩, ⟨⟨0, [0, 0]⟩, .expr setX⟩,
        ⟨⟨0, [0, 0, 0]⟩, .expr (.ofKind (.var "x"))⟩,
        ⟨⟨0, [1, 0, 0]⟩, .expr (.ofKind (.literal (.int 1)))⟩,
        ⟨⟨0, [1]⟩, .stmt (.ofKind (.returnValue (some readX)))⟩, ⟨⟨0, [0, 1]⟩, .expr readX⟩] := by
  show ([⟨⟨0, [0]⟩, .stmt (.ofKind (.expression setX))⟩,
    ⟨⟨0, [1]⟩, .stmt (.ofKind (.returnValue (some readX)))⟩] : List Site).flatMap Walk.preorder = _
  have hset : Walk.preorder (⟨⟨0, [0, 0]⟩, .expr setX⟩ : Site) =
      ⟨⟨0, [0, 0]⟩, .expr setX⟩ :: ([⟨⟨0, [0, 0, 0]⟩, .expr (.ofKind (.var "x"))⟩,
        ⟨⟨0, [1, 0, 0]⟩, .expr (.ofKind (.literal (.int 1)))⟩] : List Site).flatMap
          Walk.preorder := Walk.preorder_cons _
  rw [List.flatMap_cons, List.flatMap_singleton,
    Walk.preorder_of_children_eq_singleton (c := ⟨⟨0, [0, 0]⟩, .expr setX⟩) rfl, hset,
    Walk.preorder_of_children_eq_singleton (c := ⟨⟨0, [0, 1]⟩, .expr readX⟩) rfl,
    List.flatMap_cons, List.flatMap_singleton, Walk.preorder_of_children_eq_nil rfl,
    Walk.preorder_of_children_eq_nil rfl, Walk.preorder_of_children_eq_nil rfl]
  rfl

/-- The variable is reported, though it also stands as a target on line 1. -/
theorem late_use_findings_lateReturn :
    lateReturn.body.isSome = true ∧
      ∃ uses : List FirstUse,
        dataScope.check .default ⟨.root 0, .function lateReturn⟩ .empty =
          (.ok (uses.map fun u => Context.empty.finding info u.assigned
            (lateMessage .default lateReturn u)), .empty) ∧
        ⟨"x", 2, 20⟩ ∈ uses := by
  have hbody : lateReturn.body.isSome = true := rfl
  have hnode : (⟨.root 0, .function lateReturn⟩ : Site).node = .function lateReturn ∨
      (⟨.root 0, .function lateReturn⟩ : Site).node = .method lateReturn := Or.inl rfl
  obtain ⟨uses, hcheck, huses, -⟩ := late_use_findings .default hnode hbody .empty
  have hroot : ¬ IsAssignment (⟨.root 0, .function lateReturn⟩ : Site).node := by
    rintro ⟨_, _, _, _, hassignment⟩
    cases hassignment
  have hfirst : IsFirstUse (.function lateReturn) ⟨"x", 2, 20⟩ := by
    refine (mem_firstUses_iff hroot).mp ?_
    rw [firstUses_eq, assignments, reads, targets, below_lateReturn]
    exact List.mem_singleton_self _
  exact ⟨hbody, uses, hcheck, (huses _).mpr ⟨hfirst, by decide, by decide⟩⟩

end DataScope
end Rules
end SafetyLint
