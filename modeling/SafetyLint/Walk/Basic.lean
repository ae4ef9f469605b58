import SafetyLint.Total

/-!
# Walks in pre-order

Something branches when every element has a list of children and the children of an element are
together lighter than the element, for some weight.  Over such a structure the elements below a
root have an order, parents before children and earlier children first: `preorder` and `below` give
it as a list.

`walk` meets the same elements in the same order with an explicit stack, threads a state through
them and stops at the first element at which the visitor says so.  The rules query the tree with
`collect`, `collectIn` and `occurs`, which are all built from `walk`.
-/

namespace SafetyLint
namespace Walk

/-- A type whose elements have children, with a weight under which the children of an element are
together lighter than the element. -/
class Branching (α : Type) where
  children : α → List α
  exists_weight : ∃ weight : α → Nat, ∀ a, total weight (children a) < weight a

variable {α : Type} [Branching α]

/-- A weight under which walks come to an end. -/
noncomputable def weight : α → Nat := Classical.choose Branching.exists_weight

theorem total_weight_children_lt (a : α) : total weight (Branching.children a) < weight a :=
  Classical.choose_spec (@Branching.exists_weight α _) a

theorem weight_lt_of_mem_children {c a : α} (h : c ∈ Branching.children a) :
    weight c < weight a :=
  Nat.lt_of_le_of_lt (le_total_of_mem weight h) (total_weight_children_lt a)

/-! ## The order -/

/-- The element and everything below it, parents first. -/
def preorder (a : α) : List α :=
  a :: (Branching.children a).attach.flatMap fun c => preorder c.1
termination_by weight a
decreasing_by exact weight_lt_of_mem_children c.2

/-- Everything below the element, without the element itself. -/
def below (a : α) : List α := (Branching.children a).flatMap preorder

theorem preorder_eq (a : α) : preorder a = a :: below a := by
  rw [preorder, below]
  congr 1
  simp [List.flatMap_subtype]

/-! ## Walking with a stack -/

/-- The weight of a stack is that of its top and that of the rest. -/
theorem total_weight_of_back? {stack : Array α} {a : α} (h : stack.back? = some a) :
    total weight stack.toList = total weight stack.pop.toList + weight a := by
  obtain ⟨rest, rfl⟩ := Array.back?_eq_some_iff.mp h
  simp

/-- Visits the elements on a stack and everything below them.  The top of the stack is its end, so
children go on it last one first.  The visitor gets the state and an element, and says whether to
stop and what the state is then. -/
def walkStack {σ : Type} (visit : σ → α → Bool × σ) (s : σ) (stack : Array α) : Bool × σ :=
  match _h : stack.back? with
  | none => (false, s)
  | some a =>
    match visit s a with
    | (true, s') => (true, s')
    | (false, s') => walkStack visit s' (stack.pop ++ (Branching.children a).reverse)
termination_by total weight stack.toList
decreasing_by
  have hstack := total_weight_of_back? _h
  have hchildren := total_weight_children_lt a
  have hreverse := total_reverse weight (Branching.children a)
  simp only [Array.toList_appendList, total_append]
  omega

/-- Visits everything below `root` in pre-order until the visitor says stop; tells whether it did,
and the last state. -/
def walk {σ : Type} (root : α) (visit : σ → α → Bool × σ) (s : σ) : Bool × σ :=
  walkStack visit s (Branching.children root).reverse.toArray

/-- Everything below `root` that satisfies `p`. -/
def collect (p : α → Bool) (root : α) : List α :=
  (walk root (fun found a => (false, if p a then a :: found else found)) []).2.reverse

/-- Everything among the roots and below them that satisfies `p`. -/
def collectIn (p : α → Bool) (roots : List α) : List α :=
  roots.flatMap fun root => if p root then root :: collect p root else collect p root

/-- Something below `root` satisfies `p`. -/
def occurs (p : α → Bool) (root : α) : Bool :=
  (walk root (fun _ a => (p a, ())) ()).1

end Walk
end SafetyLint
