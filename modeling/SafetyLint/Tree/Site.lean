import SafetyLint.Tree.Node
import SafetyLint.Walk.Basic

/-!
# Sites

Two nodes of a tree may be equal and still stand in different places.  A site is a node together
with its place: the file it belongs to and the trail of child numbers that leads to it.  Rules that
have to remember single nodes remember sites.
-/

namespace SafetyLint
namespace Tree

instance : Walk.Branching Node where
  children := Node.children
  exists_weight := ⟨Node.weight, Node.sum_weight_children_lt⟩

/-- The place of a node: the number of its file in a run, and the child numbers on the way from the
file to the node, last step first. -/
structure Place where
  file : Nat
  trail : List Nat
  deriving DecidableEq, Repr, Inhabited

namespace Place

/-- The place of a whole file. -/
def root (file : Nat) : Place := ⟨file, []⟩

/-- The place of child number `i`. -/
def child (p : Place) (i : Nat) : Place := ⟨p.file, i :: p.trail⟩

end Place

/-- A node in its place. -/
structure Site where
  place : Place
  node : Node

namespace Site

/-- The site of a whole file, number `i` of its run. -/
def ofFile (i : Nat) (f : SourceFile) : Site := ⟨Place.root i, .file f⟩

/-- The children of a site. -/
def children (s : Site) : List Site :=
  s.node.children.mapIdx fun i c => ⟨s.place.child i, c⟩

@[simp] theorem map_node_children (s : Site) : s.children.map Site.node = s.node.children := by
  simp [children, List.mapIdx_eq_zipIdx_map, Function.comp_def]

/-- The site at the end of a path of child numbers. -/
def descend (s : Site) : List Nat → Option Site
  | [] => some s
  | i :: rest =>
    match s.children[i]? with
    | some c => c.descend rest
    | none => none

end Site

instance : Walk.Branching Site where
  children := Site.children
  exists_weight := by
    refine ⟨fun s => s.node.weight, fun s => ?_⟩
    have h := Node.sum_weight_children_lt s.node
    rwa [Node.totalWeight, ← Site.map_node_children s, total_map] at h

/-- The site is of one of the kinds. -/
def Site.isOf (kinds : List NodeKind) (s : Site) : Bool := kinds.contains s.node.kind

/-- The node is of one of the kinds. -/
def Node.isOf (kinds : List NodeKind) (n : Node) : Bool := kinds.contains n.kind

end Tree
end SafetyLint
