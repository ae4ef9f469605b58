import SafetyLint.Tree.Site
import Mathlib.Data.List.Nodup

/-!
# Everything below a root

What `Walk.preorder` lists is closed under children, and everything in it but the root is the child
of something in it.  Proofs about whole trees go by `Walk.induct`: what passes from the children of
an element to the element holds of every element.  A walk with a stack goes through the same list
(`Walk.walk_eq_offer`), and so do the searches that are made of walks (`Walk.occurs_eq_any`,
`Walk.collect_eq_filter`).

The places of sites are made for identity.  `Place.Within p` holds of the places at and below `p`;
the sites below a root all stand within its place, different children open disjoint regions
(`Place.child_inj_of_within`, `Site.pairwise_children`), and below one root a place belongs to one
site (`Site.eq_of_place_eq`) and is listed once (`Site.nodup_places`).
-/

namespace SafetyLint

namespace Walk

variable {α : Type} [Branching α]

/-- What passes from the children of an element to the element holds of every element. -/
theorem induct {motive : α → Prop}
    (step : ∀ a, (∀ c ∈ Branching.children a, motive c) → motive a) (a : α) : motive a :=
  step a fun c _hc => induct step c
termination_by weight a
decreasing_by exact weight_lt_of_mem_children _hc

theorem preorder_cons (a : α) : preorder a = a :: (Branching.children a).flatMap preorder := by
  rw [preorder_eq, below]

theorem preorder_of_children_eq_nil {a : α} (h : Branching.children a = []) :
    preorder a = [a] := by
  rw [preorder_cons, h, List.flatMap_nil]

theorem preorder_of_children_eq_singleton {a c : α} (h : Branching.children a = [c]) :
    preorder a = a :: preorder c := by
  rw [preorder_cons, h, List.flatMap_singleton]

theorem self_mem_preorder (a : α) : a ∈ preorder a := by
  rw [preorder_cons]
  exact List.mem_cons_self ..

theorem mem_preorder_iff {a b : α} :
    b ∈ preorder a ↔ b = a ∨ ∃ c ∈ Branching.children a, b ∈ preorder c := by
  rw [preorder_cons, List.mem_cons, List.mem_flatMap]

theorem forall_mem_preorder {P : α → Prop} {a : α} :
    (∀ b ∈ preorder a, P b) ↔ P a ∧ ∀ c ∈ Branching.children a, ∀ b ∈ preorder c, P b := by
  rw [preorder_cons, List.forall_mem_cons, List.forall_mem_flatMap]

theorem mem_preorder_of_mem_children {a c : α} (h : c ∈ Branching.children a) : c ∈ preorder a :=
  mem_preorder_iff.mpr (Or.inr ⟨c, h, self_mem_preorder c⟩)

theorem mem_preorder_trans {a b c : α} (hab : b ∈ preorder a) (hbc : c ∈ preorder b) :
    c ∈ preorder a := by
  induction a using induct with
  | step a ih =>
    rcases mem_preorder_iff.mp hab with rfl | ⟨child, hchild, hb⟩
    · exact hbc
    · exact mem_preorder_iff.mpr (Or.inr ⟨child, hchild, ih child hchild hb⟩)

/-- Everything below a root is the child of something that is not above the root. -/
theorem exists_parent_of_mem_preorder {a b : α} (h : b ∈ preorder a) :
    b = a ∨ ∃ p ∈ preorder a, b ∈ Branching.children p := by
  induction a using induct with
  | step a ih =>
    rcases mem_preorder_iff.mp h with rfl | ⟨child, hchild, hb⟩
    · exact Or.inl rfl
    · rcases ih child hchild hb with rfl | ⟨p, hp, hbp⟩
      · exact Or.inr ⟨a, self_mem_preorder a, hchild⟩
      · exact Or.inr ⟨p, mem_preorder_trans (mem_preorder_of_mem_children hchild) hp, hbp⟩

/-- A map that takes children to children takes the order below an element to the order below its
image. -/
theorem map_preorder {β : Type} [Branching β] (f : α → β)
    (hf : ∀ a, (Branching.children a).map f = Branching.children (f a)) (a : α) :
    (preorder a).map f = preorder (f a) := by
  induction a using induct with
  | step a ih =>
    rw [preorder_cons, preorder_cons, List.map_cons, ← hf, List.map_flatMap, List.flatMap_map]
    exact congrArg (f a :: ·) (List.flatMap_congr ih)

/-! ### Walks with a stack -/

/-- Shows the elements of a list to a visitor, one after the other, until it says stop; tells whether
it did, and the last state. -/
def offer {σ : Type} (visit : σ → α → Bool × σ) : σ → List α → Bool × σ
  | s, [] => (false, s)
  | s, a :: rest =>
    match visit s a with
    | (true, s') => (true, s')
    | (false, s') => offer visit s' rest

omit [Branching α] in
theorem offer_of_never_stops {σ : Type} (f : σ → α → σ) (s : σ) (as : List α) :
    offer (fun s a => (false, f s a)) s as = (false, as.foldl f s) := by
  induction as generalizing s with
  | nil => rfl
  | cons a rest ih => exact ih (f s a)

omit [Branching α] in
theorem fst_offer_of_stateless (p : α → Bool) (as : List α) :
    (offer (fun (_ : Unit) a => (p a, ())) () as).1 = as.any p := by
  induction as with
  | nil => rfl
  | cons a rest ih =>
    rw [offer, List.any_cons]
    cases p a with
    | true => rfl
    | false => exact ih

/-- What comes off a stack after its top is the children of the top and then the rest. -/
theorem flatMap_preorder_push (rest : Array α) (a : α) :
    (rest.push a).toList.reverse.flatMap preorder =
      a :: (rest ++ (Branching.children a).reverse).toList.reverse.flatMap preorder := by
  rw [Array.toList_push, List.reverse_append, List.reverse_singleton, List.singleton_append,
    List.flatMap_cons, preorder_cons, List.cons_append, Array.toList_appendList,
    List.reverse_append, List.reverse_reverse, List.flatMap_append]

/-- What is on a stack is shown from the top on, each element with everything below it. -/
theorem walkStack_eq_offer {σ : Type} (visit : σ → α → Bool × σ) (s : σ) (stack : Array α) :
    walkStack visit s stack = offer visit s (stack.toList.reverse.flatMap preorder) := by
  fun_induction walkStack visit s stack with
  | case1 s stack h =>
    rw [Array.back?_eq_none_iff.mp h]
    rfl
  | case2 s stack a h s' hvisit =>
    obtain ⟨rest, rfl⟩ := Array.back?_eq_some_iff.mp h
    rw [flatMap_preorder_push, offer, hvisit]
  | case3 s stack a h s' hvisit ih =>
    obtain ⟨rest, rfl⟩ := Array.back?_eq_some_iff.mp h
    rw [Array.pop_push] at ih
    rw [flatMap_preorder_push, offer, hvisit, Array.pop_push, ih]

/-- A walk shows what is below its root. -/
theorem walk_eq_offer {σ : Type} (root : α) (visit : σ → α → Bool × σ) (s : σ) :
    walk root visit s = offer visit s (below root) := by
  rw [walk, walkStack_eq_offer, List.toList_toArray, List.reverse_reverse, below]

theorem occurs_eq_any (p : α → Bool) (root : α) : occurs p root = (below root).any p := by
  rw [occurs, walk_eq_offer, fst_offer_of_stateless]

omit [Branching α] in
theorem foldl_push_eq (p : α → Bool) (as found : List α) :
    as.foldl (fun found a => if p a then a :: found else found) found =
      (as.filter p).reverse ++ found := by
  induction as generalizing found with
  | nil => rfl
  | cons a rest ih => by_cases h : p a = true <;> simp [ih, h]

theorem collect_eq_filter (p : α → Bool) (root : α) : collect p root = (below root).filter p := by
  rw [collect, walk_eq_offer, offer_of_never_stops, foldl_push_eq, List.append_nil,
    List.reverse_reverse]

section Map

variable {β : Type} [Branching β] (f : α → β)
  (hf : ∀ a, (Branching.children a).map f = Branching.children (f a)) {p : α → Bool}
  {q : β → Bool} (hq : ∀ a, q (f a) = p a)
include hf

/-- A map that takes children to children takes what is below an element to what is below its
image. -/
theorem map_below (root : α) : (below root).map f = below (f root) := by
  rw [below, below, ← hf, List.map_flatMap, List.flatMap_map]
  exact List.flatMap_congr fun a _ => map_preorder f hf a

include hq

/-- It takes what is collected to what is collected. -/
theorem map_collect (root : α) : (collect p root).map f = collect q (f root) := by
  have hp : q ∘ f = p := funext hq
  rw [collect_eq_filter, collect_eq_filter, ← map_below f hf, List.filter_map, hp]

/-- It neither makes nor loses what is searched for. -/
theorem occurs_map (root : α) : occurs q (f root) = occurs p root := by
  have hp : q ∘ f = p := funext hq
  rw [occurs_eq_any, occurs_eq_any, ← map_below f hf, List.any_map, hp]

end Map

end Walk

namespace Tree

/-! ## Places -/

namespace Place

/-- The place `q` is `p` or below it. -/
def Within (p q : Place) : Prop := q.file = p.file ∧ p.trail <:+ q.trail

instance (p q : Place) : Decidable (p.Within q) := inferInstanceAs (Decidable (_ ∧ _))

theorem within_self (p : Place) : p.Within p := ⟨rfl, List.suffix_refl _⟩

theorem within_child (p : Place) (i : Nat) : p.Within (p.child i) :=
  ⟨rfl, List.suffix_cons ..⟩

theorem Within.trans {p q r : Place} (hpq : p.Within q) (hqr : q.Within r) : p.Within r :=
  ⟨hqr.1.trans hpq.1, hpq.2.trans hqr.2⟩

theorem not_within_child_self (p : Place) (i : Nat) : ¬ (p.child i).Within p := by
  intro h
  have := h.2.length_le
  rw [child, List.length_cons] at this
  omega

/-- The regions below different children do not meet. -/
theorem child_inj_of_within {p q : Place} {i j : Nat} (hi : (p.child i).Within q)
    (hj : (p.child j).Within q) : i = j := by
  have hsame : i :: p.trail = j :: p.trail :=
    List.IsSuffix.eq_of_length (List.suffix_of_suffix_length_le hi.2 hj.2 (Nat.le_refl _)) rfl
  exact (List.cons.inj hsame).1

theorem child_inj {p q : Place} {i j : Nat} : p.child i = q.child j ↔ p = q ∧ i = j := by
  obtain ⟨file, trail⟩ := p
  obtain ⟨file', trail'⟩ := q
  rw [child, child, mk.injEq, mk.injEq, List.cons.injEq]
  constructor
  · rintro ⟨hfile, hij, htrail⟩
    exact ⟨⟨hfile, htrail⟩, hij⟩
  · rintro ⟨⟨hfile, htrail⟩, hij⟩
    exact ⟨hfile, hij, htrail⟩

end Place

/-! ## Sites -/

namespace Site

theorem mem_children_iff {s c : Site} :
    c ∈ Walk.Branching.children s ↔
      ∃ i, s.node.children[i]? = some c.node ∧ c.place = s.place.child i := by
  show c ∈ s.children ↔ _
  rw [children, List.mem_mapIdx]
  constructor
  · rintro ⟨i, hi, rfl⟩
    exact ⟨i, List.getElem?_eq_getElem hi, rfl⟩
  · rintro ⟨i, hnode, hplace⟩
    obtain ⟨hi, hget⟩ := List.getElem?_eq_some_iff.mp hnode
    refine ⟨i, hi, ?_⟩
    rw [hget, ← hplace]

/-- The sites below a root stand within its place. -/
theorem within_of_mem_preorder {root s : Site} (h : s ∈ Walk.preorder root) :
    root.place.Within s.place := by
  induction root using Walk.induct with
  | step root ih =>
    rcases Walk.mem_preorder_iff.mp h with rfl | ⟨c, hc, hs⟩
    · exact Place.within_self _
    · obtain ⟨i, -, hplace⟩ := mem_children_iff.mp hc
      have hroot : root.place.Within c.place := hplace ▸ Place.within_child _ i
      exact hroot.trans (ih c hc hs)

/-- Below one root a place belongs to one site. -/
theorem eq_of_place_eq {root s t : Site} (hs : s ∈ Walk.preorder root)
    (ht : t ∈ Walk.preorder root) (h : s.place = t.place) : s = t := by
  induction root using Walk.induct with
  | step root ih =>
    rcases Walk.mem_preorder_iff.mp hs with rfl | ⟨c, hc, hsc⟩
    · rcases Walk.mem_preorder_iff.mp ht with rfl | ⟨d, hd, htd⟩
      · rfl
      · obtain ⟨i, -, hplace⟩ := mem_children_iff.mp hd
        have hbelow := within_of_mem_preorder htd
        rw [hplace, ← h] at hbelow
        exact absurd hbelow (Place.not_within_child_self _ i)
    · obtain ⟨i, hi, hplace⟩ := mem_children_iff.mp hc
      have hsin := within_of_mem_preorder hsc
      rw [hplace] at hsin
      rcases Walk.mem_preorder_iff.mp ht with rfl | ⟨d, hd, htd⟩
      · rw [h] at hsin
        exact absurd hsin (Place.not_within_child_self _ i)
      · obtain ⟨j, hj, hplace'⟩ := mem_children_iff.mp hd
        have htin := within_of_mem_preorder htd
        rw [hplace', ← h] at htin
        have hij := Place.child_inj_of_within hsin htin
        subst hij
        have hcd : c = d := by
          obtain ⟨cplace, cnode⟩ := c
          obtain ⟨dplace, dnode⟩ := d
          obtain rfl : cnode = dnode := Option.some_inj.mp (hi.symm.trans hj)
          obtain rfl : cplace = dplace := hplace.trans hplace'.symm
          rfl
        subst hcd
        exact ih c hc hsc htd

/-- Different children open disjoint regions. -/
theorem pairwise_children (s : Site) :
    s.children.Pairwise fun c d => ∀ q, c.place.Within q → ¬ d.place.Within q := by
  rw [List.pairwise_iff_getElem]
  intro i j hi hj hij q hin hin'
  have hplace : ∀ (k : Nat) (hk : k < s.children.length),
      (s.children[k]).place = s.place.child k := by
    intro k hk
    simp only [children, List.getElem_mapIdx]
  rw [hplace i hi] at hin
  rw [hplace j hj] at hin'
  exact absurd (Place.child_inj_of_within hin hin') (Nat.ne_of_lt hij)

/-- Below one root no place is listed twice. -/
theorem nodup_places (root : Site) : ((Walk.preorder root).map place).Nodup := by
  induction root using Walk.induct with
  | step root ih =>
    have hwithin : ∀ c q, q ∈ (Walk.preorder c).map place → c.place.Within q := by
      intro c q hq
      obtain ⟨s, hs, rfl⟩ := List.mem_map.mp hq
      exact within_of_mem_preorder hs
    rw [Walk.preorder_cons, List.map_cons, List.nodup_cons, List.map_flatMap]
    constructor
    · intro hroot
      obtain ⟨c, hc, hq⟩ := List.mem_flatMap.mp hroot
      obtain ⟨i, -, hchild⟩ := mem_children_iff.mp hc
      have hin := hwithin c _ hq
      rw [hchild] at hin
      exact Place.not_within_child_self _ i hin
    · rw [List.nodup_flatMap]
      refine ⟨ih, (pairwise_children root).imp fun hdisjoint q hq hq' => ?_⟩
      exact hdisjoint q (hwithin _ q hq) (hwithin _ q hq')

end Site

end Tree

end SafetyLint
