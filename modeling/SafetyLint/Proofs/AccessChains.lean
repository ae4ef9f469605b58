import SafetyLint.Proofs.Independence
import SafetyLint.Proofs.Memory
import SafetyLint.Tree.Build

/-!
# Access chains are reported once, at their heads

A link is a method call or a property access, and what it is applied to may be a link again.  A head
is a link to which no other link is applied; the links from a head downwards make up its chain.

The rule about chains meets the links of a chain one by one, head first, with other chains in
between: those in the arguments of calls, which may have chains in their own arguments.  It keeps a
list of covered places, to which reporting a head adds the rest of the chain and from which every
covered link is taken out when it is met.

The invariant (`Ready`) compares the covered places with a stop that is about to be visited.  Either
no place at or below the stop is covered, and if the stop is the target of a link then its own chain
is short; or the stop is the target of a link whose chain was reported, and what is covered at and
below the stop is the rest of this chain and nothing else.  `Ready.steps` carries the invariant from
a stop to its children, and `replay_preorder` through everything below a stop: each stop gets the
answer that its head says (`verdict`), and no place at or below the stop is covered any more.

`chain_sightings` is the statement about whole files.
-/

namespace SafetyLint
namespace Rules
namespace Dereferences

open SafetyLint.Tree Config

/-! ## Chains -/

theorem hops_of_target {e target : Expr} (h : linkTarget? e = some target) :
    hops e = hops target + 1 := by
  rw [hops]
  split
  · next target' h' =>
    rw [Option.some_inj.mp (h'.symm.trans h)]
  · next h' => exact absurd (h'.symm.trans h) (Option.some_ne_none _).symm

theorem bottom_of_target {e target : Expr} (h : linkTarget? e = some target) :
    bottom e = bottom target := by
  rw [bottom]
  split
  · next target' h' =>
    rw [Option.some_inj.mp (h'.symm.trans h)]
  · next h' => exact absurd (h'.symm.trans h) (Option.some_ne_none _).symm

/-- Along a chain the depth goes down by one. -/
theorem depth_of_target {e target : Expr} (h : linkTarget? e = some target) :
    depth e = depth target + 1 := by
  rw [depth, depth, hops_of_target h, bottom_of_target h]
  omega

theorem hops_of_not_isLink {e : Expr} (h : isLink e = false) : hops e = 0 := by
  rw [hops]
  split
  · next target h' =>
    rw [isLink, h'] at h
    exact absurd h Bool.false_ne_true.symm
  · rfl

theorem bottom_of_not_isLink {e : Expr} (h : isLink e = false) : bottom e = e := by
  rw [bottom]
  split
  · next target h' =>
    rw [isLink, h'] at h
    exact absurd h Bool.false_ne_true.symm
  · rfl

/-- What a link is applied to is its first child. -/
theorem getElem?_children_of_target {e target : Expr} (h : linkTarget? e = some target) :
    (Node.expr e).children[0]? = some (.expr target) := by
  obtain ⟨span, kind, type⟩ := e
  cases kind with
  | methodCall receiver method args => exact congrArg (Option.map Node.expr) h
  | propertyFetch object property => exact congrArg (Option.map Node.expr) h
  | _ => exact absurd h.symm (Option.some_ne_none _)

/-- The places of the first `n` links of a chain whose head is at `p`. -/
def linkPlaces (p : Place) : Nat → List Place
  | 0 => []
  | n + 1 => p :: linkPlaces (p.child 0) n

theorem innerPlaces_eq_linkPlaces (p : Place) (n : Nat) :
    innerPlaces p n = linkPlaces (p.child 0) n := by
  induction n generalizing p with
  | zero => rfl
  | succ n ih => rw [innerPlaces, linkPlaces, ih]

theorem within_of_mem_linkPlaces {p q : Place} {n : Nat} (h : q ∈ linkPlaces p n) :
    p.Within q := by
  induction n generalizing p with
  | zero => exact absurd h List.not_mem_nil
  | succ n ih =>
    rcases List.mem_cons.mp h with rfl | h
    · exact Place.within_self _
    · exact (Place.within_child p 0).trans (ih h)

/-! ## The machine and its verdicts -/

/-- What the rule does at a stop, given the covered places. -/
def step (max : Nat) (s : Stop) (covered : List Place) : List String × List Place :=
  match s.site.node with
  | .expr e =>
    if isLink e then
      ((checkLink max s.site.place e covered).1.toList,
        (checkLink max s.site.place e covered).2)
    else ((message? max e.kind).toList, covered)
  | _ => ([], covered)

/-- The node is a link. -/
def isLinkNode : Node → Bool
  | .expr e => isLink e
  | _ => false

/-- The stop is what the node above it is applied to, and that is a link. -/
def isInner (s : Stop) : Bool :=
  s.above.head?.any isLinkNode && s.site.place.trail.head? = some 0

/-- What should be said at a stop, by the shape of the tree alone. -/
def verdict (max : Nat) (s : Stop) : Option String :=
  match s.site.node with
  | .expr e =>
    if isLink e then
      if !isInner s && decide (max < depth e) then some (chainMessage max e) else none
    else message? max e.kind
  | _ => none

/-! ## The invariant -/

/-- How the covered places stand to a stop that is about to be visited. -/
inductive Ready (max : Nat) (s : Stop) (covered : List Place) : Prop where
  /-- Nothing at or below the stop is covered. -/
  | fresh (hnone : ∀ q ∈ covered, ¬ s.site.place.Within q)
      (hshort : isInner s = true → ∀ e, s.site.node = .expr e → isLink e = true → depth e ≤ max)
  /-- The chain to which the stop belongs was reported. -/
  | reported {e : Expr} (hnode : s.site.node = .expr e) (hinner : isInner s = true)
      (hmem : ∀ q, s.site.place.Within q →
        (q ∈ covered ↔ q ∈ linkPlaces s.site.place (hops e)))

/-- Only the places at and below the stop matter. -/
theorem Ready.congr {max : Nat} {s : Stop} {covered covered' : List Place}
    (h : Ready max s covered)
    (hsame : ∀ q, s.site.place.Within q → (q ∈ covered' ↔ q ∈ covered)) :
    Ready max s covered' := by
  cases h with
  | fresh hnone hshort =>
    exact .fresh (fun q hq hin => hnone q ((hsame q hin).mp hq) hin) hshort
  | reported hnode hinner hmem =>
    exact .reported hnode hinner fun q hin => (hsame q hin).trans (hmem q hin)

/-- A child of a stop: its number, its place, and whether it is a target. -/
theorem exists_index_of_mem_children {s t : Stop} (h : t ∈ s.children) :
    ∃ i, s.site.node.children[i]? = some t.site.node ∧ t.site.place = s.site.place.child i ∧
      isInner t = (isLinkNode s.site.node && decide (i = 0)) := by
  obtain ⟨c, hc, rfl⟩ := List.mem_map.mp h
  obtain ⟨i, hnode, hplace⟩ := Site.mem_children_iff.mp hc
  refine ⟨i, hnode, hplace, ?_⟩
  rw [isInner]
  show (isLinkNode s.site.node && decide (c.place.trail.head? = some 0)) = _
  rw [hplace]
  show (_ && decide (some i = some 0)) = _
  simp only [Option.some.injEq]

/-- Different children open disjoint regions. -/
theorem pairwise_children (s : Stop) :
    s.children.Pairwise fun t u => ∀ q, t.site.place.Within q → ¬ u.site.place.Within q := by
  rw [Stop.children, List.pairwise_map]
  exact s.site.pairwise_children

/-- The places that are left when everything at and below a stop was met. -/
def outside (s : Stop) (covered : List Place) : List Place :=
  covered.filter fun q => ¬ s.site.place.Within q

/-- The places that are left when everything below a stop was met. -/
def outsideAll (ts : List Stop) (covered : List Place) : List Place :=
  covered.filter fun q => ∀ t ∈ ts, ¬ t.site.place.Within q

theorem within_of_mem_children {s t : Stop} (h : t ∈ s.children) {q : Place}
    (hq : t.site.place.Within q) : s.site.place.Within q := by
  obtain ⟨i, -, hplace, -⟩ := exists_index_of_mem_children h
  rw [hplace] at hq
  exact (Place.within_child _ i).trans hq

theorem outside_eq_self {s : Stop} {covered : List Place}
    (h : ∀ q ∈ covered, ¬ s.site.place.Within q) : outside s covered = covered := by
  rw [outside, List.filter_eq_self]
  exact fun q hq => decide_eq_true (h q hq)

theorem outsideAll_children_eq_self {s : Stop} {covered : List Place}
    (h : ∀ q ∈ covered, ¬ s.site.place.Within q) : outsideAll s.children covered = covered := by
  rw [outsideAll, List.filter_eq_self]
  exact fun q hq => decide_eq_true fun t ht hin => h q hq (within_of_mem_children ht hin)

/-! ### One stop

Three kinds of stops: those without a link, links of reported chains, and other links, of which the
long ones are reported. -/

/-- What one stop does: it answers by its verdict, the children are ready for what is covered then,
and what lies outside the children lay outside the stop before. -/
def Steps (max : Nat) (s : Stop) (covered : List Place) : Prop :=
  (step max s covered).1 = (verdict max s).toList ∧
    (∀ t ∈ s.children, Ready max t (step max s covered).2) ∧
    outsideAll s.children (step max s covered).2 = outside s covered

theorem steps_of_not_isLinkNode {max : Nat} {s : Stop} {covered : List Place}
    (hlink : isLinkNode s.site.node = false) (h : Ready max s covered) :
    Steps max s covered := by
  have hstep : step max s covered = ((verdict max s).toList, covered) := by
    obtain ⟨⟨place, node⟩, above⟩ := s
    cases node with
    | expr e =>
      have he : isLink e = false := hlink
      simp only [step, verdict, he]
      rfl
    | _ => rfl
  have hnone : ∀ q ∈ covered, ¬ s.site.place.Within q := by
    cases h with
    | fresh hnone _ => exact hnone
    | reported hnode _ hmem =>
      intro q hq hin
      rw [hnode] at hlink
      have hq' := (hmem q hin).mp hq
      rw [hops_of_not_isLink hlink] at hq'
      exact absurd hq' List.not_mem_nil
  rw [Steps, hstep]
  refine ⟨rfl, ?_, ?_⟩
  · intro t ht
    obtain ⟨i, -, -, hinner⟩ := exists_index_of_mem_children ht
    refine .fresh (fun q hq hin => hnone q hq (within_of_mem_children ht hin)) ?_
    intro hin
    rw [hinner, hlink, Bool.false_and] at hin
    exact absurd hin Bool.false_ne_true
  · rw [outside_eq_self hnone, outsideAll_children_eq_self hnone]

section Link

variable {max : Nat} {place : Place} {above : List Node} {e target : Expr} {covered : List Place}
  (htarget : linkTarget? e = some target)
include htarget

theorem isLink_of_target : isLink e = true := by rw [isLink, htarget]; rfl

/-- The stop at which the target of a link is met. -/
theorem target_mem_children :
    (⟨⟨place.child 0, .expr target⟩, .expr e :: above⟩ : Stop) ∈
      (⟨⟨place, .expr e⟩, above⟩ : Stop).children := by
  refine List.mem_map.mpr ⟨⟨place.child 0, .expr target⟩, ?_, rfl⟩
  exact Site.mem_children_iff.mpr ⟨0, getElem?_children_of_target htarget, rfl⟩

/-- A child of a link is its target or no target at all. -/
theorem cases_of_mem_children {t : Stop} (h : t ∈ (⟨⟨place, .expr e⟩, above⟩ : Stop).children) :
    (t.site = ⟨place.child 0, .expr target⟩ ∧ isInner t = true) ∨
      ((∀ q, (place.child 0).Within q → ¬ t.site.place.Within q) ∧ isInner t = false) := by
  obtain ⟨i, hnode, hplace, hinner⟩ := exists_index_of_mem_children h
  by_cases hi : i = 0
  · subst hi
    refine Or.inl ⟨?_, ?_⟩
    · have hsame := (getElem?_children_of_target htarget).symm.trans hnode
      obtain ⟨⟨tplace, tnode⟩, tabove⟩ := t
      obtain rfl : tplace = place.child 0 := hplace
      obtain rfl : Node.expr target = tnode := Option.some_inj.mp hsame
      rfl
    · rw [hinner]
      exact (Bool.and_true _).trans (isLink_of_target htarget)
  · refine Or.inr ⟨?_, ?_⟩
    · intro q hq hin
      rw [hplace] at hin
      exact hi (Place.child_inj_of_within hin hq)
    · rw [hinner, decide_eq_false hi, Bool.and_false]

/-- A link of a reported chain is passed over and taken out. -/
theorem steps_of_reported (hinner : isInner ⟨⟨place, .expr e⟩, above⟩ = true)
    (hmem : ∀ q, place.Within q → (q ∈ covered ↔ q ∈ linkPlaces place (hops e))) :
    Steps max ⟨⟨place, .expr e⟩, above⟩ covered := by
  have hchain : ∀ q, place.Within q →
      (q ∈ covered ↔ q = place ∨ q ∈ linkPlaces (place.child 0) (hops target)) := by
    intro q hq
    rw [hmem q hq, hops_of_target htarget, linkPlaces, List.mem_cons]
  have hhere : covered.contains place = true := by
    rw [List.contains_iff_mem]
    exact (hchain place (Place.within_self _)).mpr (Or.inl rfl)
  have hstep : step max ⟨⟨place, .expr e⟩, above⟩ covered =
      ([], covered.filter (· ≠ place)) := by
    simp only [step, isLink_of_target htarget, checkLink, hhere, if_true]
    rfl
  have hverdict : verdict max ⟨⟨place, .expr e⟩, above⟩ = none := by
    simp only [verdict, isLink_of_target htarget, hinner]
    rfl
  rw [Steps, hstep, hverdict]
  refine ⟨rfl, ?_, ?_⟩
  · intro t ht
    rcases cases_of_mem_children htarget ht with ⟨hsite, hin⟩ | ⟨hdisjoint, hin⟩
    · refine .reported (congrArg Site.node hsite) hin fun q hq => ?_
      rw [hsite] at hq ⊢
      rw [List.mem_filter, decide_eq_true_eq, hchain q ((Place.within_child _ 0).trans hq)]
      constructor
      · rintro ⟨hq' | hq', hne⟩
        · exact absurd hq' hne
        · exact hq'
      · intro hq'
        refine ⟨Or.inr hq', ?_⟩
        rintro rfl
        exact Place.not_within_child_self _ 0 hq
    · refine .fresh (fun q hq hqt => ?_) fun hinner' => ?_
      · obtain ⟨hq, hne⟩ := List.mem_filter.mp hq
        rcases (hchain q (within_of_mem_children ht hqt)).mp hq with rfl | hq'
        · exact absurd rfl (of_decide_eq_true hne)
        · exact hdisjoint q (within_of_mem_linkPlaces hq') hqt
      · exact absurd (hin.symm.trans hinner') Bool.false_ne_true
  · rw [outsideAll, outside, List.filter_filter]
    refine List.filter_congr fun q hq => ?_
    rw [← Bool.decide_and, decide_eq_decide]
    constructor
    · rintro ⟨hall, hne⟩ hin
      rcases (hchain q hin).mp hq with rfl | hq'
      · exact hne rfl
      · exact hall _ (target_mem_children htarget) (within_of_mem_linkPlaces hq')
    · intro hout
      refine ⟨fun t ht hqt => hout (within_of_mem_children ht hqt), ?_⟩
      rintro rfl
      exact hout (Place.within_self _)

/-- A link with a short chain is passed over, and so will be the rest of its chain. -/
theorem steps_of_short (hnone : ∀ q ∈ covered, ¬ place.Within q) (hdepth : depth e ≤ max) :
    Steps max ⟨⟨place, .expr e⟩, above⟩ covered := by
  have hhere : covered.contains place = false := by
    rw [← Bool.not_eq_true, List.contains_iff_mem]
    exact fun hq => hnone place hq (Place.within_self _)
  have hstep : step max ⟨⟨place, .expr e⟩, above⟩ covered = ([], covered) := by
    simp only [step, isLink_of_target htarget, checkLink, hhere, hdepth, if_true]
    rfl
  have hverdict : verdict max ⟨⟨place, .expr e⟩, above⟩ = none := by
    simp only [verdict, isLink_of_target htarget, decide_eq_false (Nat.not_lt.mpr hdepth),
      Bool.and_false]
    rfl
  rw [Steps, hstep, hverdict]
  refine ⟨rfl, ?_, ?_⟩
  · intro t ht
    refine .fresh (fun q hq hqt => hnone q hq (within_of_mem_children ht hqt)) ?_
    intro hinner e' hnode _
    rcases cases_of_mem_children htarget ht with ⟨hsite, -⟩ | ⟨-, hin⟩
    · rw [hsite] at hnode
      have hsame : target = e' := Node.expr.inj hnode
      have := depth_of_target htarget
      rw [← hsame]
      omega
    · exact absurd (hin.symm.trans hinner) Bool.false_ne_true
  · rw [outside_eq_self hnone, outsideAll_children_eq_self hnone]

/-- A link with a long chain that is not covered is reported, and the rest of its chain is
covered. -/
theorem steps_of_long (hnone : ∀ q ∈ covered, ¬ place.Within q)
    (hinner : isInner ⟨⟨place, .expr e⟩, above⟩ = false) (hdepth : max < depth e) :
    Steps max ⟨⟨place, .expr e⟩, above⟩ covered := by
  have hhere : covered.contains place = false := by
    rw [← Bool.not_eq_true, List.contains_iff_mem]
    exact fun hq => hnone place hq (Place.within_self _)
  have hrest : innerPlaces place (hops e - 1) = linkPlaces (place.child 0) (hops target) := by
    rw [innerPlaces_eq_linkPlaces, hops_of_target htarget, Nat.add_sub_cancel]
  have hstep : step max ⟨⟨place, .expr e⟩, above⟩ covered =
      ([chainMessage max e], linkPlaces (place.child 0) (hops target) ++ covered) := by
    simp only [step, isLink_of_target htarget, checkLink, hhere, Nat.not_le.mpr hdepth, if_true,
      hrest]
    rfl
  have hverdict : verdict max ⟨⟨place, .expr e⟩, above⟩ = some (chainMessage max e) := by
    simp only [verdict, isLink_of_target htarget, hinner, decide_eq_true hdepth]
    rfl
  rw [Steps, hstep, hverdict]
  refine ⟨rfl, ?_, ?_⟩
  · intro t ht
    rcases cases_of_mem_children htarget ht with ⟨hsite, hin⟩ | ⟨hdisjoint, hin⟩
    · refine .reported (congrArg Site.node hsite) hin fun q hq => ?_
      have hout : q ∉ covered := fun hq' => hnone q hq' (within_of_mem_children ht hq)
      rw [hsite, List.mem_append]
      exact or_iff_left hout
    · refine .fresh (fun q hq hqt => ?_) fun hinner' => ?_
      · rcases List.mem_append.mp hq with hq | hq
        · exact hdisjoint q (within_of_mem_linkPlaces hq) hqt
        · exact hnone q hq (within_of_mem_children ht hqt)
      · exact absurd (hin.symm.trans hinner') Bool.false_ne_true
  · have hgone : outsideAll (⟨⟨place, .expr e⟩, above⟩ : Stop).children
        (linkPlaces (place.child 0) (hops target)) = [] := by
      rw [outsideAll, List.filter_eq_nil_iff]
      intro q hq hall
      exact of_decide_eq_true hall _ (target_mem_children htarget) (within_of_mem_linkPlaces hq)
    rw [outside_eq_self hnone]
    have hkept := outsideAll_children_eq_self (s := ⟨⟨place, .expr e⟩, above⟩) hnone
    rw [outsideAll, List.filter_append]
    rw [outsideAll] at hgone hkept
    rw [hgone, hkept, List.nil_append]

end Link

/-- The invariant passes from a stop to its children. -/
theorem Ready.steps {max : Nat} {s : Stop} {covered : List Place} (h : Ready max s covered) :
    Steps max s covered := by
  cases hlink : isLinkNode s.site.node with
  | false => exact steps_of_not_isLinkNode hlink h
  | true =>
    obtain ⟨⟨place, node⟩, above⟩ := s
    cases node with
    | expr e =>
      obtain ⟨target, htarget⟩ := Option.isSome_iff_exists.mp (show isLink e = true from hlink)
      cases h with
      | fresh hnone hshort =>
        by_cases hdepth : depth e ≤ max
        · exact steps_of_short htarget hnone hdepth
        · refine steps_of_long htarget hnone ?_ (Nat.not_le.mp hdepth)
          rw [← Bool.not_eq_true]
          exact fun hinner => hdepth (hshort hinner e rfl hlink)
      | reported hnode hinner hmem =>
        obtain rfl := Node.expr.inj hnode
        exact steps_of_reported htarget hinner hmem
    | _ => exact absurd hlink Bool.false_ne_true

/-! ### All stops -/

/-- The answers at some stops when each answers by its verdict. -/
def verdicts (max : Nat) (stops : List Stop) : List (Stop × List String) :=
  stops.map fun t => (t, (verdict max t).toList)

/-- Stops in disjoint regions, visited one after the other. -/
theorem replay_flatMap {max : Nat} {ts : List Stop}
    (hdisjoint : ts.Pairwise fun t u => ∀ q, t.site.place.Within q → ¬ u.site.place.Within q)
    (hvisit : ∀ t ∈ ts, ∀ covered, Ready max t covered →
      replay (step max) (Walk.preorder t) covered =
        (verdicts max (Walk.preorder t), outside t covered))
    {covered : List Place} (hready : ∀ t ∈ ts, Ready max t covered) :
    replay (step max) (ts.flatMap Walk.preorder) covered =
      (verdicts max (ts.flatMap Walk.preorder), outsideAll ts covered) := by
  induction ts generalizing covered with
  | nil =>
    have hall : outsideAll [] covered = covered :=
      List.filter_eq_self.mpr fun _ _ => decide_eq_true fun _ ht => absurd ht List.not_mem_nil
    rw [hall]
    rfl
  | cons t rest ih =>
    obtain ⟨hfirst, hrest⟩ := List.pairwise_cons.mp hdisjoint
    -- the regions of the later stops are not touched by the first one
    have hlater : ∀ u ∈ rest, Ready max u (outside t covered) := by
      intro u hu
      refine (hready u (List.mem_cons_of_mem _ hu)).congr fun q hq => ?_
      rw [outside, List.mem_filter, decide_eq_true_eq]
      exact and_iff_left fun hin => hfirst u hu q hin hq
    have hboth : outsideAll rest (outside t covered) = outsideAll (t :: rest) covered := by
      rw [outsideAll, outside, outsideAll, List.filter_filter]
      refine List.filter_congr fun q _ => ?_
      rw [← Bool.decide_and, decide_eq_decide, List.forall_mem_cons]
      exact and_comm
    rw [List.flatMap_cons, replay_append,
      hvisit t (List.mem_cons_self ..) covered (hready t (List.mem_cons_self ..)),
      ih hrest (fun u hu => hvisit u (List.mem_cons_of_mem _ hu)) hlater, hboth, verdicts, verdicts,
      verdicts, List.map_append]

/-- Everything at and below a stop: each stop answers by its verdict, and nothing there is covered
any more. -/
theorem replay_preorder {max : Nat} (s : Stop) {covered : List Place}
    (h : Ready max s covered) :
    replay (step max) (Walk.preorder s) covered =
      (verdicts max (Walk.preorder s), outside s covered) := by
  induction s using Walk.induct generalizing covered with
  | step s ih =>
    obtain ⟨hanswer, hready, houtside⟩ := h.steps
    have hbelow := replay_flatMap (pairwise_children s) (fun t ht _ ht' => ih t ht ht') hready
    rw [Stop.preorder_cons, replay_cons, hanswer, hbelow, houtside]
    rfl

/-! ## The rule is the machine -/

theorem realizes (settings : Settings) :
    Dispatcher.Realizes settings .limitDereferences .links (step settings.maxDereferences) where
  check s c covered hcovered := by
    obtain ⟨⟨place, node⟩, above⟩ := s
    show (check settings ⟨place, node⟩ c).1 = _ ∧ (check settings ⟨place, node⟩ c).2.slot _ _ = _
    cases node with
    | expr e =>
      cases hlink : isLink e with
      | true =>
        rw [check_of_isLink settings place hlink, slotQuestion_of_ok hcovered]
        simp only [step, hlink, if_true]
        exact ⟨rfl, Context.slot_putSlot ..⟩
      | false =>
        rw [check_of_not_isLink settings place (by rw [hlink]; exact Bool.false_ne_true)]
        simp only [step, hlink]
        exact ⟨rfl, hcovered⟩
    | _ => exact ⟨rfl, hcovered⟩
  idle s covered hkind := by
    obtain ⟨⟨place, node⟩, above⟩ := s
    cases node with
    | expr e =>
      obtain ⟨span, kind, type⟩ := e
      cases kind with
      | methodCall | propertyFetch | arrayDimFetch | call | closure | arrowFunction | array =>
        exact absurd (show true = false from hkind) Bool.false_ne_true.symm
      | _ => rfl
    | _ => rfl

/-! ## Heads

Which links are heads is said with the sites of a tree alone. -/

/-- The site of what a link is applied to. -/
def targetSite? (t : Site) : Option Site :=
  match t.node with
  | .expr e => (linkTarget? e).map fun target => ⟨t.place.child 0, .expr target⟩
  | _ => none

/-- Some link among the sites is applied to this site. -/
def isTarget (sites : List Site) (s : Site) : Bool :=
  sites.any fun t => (targetSite? t).any fun target => target.place = s.place

/-- The link at a site, if it is a head with a chain that is too long. -/
def longHead? (max : Nat) (sites : List Site) (s : Site) : Option (Site × Expr) :=
  match s.node with
  | .expr e =>
    if isLink e && !isTarget sites s && decide (max < depth e) then some (s, e) else none
  | _ => none

/-- The heads with chains that are too long, in the order of the sites. -/
def longHeads (max : Nat) (sites : List Site) : List (Site × Expr) :=
  sites.filterMap (longHead? max sites)

theorem mem_children_of_targetSite? {t s : Site} (h : targetSite? t = some s) :
    s ∈ Walk.Branching.children t := by
  obtain ⟨place, node⟩ := t
  cases node with
  | expr e =>
    obtain ⟨target, htarget, rfl⟩ := Option.map_eq_some_iff.mp h
    exact Site.mem_children_iff.mpr ⟨0, getElem?_children_of_target htarget, rfl⟩
  | _ => exact absurd h.symm (Option.some_ne_none _)

/-- Places stand for sites: what is applied to the place of a site is applied to the site. -/
theorem isTarget_iff {root s : Site} (hs : s ∈ Walk.preorder root) :
    isTarget (Walk.preorder root) s = true ↔ ∃ t ∈ Walk.preorder root, targetSite? t = some s := by
  rw [isTarget, List.any_eq_true]
  constructor
  · rintro ⟨t, ht, hany⟩
    obtain ⟨target, htarget, hplace⟩ := (Option.any_eq_true _ _).mp hany
    have hmem : target ∈ Walk.preorder root :=
      Walk.mem_preorder_trans ht
        (Walk.mem_preorder_of_mem_children (mem_children_of_targetSite? htarget))
    rw [Site.eq_of_place_eq hmem hs (of_decide_eq_true hplace)] at htarget
    exact ⟨t, ht, htarget⟩
  · rintro ⟨t, ht, htarget⟩
    refine ⟨t, ht, ?_⟩
    rw [htarget]
    exact decide_eq_true rfl

/-- A site has one parent at most. -/
theorem isTarget_of_mem_children {root t c : Site} (ht : t ∈ Walk.preorder root)
    (hc : c ∈ t.children) :
    isTarget (Walk.preorder root) c = true ↔ targetSite? t = some c := by
  rw [isTarget_iff (Walk.mem_preorder_trans ht (Walk.mem_preorder_of_mem_children hc))]
  constructor
  · rintro ⟨u, hu, htarget⟩
    obtain ⟨i, -, hplace⟩ := Site.mem_children_iff.mp hc
    obtain ⟨j, -, hplace'⟩ := Site.mem_children_iff.mp (mem_children_of_targetSite? htarget)
    obtain ⟨hparent, -⟩ := Place.child_inj.mp (hplace'.symm.trans hplace)
    rwa [← Site.eq_of_place_eq hu ht hparent]
  · intro htarget
    exact ⟨t, ht, htarget⟩

/-- On the way through a file, a stop is inside a chain if its site is a target. -/
theorem isTarget_eq_isInner {i : Nat} {f : SourceFile} {s : Stop}
    (hs : s ∈ Walk.preorder (Stop.ofFile i f)) :
    isTarget (Walk.preorder (Site.ofFile i f)) s.site = isInner s := by
  rw [Bool.eq_iff_iff]
  have hsites : ∀ t ∈ Walk.preorder (Stop.ofFile i f),
      t.site ∈ Walk.preorder (Site.ofFile i f) := by
    intro t ht
    rw [show Site.ofFile i f = (Stop.ofFile i f).site from rfl, ← Stop.map_site_preorder]
    exact List.mem_map_of_mem ht
  rcases Walk.exists_parent_of_mem_preorder hs with rfl | ⟨p, hp, hchild⟩
  · -- nothing is above the file
    rw [isTarget_iff (hsites _ hs)]
    constructor
    · rintro ⟨t, -, htarget⟩
      obtain ⟨j, -, hplace⟩ := Site.mem_children_iff.mp (mem_children_of_targetSite? htarget)
      exact absurd (congrArg Place.trail hplace) (List.cons_ne_nil _ _).symm
    · intro hinner
      exact absurd hinner Bool.false_ne_true
  · have hsite : s.site ∈ p.site.children := by
      rw [← p.map_site_children]
      exact List.mem_map_of_mem hchild
    rw [isTarget_of_mem_children (hsites p hp) hsite]
    obtain ⟨j, hnode, hplace, hinner⟩ := exists_index_of_mem_children hchild
    rw [hinner, Bool.and_eq_true, decide_eq_true_eq]
    obtain ⟨⟨pplace, pnode⟩, pabove⟩ := p
    obtain ⟨⟨place, node⟩, above⟩ := s
    cases pnode with
    | expr e =>
      show (linkTarget? e).map _ = _ ↔ isLink e = true ∧ _
      rw [isLink, Option.map_eq_some_iff, Option.isSome_iff_exists]
      constructor
      · rintro ⟨target, htarget, hsame⟩
        refine ⟨⟨target, htarget⟩, ?_⟩
        exact (Place.child_inj.mp (hplace.symm.trans (congrArg Site.place hsame).symm)).2
      · rintro ⟨⟨target, htarget⟩, rfl⟩
        refine ⟨target, htarget, ?_⟩
        obtain rfl : node = .expr target :=
          Option.some_inj.mp (hnode.symm.trans (getElem?_children_of_target htarget))
        obtain rfl : place = pplace.child 0 := hplace
        rfl
    | _ =>
      constructor
      · intro h
        exact absurd h.symm (Option.some_ne_none _)
      · rintro ⟨h, -⟩
        exact absurd h Bool.false_ne_true

/-! ## What is said about chains -/

/-- How the texts about chains begin. -/
def chainOpenings : List String :=
  ["Method calls on static call results exceed allowed limit of ",
    "Method call chains should be limited to ", "Property access chains should be limited to "]

/-- The text is about a chain. -/
def hasChainText (message : String) : Bool := chainOpenings.any fun opening => opens opening message

theorem hasChainText_append {opening : String} (h : opening ∈ chainOpenings) (rest : String) :
    hasChainText (opening ++ rest) = true :=
  List.any_eq_true.mpr ⟨opening, h, opens_append opening rest⟩

theorem hasChainText_chainMessage (max : Nat) (e : Expr) :
    hasChainText (chainMessage max e) = true := by
  unfold chainMessage
  split
  · split
    · rw [String.append_assoc]
      exact hasChainText_append (by decide) _
    · rw [String.append_assoc, String.append_assoc, String.append_assoc]
      exact hasChainText_append (by decide) _
  · rw [String.append_assoc, String.append_assoc, String.append_assoc]
    exact hasChainText_append (by decide) _

/-- The texts about chains begin with one of two letters. -/
theorem hasChainText_eq_false {message : String} {a : Char} (h : message.toList.head? = some a)
    (hM : 'M' ≠ a) (hP : 'P' ≠ a) : hasChainText message = false := by
  rw [hasChainText, List.any_eq_false]
  intro opening hopening
  rw [Bool.not_eq_true]
  simp only [chainOpenings, List.mem_cons, List.not_mem_nil, or_false] at hopening
  rcases hopening with rfl | rfl | rfl
  · exact opens_eq_false (by simp) h hM
  · exact opens_eq_false (by simp) h hM
  · exact opens_eq_false (by simp) h hP

/-- What is said about an expression that is no link is not about a chain. -/
theorem hasChainText_of_message? {max : Nat} {kind : ExprKind} {message : String}
    (h : message? max kind = some message) : hasChainText message = false := by
  unfold message? at h
  split at h
  · split at h
    · cases h
      exact hasChainText_eq_false (a := 'A') (by simp) (by decide) (by decide)
    · cases h
  · cases h
    exact hasChainText_eq_false (a := 'V') (by simp) (by decide) (by decide)
  · cases h
    exact hasChainText_eq_false (a := 'C') (by simp) (by decide) (by decide)
  · cases h
    exact hasChainText_eq_false (a := 'C') (by simp) (by decide) (by decide)
  · split at h
    · cases h
      exact hasChainText_eq_false (a := 'C') (by simp) (by decide) (by decide)
    · cases h
  · cases h

/-- The texts about chains among the verdicts of a file are those about its long heads. -/
theorem filter_verdict {i : Nat} {f : SourceFile} {s : Stop}
    (hs : s ∈ Walk.preorder (Stop.ofFile i f)) (max : Nat) :
    (verdict max s).toList.filter hasChainText =
      ((longHead? max (Walk.preorder (.ofFile i f)) s.site).map
        fun head => chainMessage max head.2).toList := by
  rw [longHead?, isTarget_eq_isInner hs, verdict]
  cases s.site.node with
  | expr e =>
    cases hlink : isLink e with
    | false =>
      simp only [hlink]
      cases hmessage : message? max e.kind with
      | none => rfl
      | some message =>
        show List.filter _ [message] = []
        rw [List.filter_singleton, hasChainText_of_message? hmessage]
        rfl
    | true =>
      simp only [hlink, if_true, Bool.true_and]
      split
      · show List.filter _ [_] = [_]
        rw [List.filter_singleton, hasChainText_chainMessage]
        rfl
      · rfl
  | _ => rfl

theorem eq_of_longHead? {max : Nat} {sites : List Site} {s : Site} {head : Site × Expr}
    (h : longHead? max sites s = some head) : head.1 = s ∧ s.node = .expr head.2 := by
  unfold longHead? at h
  split at h
  · next e hnode =>
    split at h
    · obtain rfl := Option.some_inj.mp h
      exact ⟨rfl, hnode⟩
    · cases h
  · cases h

/-- When the rule walks a file alone, it answers by its verdicts, and no link is covered at the
end. -/
theorem fileRound_eq {settings : Settings}
    (hactive : settings.isActive .limitDereferences = true) (i : Nat) (f : SourceFile)
    (root : Option String) :
    ((dispatcher [.limitDereferences] settings).fileRound i f root).1 =
        (Walk.preorder (Stop.ofFile i f)).map (fun s =>
          (s, (verdict settings.maxDereferences s).toList.map
            (reported settings info (some (.ofFile i f root)) s.site.node.line))) ∧
      readSlot ((dispatcher [.limitDereferences] settings).fileRound i f root).2 .links
        .limitDereferences = .ok [] := by
  have hfresh : Ready settings.maxDereferences (Stop.ofFile i f) [] :=
    .fresh (fun q hq => absurd hq List.not_mem_nil) fun hinner => absurd hinner Bool.false_ne_true
  have hrun := replay_preorder (Stop.ofFile i f) hfresh
  obtain ⟨hfindings, hslot⟩ := Dispatcher.round_eq_replay (realizes settings) hactive
    (some (.ofFile i f root)) (Walk.preorder (Stop.ofFile i f))
    (show readSlot [] .links .limitDereferences = .ok [] from rfl)
  refine ⟨?_, hslot.trans (congrArg Except.ok (congrArg Prod.snd hrun))⟩
  rw [Dispatcher.fileRound, hfindings.trans (congrArg (List.map _) (congrArg Prod.fst hrun)),
    verdicts, List.map_map]
  rfl

/-- The findings about chains among those of a file. -/
theorem filter_fileRound {settings : Settings}
    (hactive : settings.isActive .limitDereferences = true) (i : Nat) (f : SourceFile)
    (root : Option String) :
    (roundSightings ((dispatcher [.limitDereferences] settings).fileRound i f root).1).filter
        (fun x => hasChainText x.2.message) =
      (longHeads settings.maxDereferences (Walk.preorder (.ofFile i f))).map (fun head =>
        (head.1, reported settings info (some (.ofFile i f root)) head.2.span.firstLine
          (chainMessage settings.maxDereferences head.2))) := by
  have hsites : Walk.preorder (Site.ofFile i f) = (Walk.preorder (Stop.ofFile i f)).map Stop.site :=
    (Stop.map_site_preorder (Stop.ofFile i f)).symm
  rw [(fileRound_eq hactive i f root).1, roundSightings, List.flatMap_map, List.filter_flatMap,
    longHeads, List.map_filterMap, List.filterMap_eq_flatMap_toList]
  nth_rewrite 2 [hsites]
  rw [List.flatMap_map]
  refine List.flatMap_congr fun s hs => ?_
  rw [List.filter_map, List.filter_map]
  show (((verdict _ s).toList.filter hasChainText).map _).map _ = _
  rw [filter_verdict hs]
  cases hhead : longHead? settings.maxDereferences (Walk.preorder (.ofFile i f)) s.site with
  | none => rfl
  | some head =>
    obtain ⟨hsite, hnode⟩ := eq_of_longHead? hhead
    rw [hnode]
    show [(s.site, _)] = [(head.1, _)]
    rw [hsite]
    rfl

/-- With the rule registered once and active, the chains of a file are reported exactly once each,
at their heads: the findings about chains stand at the heads that are too deep, in the order of the
walk, each on the line of the head and with its depth.  No site comes twice.  Of the children of a
node at most one is inside a chain, which is what the node is applied to if it is a link; every
other child starts its own.  And when the file ends no link is covered. -/
theorem chain_sightings (ids : List RuleId) (settings : Settings) (root : Option String) (i : Nat)
    (f : SourceFile) (hr : ids.count .limitDereferences = 1)
    (hactive : settings.isActive .limitDereferences = true) :
    (((dispatcher ids settings).visit 0 (.ofFile i f)
          (Context.empty.enterFile (.ofFile i f root))).1.flatMap Event.sightings).filter
            (fun x => x.2.rule = info.name && hasChainText x.2.message) =
        (longHeads settings.maxDereferences (Walk.preorder (.ofFile i f))).map (fun head =>
          (head.1, reported settings info (some (.ofFile i f root)) head.2.span.firstLine
            (chainMessage settings.maxDereferences head.2))) ∧
      ((Walk.preorder (Site.ofFile i f)).map Site.place).Nodup ∧
      (∀ t ∈ Walk.preorder (Site.ofFile i f), ∀ c,
        targetSite? t = some c ↔
          c ∈ t.children ∧ isTarget (Walk.preorder (.ofFile i f)) c = true) ∧
      ((dispatcher ids settings).visit 0 (.ofFile i f)
          (Context.empty.enterFile (.ofFile i f root))).2.slot .links .limitDereferences =
        .ok [] := by
  obtain ⟨hsightings, hend⟩ :=
    Dispatcher.filter_sightings .limitDereferences ids settings i f root hr
  have hchains := filter_fileRound hactive i f root
  have hleave := Dispatcher.leave_file_of_ne (show RuleId.limitDereferences ≠ _ by decide) hactive
    i f ((dispatcher [.limitDereferences] settings).fileEnd i f root)
  rw [hleave, List.map_nil, List.append_nil] at hsightings
  rw [hleave] at hend
  refine ⟨?_, Site.nodup_places _, fun t ht c => ⟨fun htarget => ?_, fun hc => ?_⟩, ?_⟩
  · rw [← hchains, ← hsightings, List.filter_filter]
    exact List.filter_congr fun x _ => Bool.and_comm _ _
  · have hchild := mem_children_of_targetSite? htarget
    exact ⟨hchild, (isTarget_of_mem_children ht hchild).mpr htarget⟩
  · exact (isTarget_of_mem_children ht hc.1).mp hc.2
  · exact (hend.slot_eq .links).trans (fileRound_eq hactive i f root).2

/-- A chain of two calls, with a chain of two properties among the arguments of the second. -/
def nestedChains : SourceFile :=
  let inner := ((Expr.var "x").property "y").property "z"
  let outer := ((Expr.var "a").methodCall "b" []).methodCall "c" [inner.onLine 2]
  ⟨"a.php", none, [.ofExpr outer]⟩

theorem chain_sightings_nestedChains :
    RuleId.all.count .limitDereferences = 1 ∧
      Settings.default.isActive .limitDereferences = true ∧
      (((dispatcher RuleId.all .default).visit 0 (.ofFile 0 nestedChains)
            (Context.empty.enterFile (.ofFile 0 nestedChains none))).1.flatMap
              Event.sightings).filter (fun x => x.2.rule = info.name && hasChainText x.2.message) =
          (longHeads 1 (Walk.preorder (.ofFile 0 nestedChains))).map (fun head =>
            (head.1, reported .default info (some (.ofFile 0 nestedChains none))
              head.2.span.firstLine (chainMessage 1 head.2))) ∧
        ((Walk.preorder (Site.ofFile 0 nestedChains)).map Site.place).Nodup ∧
        (∀ t ∈ Walk.preorder (Site.ofFile 0 nestedChains), ∀ c,
          targetSite? t = some c ↔
            c ∈ t.children ∧ isTarget (Walk.preorder (.ofFile 0 nestedChains)) c = true) ∧
        ((dispatcher RuleId.all .default).visit 0 (.ofFile 0 nestedChains)
            (Context.empty.enterFile (.ofFile 0 nestedChains none))).2.slot .links
              .limitDereferences = .ok [] :=
  ⟨by decide, by decide, chain_sightings RuleId.all .default none 0 nestedChains (by decide)
    (by decide)⟩

end Dereferences
end Rules
end SafetyLint
