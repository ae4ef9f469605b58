import SafetyLint.Finding
import Mathlib.Data.List.Sort

/-!
# Sorting findings loses no order

Findings are sorted by place with a stable sort, and many findings share a place.  So the order on
findings is not antisymmetric, and what is known about sorting by a linear order does not apply.

* `Location.le_trans`, `Location.le_total`: places are ordered by a total preorder.
* `orderedInsert_mergeSort`: under a total preorder the stable sort inserts the elements one by one,
  each in front of its equals.
* `isStableSort_mergeSort`, `eq_of_filter_ties_eq`: what is sorted stably is in order, has in each
  place what was there before in the same order, and is fixed by that.
* `filter_sortFindings`: sorting first and selecting then is selecting first and sorting then.
* `map_mark_sortFindings_sublist`: if the marks of some findings are a part of the marks of others,
  sorting both keeps them so.
-/

namespace SafetyLint

/-! ## Places -/

/-- Comparing images under a map is as good as comparing. -/
theorem transCmp_comap {α β : Type} (cmp : β → β → Ordering) [Std.TransCmp cmp] (f : α → β) :
    Std.TransCmp fun a b => cmp (f a) (f b) where
  eq_swap := Std.OrientedCmp.eq_swap
  isLE_trans := Std.TransCmp.isLE_trans

namespace Path

instance : Std.TransCmp Component.compare :=
  inferInstanceAs (Std.TransCmp (compareLex (compareOn Component.rank) (compareOn Component.text)))

theorem compareComponents_eq_compareLex :
    ∀ as bs : List Component, compareComponents as bs = List.compareLex Component.compare as bs
  | [], [] => rfl
  | [], _ :: _ => rfl
  | _ :: _, [] => rfl
  | a :: as, b :: bs => by
    rw [compareComponents, List.compareLex, compareComponents_eq_compareLex as bs]
    cases a.compare b <;> rfl

instance : Std.TransCmp compareComponents := by
  have h : compareComponents = List.compareLex Component.compare :=
    funext fun as => funext fun bs => compareComponents_eq_compareLex as bs
  rw [h]
  infer_instance

instance : Std.TransCmp Path.compare := transCmp_comap compareComponents components

instance : Std.LawfulEqCmp Component.compare where
  compare_self {a} := by
    rw [Component.compare, Std.ReflOrd.compare_self, Std.ReflOrd.compare_self]
    rfl
  eq_of_compare {a b} h := by
    obtain ⟨hrank, htext⟩ := Ordering.then_eq_eq.mp h
    have hrank : a.rank = b.rank := Std.LawfulEqOrd.eq_of_compare hrank
    have htext : a.text = b.text := Std.LawfulEqOrd.eq_of_compare htext
    cases a <;> cases b <;> simp_all [Component.rank, Component.text]

/-- Paths that are compared equal have the same components. -/
theorem components_eq_of_compare_eq {p q : String} (h : compare p q = .eq) :
    components p = components q := by
  rw [compare, compareComponents_eq_compareLex] at h
  exact Std.LawfulEqCmp.eq_of_compare h

end Path

namespace Location

instance : Std.TransCmp Location.compare := by
  have : Std.TransCmp fun a b : Location => Path.compare a.file b.file :=
    transCmp_comap Path.compare Location.file
  exact inferInstanceAs (Std.TransCmp (compareLex
    (fun a b : Location => Path.compare a.file b.file) (compareOn Location.line)))

theorem le_trans (a b c : Location) (hab : a.le b = true) (hbc : b.le c = true) :
    a.le c = true :=
  Std.TransCmp.isLE_trans hab hbc

theorem le_total (a b : Location) : (a.le b || b.le a) = true := by
  have hswap : compare b a = (compare a b).swap := Std.OrientedCmp.eq_swap
  rw [le, le, hswap]
  cases compare a b <;> rfl

end Location

/-! ## Stable sorting under a total preorder -/

section Preorder

variable {α : Type} {le : α → α → Bool}

/-- Under a total preorder the stable sort puts the first element in front of its equals. -/
theorem orderedInsert_mergeSort (trans : ∀ a b c, le a b = true → le b c = true → le a c = true)
    (total : ∀ a b, (le a b || le b a) = true) (a : α) (l : List α) :
    (l.mergeSort le).orderedInsert (fun x y => le x y = true) a = (a :: l).mergeSort le := by
  obtain ⟨before, after, hcons, hl, hbefore⟩ := List.mergeSort_cons trans total a l
  have hsorted := List.pairwise_mergeSort trans total (a :: l)
  rw [hcons] at hsorted
  have hafter : ∀ b ∈ after, le a b = true :=
    (List.pairwise_cons.mp (List.pairwise_append.mp hsorted).2.1).1
  have hstop : after.takeWhile (fun b => decide ¬ le a b = true) = [] := by
    cases after with
    | nil => rfl
    | cons b rest => simp [hafter b (List.mem_cons_self ..)]
  have hpass : ∀ b ∈ before, decide (¬ le a b = true) = true := by
    intro b hb
    simpa using hbefore b hb
  have htail : after.dropWhile (fun b => decide ¬ le a b = true) = after := by
    have := List.takeWhile_append_dropWhile (p := fun b => decide ¬ le a b = true) (l := after)
    rwa [hstop, List.nil_append] at this
  rw [List.orderedInsert_eq_take_drop, hl, hcons, List.takeWhile_append_of_pos hpass,
    List.dropWhile_append_of_pos hpass, hstop, htail, List.append_nil]

/-- A part of a list stays a part when both are sorted. -/
theorem mergeSort_sublist (trans : ∀ a b c, le a b = true → le b c = true → le a c = true)
    (total : ∀ a b, (le a b || le b a) = true) {l l' : List α} (h : l.Sublist l') :
    (l.mergeSort le).Sublist (l'.mergeSort le) := by
  have : IsTrans α (fun x y => le x y = true) := ⟨trans⟩
  induction h with
  | slnil => exact List.Sublist.refl _
  | cons a _ ih =>
    rw [← orderedInsert_mergeSort trans total a]
    exact ih.trans (List.sublist_orderedInsert _ _)
  | cons_cons a _ ih =>
    rw [← orderedInsert_mergeSort trans total a, ← orderedInsert_mergeSort trans total a]
    exact ih.orderedInsert_sublist a (List.pairwise_mergeSort trans total _)

/-- Selecting commutes with sorting. -/
theorem filter_mergeSort (trans : ∀ a b c, le a b = true → le b c = true → le a c = true)
    (total : ∀ a b, (le a b || le b a) = true) (p : α → Bool) (l : List α) :
    (l.mergeSort le).filter p = (l.filter p).mergeSort le := by
  have hsub := (mergeSort_sublist trans total (List.filter_sublist (p := p) (l := l))).filter p
  have hself : ((l.filter p).mergeSort le).filter p = (l.filter p).mergeSort le := by
    rw [List.filter_eq_self]
    intro a ha
    exact (List.mem_filter.mp (List.mem_mergeSort.mp ha)).2
  rw [hself] at hsub
  refine (hsub.eq_of_length ?_).symm
  rw [List.length_mergeSort]
  exact (((List.mergeSort_perm l le).filter p).length_eq).symm

/-- The elements stand in one place of the order. -/
def ties (le : α → α → Bool) (a b : α) : Bool := le a b && le b a

/-- `s` has the elements of `l` in order, and those in one place of the order stand as in `l`. -/
structure IsStableSort (le : α → α → Bool) (l s : List α) : Prop where
  perm : s.Perm l
  sorted : s.Pairwise fun a b => le a b = true
  stable : ∀ a, s.filter (ties le a) = l.filter (ties le a)

theorem isStableSort_mergeSort (trans : ∀ a b c, le a b = true → le b c = true → le a c = true)
    (total : ∀ a b, (le a b || le b a) = true) (l : List α) :
    IsStableSort le l (l.mergeSort le) where
  perm := List.mergeSort_perm l le
  sorted := List.pairwise_mergeSort trans total l
  stable a := by
    rw [filter_mergeSort trans total]
    refine List.mergeSort_of_pairwise (List.pairwise_of_forall_mem_list fun b hb c hc => ?_)
    have hba : le b a = true := (Bool.and_eq_true_iff.mp (List.mem_filter.mp hb).2).2
    have hac : le a c = true := (Bool.and_eq_true_iff.mp (List.mem_filter.mp hc).2).1
    exact trans b a c hba hac

section Total

variable (total : ∀ a b, (le a b || le b a) = true)
include total

theorem ties_self (a : α) : ties le a a = true := by
  have hle := total a a
  rw [Bool.or_self] at hle
  rw [ties, hle, Bool.and_self]

theorem le_of_mem_cons {x y : α} {l : List α}
    (hl : (x :: l).Pairwise fun a b => le a b = true) (hy : y ∈ x :: l) : le x y = true := by
  rcases List.mem_cons.mp hy with rfl | hy
  · exact (Bool.and_eq_true_iff.mp (ties_self total _)).1
  · exact (List.pairwise_cons.mp hl).1 y hy

theorem mem_of_filter_ties_eq {s t : List α} {a : α}
    (h : s.filter (ties le a) = t.filter (ties le a)) (ha : a ∈ s) : a ∈ t := by
  have hfilter := List.mem_filter.mpr ⟨ha, ties_self total a⟩
  rw [h] at hfilter
  exact (List.mem_filter.mp hfilter).1

/-- Sorted lists with the same elements in each place, in the same order, are equal. -/
theorem eq_of_filter_ties_eq {s t : List α} (hs : s.Pairwise fun a b => le a b = true)
    (ht : t.Pairwise fun a b => le a b = true)
    (h : ∀ a, s.filter (ties le a) = t.filter (ties le a)) : s = t := by
  induction s generalizing t with
  | nil =>
    refine (List.eq_nil_iff_forall_not_mem.mpr fun a ha => ?_).symm
    exact List.not_mem_nil (mem_of_filter_ties_eq total (h a).symm ha)
  | cons x s ih =>
    have hxt : x ∈ t := mem_of_filter_ties_eq total (h x) (List.mem_cons_self ..)
    cases t with
    | nil => exact absurd hxt List.not_mem_nil
    | cons y t =>
      -- Each head is in the other list, so neither comes after the other.
      have hys : y ∈ x :: s := mem_of_filter_ties_eq total (h y).symm (List.mem_cons_self ..)
      have hxy : ties le x y = true := by
        rw [ties, le_of_mem_cons total hs hys, le_of_mem_cons total ht hxt, Bool.and_self]
      have hx := h x
      rw [List.filter_cons_of_pos (ties_self total x), List.filter_cons_of_pos hxy] at hx
      obtain ⟨rfl, -⟩ := List.cons.inj hx
      have htail : ∀ a, s.filter (ties le a) = t.filter (ties le a) := by
        intro a
        have ha := h a
        by_cases hax : ties le a x = true
        · rw [List.filter_cons_of_pos hax, List.filter_cons_of_pos hax] at ha
          exact (List.cons.inj ha).2
        · rwa [List.filter_cons_of_neg hax, List.filter_cons_of_neg hax] at ha
      rw [ih (List.pairwise_cons.mp hs).2 (List.pairwise_cons.mp ht).2 htail]

end Total

end Preorder

/-! ## Findings -/

/-- The finding does not stand after the other. -/
def Finding.le (x y : Finding) : Bool := x.location.le y.location

theorem Finding.le_trans (x y z : Finding) (hxy : x.le y = true) (hyz : y.le z = true) :
    x.le z = true :=
  Location.le_trans x.location y.location z.location hxy hyz

theorem Finding.le_total (x y : Finding) : (x.le y || y.le x) = true :=
  Location.le_total x.location y.location

/-- Findings in one place are in one file, however its path is spelled. -/
theorem Finding.components_eq_of_ties {x y : Finding} (h : ties Finding.le x y = true) :
    Path.components x.location.file = Path.components y.location.file := by
  obtain ⟨hxy, hyx⟩ := Bool.and_eq_true_iff.mp h
  have hplace : Location.compare x.location y.location = .eq :=
    Std.OrientedCmp.isLE_antisymm hxy hyx
  exact Path.components_eq_of_compare_eq (Ordering.then_eq_eq.mp hplace).1

theorem isStableSort_sortFindings (fs : List Finding) :
    IsStableSort Finding.le fs (sortFindings fs) :=
  isStableSort_mergeSort Finding.le_trans Finding.le_total fs

/-- The sorted findings depend only on what stands in each place, and in which order. -/
theorem sortFindings_eq_of_filter_ties_eq {fs fs' : List Finding}
    (h : ∀ x, fs.filter (ties Finding.le x) = fs'.filter (ties Finding.le x)) :
    sortFindings fs = sortFindings fs' := by
  have hs := isStableSort_sortFindings fs
  have hs' := isStableSort_sortFindings fs'
  refine eq_of_filter_ties_eq Finding.le_total hs.sorted hs'.sorted fun x => ?_
  rw [hs.stable, hs'.stable, h]

theorem filter_sortFindings (p : Finding → Bool) (fs : List Finding) :
    (sortFindings fs).filter p = sortFindings (fs.filter p) := by
  rw [sortFindings, sortFindings, filter_mergeSort]
  · exact fun a b c => Location.le_trans a.location b.location c.location
  · exact fun a b => Location.le_total a.location b.location

/-- What a report says about a finding, apart from wording and severity: which rule and where. -/
def Finding.mark (f : Finding) : String × Location := (f.code, f.location)

/-- Sorted findings have sorted marks. -/
theorem map_mark_sortFindings (fs : List Finding) :
    (sortFindings fs).map Finding.mark =
      (fs.map Finding.mark).mergeSort fun a b => a.2.le b.2 :=
  List.map_mergeSort fun _ _ _ _ => rfl

/-- If the marks of some findings are a part of the marks of others, they stay so when both are
sorted. -/
theorem map_mark_sortFindings_sublist {fs fs' : List Finding}
    (h : (fs.map Finding.mark).Sublist (fs'.map Finding.mark)) :
    ((sortFindings fs).map Finding.mark).Sublist ((sortFindings fs').map Finding.mark) := by
  rw [map_mark_sortFindings, map_mark_sortFindings]
  refine mergeSort_sublist ?_ ?_ h
  · exact fun a b c => Location.le_trans a.2 b.2 c.2
  · exact fun a b => Location.le_total a.2 b.2

end SafetyLint
