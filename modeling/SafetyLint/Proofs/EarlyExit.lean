import SafetyLint.Proofs.Preorder

/-!
# What a walk shows to its visitor

A walk keeps a stack, on which it puts the children of an element the wrong way round so that they
come off the right way.  Its visitor notices none of this.  It is shown what is below the root in
pre-order, from the first element on, and the last element it is shown is the first one at which it
says stop.

`Shown` is this description, for any list of elements and without a stack: one rule for the end of
the list, one for a stop and one for an element that is passed.  What a visitor was shown cannot be
read off its last state, so a walk is compared with the description through a visitor that keeps a
record (`recording`).  By `walk_eq_offer` a walk offers a list to its visitor, and from there on only
lists are left: `offer_recording_of_shown` and `exists_shown` make the two sides meet.
-/

namespace SafetyLint
namespace Walk

section Lists

variable {α σ : Type} (visit : σ → α → Bool × σ)

/-- A visitor in state `s` that comes to the elements `as` is shown those in `seen`; the answer is
whether it said stop, and its last state. -/
inductive Shown : σ → List α → List α → Bool × σ → Prop where
  | finished (s : σ) : Shown s [] [] (false, s)
  | stopped {s s' : σ} {a : α} (h : visit s a = (true, s')) (rest : List α) :
    Shown s (a :: rest) [a] (true, s')
  | passed {s s' : σ} {a : α} (h : visit s a = (false, s')) {rest seen : List α}
    {answer : Bool × σ} (later : Shown s' rest seen answer) :
    Shown s (a :: rest) (a :: seen) answer

/-- The visitor, with a record of what it was shown. -/
def recording : List α × σ → α → Bool × (List α × σ) :=
  fun (record, s) a => ((visit s a).1, (record ++ [a], (visit s a).2))

/-- The state of a visitor that was shown some elements. -/
def stateAfter (s : σ) (as : List α) : σ := as.foldl (fun s a => (visit s a).2) s

variable {visit}

theorem offer_of_shown {s : σ} {as seen : List α} {answer : Bool × σ}
    (h : Shown visit s as seen answer) : offer visit s as = answer := by
  induction h with
  | finished s => rfl
  | stopped hvisit rest => rw [offer, hvisit]
  | passed hvisit later ih =>
    rw [offer, hvisit]
    exact ih

/-- The record grows by what is shown, and the record is all that a recording visitor adds. -/
theorem offer_recording_of_shown {s : σ} {as seen : List α} {answer : Bool × σ}
    (h : Shown visit s as seen answer) (record : List α) :
    offer (recording visit) (record, s) as = (answer.1, (record ++ seen, answer.2)) := by
  induction h generalizing record with
  | finished s => rw [offer, List.append_nil]
  | stopped hvisit rest => rw [offer, recording, hvisit]
  | @passed _ _ a hvisit _ _ _ later ih =>
    rw [offer, recording, hvisit]
    have hlater := ih (record ++ [a])
    rw [List.append_assoc, List.singleton_append] at hlater
    exact hlater

variable (visit) in
/-- A visitor gets through every list, to its end or to a stop. -/
theorem exists_shown (s : σ) (as : List α) :
    ∃ seen answer, Shown visit s as seen answer := by
  induction as generalizing s with
  | nil => exact ⟨[], _, .finished s⟩
  | cons a rest ih =>
    rcases hvisit : visit s a with ⟨stop, s'⟩
    cases stop with
    | true => exact ⟨[a], _, .stopped hvisit rest⟩
    | false =>
      obtain ⟨seen, answer, hlater⟩ := ih s'
      exact ⟨a :: seen, answer, .passed hvisit hlater⟩

theorem offer_eq_iff {s : σ} {as : List α} {answer : Bool × σ} :
    offer visit s as = answer ↔ ∃ seen, Shown visit s as seen answer := by
  constructor
  · intro h
    obtain ⟨seen, answer', hshown⟩ := exists_shown visit s as
    have hanswer : answer' = answer := (offer_of_shown hshown).symm.trans h
    exact ⟨seen, hanswer ▸ hshown⟩
  · rintro ⟨seen, hshown⟩
    exact offer_of_shown hshown

theorem offer_recording_eq_iff {s : σ} {as seen : List α} {answer : Bool × σ} :
    offer (recording visit) ([], s) as = (answer.1, (seen, answer.2)) ↔
      Shown visit s as seen answer := by
  constructor
  · intro h
    obtain ⟨seen', answer', hshown⟩ := exists_shown visit s as
    have hrecord := (offer_recording_of_shown hshown []).symm.trans h
    rw [List.nil_append, Prod.mk.injEq, Prod.mk.injEq] at hrecord
    obtain ⟨hstop, hseen, hstate⟩ := hrecord
    have hanswer : answer' = answer := Prod.ext hstop hstate
    rw [← hseen, ← hanswer]
    exact hshown
  · intro hshown
    exact offer_recording_of_shown hshown []

/-- A visitor says stop exactly if there is an element at which it does, in the state in which it
comes there when it is shown everything before. -/
theorem fst_offer_eq_true_iff {s : σ} {as : List α} :
    (offer visit s as).1 = true ↔
      ∃ before a after, as = before ++ a :: after ∧
        (visit (stateAfter visit s before) a).1 = true := by
  induction as generalizing s with
  | nil =>
    constructor
    · intro h
      exact absurd h Bool.false_ne_true
    · rintro ⟨before, a, after, h, -⟩
      exact absurd h.symm (by simp)
  | cons b rest ih =>
    rcases hvisit : visit s b with ⟨stop, s'⟩
    cases stop with
    | true =>
      rw [offer, hvisit]
      exact iff_of_true rfl ⟨[], b, rest, rfl, by rw [stateAfter, List.foldl_nil, hvisit]⟩
    | false =>
      have hnext : ∀ as, stateAfter visit s (b :: as) = stateAfter visit s' as := fun as => by
        rw [stateAfter, List.foldl_cons, hvisit, stateAfter]
      rw [offer, hvisit]
      refine ih.trans ⟨?_, ?_⟩
      · rintro ⟨before, a, after, rfl, hstop⟩
        exact ⟨b :: before, a, after, rfl, by rw [hnext]; exact hstop⟩
      · rintro ⟨before, a, after, hsplit, hstop⟩
        rcases before with _ | ⟨b', before⟩
        · obtain ⟨rfl, -⟩ := List.cons.inj hsplit
          rw [stateAfter, List.foldl_nil, hvisit] at hstop
          exact absurd hstop Bool.false_ne_true
        · obtain ⟨rfl, hrest⟩ := List.cons.inj hsplit
          rw [hnext] at hstop
          exact ⟨before, a, after, hrest, hstop⟩

end Lists

section Trees

variable {α : Type} [Branching α]

theorem below_eq (a : α) : below a = (Branching.children a).flatMap fun c => c :: below c := by
  rw [below]
  exact List.flatMap_congr fun c _ => preorder_eq c

theorem occurs_eq_true_iff {p : α → Bool} {root : α} :
    occurs p root = true ↔ ∃ a ∈ below root, p a = true := by
  rw [occurs_eq_any, List.any_eq_true]

theorem collectIn_eq_filter (p : α → Bool) (roots : List α) :
    collectIn p roots = (roots.flatMap preorder).filter p := by
  rw [collectIn, List.filter_flatMap]
  refine List.flatMap_congr fun root _ => ?_
  rw [preorder_eq, collect_eq_filter, List.filter_cons]

/-- A walk with a stack is the recursive walk in pre-order with an early exit.  Elements are anything
that branches, such as the nodes of a tree or its sites; what is below an element is, by recursion,
each child followed by what is below the child.

* The visitor is asked about just what it is shown of the elements below the root, in their order,
  where `Shown` ends with the first element at which the visitor says stop, and takes its state from
  one element to the next; its answer is the answer of the walk.
* The walk says that it was stopped exactly if the visitor says stop somewhere.
* So searching is existence, collecting is filtering, for instance by kind, and collecting among the
  children and below them is collecting below their parent. -/
theorem walk_shows_preorder {σ : Type} (root : α) (visit : σ → α → Bool × σ) (s : σ)
    (p : α → Bool) :
    (∀ a : α, below a = (Branching.children a).flatMap fun c => c :: below c) ∧
    (∀ seen answer, walk root (recording visit) ([], s) = (answer.1, (seen, answer.2)) ↔
      Shown visit s (below root) seen answer) ∧
    (∀ answer, walk root visit s = answer ↔ ∃ seen, Shown visit s (below root) seen answer) ∧
    ((walk root visit s).1 = true ↔ ∃ before a after, below root = before ++ a :: after ∧
      (visit (stateAfter visit s before) a).1 = true) ∧
    (occurs p root = true ↔ ∃ a ∈ below root, p a = true) ∧
    collect p root = (below root).filter p ∧
    collectIn p (Branching.children root) = collect p root := by
  refine ⟨below_eq, fun seen answer => ?_, fun answer => ?_, ?_, occurs_eq_true_iff,
    collect_eq_filter p root, ?_⟩
  · rw [walk_eq_offer]
    exact offer_recording_eq_iff
  · rw [walk_eq_offer]
    exact offer_eq_iff
  · rw [walk_eq_offer]
    exact fst_offer_eq_true_iff
  · rw [collectIn_eq_filter, collect_eq_filter, below]

end Trees

end Walk
end SafetyLint
