/-!
# Totals

The sum of a measure over a list.
-/

namespace SafetyLint

/-- The sum of `f` over a list. -/
def total {α : Type} (f : α → Nat) : List α → Nat
  | [] => 0
  | a :: rest => f a + total f rest

variable {α : Type} (f : α → Nat)

@[simp] theorem total_nil : total f [] = 0 := rfl

@[simp] theorem total_cons (a : α) (rest : List α) : total f (a :: rest) = f a + total f rest := rfl

@[simp] theorem total_append (as bs : List α) : total f (as ++ bs) = total f as + total f bs := by
  induction as with
  | nil => simp
  | cons a rest ih => rw [List.cons_append, total_cons, total_cons, ih, Nat.add_assoc]

@[simp] theorem total_reverse (as : List α) : total f as.reverse = total f as := by
  induction as with
  | nil => rfl
  | cons a rest ih =>
    rw [List.reverse_cons, total_append, total_cons, total_nil, total_cons, ih]
    omega

theorem total_map {β : Type} (g : β → α) (bs : List β) :
    total f (bs.map g) = total (fun b => f (g b)) bs := by
  induction bs with
  | nil => rfl
  | cons b rest ih => rw [List.map_cons, total_cons, total_cons, ih]

/-- No member is more than the total. -/
theorem le_total_of_mem {a : α} {as : List α} (h : a ∈ as) : f a ≤ total f as := by
  induction as with
  | nil => simp at h
  | cons b rest ih =>
    rw [total_cons]
    rcases List.mem_cons.mp h with rfl | h
    · omega
    · have := ih h
      omega

theorem total_flatMap {β : Type} (g : β → List α) (bs : List β) :
    total f (bs.flatMap g) = total (fun b => total f (g b)) bs := by
  induction bs with
  | nil => rfl
  | cons b rest ih => rw [List.flatMap_cons, total_append, total_cons, ih]

theorem total_filterMap {β : Type} (g : β → Option α) (bs : List β) :
    total f (bs.filterMap g) = total (fun b => total f (g b).toList) bs := by
  induction bs with
  | nil => rfl
  | cons b rest ih => cases h : g b <;> simp [h, ih]

theorem total_attach (as : List α) :
    total (fun a : { a : α // a ∈ as } => f a.1) as.attach = total f as := by
  rw [← total_map f Subtype.val, List.attach_map_subtype_val]

variable {f}

theorem total_congr {g : α → Nat} {as : List α} (h : ∀ a ∈ as, f a = g a) :
    total f as = total g as := by
  induction as with
  | nil => rfl
  | cons a rest ih =>
    rw [total_cons, total_cons, h a (List.mem_cons_self ..),
      ih fun b hb => h b (List.mem_cons_of_mem _ hb)]

/-- Members that weigh nothing may be left out. -/
theorem total_filter {p : α → Bool} (h : ∀ a, p a = false → f a = 0) (as : List α) :
    total f (as.filter p) = total f as := by
  induction as with
  | nil => rfl
  | cons a rest ih =>
    cases hp : p a with
    | true => rw [List.filter_cons_of_pos hp, total_cons, total_cons, ih]
    | false =>
      rw [List.filter_cons_of_neg (by rw [hp]; exact Bool.false_ne_true), total_cons, ih, h a hp,
        Nat.zero_add]

end SafetyLint
