import SafetyLint.Config.Basic
import SafetyLint.Rules.LoopBounds
import SafetyLint.Tree.Build
import Mathlib.Data.List.Basic

/-!
# Conditions of a for loop

A `for` loop may have several conditions.  All of them are evaluated and the last one decides
whether the loop goes on.  The rule about loops looks for a bound in any of them.

`IsBounded` says of one condition what the rule looks for, whoever answers the types.  The main
statement, `forLoop_passes_iff`, says which loops pass.  Where no condition before the last one is
bounded, these are the loops whose deciding condition is; otherwise a loop may pass that nothing
stops.
-/

namespace SafetyLint
namespace Rules
namespace LoopBounds

open SafetyLint.Tree Config

variable (typeOf : TypeOracle)

/-! ## Bounded conditions -/

/-- The expression is known to be the integer: its type knows, or its type does not and the
expression is a literal. -/
def IsConstant (e : Expr) (i : Int) : Prop :=
  (typeOf e).constantInt? = some i ∨
    ((typeOf e).constantInt? = none ∧ e.kind = .literal (.int i))

/-- The condition compares something by `<` or `<=` with a constant that is at most `max`. -/
def IsBounded (max : Nat) (condition : Expr) : Prop :=
  ∃ left right i,
    (condition.kind = .binary .smaller left right ∨
      condition.kind = .binary .smallerOrEqual left right) ∧
    IsConstant typeOf right i ∧ i ≤ (max : Int)

variable {typeOf}

theorem constant?_eq_some_iff {e : Expr} {i : Int} :
    constant? typeOf e = some i ↔ IsConstant typeOf e i := by
  rw [constant?, IsConstant]
  cases htype : (typeOf e).constantInt? with
  | some j => simp
  | none =>
    cases hkind : e.kind with
    | literal value => cases value <;> simp
    | _ => simp

theorem any_constant?_iff {e : Expr} {max : Nat} :
    ((constant? typeOf e).any fun bound => bound ≤ (max : Int)) = true ↔
      ∃ i, IsConstant typeOf e i ∧ i ≤ (max : Int) := by
  rw [Option.any_eq_true]
  refine exists_congr fun i => ?_
  rw [constant?_eq_some_iff, decide_eq_true_iff]

theorem hasFixedBound_iff {max : Nat} {condition : Expr} :
    hasFixedBound typeOf max condition = true ↔ IsBounded typeOf max condition := by
  obtain ⟨span, kind, type⟩ := condition
  cases kind with
  | binary op left right =>
    cases op with
    | smaller | smallerOrEqual =>
      refine any_constant?_iff.trans ?_
      simp [IsBounded]
    | _ => simp [hasFixedBound, IsBounded]
  | _ => simp [hasFixedBound, IsBounded]

theorem forMessage?_eq_none_iff {max : Nat} {conditions steps : List Expr} :
    forMessage? typeOf max conditions steps = none ↔
      steps ≠ [] ∧ ∃ condition ∈ conditions, IsBounded typeOf max condition := by
  have hany : conditions.any (hasFixedBound typeOf max) = true ↔
      ∃ condition ∈ conditions, IsBounded typeOf max condition := by
    rw [List.any_eq_true]
    exact exists_congr fun condition => and_congr_right fun _ => hasFixedBound_iff
  rw [← hany, forMessage?]
  cases conditions with
  | nil => simp
  | cons condition rest =>
    cases steps with
    | nil => simp
    | cons step steps =>
      cases (condition :: rest).any (hasFixedBound typeOf max) <;> simp

/-! ## Loops that pass -/

variable (typeOf) in
/-- The rule about loops says nothing at a site. -/
def Passes (settings : Settings) (site : Site) (c : Context) : Prop :=
  ((loopBoundsBy typeOf).check settings site c).1 = .ok []

theorem passes_forLoop_iff {settings : Settings} {place : Place} {span : Span}
    {comments : List String} {init conditions steps : List Expr} {body : List Stmt} {c : Context} :
    Passes typeOf settings ⟨place, .stmt ⟨span, .forLoop init conditions steps body, comments⟩⟩ c ↔
      forMessage? typeOf settings.maxLoopIterations conditions steps = none := by
  show (Except.ok ((forMessage? typeOf settings.maxLoopIterations conditions steps).toList.map _) :
    Outcome) = .ok [] ↔ _
  rw [Except.ok.injEq, List.map_eq_nil_iff, Option.toList_eq_nil_iff]

/-- The `for` loops that pass, whoever answers the types.

* A loop passes if it has a step and any of its conditions is bounded.
* If no condition before the last one is bounded, as when there is one condition only, it passes if
  it has a step and the condition that decides is bounded. -/
theorem forLoop_passes_iff (typeOf : TypeOracle) (settings : Settings) (place : Place) (span : Span)
    (comments : List String) (init conditions steps : List Expr) (body : List Stmt) (c : Context) :
    let site : Site := ⟨place, .stmt ⟨span, .forLoop init conditions steps body, comments⟩⟩
    (Passes typeOf settings site c ↔
        steps ≠ [] ∧ ∃ condition ∈ conditions,
          IsBounded typeOf settings.maxLoopIterations condition) ∧
      ∀ before deciding, conditions = before ++ [deciding] →
        (∀ condition ∈ before, ¬ IsBounded typeOf settings.maxLoopIterations condition) →
        (Passes typeOf settings site c ↔
          steps ≠ [] ∧ IsBounded typeOf settings.maxLoopIterations deciding) := by
  intro site
  have hpasses : Passes typeOf settings site c ↔ steps ≠ [] ∧ ∃ condition ∈ conditions,
      IsBounded typeOf settings.maxLoopIterations condition :=
    passes_forLoop_iff.trans forMessage?_eq_none_iff
  refine ⟨hpasses, fun before deciding hconditions hbefore => hpasses.trans ?_⟩
  refine and_congr_right fun _ => ⟨?_, fun hdeciding => ⟨deciding, ?_, hdeciding⟩⟩
  · rintro ⟨condition, hmem, hbounded⟩
    rw [hconditions, List.mem_append, List.mem_singleton] at hmem
    rcases hmem with hmem | rfl
    · exact absurd hbounded (hbefore condition hmem)
    · exact hbounded
  · rw [hconditions]
    exact List.mem_append_right before (List.mem_singleton_self deciding)

/-- The condition `$i < 10`. -/
def belowTen : Expr :=
  .ofKind (.binary .smaller (.ofKind (.var "i")) (.ofKind (.literal (.int 10))))

/-- A loop that counts `$i` up. -/
def countingLoop (conditions : List Expr) : Site :=
  ⟨.root 0, .stmt (.ofKind (.forLoop [] conditions [.ofKind (.unary .postInc (.ofKind (.var "i")))]
    []))⟩

theorem isBounded_belowTen (typeOf : TypeOracle)
    (h : (typeOf (.ofKind (.literal (.int 10)))).constantInt? = none) :
    IsBounded typeOf Settings.default.maxLoopIterations belowTen :=
  ⟨_, _, 10, Or.inl rfl, Or.inr ⟨h, rfl⟩, by decide⟩

/-- A loop whose only condition is bounded. -/
theorem forLoop_passes_belowTen :
    (∀ condition ∈ ([] : List Expr),
        ¬ IsBounded Expr.type Settings.default.maxLoopIterations condition) ∧
      Passes Expr.type .default (countingLoop [belowTen]) .empty := by
  have hbefore : ∀ condition ∈ ([] : List Expr),
      ¬ IsBounded Expr.type Settings.default.maxLoopIterations condition :=
    fun _ h => absurd h List.not_mem_nil
  obtain ⟨-, hdeciding⟩ := forLoop_passes_iff Expr.type .default (.root 0) (.line 1) [] []
    [belowTen] [.ofKind (.unary .postInc (.ofKind (.var "i")))] [] .empty
  have hpasses := hdeciding [] belowTen rfl hbefore
  exact ⟨hbefore, hpasses.mpr ⟨List.cons_ne_nil _ _, isBounded_belowTen Expr.type rfl⟩⟩

/-- A loop passes that goes on as long as `$more` is true, because its other condition is
bounded. -/
theorem forLoop_passes_without_deciding_bound :
    Passes Expr.type .default (countingLoop [belowTen, .ofKind (.var "more")]) .empty ∧
      ¬ IsBounded Expr.type Settings.default.maxLoopIterations (.ofKind (.var "more")) := by
  constructor
  · rw [countingLoop, Stmt.ofKind, passes_forLoop_iff, forMessage?_eq_none_iff]
    exact ⟨List.cons_ne_nil _ _, belowTen, List.mem_cons_self, isBounded_belowTen Expr.type rfl⟩
  · rintro ⟨left, right, i, hkind | hkind, -⟩ <;> cases hkind

end LoopBounds
end Rules
end SafetyLint
