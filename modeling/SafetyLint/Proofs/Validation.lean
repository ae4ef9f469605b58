import Mathlib.Algebra.Group.Int.Defs
import Mathlib.Data.Set.List
import SafetyLint.Config.Basic
import SafetyLint.Proofs.AllowLists
import SafetyLint.Proofs.NameOrder
import SafetyLint.Proofs.StableOrder

/-!
# What validation accepts, keeps and reports

A configuration gives values to fields: thresholds, the cap on iterations, and rule ids.  Each value
is legal or draws one complaint (`Given.isLegal_iff`), and `Configuration.entries` lists the values in
the order in which validation comes to them.

`FirstFault` is the first complaint along such a list.  A step of validation checks a list of entries
when it reports their first fault and nothing else (`Checks`).  One step after the other checks the
two lists one after the other (`Checks.bind`), so the steps add up to the whole order
(`checks_validateBy`), and validation succeeds exactly if no entry draws a complaint.  Patterns have
no entry: a library that does what is documented compiles them all.

What a legal configuration is turned into is `Configuration.Keeps`: numbers are kept as they are,
names, rules, severities and directives by what can be asked about them.
-/

namespace SafetyLint
namespace Config

open Text (PatternLibrary AllowList)

/-! ## Values and complaints -/

/-- A value that a configuration gives. -/
inductive Given where
  /-- A cap on iterations. -/
  | cap (n : Int)
  | threshold (n : Int)
  /-- The id of a rule. -/
  | rule (word : String)

namespace Given

def IsLegal : Given → Prop
  | cap n => 1 ≤ n ∧ n ≤ 2 ^ 32 - 1
  | threshold n => 0 ≤ n ∧ n ≤ 2 ^ 32 - 1
  | rule word => ∃ id : RuleId, id.word = word

/-- The complaint that a value draws. -/
inductive Draws : Given → Complaint → Prop where
  | negativeCap {n : Int} (h : n < 0) : Draws (cap n) (.negative n)
  | zeroCap : Draws (cap 0) .zero
  | largeCap {n : Int} (h : 2 ^ 32 - 1 < n) : Draws (cap n) (.tooLarge n)
  | negative {n : Int} (h : n < 0) : Draws (threshold n) (.negative n)
  | large {n : Int} (h : 2 ^ 32 - 1 < n) : Draws (threshold n) (.tooLarge n)
  | unknown {word : String} (h : ∀ id : RuleId, id.word ≠ word) :
    Draws (rule word) (.unknownRule word)

/-- A value is legal exactly if there is nothing to say about it. -/
theorem isLegal_iff {g : Given} : g.IsLegal ↔ ∀ x, ¬ g.Draws x := by
  constructor
  · intro hlegal x hx
    cases hx with
    | negativeCap h | zeroCap | largeCap h | negative h | large h =>
      obtain ⟨hleast, hgreatest⟩ := hlegal
      omega
    | unknown h =>
      obtain ⟨id, hid⟩ := hlegal
      exact h id hid
  · intro hnone
    cases g with
    | cap n =>
      have hnegative : ¬ n < 0 := fun h => hnone _ (.negativeCap h)
      have hlarge : ¬ 2 ^ 32 - 1 < n := fun h => hnone _ (.largeCap h)
      have hzero : n ≠ 0 := by
        rintro rfl
        exact hnone _ .zeroCap
      exact ⟨by omega, by omega⟩
    | threshold n =>
      have hnegative : ¬ n < 0 := fun h => hnone _ (.negative h)
      have hlarge : ¬ 2 ^ 32 - 1 < n := fun h => hnone _ (.large h)
      exact ⟨by omega, by omega⟩
    | rule word =>
      by_contra hlegal
      exact hnone _ (.unknown fun id hid => hlegal ⟨id, hid⟩)

/-- There is at most one thing to say about a value. -/
theorem Draws.unique {g : Given} {x y : Complaint} (hx : g.Draws x) (hy : g.Draws y) : x = y := by
  cases hx <;> cases hy <;> first | rfl | omega

end Given

/-- A field with a value that it is given. -/
structure Entry where
  field : String
  value : Given

/-- The first entry that is not legal, with the complaint that it draws. -/
inductive FirstFault : List Entry → InvalidField → Prop where
  | here {field : String} {value : Given} {x : Complaint} (h : value.Draws x)
    (rest : List Entry) : FirstFault (⟨field, value⟩ :: rest) ⟨field, x⟩
  | later {e : Entry} {rest : List Entry} {bad : InvalidField} (hlegal : e.value.IsLegal)
    (h : FirstFault rest bad) : FirstFault (e :: rest) bad

theorem firstFault_cons_iff {e : Entry} {rest : List Entry} {bad : InvalidField} :
    FirstFault (e :: rest) bad ↔
      (bad.field = e.field ∧ e.value.Draws bad.complaint) ∨
        (e.value.IsLegal ∧ FirstFault rest bad) := by
  constructor
  · intro h
    cases h with
    | here h => exact Or.inl ⟨rfl, h⟩
    | later hlegal h => exact Or.inr ⟨hlegal, h⟩
  · rintro (⟨hfield, hdraws⟩ | ⟨hlegal, h⟩)
    · obtain ⟨field, value⟩ := e
      obtain ⟨field', x⟩ := bad
      obtain rfl : field' = field := hfield
      exact .here hdraws rest
    · exact .later hlegal h

theorem not_firstFault_nil (bad : InvalidField) : ¬ FirstFault [] bad := by
  intro h
  cases h

/-- There is no first fault exactly if everything is legal. -/
theorem forall_isLegal_iff {entries : List Entry} :
    (∀ e ∈ entries, e.value.IsLegal) ↔ ∀ bad, ¬ FirstFault entries bad := by
  induction entries with
  | nil => exact iff_of_true (fun e he => absurd he List.not_mem_nil) not_firstFault_nil
  | cons e rest ih =>
    rw [List.forall_mem_cons, ih]
    constructor
    · rintro ⟨hlegal, hrest⟩ bad hbad
      rcases firstFault_cons_iff.mp hbad with ⟨-, hdraws⟩ | ⟨-, hlater⟩
      · exact Given.isLegal_iff.mp hlegal _ hdraws
      · exact hrest bad hlater
    · intro hnone
      have hlegal : e.value.IsLegal := Given.isLegal_iff.mpr fun x hx =>
        hnone ⟨e.field, x⟩ (firstFault_cons_iff.mpr (Or.inl ⟨rfl, hx⟩))
      exact ⟨hlegal, fun bad hbad => hnone bad (.later hlegal hbad)⟩

theorem firstFault_append_iff {before after : List Entry} {bad : InvalidField} :
    FirstFault (before ++ after) bad ↔
      FirstFault before bad ∨ (∀ e ∈ before, e.value.IsLegal) ∧ FirstFault after bad := by
  induction before with
  | nil =>
    refine ⟨fun h => Or.inr ⟨fun e he => absurd he List.not_mem_nil, h⟩, ?_⟩
    rintro (h | ⟨-, h⟩)
    · exact absurd h (not_firstFault_nil bad)
    · exact h
  | cons e rest ih =>
    rw [List.cons_append, firstFault_cons_iff, firstFault_cons_iff, ih, List.forall_mem_cons,
      and_or_left, or_assoc, and_assoc]

theorem FirstFault.unique {entries : List Entry} {bad bad' : InvalidField}
    (h : FirstFault entries bad) (h' : FirstFault entries bad') : bad = bad' := by
  induction h with
  | here hdraws rest =>
    rcases firstFault_cons_iff.mp h' with ⟨hfield, hdraws'⟩ | ⟨hlegal, -⟩
    · obtain ⟨field', x'⟩ := bad'
      obtain rfl : field' = _ := hfield
      rw [hdraws.unique hdraws']
    · exact absurd hdraws (Given.isLegal_iff.mp hlegal _)
  | later hlegal h ih =>
    rcases firstFault_cons_iff.mp h' with ⟨-, hdraws'⟩ | ⟨-, hlater⟩
    · exact absurd hdraws' (Given.isLegal_iff.mp hlegal _)
    · exact ih hlater

/-- A value is complained about as a value, and not as a pattern. -/
theorem Given.Draws.message_eq {g : Given} {x : Complaint} (h : g.Draws x) (field : String) :
    (InvalidField.mk field x).message = "Invalid value for `" ++ field ++ "`: " ++ x.message := by
  cases h <;> rfl

theorem FirstFault.message_eq {entries : List Entry} {bad : InvalidField}
    (h : FirstFault entries bad) :
    bad.message = "Invalid value for `" ++ bad.field ++ "`: " ++ bad.complaint.message := by
  induction h with
  | here hdraws rest => exact hdraws.message_eq _
  | later _ _ ih => exact ih

/-! ## Steps that check entries -/

/-- The step reports the first fault of the entries and fails for no other reason. -/
def Checks {α : Type} (entries : List Entry) (r : Except InvalidField α) : Prop :=
  ∀ bad, r = .error bad ↔ FirstFault entries bad

namespace Checks

variable {α β : Type} {entries later : List Entry}

theorem of_ok {a : α} : Checks [] (.ok a) := fun bad =>
  ⟨fun h => (by cases h), fun h => absurd h (not_firstFault_nil bad)⟩

/-- A step that checks one value may report what the value draws. -/
theorem of_draws {field : String} {value : Given} {x : Complaint} (h : value.Draws x) :
    Checks [⟨field, value⟩] (.error ⟨field, x⟩ : Except InvalidField α) := by
  intro bad
  constructor
  · intro hbad
    obtain rfl : ⟨field, x⟩ = bad := Except.error.inj hbad
    exact .here h []
  · intro hbad
    exact congrArg Except.error ((FirstFault.here h []).unique hbad)

theorem of_isLegal {field : String} {value : Given} (h : value.IsLegal) (a : α) :
    Checks [⟨field, value⟩] (.ok a) := by
  intro bad
  refine ⟨fun hbad => (by cases hbad), fun hbad => ?_⟩
  have hall : ∀ e ∈ [(⟨field, value⟩ : Entry)], e.value.IsLegal := List.forall_mem_singleton.mpr h
  exact absurd hbad (forall_isLegal_iff.mp hall bad)

/-- A step succeeds exactly if all that it checks is legal. -/
theorem exists_ok_iff {r : Except InvalidField α} (h : Checks entries r) :
    (∃ a, r = .ok a) ↔ ∀ e ∈ entries, e.value.IsLegal := by
  rw [forall_isLegal_iff]
  cases hr : r with
  | ok a =>
    refine iff_of_true ⟨a, rfl⟩ fun bad hbad => ?_
    have herror := (h bad).mpr hbad
    rw [hr] at herror
    cases herror
  | error bad =>
    refine iff_of_false ?_ fun hnone => hnone bad ((h bad).mp hr)
    rintro ⟨a, ha⟩
    cases ha

theorem bind {r : Except InvalidField α} {f : α → Except InvalidField β} (hr : Checks entries r)
    (hf : ∀ a, r = .ok a → Checks later (f a)) : Checks (entries ++ later) (r >>= f) := by
  intro bad
  rw [firstFault_append_iff]
  cases h : r with
  | ok a =>
    have hlegal := hr.exists_ok_iff.mp ⟨a, h⟩
    have hnone := forall_isLegal_iff.mp hlegal
    refine (hf a h bad).trans ⟨fun hbad => Or.inr ⟨hlegal, hbad⟩, ?_⟩
    rintro (hbad | ⟨-, hbad⟩)
    · exact absurd hbad (hnone bad)
    · exact hbad
  | error first =>
    have hfirst := (hr first).mp h
    constructor
    · intro hbad
      obtain rfl : first = bad := Except.error.inj hbad
      exact Or.inl hfirst
    · rintro (hbad | ⟨hlegal, -⟩)
      · exact congrArg Except.error (hfirst.unique hbad)
      · exact absurd hfirst (forall_isLegal_iff.mp hlegal first)

theorem map {r : Except InvalidField α} (hr : Checks entries r) (f : α → β) :
    Checks entries (r >>= fun a => .ok (f a)) := by
  have h := hr.bind (fun a _ => of_ok : ∀ a, r = .ok a → Checks [] (.ok (f a)))
  rwa [List.append_nil] at h

end Checks

/-! ## The steps of validation -/

theorem maxThreshold_eq : maxThreshold = 2 ^ 32 - 1 := rfl

theorem threshold_eq_ok {field : String} {n : Int} (h : (Given.threshold n).IsLegal) :
    threshold field n = .ok n.toNat := by
  obtain ⟨hleast, hgreatest⟩ := h
  rw [threshold, maxThreshold_eq, if_neg (by omega), if_neg (by omega)]

theorem checks_threshold (field : String) (n : Int) :
    Checks [⟨field, .threshold n⟩] (threshold field n) := by
  by_cases hnegative : n < 0
  · rw [threshold, if_pos hnegative]
    exact .of_draws (.negative hnegative)
  · by_cases hlarge : 2 ^ 32 - 1 < n
    · rw [threshold, if_neg hnegative, maxThreshold_eq, if_pos hlarge]
      exact .of_draws (.large hlarge)
    · have hlegal : (Given.threshold n).IsLegal := ⟨by omega, by omega⟩
      rw [threshold_eq_ok hlegal]
      exact .of_isLegal hlegal _

theorem loopThreshold_eq_ok {n : Int} (h : (Given.cap n).IsLegal) :
    loopThreshold n = .ok n.toNat := by
  obtain ⟨hleast, hgreatest⟩ := h
  have hthreshold : threshold "loops.max_iterations" n = .ok n.toNat :=
    threshold_eq_ok ⟨by omega, hgreatest⟩
  rw [loopThreshold, hthreshold]
  exact if_neg (by omega)

theorem checks_loopThreshold (n : Int) :
    Checks [⟨"loops.max_iterations", .cap n⟩] (loopThreshold n) := by
  by_cases hnegative : n < 0
  · rw [loopThreshold, threshold, if_pos hnegative]
    exact .of_draws (.negativeCap hnegative)
  · by_cases hlarge : 2 ^ 32 - 1 < n
    · rw [loopThreshold, threshold, if_neg hnegative, maxThreshold_eq, if_pos hlarge]
      exact .of_draws (.largeCap hlarge)
    · by_cases hzero : n = 0
      · subst hzero
        exact .of_draws .zeroCap
      · have hlegal : (Given.cap n).IsLegal := ⟨by omega, by omega⟩
        rw [loopThreshold_eq_ok hlegal]
        exact .of_isLegal hlegal _

theorem ofWord?_eq_some_iff {word : String} {id : RuleId} :
    RuleId.ofWord? word = some id ↔ id.word = word := by
  constructor
  · intro h
    rw [RuleId.ofWord?] at h
    have hfound := List.find?_some h
    exact eq_of_beq hfound
  · rintro rfl
    exact RuleId.ofWord?_word id

theorem word_injective : Function.Injective RuleId.word := by
  intro a b h
  exact Option.some.inj ((ofWord?_eq_some_iff.mpr h).symm.trans (RuleId.ofWord?_word b))

theorem ruleId_eq_ok (field : String) (id : RuleId) : ruleId field id.word = .ok id := by
  rw [ruleId, RuleId.ofWord?_word]

theorem checks_ruleId (field word : String) :
    Checks [⟨field, .rule word⟩] (ruleId field word) := by
  cases h : RuleId.ofWord? word with
  | some id =>
    have hlegal : (Given.rule word).IsLegal := ⟨id, ofWord?_eq_some_iff.mp h⟩
    rw [ruleId, h]
    exact .of_isLegal hlegal id
  | none =>
    rw [ruleId, h]
    refine .of_draws (.unknown fun id hid => ?_)
    rw [ofWord?_eq_some_iff.mpr hid] at h
    cases h

/-- The entries of rule ids under one field. -/
def ruleEntries (field : String) (words : List String) : List Entry :=
  words.map fun word => ⟨field, .rule word⟩

theorem forall_ruleEntries_iff {field : String} {words : List String} :
    (∀ e ∈ ruleEntries field words, e.value.IsLegal) ↔
      ∀ word ∈ words, ∃ id : RuleId, id.word = word := by
  rw [ruleEntries, List.forall_mem_map]
  exact Iff.rfl

theorem checks_ruleIds (field : String) (words : List String) :
    Checks (ruleEntries field words) (ruleIds field words) := by
  induction words with
  | nil => exact .of_ok
  | cons word rest ih => exact (checks_ruleId field word).bind fun id _ => ih.map (id :: ·)

theorem ruleIds_eq_ok (field : String) (ids : List RuleId) :
    ruleIds field (ids.map RuleId.word) = .ok ids := by
  induction ids with
  | nil => rfl
  | cons id rest ih =>
    rw [List.map_cons, ruleIds, ruleId_eq_ok, ih]
    rfl

theorem checks_severityOverrides (pairs : List (String × Severity)) :
    Checks (ruleEntries "severity" (pairs.map Prod.fst)) (severityOverrides pairs) := by
  induction pairs with
  | nil => exact .of_ok
  | cons pair rest ih =>
    exact (checks_ruleId "severity" pair.1).bind fun id _ => ih.map ((id, pair.2) :: ·)

theorem severityOverrides_eq_ok (overrides : List (RuleId × Severity)) :
    severityOverrides (overrides.map (Prod.map RuleId.word id)) = .ok overrides := by
  induction overrides with
  | nil => rfl
  | cons p rest ih =>
    rw [List.map_cons, Prod.map_apply', severityOverrides, ruleId_eq_ok, ih]
    rfl

theorem allowList_eq_ok {library : PatternLibrary} (hlibrary : library.Documented)
    (field : String) (patterns : List String) :
    allowList library field patterns = .ok ⟨patterns⟩ := by
  rw [allowList, AllowList.compileBy_eq hlibrary]
  rfl

theorem keyLe_trans {α : Type} (p q r : String × α) :
    decide (p.1 ≤ q.1) = true → decide (q.1 ≤ r.1) = true → decide (p.1 ≤ r.1) = true :=
  nameLe_trans p.1 q.1 r.1

theorem keyLe_total {α : Type} (p q : String × α) :
    (decide (p.1 ≤ q.1) || decide (q.1 ≤ p.1)) = true :=
  nameLe_total p.1 q.1

/-! ## The order of validation -/

namespace Configuration

/-- The keys of the severities in the order in which they are looked at. -/
def severityKeys (c : Configuration) : List String := (sortedByKey c.severity).map Prod.fst

/-- The values of a configuration in the order in which they are looked at. -/
def entries (c : Configuration) : List Entry :=
  ⟨"loops.max_iterations", .cap c.loops.maxIterations⟩ ::
  (ruleEntries "severity" c.severityKeys ++
  ⟨"function_length.max_lines", .threshold c.functionLength.maxLines⟩ ::
  ⟨"assertions.minimum", .threshold c.assertions.minimum⟩ ::
  ⟨"data_scope.max_class_properties", .threshold c.dataScope.maxClassProperties⟩ ::
  ⟨"data_scope.max_lines_to_first_use", .threshold c.dataScope.maxLinesToFirstUse⟩ ::
  ⟨"dereferences.max", .threshold c.dereferences.max⟩ ::
  (ruleEntries "rules.enabled" c.rules.enabled ++ ruleEntries "rules.except" c.rules.except))

theorem checks_validateBy {library : PatternLibrary} (hlibrary : library.Documented)
    (c : Configuration) : Checks c.entries (c.validateBy library) := by
  have hpatterns : ∀ field patterns, Checks [] (allowList library field patterns) := by
    intro field patterns
    rw [allowList_eq_ok hlibrary]
    exact .of_ok
  refine (checks_loopThreshold _).bind fun maxLoopIterations _ => ?_
  refine (checks_severityOverrides _).bind fun severities _ => ?_
  refine (checks_threshold _ _).bind fun maxFunctionLines _ => ?_
  refine (checks_threshold _ _).bind fun minAssertions _ => ?_
  refine (checks_threshold _ _).bind fun maxClassProperties _ => ?_
  refine (hpatterns _ _).bind fun allowedPublicProperties _ => ?_
  refine (hpatterns _ _).bind fun allowedGlobals _ => ?_
  refine (checks_threshold _ _).bind fun maxLinesToFirstUse _ => ?_
  refine (checks_threshold _ _).bind fun maxDereferences _ => ?_
  refine (checks_ruleIds _ _).bind fun enabled _ => ?_
  exact (checks_ruleIds _ _).map _

/-- The numbers are in range, and the ids are ids of rules. -/
structure IsLegal (c : Configuration) : Prop where
  maxIterations : 1 ≤ c.loops.maxIterations ∧ c.loops.maxIterations ≤ 2 ^ 32 - 1
  maxLines : 0 ≤ c.functionLength.maxLines ∧ c.functionLength.maxLines ≤ 2 ^ 32 - 1
  minimum : 0 ≤ c.assertions.minimum ∧ c.assertions.minimum ≤ 2 ^ 32 - 1
  maxClassProperties :
    0 ≤ c.dataScope.maxClassProperties ∧ c.dataScope.maxClassProperties ≤ 2 ^ 32 - 1
  maxLinesToFirstUse :
    0 ≤ c.dataScope.maxLinesToFirstUse ∧ c.dataScope.maxLinesToFirstUse ≤ 2 ^ 32 - 1
  max : 0 ≤ c.dereferences.max ∧ c.dereferences.max ≤ 2 ^ 32 - 1
  severity : ∀ word ∈ c.severity.map Prod.fst, ∃ id : RuleId, id.word = word
  enabled : ∀ word ∈ c.rules.enabled, ∃ id : RuleId, id.word = word
  except : ∀ word ∈ c.rules.except, ∃ id : RuleId, id.word = word

theorem severityKeys_perm (c : Configuration) :
    c.severityKeys.Perm (c.severity.map Prod.fst) :=
  (List.mergeSort_perm c.severity _).map Prod.fst

/-- The keys are in the order of their bytes. -/
theorem pairwise_severityKeys (c : Configuration) :
    c.severityKeys.Pairwise fun a b => bytes a ≤ bytes b := by
  have hsorted := List.pairwise_mergeSort keyLe_trans keyLe_total c.severity
  rw [severityKeys, List.pairwise_map]
  exact hsorted.imp fun hle => bytes_le (of_decide_eq_true hle)

theorem forall_entries_isLegal_iff (c : Configuration) :
    (∀ e ∈ c.entries, e.value.IsLegal) ↔ c.IsLegal := by
  have hseverity : (∀ e ∈ ruleEntries "severity" c.severityKeys, e.value.IsLegal) ↔
      ∀ word ∈ c.severity.map Prod.fst, ∃ id : RuleId, id.word = word := by
    rw [forall_ruleEntries_iff]
    exact forall_congr' fun word => imp_congr_left c.severityKeys_perm.mem_iff
  rw [entries, List.forall_mem_cons, List.forall_mem_append, hseverity]
  iterate 5 rw [List.forall_mem_cons]
  rw [List.forall_mem_append, forall_ruleEntries_iff, forall_ruleEntries_iff]
  constructor
  · rintro ⟨hcap, hwords, hlines, hminimum, hproperties, hgap, hmax, henabled, hexcept⟩
    exact ⟨hcap, hlines, hminimum, hproperties, hgap, hmax, hwords, henabled, hexcept⟩
  · intro h
    exact ⟨h.maxIterations, h.severity, h.maxLines, h.minimum, h.maxClassProperties,
      h.maxLinesToFirstUse, h.max, h.enabled, h.except⟩

end Configuration

/-! ## What is kept -/

/-- The lists have the same members. -/
def SameNames (a b : List String) : Prop := ∀ name, name ∈ a ↔ name ∈ b

/-- The settings say what the configuration says. -/
structure Configuration.Keeps (c : Configuration) (s : Settings) : Prop where
  maxLoopIterations : (s.maxLoopIterations : Int) = c.loops.maxIterations
  maxFunctionLines : (s.maxFunctionLines : Int) = c.functionLength.maxLines
  minAssertions : (s.minAssertions : Int) = c.assertions.minimum
  maxClassProperties : (s.maxClassProperties : Int) = c.dataScope.maxClassProperties
  maxLinesToFirstUse : (s.maxLinesToFirstUse : Int) = c.dataScope.maxLinesToFirstUse
  maxDereferences : (s.maxDereferences : Int) = c.dereferences.max
  initMethods : SameNames s.initMethods c.allocation.initMethods
  resourceFunctions : SameNames s.resourceFunctions c.allocation.resourceFunctions
  containerMethods : SameNames s.containerMethods c.allocation.containerMethods
  containerTypes : SameNames s.containerTypes c.allocation.containerTypes
  assertionFunctions : SameNames s.assertionFunctions c.assertions.functions
  assertionMethods : SameNames s.assertionMethods c.assertions.methods
  exceptionFunctions : SameNames s.exceptionFunctions c.assertions.exceptionFunctions
  ignoredFunctions : SameNames s.ignoredFunctions c.returnValues.ignoredFunctions
  suppressionFunctions : SameNames s.suppressionFunctions c.diagnostics.suppressionFunctions
  allowedPublicProperties :
    SameNames s.allowedPublicProperties.patterns c.dataScope.allowedPublicProperties
  allowedGlobals : SameNames s.allowedGlobals.patterns c.dataScope.allowedGlobals
  countComments : s.countComments = c.functionLength.includeComments
  countBlankLines : s.countBlankLines = c.functionLength.includeBlankLines
  allowFluentChains : s.allowFluentChains = c.returnValues.allowFluentChains
  /-- A rule runs if it is enabled and not excepted. -/
  active : ∀ id : RuleId,
    s.isActive id = true ↔ id.word ∈ c.rules.enabled ∧ id.word ∉ c.rules.except
  severity : ∀ id : RuleId, s.severity? id = c.severity.lookup id.word
  /-- A directive has to have the value that is required of it. -/
  valued : ∀ name value, s.requiredDirectives.lookup name = some (some value) ↔
    c.diagnostics.requiredDirectives.lookup name = some value
  /-- The other directives may have any value. -/
  unvalued : ∀ name, s.requiredDirectives.lookup name = some none ↔
    name ∈ c.diagnostics.requiredDirectivesAny ∧
      c.diagnostics.requiredDirectives.lookup name = none

/-! ### Rules and severities -/

theorem exists_map_word_eq {words : List String}
    (h : ∀ word ∈ words, ∃ id : RuleId, id.word = word) :
    ∃ ids : List RuleId, ids.map RuleId.word = words := by
  have hrange : words ∈ Set.range (List.map RuleId.word) := by
    rw [Set.range_list_map]
    exact h
  exact hrange

theorem exists_map_prodMap_word_eq {pairs : List (String × Severity)}
    (h : ∀ word ∈ pairs.map Prod.fst, ∃ id : RuleId, id.word = word) :
    ∃ overrides : List (RuleId × Severity),
      overrides.map (Prod.map RuleId.word id) = pairs := by
  have hrange : pairs ∈ Set.range (List.map (Prod.map RuleId.word (id : Severity → Severity))) := by
    rw [Set.range_list_map]
    intro p hp
    obtain ⟨rule, hrule⟩ := h p.1 (List.mem_map_of_mem hp)
    exact ⟨(rule, p.2), Prod.ext hrule rfl⟩
  exact hrange

theorem isActive_iff {s : Settings} {id : RuleId} :
    s.isActive id = true ↔
      id.word ∈ s.enabled.map RuleId.word ∧ id.word ∉ s.excepted.map RuleId.word := by
  rw [List.mem_map_of_injective word_injective, List.mem_map_of_injective word_injective,
    Settings.isActive, Bool.and_eq_true, Bool.not_eq_true', ← Bool.not_eq_true,
    List.contains_iff_mem, List.contains_iff_mem]

/-- A look-up under an injective map of the keys. -/
theorem lookup_map_prodMap {α β γ δ : Type} [DecidableEq α] [DecidableEq β] {f : α → β}
    (hf : Function.Injective f) (g : γ → δ) (pairs : List (α × γ)) (key : α) :
    (pairs.map (Prod.map f g)).lookup (f key) = (pairs.lookup key).map g := by
  induction pairs with
  | nil => rfl
  | cons p rest ih =>
    obtain ⟨other, value⟩ := p
    have hsame : (f key == f other) = (key == other) := by
      rw [Bool.eq_iff_iff, beq_iff_eq, beq_iff_eq]
      exact hf.eq_iff
    rw [List.map_cons, Prod.map_apply, List.lookup_cons, List.lookup_cons, hsame, ih]
    cases key == other <;> rfl

theorem lookup_eq_head?_filter {α : Type} (pairs : List (String × α)) (key : String) :
    pairs.lookup key = (pairs.filter fun p => key == p.1).head?.map Prod.snd := by
  induction pairs with
  | nil => rfl
  | cons p rest ih =>
    rw [List.lookup_cons, List.filter_cons]
    cases key == p.1 with
    | true => rfl
    | false => exact ih

/-- The first pair with a key is the same in the order of the keys. -/
theorem lookup_sortedByKey {α : Type} (pairs : List (String × α)) (key : String) :
    (sortedByKey pairs).lookup key = pairs.lookup key := by
  have hfilter : (sortedByKey pairs).filter (fun p => key == p.1) =
      pairs.filter fun p => key == p.1 := by
    rw [sortedByKey, filter_mergeSort keyLe_trans keyLe_total]
    refine List.mergeSort_of_pairwise (List.pairwise_of_forall_mem_list fun a ha b hb => ?_)
    rw [← eq_of_beq (List.mem_filter.mp ha).2, ← eq_of_beq (List.mem_filter.mp hb).2]
    exact decide_eq_true (String.le_refl key)
  rw [lookup_eq_head?_filter, lookup_eq_head?_filter, hfilter]

/-! ### Directives -/

theorem lookup_valued (pairs : List (String × Tree.Scalar)) (name : String) :
    (pairs.map fun p => (p.1, some p.2)).lookup name = (pairs.lookup name).map some :=
  lookup_map_prodMap Function.injective_id some pairs name

theorem lookup_unvalued_eq_some_iff {names : List String} {name : String}
    {value : Option Tree.Scalar} :
    (names.map fun n => (n, (none : Option Tree.Scalar))).lookup name = some value ↔
      name ∈ names ∧ value = none := by
  induction names with
  | nil => exact iff_of_false (by rintro ⟨⟩) fun h => absurd h.1 List.not_mem_nil
  | cons n rest ih =>
    rw [List.map_cons, List.lookup_cons, List.mem_cons]
    cases hname : name == n with
    | true =>
      have hsame : name = n := eq_of_beq hname
      exact ⟨fun h => ⟨Or.inl hsame, (Option.some.inj h).symm⟩, fun h => congrArg some h.2.symm⟩
    | false =>
      rw [ih, or_iff_right (ne_of_beq_false hname)]

theorem lookup_directives_eq_some_iff {d : DiagnosticsSection} {name : String}
    {value : Option Tree.Scalar} :
    (directives d).lookup name = some value ↔
      (d.requiredDirectives.lookup name).map some = some value ∨
        d.requiredDirectives.lookup name = none ∧ name ∈ d.requiredDirectivesAny ∧
          value = none := by
  rw [directives, List.lookup_append, lookup_valued, Option.or_eq_some_iff,
    lookup_unvalued_eq_some_iff, List.mem_filter, lookup_valued]
  cases d.requiredDirectives.lookup name with
  | some v =>
    rw [Option.map_some]
    simp
  | none =>
    rw [Option.map_none]
    simp

namespace Configuration

/-- A legal configuration passes, and nothing of it is lost. -/
theorem IsLegal.exists_validateBy_eq {library : PatternLibrary} (hlibrary : library.Documented)
    {c : Configuration} (h : c.IsLegal) : ∃ s, c.validateBy library = .ok s ∧ c.Keeps s := by
  obtain ⟨enabled, henabled⟩ := exists_map_word_eq h.enabled
  obtain ⟨excepted, hexcepted⟩ := exists_map_word_eq h.except
  have hkeys : ∀ word ∈ c.severityKeys, ∃ id : RuleId, id.word = word :=
    fun word hword => h.severity word (c.severityKeys_perm.mem_iff.mp hword)
  obtain ⟨severities, hseverities⟩ := exists_map_prodMap_word_eq hkeys
  rw [validateBy, loopThreshold_eq_ok h.maxIterations, ← hseverities, severityOverrides_eq_ok,
    threshold_eq_ok h.maxLines, threshold_eq_ok h.minimum, threshold_eq_ok h.maxClassProperties,
    allowList_eq_ok hlibrary, allowList_eq_ok hlibrary, threshold_eq_ok h.maxLinesToFirstUse,
    threshold_eq_ok h.max, ← henabled, ruleIds_eq_ok, ← hexcepted, ruleIds_eq_ok]
  refine ⟨_, rfl, ?_⟩
  constructor
  case active =>
    intro id
    rw [isActive_iff, ← henabled, ← hexcepted]
  case severity =>
    intro id
    rw [← lookup_sortedByKey, ← hseverities, lookup_map_prodMap word_injective, Option.map_id]
    rfl
  case valued =>
    intro name value
    rw [lookup_directives_eq_some_iff, Option.map_eq_some_iff]
    simp
  case unvalued =>
    intro name
    rw [lookup_directives_eq_some_iff]
    simp [and_comm]
  case maxLoopIterations => exact Int.toNat_of_nonneg (Int.le_trans Int.one_nonneg h.maxIterations.1)
  case maxFunctionLines => exact Int.toNat_of_nonneg h.maxLines.1
  case minAssertions => exact Int.toNat_of_nonneg h.minimum.1
  case maxClassProperties => exact Int.toNat_of_nonneg h.maxClassProperties.1
  case maxLinesToFirstUse => exact Int.toNat_of_nonneg h.maxLinesToFirstUse.1
  case maxDereferences => exact Int.toNat_of_nonneg h.max.1
  -- names and flags are taken over as they are
  all_goals first | rfl | exact fun name => Iff.rfl

/-- Validation accepts exactly the legal configurations and keeps all that they say.  Of any other
it reports the first fault, in the order of the fields and within a field in the order of its
values, where severities are in the order of their keys. -/
theorem validation_is_exact (library : PatternLibrary) (hlibrary : library.Documented)
    (c : Configuration) :
    ((∃ s, c.validateBy library = .ok s) ↔ c.IsLegal) ∧
      (∀ s, c.validateBy library = .ok s → c.Keeps s) ∧
      (∀ bad, c.validateBy library = .error bad ↔ FirstFault c.entries bad) ∧
      (∀ bad, FirstFault c.entries bad → bad.message =
        "Invalid value for `" ++ bad.field ++ "`: " ++ bad.complaint.message) ∧
      c.severityKeys.Perm (c.severity.map Prod.fst) ∧
      c.severityKeys.Pairwise fun a b => bytes a ≤ bytes b := by
  have hchecks := checks_validateBy hlibrary c
  have hlegal : (∃ s, c.validateBy library = .ok s) ↔ c.IsLegal :=
    hchecks.exists_ok_iff.trans c.forall_entries_isLegal_iff
  refine ⟨hlegal, fun s hs => ?_, hchecks, fun bad hbad => hbad.message_eq,
    c.severityKeys_perm, c.pairwise_severityKeys⟩
  obtain ⟨s', hs', hkeeps⟩ := (hlegal.mp ⟨s, hs⟩).exists_validateBy_eq hlibrary
  obtain rfl : s' = s := Except.ok.inj (hs'.symm.trans hs)
  exact hkeeps

/-- Two of three severities are for ids that no rule has.  The lesser of the two is reported, though
it is written after the other and a rule is enabled that there is not. -/
theorem validation_is_exact_unknownSeverities :
    Text.Glob.library.Documented ∧
      ({ default with
          severity := [("rule_9", .error), ("rule_77", .info), ("rule_11", .warning)]
          rules := { enabled := ["goto"], except := [] } } : Configuration).validate =
        .error ⟨"severity", .unknownRule "rule_11"⟩ := by
  refine ⟨Text.Glob.documented_library,
    ((validation_is_exact Text.Glob.library Text.Glob.documented_library _).2.2.1 _).mpr ?_⟩
  have hkeys : ({ default with
      severity := [("rule_9", .error), ("rule_77", .info), ("rule_11", .warning)]
      rules := { enabled := ["goto"], except := [] } } : Configuration).severityKeys =
        ["rule_11", "rule_77", "rule_9"] := by
    simp [severityKeys, sortedByKey, List.mergeSort]
  rw [entries, hkeys]
  refine .later ⟨by decide, by decide⟩ (.here (.unknown fun id => ?_) _)
  cases id <;> decide

end Configuration

end Config
end SafetyLint
