import SafetyLint.Proofs.Stops
import SafetyLint.Proofs.Transport

/-!
# The number of a file is only a name

The files of a run are numbered, so that places in different files are different places.  Nothing
else depends on the numbers.  `renumber` gives the files other numbers, different ones for different
files, wherever numbers occur: in places and sites, in the open file and in what the rules remember.

A rule that is asked about a renumbered site in a renumbered context says what it said before, and
leaves the renumbered context (`Renumbered`).  For most rules that is plain, since they do not look
at places.  The two exceptions compare places with each other and do nothing else with them: the
rule about chains looks for links that are already covered (`checkLink_renumber`), the rule about
the scope of data for variables that are assigned to (`firstUses_renumber`).
-/

namespace SafetyLint

open SafetyLint.Tree Config

variable {σ : Nat → Nat}

/-! ## Places and sites -/

namespace Tree

namespace Place

/-- The place when the files have other numbers. -/
def renumber (σ : Nat → Nat) (p : Place) : Place := ⟨σ p.file, p.trail⟩

theorem renumber_child (p : Place) (i : Nat) :
    (p.child i).renumber σ = (p.renumber σ).child i := rfl

theorem renumber_injective (hσ : σ.Injective) : (renumber σ).Injective := by
  rintro ⟨file, trail⟩ ⟨file', trail'⟩ h
  obtain ⟨hfile, rfl⟩ : σ file = σ file' ∧ trail = trail' := Place.mk.inj h
  rw [hσ hfile]

/-- Whether a place is among others does not depend on the numbers. -/
theorem contains_map_renumber (hσ : σ.Injective) (places : List Place) (p : Place) :
    (places.map (renumber σ)).contains (p.renumber σ) = places.contains p := by
  rw [Bool.eq_iff_iff, List.contains_iff_mem, List.contains_iff_mem,
    List.mem_map_of_injective (renumber_injective hσ)]

end Place

namespace Site

/-- The site when the files have other numbers. -/
def renumber (σ : Nat → Nat) (s : Site) : Site := ⟨s.place.renumber σ, s.node⟩

theorem place_renumber (s : Site) : (s.renumber σ).place = s.place.renumber σ := rfl

theorem map_renumber_children (s : Site) :
    s.children.map (renumber σ) = (s.renumber σ).children := by
  rw [children, children, List.mapIdx_eq_zipIdx_map, List.mapIdx_eq_zipIdx_map, List.map_map]
  rfl

theorem map_renumber_collect (kinds : List NodeKind) (root : Site) :
    (Walk.collect (isOf kinds) root).map (renumber σ) =
      Walk.collect (isOf kinds) (root.renumber σ) :=
  Walk.map_collect (p := isOf kinds) (renumber σ) map_renumber_children (fun _ => rfl) root

end Site

end Tree

/-! ## Slots and contexts -/

/-- What a slot holds when the files have other numbers. -/
def SlotKind.renumber (σ : Nat → Nat) : (k : SlotKind) → k.Value → k.Value
  | links, places => List.map (Place.renumber σ) places
  | header, v => v
  | count, v => v
  | note, v => v
  | host _, v => v

theorem SlotKind.renumber_initial (k : SlotKind) : k.renumber σ k.initial = k.initial := by
  cases k <;> rfl

def Slot.renumber (σ : Nat → Nat) (s : Slot) : Slot := ⟨s.kind, s.kind.renumber σ s.value⟩

theorem Slot.as?_renumber (s : Slot) (k : SlotKind) :
    (s.renumber σ).as? k = (s.as? k).map (k.renumber σ) := by
  obtain ⟨kind, value⟩ := s
  by_cases h : kind = k
  · subst h
    rw [renumber, as?_mk, as?_mk]
    rfl
  · have hkind : ¬ (renumber σ ⟨kind, value⟩).kind = k := h
    rw [as?, as?, dif_neg h, dif_neg hkind]
    rfl

def OpenFile.renumber (σ : Nat → Nat) (o : OpenFile) : OpenFile := { o with number := σ o.number }

def renumberSlots (σ : Nat → Nat) (slots : List (RuleId × Slot)) : List (RuleId × Slot) :=
  slots.map fun entry => (entry.1, entry.2.renumber σ)

theorem lookup_renumberSlots (rule : RuleId) (slots : List (RuleId × Slot)) :
    (renumberSlots σ slots).lookup rule = (slots.lookup rule).map (Slot.renumber σ) := by
  induction slots with
  | nil => rfl
  | cons entry rest ih =>
    obtain ⟨r, s⟩ := entry
    rw [renumberSlots, List.map_cons, ← renumberSlots, List.lookup_cons, List.lookup_cons, ih]
    cases rule == r <;> rfl

theorem renumberSlots_setSlot (rule : RuleId) (slot : Slot) (slots : List (RuleId × Slot)) :
    renumberSlots σ (setSlot rule slot slots) =
      setSlot rule (slot.renumber σ) (renumberSlots σ slots) := by
  induction slots with
  | nil => rfl
  | cons entry rest ih =>
    obtain ⟨r, s⟩ := entry
    by_cases h : r = rule
    · simp [setSlot, renumberSlots, h]
    · simp only [setSlot, if_neg h, renumberSlots, List.map_cons] at ih ⊢
      rw [ih]

namespace Context

/-- The context when the files have other numbers. -/
def renumber (σ : Nat → Nat) (c : Context) : Context :=
  ⟨c.file.map (OpenFile.renumber σ), c.functions, c.classes, renumberSlots σ c.slots⟩

variable (c : Context)

theorem location_renumber : (c.renumber σ).location = c.location := by
  obtain ⟨_ | o, functions, classes, slots⟩ := c <;> rfl

theorem finding_renumber : (c.renumber σ).finding = c.finding := by
  funext info line message
  rw [finding, finding, location_renumber]

theorem slot_renumber (k : SlotKind) (rule : RuleId) :
    (c.renumber σ).slot k rule = (c.slot k rule).map (k.renumber σ) := by
  rw [slot, slot, renumber, lookup_renumberSlots]
  cases c.slots.lookup rule with
  | none => exact congrArg Except.ok (k.renumber_initial).symm
  | some s =>
    simp only [Option.map_some, s.as?_renumber]
    cases s.as? k <;> rfl

theorem renumber_putSlot (k : SlotKind) (rule : RuleId) (v : k.Value) :
    (c.putSlot k rule v).renumber σ = (c.renumber σ).putSlot k rule (k.renumber σ v) := by
  rw [renumber, putSlot, renumberSlots_setSlot]
  rfl

end Context

/-- To give the files other numbers is a transport. -/
def Transport.renumber (σ : Nat → Nat) : Transport where
  context := Context.renumber σ
  value := SlotKind.renumber σ
  finding_context := Context.finding_renumber
  slot_context := Context.slot_renumber
  context_putSlot := Context.renumber_putSlot

/-- The second question gets, when the files have other numbers, the answer of the first. -/
abbrev Renumbered (σ : Nat → Nat) (q q' : Context → Outcome × Context) : Prop :=
  Carried (.renumber σ) q q'

/-! ## The nine rules -/

namespace Rules

theorem ComplexFlow.renumbered_check (settings : Settings) (site : Site) :
    Renumbered σ (complexFlow.check settings site)
      (complexFlow.check settings (site.renumber σ)) := by
  refine .plain fun c => ?_
  rw [findings, Transport.finding_context]
  rfl

theorem LoopBounds.renumbered_check (settings : Settings) (site : Site) :
    Renumbered σ (loopBounds.check settings site)
      (loopBounds.check settings (site.renumber σ)) := by
  obtain ⟨place, node⟩ := site
  cases node with
  | stmt s =>
    refine .of_outcome fun c => ?_
    rw [Transport.finding_context]
    rfl
  | _ => exact Carried.silent settings

theorem Allocation.renumbered_check (settings : Settings) (site : Site) :
    Renumbered σ (allocation.check settings site)
      (allocation.check settings (site.renumber σ)) := by
  refine .plain fun c => ?_
  rw [findings, Transport.finding_context]
  rfl

theorem FunctionLength.measuredLength_renumber (settings : Settings) (c : Context) :
    measuredLength settings ((Transport.renumber σ).context c) = measuredLength settings c := by
  obtain ⟨_ | o, functions, classes, slots⟩ := c <;> rfl

theorem FunctionLength.renumbered_check (settings : Settings) (site : Site) :
    Renumbered σ (functionLength.check settings site)
      (functionLength.check settings (site.renumber σ)) := by
  refine .plain fun c => ?_
  have hmessage : message? settings ((Transport.renumber σ).context c) = message? settings c := by
    funext label decl
    rw [message?, message?, measuredLength_renumber]
  rw [findings, Transport.finding_context, hmessage]
  rfl

theorem Assertions.renumbered_check (settings : Settings) (site : Site) :
    Renumbered σ (assertions.check settings site)
      (assertions.check settings (site.renumber σ)) := by
  refine .plain fun c => ?_
  rw [findings, Transport.finding_context]
  rfl

theorem ReturnValue.renumbered_check (settings : Settings) (site : Site) :
    Renumbered σ (returnValue.check settings site)
      (returnValue.check settings (site.renumber σ)) := by
  refine .plain fun c => ?_
  rw [findings, Transport.finding_context]
  rfl

/-! ### First uses -/

namespace DataScope

theorem targetPlace?_renumber (s : Site) :
    targetPlace? (s.renumber σ) = (targetPlace? s).map (Place.renumber σ) := by
  obtain ⟨place, node⟩ := s
  cases node with
  | expr e =>
    obtain ⟨span, kind, type⟩ := e
    cases kind <;> rfl
  | _ => rfl

theorem read?_renumber (hσ : σ.Injective) (targets : List Place) (s : Site) :
    read? (targets.map (Place.renumber σ)) (s.renumber σ) = read? targets s := by
  rw [read?, Site.place_renumber, Place.contains_map_renumber hσ]
  rfl

theorem firstUses_renumber (hσ : σ.Injective) (root : Site) :
    firstUses (root.renumber σ) = firstUses root := by
  rw [firstUses, firstUses, ← Site.map_renumber_collect]
  generalize Walk.collect (Site.isOf [.assign, .var]) root = sites
  have htargets : (sites.map (Site.renumber σ)).filterMap targetPlace? =
      (sites.filterMap targetPlace?).map (Place.renumber σ) := by
    rw [List.filterMap_map, List.map_filterMap]
    exact List.filterMap_congr fun s _ => targetPlace?_renumber s
  have hreads : (sites.map (Site.renumber σ)).filterMap
        (read? ((sites.filterMap targetPlace?).map (Place.renumber σ))) =
      sites.filterMap (read? (sites.filterMap targetPlace?)) := by
    rw [List.filterMap_map]
    exact List.filterMap_congr fun s _ => read?_renumber hσ _ s
  have hassigned : (sites.map (Site.renumber σ)).filterMap assignment? =
      sites.filterMap assignment? := by
    rw [List.filterMap_map]
    rfl
  simp only [htargets, hreads, hassigned]

theorem renumbered_check (hσ : σ.Injective) (settings : Settings) (site : Site) :
    Renumbered σ (dataScope.check settings site) (dataScope.check settings (site.renumber σ)) := by
  refine .plain fun c => ?_
  have hlate : lateFindings settings (site.renumber σ) ((Transport.renumber σ).context c) =
      lateFindings settings site c := by
    funext decl
    rw [lateFindings, firstUses_renumber hσ, Transport.finding_context]
    rfl
  rw [findings, Transport.finding_context, hlate]
  rfl

end DataScope

/-! ### Covered links -/

namespace Dereferences

theorem innerPlaces_renumber (n : Nat) (p : Place) :
    innerPlaces (p.renumber σ) n = (innerPlaces p n).map (Place.renumber σ) := by
  induction n generalizing p with
  | zero => rfl
  | succ n ih => rw [innerPlaces, innerPlaces, ← Place.renumber_child, ih, List.map_cons]

theorem checkLink_renumber (hσ : σ.Injective) (max : Nat) (place : Place) (e : Expr)
    (covered : List Place) :
    checkLink max (place.renumber σ) e (covered.map (Place.renumber σ)) =
      ((checkLink max place e covered).1,
        (checkLink max place e covered).2.map (Place.renumber σ)) := by
  rw [checkLink, checkLink, Place.contains_map_renumber hσ]
  split
  · have hothers : (fun p => decide (p ≠ place.renumber σ)) ∘ Place.renumber σ =
        fun p => decide (p ≠ place) := by
      funext p
      exact decide_eq_decide.mpr (Place.renumber_injective hσ).ne_iff
    rw [List.filter_map, hothers]
  · split
    · rfl
    · rw [innerPlaces_renumber, List.map_append]

theorem renumbered_check (hσ : σ.Injective) (settings : Settings) (site : Site) :
    Renumbered σ (dereferences.check settings site)
      (dereferences.check settings (site.renumber σ)) := by
  obtain ⟨place, node⟩ := site
  show Renumbered σ (check settings ⟨place, node⟩) (check settings ⟨place.renumber σ, node⟩)
  cases node with
  | expr e =>
    by_cases hlink : isLink e = true
    · rw [check_of_isLink settings place hlink, check_of_isLink settings _ hlink]
      refine .slotQuestion fun covered => ?_
      have hcheck := checkLink_renumber hσ settings.maxDereferences place e covered
      exact congrArg (fun answer => (answer.1.toList, answer.2)) hcheck
    · rw [check_of_not_isLink settings place hlink, check_of_not_isLink settings _ hlink]
      exact .of_messages rfl fun _ => rfl
  | _ => exact Carried.silent settings

end Dereferences

/-! ### Headers -/

namespace Diagnostics

theorem renumbered_check (settings : Settings) (site : Site) :
    Renumbered σ (diagnostics.check settings site)
      (diagnostics.check settings (site.renumber σ)) := by
  obtain ⟨place, node⟩ := site
  cases node with
  | classDecl d => exact carried_reportMissing (fun _ => rfl) settings d.span.firstLine
  | stmt s =>
    obtain ⟨span, kind, comments⟩ := s
    cases kind with
    | declareBlock directives =>
      exact carried_checkDirectives (fun _ => rfl) settings directives span.firstLine
    | namespaceBlock name body =>
      exact carried_reportMissing (fun _ => rfl) settings span.firstLine
    | _ => exact Carried.silent settings
  | expr e => exact .of_messages rfl fun _ => rfl
  | _ => exact Carried.silent settings

end Diagnostics

/-- What the rules do on a node does not depend on the numbers of the files. -/
theorem renumbered_check (hσ : σ.Injective) (settings : Settings) (site : Site) :
    ∀ id, Renumbered σ ((ofId id).check settings site) ((ofId id).check settings (site.renumber σ))
  | .noComplexFlow => ComplexFlow.renumbered_check settings site
  | .fixedLoopBounds => LoopBounds.renumbered_check settings site
  | .noHeapAllocation => Allocation.renumbered_check settings site
  | .functionLength => FunctionLength.renumbered_check settings site
  | .minimumAssertions => Assertions.renumbered_check settings site
  | .restrictDataScope => DataScope.renumbered_check hσ settings site
  | .checkReturnValue => ReturnValue.renumbered_check settings site
  | .limitDereferences => Dereferences.renumbered_check hσ settings site
  | .mandatoryDiagnostics => Diagnostics.renumbered_check settings site

end Rules

end SafetyLint
