import SafetyLint.Proofs.Confinement

/-!
# Contexts carried over

A transport takes contexts to other contexts: it lets the findings that are made of them alone and
says what becomes of the content of slots.  A question is carried over to another one if the second,
asked in the context that the transport makes, gives the answer of the first and leaves what the
transport makes of the context that the first leaves.

Nothing here depends on what a transport changes.  Files get other numbers in one case, and side
data that rules do not look at is taken away in another.
-/

namespace SafetyLint

open SafetyLint.Tree Config

/-- A map of contexts that lets findings alone and goes along with slots. -/
structure Transport where
  context : Context → Context
  /-- What becomes of the content of a slot. -/
  value : (k : SlotKind) → k.Value → k.Value
  finding_context : ∀ c, (context c).finding = c.finding
  slot_context : ∀ c k rule, (context c).slot k rule = (c.slot k rule).map (value k)
  context_putSlot : ∀ c k rule v,
    context (c.putSlot k rule v) = (context c).putSlot k rule (value k v)

/-- The second question, asked behind the transport, gets the answer of the first. -/
def Carried (t : Transport) (q q' : Context → Outcome × Context) : Prop :=
  ∀ c, q' (t.context c) = ((q c).1, t.context (q c).2)

namespace Carried

variable {t : Transport}

/-- Questions that write nothing. -/
theorem of_outcome {outcome outcome' : Context → Outcome}
    (h : ∀ c, outcome' (t.context c) = outcome c) :
    Carried t (fun c => (outcome c, c)) (fun c => (outcome' c, c)) :=
  fun c => congrArg (·, t.context c) (h c)

theorem plain {findings : Settings → Site → Context → List Finding} {settings : Settings}
    {site site' : Site} (h : ∀ c, findings settings site' (t.context c) = findings settings site c) :
    Carried t (Rule.plain findings settings site) (Rule.plain findings settings site') :=
  of_outcome fun c => congrArg Except.ok (h c)

theorem silent (settings : Settings) : Carried t (Rule.silent settings) (Rule.silent settings) :=
  of_outcome fun _ => rfl

/-- Questions that are answered by messages on one line. -/
theorem of_messages {info : RuleInfo} {line line' : Nat} {messages messages' : Context → List String}
    (hline : line' = line) (h : ∀ c, messages' (t.context c) = messages c) :
    Carried t (fun c => (.ok ((messages c).map (c.finding info line)), c))
      (fun c => (.ok ((messages' c).map (c.finding info line')), c)) :=
  of_outcome fun c => by rw [hline, h, t.finding_context]

/-- Questions about a slot, if the transport goes along with what becomes of its content. -/
theorem slotQuestion {info : RuleInfo} {k : SlotKind} {line : Nat}
    {step step' : k.Value → List String × k.Value}
    (h : ∀ v, step' (t.value k v) = ((step v).1, t.value k (step v).2)) :
    Carried t (slotQuestion info k line step) (slotQuestion info k line step') := by
  intro c
  have hslot' := t.slot_context c k info.id
  cases hslot : c.slot k info.id with
  | error e =>
    rw [hslot] at hslot'
    rw [slotQuestion_of_error hslot, slotQuestion_of_error hslot']
  | ok v =>
    rw [hslot] at hslot'
    rw [slotQuestion_of_ok hslot, slotQuestion_of_ok hslot', h, t.finding_context,
      t.context_putSlot]

end Carried

/-! ## Headers -/

namespace Rules
namespace Diagnostics

variable {t : Transport} (ht : ∀ header, t.value .header header = header)
include ht

theorem carried_reportMissing (settings : Settings) (line : Nat) :
    Carried t (reportMissing settings line) (reportMissing settings line) := by
  rw [reportMissing_eq_slotQuestion]
  exact .slotQuestion fun header => by rw [ht, ht]

theorem carried_checkDirectives (settings : Settings) (directives : List Directive) (line : Nat) :
    Carried t (checkDirectives settings directives line)
      (checkDirectives settings directives line) := by
  cases h : (directives.filter (isRequired settings)).isEmpty with
  | true =>
    rw [checkDirectives_of_isEmpty settings line h]
    exact .silent settings
  | false =>
    rw [checkDirectives_eq_slotQuestion settings line h]
    exact .slotQuestion fun header => by rw [ht, ht]

end Diagnostics

/-- The last word of the rules is carried over if headers are. -/
theorem carried_finish {t : Transport} (ht : ∀ header, t.value .header header = header)
    (settings : Settings) (id : RuleId) :
    Carried t ((ofId id).finish settings) ((ofId id).finish settings) := by
  by_cases h : id = .mandatoryDiagnostics
  · rw [h]
    exact Diagnostics.carried_reportMissing ht settings 1
  · rw [finish_of_ne settings h]
    exact .silent settings

end Rules

end SafetyLint
