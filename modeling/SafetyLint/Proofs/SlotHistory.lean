import SafetyLint.Proofs.Stops
import Mathlib.Data.List.DropRight

/-!
# What slots remember

A context may be used by anybody: files are entered, scopes are opened and closed in any order, and
slots are asked for as any kind.  `Operation` lists what can be done to a context, and `run` does
some operations in a row, from the empty context on.

Of a run only the calls since the last reset matter to the slots.  The slot of a rule is then
`slotAfter` the calls for that rule: it is there if there was a call, it has the kind of the first
one, and it holds what was last written through a call of that kind.  `lookup_run` says this for
every run, by induction on its last operation.
-/

namespace SafetyLint

open SafetyLint.Tree

/-! ## Calls -/

/-- Somebody asks for the slot of a rule as some kind, and may write to it. -/
structure SlotCall where
  kind : SlotKind
  rule : RuleId
  write : Option kind.Value

namespace SlotCall

/-- What the caller gets to see. -/
def seen (u : SlotCall) (c : Context) : Except RuleError u.kind.Value := c.slot u.kind u.rule

/-- The context after the call.  The slot is there from now on, and holds what is written or else
what was seen; a call that fails changes nothing. -/
def after (u : SlotCall) (c : Context) : Context :=
  match u.seen c with
  | .ok v => c.putSlot u.kind u.rule (u.write.getD v)
  | .error _ => c

theorem after_of_ok {u : SlotCall} {c : Context} {v : u.kind.Value} (h : u.seen c = .ok v) :
    u.after c = c.putSlot u.kind u.rule (u.write.getD v) := by
  rw [after, h]

theorem after_of_error {u : SlotCall} {c : Context} {e : RuleError} (h : u.seen c = .error e) :
    u.after c = c := by
  rw [after, h]

/-- A call touches nothing but slots. -/
theorem after_keeps (u : SlotCall) (c : Context) :
    u.after c = { c with slots := (u.after c).slots } := by
  cases h : u.seen c with
  | ok v =>
    rw [after_of_ok h]
    rfl
  | error e => rw [after_of_error h]

/-- A call touches no slot but the one it is for. -/
theorem lookup_after_of_ne {u : SlotCall} {other : RuleId} (hne : other ≠ u.rule) (c : Context) :
    (u.after c).slots.lookup other = c.slots.lookup other := by
  cases h : u.seen c with
  | ok v =>
    rw [after_of_ok h]
    exact lookup_setSlot_of_ne _ _ hne
  | error e => rw [after_of_error h]

/-- What is written through the call, if it is one of this kind. -/
def written? (u : SlotCall) (k : SlotKind) : Option k.Value :=
  if h : u.kind = k then h ▸ u.write else none

@[simp] theorem written?_self (u : SlotCall) : u.written? u.kind = u.write := dif_pos rfl

theorem written?_of_ne {u : SlotCall} {k : SlotKind} (h : u.kind ≠ k) : u.written? k = none :=
  dif_neg h

end SlotCall

/-! ## The slot after some calls -/

/-- What was last written through a call of this kind, or what slots of the kind start with. -/
def lastWritten (k : SlotKind) (calls : List SlotCall) : k.Value :=
  (calls.filterMap fun u => u.written? k).getLast?.getD k.initial

theorem lastWritten_concat (k : SlotKind) (calls : List SlotCall) (u : SlotCall) :
    lastWritten k (calls ++ [u]) = (u.written? k).getD (lastWritten k calls) := by
  rw [lastWritten, lastWritten, List.filterMap_append]
  cases h : u.written? k with
  | none => simp [h]
  | some v => simp [h]

/-- The slot that some calls for one rule leave. -/
def slotAfter (calls : List SlotCall) : Option Slot :=
  calls.head?.map fun first => ⟨first.kind, lastWritten first.kind calls⟩

/-- One call more: the slot in the context goes along. -/
theorem lookup_after {calls : List SlotCall} {u : SlotCall} {c : Context}
    (hc : c.slots.lookup u.rule = slotAfter calls) :
    (u.after c).slots.lookup u.rule = slotAfter (calls ++ [u]) := by
  cases calls with
  | nil =>
    have hseen : u.seen c = .ok u.kind.initial := Context.slot_of_lookup_eq_none _ hc
    have hlast : lastWritten u.kind [u] = u.write.getD u.kind.initial := by
      rw [← u.written?_self]
      exact lastWritten_concat u.kind [] u
    rw [SlotCall.after_of_ok hseen, ← hlast]
    exact lookup_setSlot_self ..
  | cons first rest =>
    by_cases hk : first.kind = u.kind
    · obtain ⟨k, rule, write⟩ := u
      subst hk
      have hseen : SlotCall.seen ⟨first.kind, rule, write⟩ c =
          .ok (lastWritten first.kind (first :: rest)) := Context.slot_of_lookup_eq_some hc
      have hlast := lastWritten_concat first.kind (first :: rest) ⟨first.kind, rule, write⟩
      rw [SlotCall.written?_self ⟨first.kind, rule, write⟩] at hlast
      rw [SlotCall.after_of_ok hseen, ← hlast]
      exact lookup_setSlot_self ..
    · have hseen : u.seen c = .error (Context.slotError u.rule) := Context.slot_of_kind_ne hc hk
      have hlast := lastWritten_concat first.kind (first :: rest) u
      rw [SlotCall.written?_of_ne fun e => hk e.symm, Option.getD_none] at hlast
      rw [SlotCall.after_of_error hseen, hc, slotAfter, slotAfter, List.head?_append_of_ne_nil]
      · rw [List.head?_cons, Option.map_some, Option.map_some, hlast]
      · exact List.cons_ne_nil _ _

/-! ## Operations -/

/-- Something that is done to a context. -/
inductive Operation where
  | enterFile (f : OpenFile)
  | clear
  | enter (site : Site)
  | pushFunction (decl : FunctionDecl) (kind : FunctionKind)
  | popFunction
  | pushClass (decl : ClassDecl)
  | popClass
  | call (u : SlotCall)

namespace Operation

/-- Does the operation. -/
def apply : Operation → Context → Context
  | enterFile f, c => c.enterFile f
  | clear, c => c.clear
  | enter site, c => Dispatcher.enter site c
  | pushFunction decl kind, c => c.pushFunction decl kind
  | popFunction, c => c.popFunction
  | pushClass decl, c => c.pushClass decl
  | popClass, c => c.popClass
  | call u, c => u.after c

/-- Does operations one after the other, from the empty context on. -/
def run (ops : List Operation) : Context := ops.foldl (fun c o => o.apply c) .empty

theorem run_concat (ops : List Operation) (o : Operation) : run (ops ++ [o]) = o.apply (run ops) :=
  List.foldl_concat ..

/-- The operation starts a file or clears its traces. -/
def isReset : Operation → Bool
  | enterFile _ => true
  | clear => true
  | enter site => site.node.isFile
  | _ => false

/-- The operations since the last reset. -/
def sinceReset (ops : List Operation) : List Operation := ops.rtakeWhile fun o => !o.isReset

/-- The call of a slot of this rule. -/
def callFor? (rule : RuleId) : Operation → Option SlotCall
  | call u => if u.rule = rule then some u else none
  | _ => none

/-- The calls of a slot of this rule since the last reset. -/
def callsFor (rule : RuleId) (ops : List Operation) : List SlotCall :=
  (sinceReset ops).filterMap (callFor? rule)

theorem callFor?_eq_some {rule : RuleId} {o : Operation} {u : SlotCall} :
    o.callFor? rule = some u ↔ o = call u ∧ u.rule = rule := by
  cases o with
  | call v =>
    by_cases hv : v.rule = rule
    · simp only [callFor?, if_pos hv, Option.some_inj, call.injEq]
      exact ⟨fun h => ⟨h, h ▸ hv⟩, fun h => h.1⟩
    · simp only [callFor?, if_neg hv, call.injEq]
      exact ⟨fun h => absurd h (by simp), fun h => absurd (h.1 ▸ h.2) hv⟩
  | _ => simp [callFor?]

theorem mem_callsFor {rule : RuleId} {ops : List Operation} {u : SlotCall} :
    u ∈ callsFor rule ops ↔ call u ∈ sinceReset ops ∧ u.rule = rule := by
  rw [callsFor, List.mem_filterMap]
  constructor
  · rintro ⟨o, ho, hu⟩
    obtain ⟨rfl, hrule⟩ := callFor?_eq_some.mp hu
    exact ⟨ho, hrule⟩
  · rintro ⟨ho, hrule⟩
    exact ⟨call u, ho, callFor?_eq_some.mpr ⟨rfl, hrule⟩⟩

theorem callsFor_concat_of_isReset (rule : RuleId) (ops : List Operation) {o : Operation}
    (ho : o.isReset = true) : callsFor rule (ops ++ [o]) = [] := by
  rw [callsFor, sinceReset, List.rtakeWhile_concat_neg _ _ _ (by simp [ho]), List.filterMap_nil]

theorem callsFor_concat (rule : RuleId) (ops : List Operation) {o : Operation}
    (ho : o.isReset = false) :
    callsFor rule (ops ++ [o]) = callsFor rule ops ++ (o.callFor? rule).toList := by
  rw [callsFor, sinceReset, List.rtakeWhile_concat_pos _ _ _ (by simp [ho]),
    List.filterMap_append]
  refine congrArg (_ ++ ·) ?_
  cases h : o.callFor? rule <;> simp [h]

/-- A reset empties all slots. -/
theorem slots_apply_of_isReset {o : Operation} (ho : o.isReset = true) (c : Context) :
    (o.apply c).slots = [] := by
  cases o with
  | enterFile f => rfl
  | clear => rfl
  | enter site =>
    obtain ⟨place, node⟩ := site
    cases node with
    | file f =>
      -- whether or not the file is already open
      show (if _ then c.clear else c.enterFile _).slots = []
      split <;> rfl
    | _ => exact absurd ho Bool.false_ne_true
  | _ => exact absurd ho Bool.false_ne_true

/-- Scopes are opened and closed beside the slots. -/
theorem slots_apply_of_not_call {o : Operation} (ho : o.isReset = false)
    (hcall : ∀ u, o ≠ call u) (c : Context) : (o.apply c).slots = c.slots := by
  cases o with
  | enterFile f => exact absurd ho (by simp [isReset])
  | clear => exact absurd ho (by simp [isReset])
  | call u => exact absurd rfl (hcall u)
  | enter site => exact (Dispatcher.enter_keeps ho c).2
  | _ => rfl

/-- One operation more: the slot of each rule goes along with the calls for it. -/
theorem lookup_apply {rule : RuleId} {ops : List Operation} {c : Context}
    (hc : c.slots.lookup rule = slotAfter (callsFor rule ops)) (o : Operation) :
    (o.apply c).slots.lookup rule = slotAfter (callsFor rule (ops ++ [o])) := by
  cases ho : o.isReset with
  | true =>
    rw [slots_apply_of_isReset ho, callsFor_concat_of_isReset rule ops ho]
    rfl
  | false =>
    rw [callsFor_concat rule ops ho]
    cases hcall : o.callFor? rule with
    | some u =>
      obtain ⟨rfl, rfl⟩ := callFor?_eq_some.mp hcall
      exact lookup_after hc
    | none =>
      rw [Option.toList_none, List.append_nil, ← hc]
      cases o with
      | call u =>
        have hne : rule ≠ u.rule := by
          rintro rfl
          rw [callFor?_eq_some.mpr ⟨rfl, rfl⟩] at hcall
          cases hcall
        exact SlotCall.lookup_after_of_ne hne c
      | _ => rw [slots_apply_of_not_call ho fun u => by simp]

/-- The slots at the end of a run. -/
theorem lookup_run (rule : RuleId) (ops : List Operation) :
    (run ops).slots.lookup rule = slotAfter (callsFor rule ops) := by
  induction ops using List.reverseRecOn with
  | nil => rfl
  | append_singleton ops o ih =>
    rw [run_concat]
    exact lookup_apply ih o

/-- Slots reflect the calls since the last reset, and nothing else.  After any operations, in any
order:

* a rule has a slot exactly if it was called for since a file was last entered or cleared;
* the slot has the kind of the first of these calls;
* a call of that kind sees what was last written through a call of that kind, and what slots of the
  kind start with if nothing was; so does the first call, whatever its kind is;
* a call of another kind is an internal error and leaves the context as it is;
* a call for one rule changes neither the slots of other rules nor the file nor the scopes;
* closing a scope while none is open changes nothing. -/
theorem slots_reflect_history (ops : List Operation) :
    (∀ rule, (run ops).hasSlot rule = true ↔ ∃ u, call u ∈ sinceReset ops ∧ u.rule = rule) ∧
    (∀ rule first later, callsFor rule ops = first :: later →
      ((run ops).slots.lookup rule).map Slot.kind = some first.kind ∧
      ∀ u : SlotCall, u.rule = rule →
        (u.kind = first.kind → u.seen (run ops) = .ok (lastWritten u.kind (first :: later))) ∧
        (u.kind ≠ first.kind →
          u.seen (run ops) = .error (.internal
            ("per-file state of " ++ rule.word ++ " has an unexpected type")) ∧
          (call u).apply (run ops) = run ops)) ∧
    (∀ u : SlotCall, callsFor u.rule ops = [] → u.seen (run ops) = .ok u.kind.initial) ∧
    (∀ u : SlotCall,
      (∀ other, other ≠ u.rule →
        ((call u).apply (run ops)).slots.lookup other = (run ops).slots.lookup other) ∧
      (call u).apply (run ops) =
        { run ops with slots := ((call u).apply (run ops)).slots }) ∧
    ((run ops).functions = [] → popFunction.apply (run ops) = run ops) ∧
    ((run ops).classes = [] → popClass.apply (run ops) = run ops) := by
  refine ⟨fun rule => ?_, fun rule first later hcalls => ?_, fun u hcalls => ?_, fun u => ?_,
    fun h => ?_, fun h => ?_⟩
  · have hcalls : (run ops).hasSlot rule = true ↔ ∃ u, u ∈ callsFor rule ops := by
      rw [Context.hasSlot, lookup_run, slotAfter, Option.isSome_map, List.isSome_head?]
      exact ⟨List.exists_mem_of_ne_nil _, fun ⟨_, hu⟩ => List.ne_nil_of_mem hu⟩
    exact hcalls.trans (exists_congr fun u => mem_callsFor)
  · have hslot := lookup_run rule ops
    rw [hcalls] at hslot
    refine ⟨by rw [hslot]; rfl, ?_⟩
    rintro ⟨k, _, write⟩ rfl
    constructor
    · rintro rfl
      exact Context.slot_of_lookup_eq_some hslot
    · intro hk
      have hseen := Context.slot_of_kind_ne hslot fun e => hk e.symm
      exact ⟨hseen, SlotCall.after_of_error hseen⟩
  · have hslot := lookup_run u.rule ops
    rw [hcalls] at hslot
    exact Context.slot_of_lookup_eq_none _ hslot
  · exact ⟨fun other hne => SlotCall.lookup_after_of_ne hne _, u.after_keeps _⟩
  · show { run ops with functions := (run ops).functions.tail } = run ops
    rw [h, List.tail_nil, ← h]
  · show { run ops with classes := (run ops).classes.tail } = run ops
    rw [h, List.tail_nil, ← h]

/-- A slot that is called for as two kinds after a file was entered, and scopes that are closed once
too often. -/
theorem slots_reflect_history_twoKinds :
    let ops := [call ⟨.note, .limitDereferences, some "old"⟩,
      enter (.ofFile 0 ⟨"a.php", none, []⟩), call ⟨.count, .limitDereferences, some (3 : Int)⟩,
      call ⟨.note, .limitDereferences, some "new"⟩, popFunction, popClass]
    SlotCall.seen ⟨.count, .limitDereferences, none⟩ (run ops) = .ok (3 : Int) ∧
      (call ⟨.note, .limitDereferences, none⟩).apply (run ops) = run ops ∧
      SlotCall.seen ⟨.note, .functionLength, none⟩ (run ops) = .ok "" ∧
      popFunction.apply (run ops) = run ops ∧ popClass.apply (run ops) = run ops := by
  intro ops
  obtain ⟨-, hcalled, hfresh, -, hfunctions, hclasses⟩ := slots_reflect_history ops
  obtain ⟨-, hcalls⟩ := hcalled .limitDereferences ⟨.count, .limitDereferences, some (3 : Int)⟩
    [⟨.note, .limitDereferences, some "new"⟩] rfl
  exact ⟨(hcalls ⟨.count, .limitDereferences, none⟩ rfl).1 rfl,
    ((hcalls ⟨.note, .limitDereferences, none⟩ rfl).2 (by decide)).2,
    hfresh ⟨.note, .functionLength, none⟩ rfl, hfunctions rfl, hclasses rfl⟩

end Operation

end SafetyLint
