import SafetyLint.Proofs.Stops

/-!
# Rules with a memory

A rule that remembers something is a machine: its slot holds the state, each stop is an input, and
what it says at the stop is the output.  `replay` runs such a machine over a list of stops, without
dispatchers, contexts and slots.

`round_eq_replay` ties the two together.  If on every stop the check of a rule does what the machine
does to the slot, then a round with this rule alone is a run of the machine, and the slot holds the
state of the machine at the end.
-/

namespace SafetyLint

open SafetyLint.Tree Config

/-! ## Findings as a run reports them -/

/-- The finding of a rule on a line of a file, with the severity that the settings ask for. -/
def reported (settings : Settings) (info : RuleInfo) (file : Option OpenFile) (line : Nat)
    (message : String) : Finding :=
  ⟨info.id.word, info.name, (settings.severity? info.id).getD info.severity,
    ⟨(file.map OpenFile.shown).getD "", line⟩, message, none⟩

theorem Dispatcher.settle_ok (settings : Settings) (info : RuleInfo) (line line' : Nat)
    (c c' : Context) (messages : List String) :
    settle settings info line c' (.ok (messages.map (c.finding info line'))) =
      messages.map (reported settings info c.file line') := by
  rw [settle]
  cases h : settings.severity? info.id with
  | none =>
    refine List.map_congr_left fun message _ => ?_
    rw [reported, h]
    rfl
  | some severity =>
    show List.map _ (List.map _ _) = _
    rw [List.map_map]
    refine List.map_congr_left fun message _ => ?_
    rw [reported, h]
    rfl

/-- The text begins with the words of another one. -/
def opens (opening text : String) : Bool := opening.toList.isPrefixOf text.toList

theorem opens_append (opening rest : String) : opens opening (opening ++ rest) = true := by
  rw [opens, String.toList_append, List.isPrefixOf_iff_prefix]
  exact List.prefix_append _ _

/-- Texts with different first letters. -/
theorem opens_eq_false {opening text : String} {a b : Char} (ha : opening.toList.head? = some a)
    (hb : text.toList.head? = some b) (h : a ≠ b) : opens opening text = false := by
  rw [← Bool.not_eq_true]
  intro hopens
  obtain ⟨rest, hrest⟩ := List.isPrefixOf_iff_prefix.mp hopens
  rw [← hrest, List.head?_append, ha] at hb
  exact h (Option.some_inj.mp hb)

/-! ## Machines -/

section Replay

variable {σ : Type} (step : Stop → σ → List String × σ)

/-- Runs a machine over stops: what it says at each stop, and the state at the end. -/
def replay : List Stop → σ → List (Stop × List String) × σ
  | [], v => ([], v)
  | s :: rest, v =>
    let (messages, v) := step s v
    let (later, v) := replay rest v
    ((s, messages) :: later, v)

theorem replay_cons (s : Stop) (rest : List Stop) (v : σ) :
    replay step (s :: rest) v =
      ((s, (step s v).1) :: (replay step rest (step s v).2).1, (replay step rest (step s v).2).2) :=
  rfl

theorem replay_append (before after : List Stop) (v : σ) :
    replay step (before ++ after) v =
      ((replay step before v).1 ++ (replay step after (replay step before v).2).1,
        (replay step after (replay step before v).2).2) := by
  induction before generalizing v with
  | nil => rfl
  | cons s rest ih => rw [List.cons_append, replay_cons, ih, replay_cons, List.cons_append]

end Replay

/-! ## A rule as a machine -/

/-- What a rule reads from its slot among some slots. -/
def readSlot (slots : List (RuleId × Slot)) (k : SlotKind) (id : RuleId) :
    Except RuleError k.Value :=
  (Context.mk none [] [] slots).slot k id

namespace Dispatcher

open Rules

/-- A dispatcher with one rule asks that rule or none. -/
theorem dispatch_singleton (id : RuleId) (settings : Settings) (site : Site) (c : Context) :
    (dispatcher [id] settings).dispatch site c =
      if wants settings site.node.kind id = true then
        (settle settings (ofId id).toRuleInfo site.node.line ((ofId id).check settings site c).2
            ((ofId id).check settings site c).1,
          ((ofId id).check settings site c).2)
      else ([], c) := by
  rw [dispatch_dispatcher]
  by_cases h : wants settings site.node.kind id = true
  · rw [if_pos h, List.filter_cons_of_pos h, List.filter_nil, List.map_singleton, ask_singleton]
  · rw [if_neg h, List.filter_cons_of_neg h, List.filter_nil]
    rfl

/-- At the end of a file a dispatcher with one rule asks that rule for its last word. -/
theorem leave_file_singleton {id : RuleId} {settings : Settings}
    (hactive : settings.isActive id = true) (i : Nat) (f : SourceFile) (c : Context) :
    (dispatcher [id] settings).leave (.ofFile i f) c =
      (settle settings (ofId id).toRuleInfo f.span.lastLine ((ofId id).finish settings c).2
          ((ofId id).finish settings c).1,
        ((ofId id).finish settings c).2) := by
  rw [Site.ofFile, leave_file, List.filter_cons_of_pos hactive, List.filter_nil,
    List.map_singleton, ask_singleton]

/-- All rules but one have nothing to say at the end of a file. -/
theorem leave_file_of_ne {id : RuleId} (h : id ≠ .mandatoryDiagnostics) {settings : Settings}
    (hactive : settings.isActive id = true) (i : Nat) (f : SourceFile) (c : Context) :
    (dispatcher [id] settings).leave (.ofFile i f) c = ([], c) := by
  rw [leave_file_singleton hactive, finish_of_ne settings h]
  exact Prod.ext (settle_ok settings (ofId id).toRuleInfo f.span.lastLine 0 c c []) rfl

/-- A rule does to its slot what a machine does to its state. -/
structure Realizes (settings : Settings) (id : RuleId) (k : SlotKind)
    (step : Stop → k.Value → List String × k.Value) : Prop where
  /-- On the nodes that the rule wants to see. -/
  check : ∀ s c v, c.slot k id = .ok v →
    ((ofId id).check settings s.site c).1 =
        .ok ((step s v).1.map (c.finding (ofId id).toRuleInfo s.site.node.line)) ∧
      ((ofId id).check settings s.site c).2.slot k id = .ok (step s v).2
  /-- On all other nodes. -/
  idle : ∀ s v, (ofId id).kinds.contains s.site.node.kind = false → step s v = ([], v)

theorem round_eq_replay {settings : Settings} {id : RuleId} {k : SlotKind}
    {step : Stop → k.Value → List String × k.Value} (h : Realizes settings id k step)
    (hactive : settings.isActive id = true) (file : Option OpenFile) (stops : List Stop)
    {slots : List (RuleId × Slot)} {v : k.Value} (hv : readSlot slots k id = .ok v) :
    ((dispatcher [id] settings).round file stops slots).1 =
        (replay step stops v).1.map (fun a =>
          (a.1, a.2.map (reported settings (ofId id).toRuleInfo file a.1.site.node.line))) ∧
      readSlot ((dispatcher [id] settings).round file stops slots).2 k id =
        .ok (replay step stops v).2 := by
  induction stops generalizing slots v with
  | nil => exact ⟨rfl, hv⟩
  | cons s rest ih =>
    -- one stop: the findings are what the machine says, and the slot follows the state
    have hstop : ((dispatcher [id] settings).dispatch s.site (s.context file slots)).1 =
          (step s v).1.map (reported settings (ofId id).toRuleInfo file s.site.node.line) ∧
        readSlot ((dispatcher [id] settings).dispatch s.site
          (s.context file slots)).2.slots k id = .ok (step s v).2 := by
      rw [dispatch_singleton]
      cases hkind : (ofId id).kinds.contains s.site.node.kind with
      | true =>
        obtain ⟨houtcome, hslot⟩ := h.check s (s.context file slots) v hv
        rw [if_pos (by rw [wants, hkind, hactive]; rfl), houtcome, settle_ok]
        exact ⟨rfl, hslot⟩
      | false =>
        rw [if_neg (by rw [wants, hkind]; exact Bool.false_ne_true), h.idle s v hkind]
        exact ⟨rfl, hv⟩
    obtain ⟨hfindings, hslot⟩ := hstop
    obtain ⟨hlater, hlast⟩ := ih hslot
    rw [round_cons, replay_cons, List.map_cons, hfindings, hlater]
    exact ⟨rfl, hlast⟩

end Dispatcher

end SafetyLint
