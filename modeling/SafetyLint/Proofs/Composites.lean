import SafetyLint.Proofs.Members

/-!
# Arrays and objects

When an array or object is read with success, it was read in one of a few ways.  `ReadsArr` and
`ReadsObj` list them, and `read_arr_eq_ok_iff` and `read_obj_eq_ok_iff` say that these are all.

Values are not only read.  Some are taken in as a whole, others are passed over, and both may fail
at a fault of the text.  `Keeps` compares two values under this aspect.
-/

namespace SafetyLint

/-- The value stands behind an unreadable key. -/
def Json.isHidden : Json → Bool
  | .hidden _ => true
  | _ => false

namespace Format

/-! ## How deep a value stands -/

/-- The mode belongs to values inside of so many arrays and objects.  What was read before may stand
anywhere. -/
def Mode.At (depth : Nat) : Mode → Prop
  | live d => d = depth
  | _ => True

theorem Mode.exists_at (m : Mode) : ∃ depth, m.At depth := by
  cases m with
  | live d => exact ⟨d, rfl⟩
  | parsed => exact ⟨0, trivial⟩
  | held => exact ⟨0, trivial⟩

theorem Mode.At.enter {m inner : Mode} {depth : Nat} (h : m.At depth)
    (henter : m.enter = .ok inner) : inner.At (depth + 1) := by
  cases m with
  | live d =>
    rw [Mode.enter] at henter
    split at henter
    · cases henter
      exact congrArg (· + 1) h
    · cases henter
  | parsed =>
    cases henter
    trivial
  | held =>
    cases henter
    trivial

theorem complain_eq_ok_iff {fault : Option ReadError} : complain fault = .ok () ↔ fault = none := by
  cases fault with
  | none => exact ⟨fun _ => rfl, fun _ => rfl⟩
  | some e => exact ⟨fun h => absurd h error_ne_ok, fun h => absurd h (Option.some_ne_none e)⟩

/-- A value can be taken in where it has no fault. -/
theorem Mode.At.takeIn {m : Mode} {depth : Nat} (h : m.At depth) {v : Json}
    (hv : faultIn depth v = none) : m.takeIn v = .ok () := by
  cases m with
  | live d =>
    obtain rfl : d = depth := h
    exact complain_eq_ok_iff.mpr hv
  | parsed => rfl
  | held => rfl

theorem Mode.passOver_live_iff {depth : Nat} {v : Json} :
    (live depth).passOver v = .ok () ↔ v.isHidden = false ∧ faultPast v = none := by
  cases v with
  | hidden u => exact ⟨fun h => absurd h error_ne_ok, fun h => absurd h.1.symm Bool.false_ne_true⟩
  | _ => simp [passOver, Json.isHidden, complain_eq_ok_iff]

theorem faultPastItems_eq_none_iff {items : List Json} :
    faultPastItems items = none ↔ ∀ v ∈ items, faultPast v = none := by
  induction items with
  | nil => exact ⟨fun _ _ hv => absurd hv List.not_mem_nil, fun _ => rfl⟩
  | cons v rest ih => rw [faultPastItems, Option.or_eq_none_iff, ih, List.forall_mem_cons]

theorem faultPastMembers_eq_none_iff {members : List (String × Json)} :
    faultPastMembers members = none ↔ ∀ p ∈ members, faultPast p.2 = none := by
  induction members with
  | nil => exact ⟨fun _ _ hp => absurd hp List.not_mem_nil, fun _ => rfl⟩
  | cons p rest ih => rw [faultPastMembers, Option.or_eq_none_iff, ih, List.forall_mem_cons]

/-- A sound value can be passed over. -/
theorem faultPast_eq_none {v : Json} (h : v.Sound) : faultPast v = none := by
  induction v using Walk.induct with
  | step v ih =>
    obtain ⟨hself, hparts⟩ := Json.sound_iff.mp h
    cases v with
    | arr items => exact faultPastItems_eq_none_iff.mpr fun u hu => ih u hu (hparts u hu)
    | obj members =>
      refine faultPastMembers_eq_none_iff.mpr fun p hp => ?_
      have hpart : p.2 ∈ (Json.obj members).parts := List.mem_map_of_mem hp
      exact ih p.2 hpart (hparts p.2 hpart)
    | fault reading passing => exact absurd hself Bool.false_ne_true
    | hidden v => exact absurd hself Bool.false_ne_true
    | _ => rfl

/-- Who takes in the first value this deep, or passes over it, can do so with the second. -/
structure Keeps (depth : Nat) (v v' : Json) : Prop where
  within : faultIn depth v = none → faultIn depth v' = none
  past : faultPast v = none → faultPast v' = none
  shown : v.isHidden = false → v'.isHidden = false

namespace Keeps

variable {depth : Nat} {v v' : Json} {m : Mode}

theorem takeIn (h : Keeps depth v v') (hm : m.At depth) (hv : m.takeIn v = .ok ()) :
    m.takeIn v' = .ok () := by
  cases m with
  | live d =>
    obtain rfl : d = depth := hm
    exact complain_eq_ok_iff.mpr (h.within (complain_eq_ok_iff.mp hv))
  | parsed => rfl
  | held => rfl

theorem passOver (h : Keeps depth v v') (hv : m.passOver v = .ok ()) :
    m.passOver v' = .ok () := by
  cases m with
  | live d =>
    obtain ⟨hshown, hpast⟩ := Mode.passOver_live_iff.mp hv
    exact Mode.passOver_live_iff.mpr ⟨h.shown hshown, h.past hpast⟩
  | parsed => rfl
  | held => rfl

theorem refl (depth : Nat) (v : Json) : Keeps depth v v := ⟨id, id, id⟩

theorem arr {items items' : List Json}
    (h : ∀ v' ∈ items', ∃ v ∈ items, Keeps (depth + 1) v v') :
    Keeps depth (.arr items) (.arr items') where
  within hv := by
    obtain ⟨hdepth, hitems⟩ := faultIn_arr_iff.mp hv
    refine faultIn_arr_iff.mpr ⟨hdepth, fun v' hv' => ?_⟩
    obtain ⟨v, hv, hkeeps⟩ := h v' hv'
    exact hkeeps.within (hitems v hv)
  past hv := by
    have hitems := faultPastItems_eq_none_iff.mp hv
    refine faultPastItems_eq_none_iff.mpr fun v' hv' => ?_
    obtain ⟨v, hv, hkeeps⟩ := h v' hv'
    exact hkeeps.past (hitems v hv)
  shown _ := rfl

/-- Each member of the second object has a member of the first to go by, or no faults. -/
theorem obj {members members' : List (String × Json)}
    (h : ∀ p' ∈ members', (∃ p ∈ members, Keeps (depth + 1) p.2 p'.2) ∨
      faultIn (depth + 1) p'.2 = none ∧ faultPast p'.2 = none) :
    Keeps depth (.obj members) (.obj members') where
  within hv := by
    obtain ⟨hdepth, hmembers⟩ := faultIn_obj_iff.mp hv
    refine faultIn_obj_iff.mpr ⟨hdepth, fun p' hp' => ?_⟩
    rcases h p' hp' with ⟨p, hp, hkeeps⟩ | ⟨hnone, -⟩
    · exact hkeeps.within (hmembers p hp)
    · exact hnone
  past hv := by
    have hmembers := faultPastMembers_eq_none_iff.mp hv
    refine faultPastMembers_eq_none_iff.mpr fun p' hp' => ?_
    rcases h p' hp' with ⟨p, hp, hkeeps⟩ | ⟨-, hnone⟩
    · exact hkeeps.past (hmembers p hp)
    · exact hnone
  shown _ := rfl

theorem perm {members members' : List (String × Json)} (h : members.Perm members') :
    Keeps depth (.obj members) (.obj members') :=
  .obj fun p' hp' => .inl ⟨p', h.mem_iff.mpr hp', .refl ..⟩

theorem item {before after : List Json} (h : Keeps (depth + 1) v v') :
    Keeps depth (.arr (before ++ v :: after)) (.arr (before ++ v' :: after)) := by
  refine .arr fun u hu => ?_
  rcases List.mem_cons.mp (List.perm_middle.mem_iff.mp hu) with rfl | hu
  · exact ⟨v, List.perm_middle.mem_iff.mpr (List.mem_cons_self ..), h⟩
  · exact ⟨u, List.perm_middle.mem_iff.mpr (List.mem_cons_of_mem _ hu), .refl ..⟩

theorem member {before after : List (String × Json)} {key : String} (h : Keeps (depth + 1) v v') :
    Keeps depth (.obj (before ++ (key, v) :: after)) (.obj (before ++ (key, v') :: after)) := by
  refine .obj fun p hp => .inl ?_
  rcases List.mem_cons.mp (List.perm_middle.mem_iff.mp hp) with rfl | hp
  · exact ⟨(key, v), List.perm_middle.mem_iff.mpr (List.mem_cons_self ..), h⟩
  · exact ⟨p, List.perm_middle.mem_iff.mpr (List.mem_cons_of_mem _ hp), .refl ..⟩

theorem insert {before after : List (String × Json)} {key : String}
    (hwithin : faultIn (depth + 1) v = none) (hpast : faultPast v = none) :
    Keeps depth (.obj (before ++ after)) (.obj (before ++ (key, v) :: after)) := by
  refine .obj fun p hp => ?_
  rcases List.mem_cons.mp (List.perm_middle.mem_iff.mp hp) with rfl | hp
  · exact .inr ⟨hwithin, hpast⟩
  · exact .inl ⟨p, hp, .refl ..⟩

end Keeps

/-! ## Arrays -/

/-- Some items are read as an array of the shape. -/
inductive ReadsArr (m : Mode) : Shape → List Json → Form → Prop where
  | list {of : Shape} {inner : Mode} {items : List Json} {forms : List Form}
    (henter : m.enter = .ok inner) (hitems : readItems inner of items = .ok forms) :
    ReadsArr m (.list of) items (.list forms)
  | record {e : Entity} {fields : List Field} {inner : Mode} {items : List Json}
    {forms : List Form} (hlayout : e.layout = .record fields) (henter : m.enter = .ok inner)
    (hfields : readPositions inner 0 fields items = .ok forms) :
    ReadsArr m (.entity e) items (.record forms)
  | tagged {e : Entity} {tag name : String} {variants : List Variant} {fields : List Field}
    {inner : Mode} {w : Json} {items : List Json} {forms : List Form}
    (hlayout : e.layout = .tagged tag variants) (henter : m.enter = .ok inner)
    (htag : readTag inner variants w = .ok (name, fields))
    (htake : ∀ v ∈ items, inner.takeIn v = .ok ())
    (hfields : readPositions .held 0 fields items = .ok forms) :
    ReadsArr m (.entity e) (w :: items) (.variant name forms)

theorem forM_takeIn_eq_ok_iff {m : Mode} {items : List Json} :
    items.forM m.takeIn = .ok () ↔ ∀ v ∈ items, m.takeIn v = .ok () := by
  induction items with
  | nil => exact ⟨fun _ _ hv => absurd hv List.not_mem_nil, fun _ => rfl⟩
  | cons v rest ih =>
    show (m.takeIn v >>= fun _ => rest.forM m.takeIn) = .ok () ↔ _
    rw [bind_eq_ok_iff, List.forall_mem_cons, ← ih]
    constructor
    · rintro ⟨_, hv, hrest⟩
      exact ⟨hv, hrest⟩
    · rintro ⟨hv, hrest⟩
      exact ⟨(), hv, hrest⟩

variable {m : Mode} {optional : Bool} {shape : Shape} {form : Form}

/-- An array that stands for an entity has its fields one by one, behind the tag if there is one. -/
theorem readsArr_of_read_entity {e : Entity} {items : List Json}
    (h : read m optional (.entity e) (.arr items) = .ok form) :
    ReadsArr m (.entity e) items form := by
  rw [read] at h
  cases hlayout : e.layout with
  | record fields =>
    rw [hlayout] at h
    obtain ⟨inner, henter, h⟩ := bind_eq_ok_iff.mp h
    obtain ⟨forms, hfields, h⟩ := bind_eq_ok_iff.mp h
    cases h
    exact .record hlayout henter hfields
  | tagged tag variants =>
    rw [hlayout] at h
    obtain ⟨inner, henter, h⟩ := bind_eq_ok_iff.mp h
    cases items with
    | nil => cases h
    | cons w items =>
      obtain ⟨⟨name, fields⟩, htag, h⟩ := bind_eq_ok_iff.mp h
      obtain ⟨_, htake, h⟩ := bind_eq_ok_iff.mp h
      obtain ⟨forms, hfields, h⟩ := bind_eq_ok_iff.mp h
      cases h
      exact .tagged hlayout henter htag (forM_takeIn_eq_ok_iff.mp htake) hfields
  | choice variants =>
    rw [hlayout] at h
    cases h

theorem ReadsArr.read_eq {items : List Json} (h : ReadsArr m shape items form) :
    read m optional shape (.arr items) = .ok form := by
  cases h with
  | list henter hitems =>
    rw [read]
    exact bind_eq_ok_iff.mpr ⟨_, henter, bind_eq_ok_iff.mpr ⟨_, hitems, rfl⟩⟩
  | record hlayout henter hfields =>
    rw [read, hlayout]
    exact bind_eq_ok_iff.mpr ⟨_, henter, bind_eq_ok_iff.mpr ⟨_, hfields, rfl⟩⟩
  | tagged hlayout henter htag htake hfields =>
    rw [read, hlayout]
    refine bind_eq_ok_iff.mpr ⟨_, henter, bind_eq_ok_iff.mpr ⟨_, htag, ?_⟩⟩
    refine bind_eq_ok_iff.mpr ⟨(), forM_takeIn_eq_ok_iff.mpr htake, ?_⟩
    exact bind_eq_ok_iff.mpr ⟨_, hfields, rfl⟩

/-- The ways to read an array. -/
theorem read_arr_eq_ok_iff {items : List Json} :
    read m optional shape (.arr items) = .ok form ↔ ReadsArr m shape items form := by
  refine ⟨fun h => ?_, ReadsArr.read_eq⟩
  cases shape with
  | list of =>
    rw [read] at h
    obtain ⟨inner, henter, h⟩ := bind_eq_ok_iff.mp h
    obtain ⟨forms, hitems, h⟩ := bind_eq_ok_iff.mp h
    cases h
    exact .list henter hitems
  | entity e => exact readsArr_of_read_entity h
  | scalar =>
    rw [read] at h
    obtain ⟨_, _, h⟩ := bind_eq_ok_iff.mp h
    cases h
  | _ => cases h

/-! ## Objects -/

/-- The tag of objects of the layout. -/
def Layout.tag? : Layout → Option String
  | .tagged tag _ => some tag
  | _ => none

/-- Before its members go into slots, an object of the layout is opened: the mode in which the
members are read, their fields, and what becomes of the forms. -/
inductive Opens (m : Mode) (members : List (String × Json)) :
    Layout → Mode → List Field → (List Form → Form) → Prop where
  | record {fields : List Field} {inner : Mode} (henter : m.enter = .ok inner) :
    Opens m members (.record fields) inner fields .record
  | tagged {tag name : String} {variants : List Variant} {fields : List Field} {inner : Mode}
    (henter : m.enter = .ok inner)
    (htag : findTag inner tag variants none members = .ok (name, fields)) :
    Opens m members (.tagged tag variants) .held fields (.variant name)

/-- Some members are read as an object of the shape. -/
inductive ReadsObj (m : Mode) : Shape → List (String × Json) → Form → Prop where
  | fields {e : Entity} {members : List (String × Json)} {inner : Mode} {fields : List Field}
    {build : List Form → Form} {slots : Slots} {forms : List Form}
    (hopens : Opens m members e.layout inner fields build)
    (hslots : readMembers inner e.layout.tag? fields (fields.map fun _ => none) members = .ok slots)
    (hforms : complete fields slots = .ok forms) :
    ReadsObj m (.entity e) members (build forms)
  | choice {e : Entity} {variants : List (String × Shape)} {name : String} {shape : Shape}
    {v : Json} {form : Form} (hlayout : e.layout = .choice variants)
    (hname : variants.lookup name = some shape) (hread : read .held false shape v = .ok form) :
    ReadsObj m (.entity e) [(name, v)] (.variant name [form])
  | word {words : List String} {name : String} {v : Json} {form : Form}
    (hname : readWord words name = .ok form) (hhollow : isHollow m v = true) :
    ReadsObj m (.word words) [(name, v)] form

variable {e : Entity} {members : List (String × Json)}

/-- An object that was opened by its layout is read field by field. -/
theorem Opens.readsObj {layout : Layout} {inner : Mode} {fields : List Field}
    {build : List Form → Form} {slots : Slots} {forms : List Form}
    (h : Opens m members layout inner fields build) (hlayout : e.layout = layout)
    (hslots : readMembers inner layout.tag? fields (fields.map fun _ => none) members = .ok slots)
    (hforms : complete fields slots = .ok forms) :
    ReadsObj m (.entity e) members (build forms) := by
  subst hlayout
  exact .fields h hslots hforms

/-- An object that stands for an entity is opened, or it is the one member of a choice. -/
theorem readsObj_of_read_entity (h : read m optional (.entity e) (.obj members) = .ok form) :
    ReadsObj m (.entity e) members form := by
  rw [read] at h
  cases hlayout : e.layout with
  | record fields =>
    rw [hlayout] at h
    obtain ⟨inner, henter, h⟩ := bind_eq_ok_iff.mp h
    obtain ⟨slots, hslots, h⟩ := bind_eq_ok_iff.mp h
    obtain ⟨forms, hforms, h⟩ := bind_eq_ok_iff.mp h
    cases h
    exact (Opens.record henter).readsObj hlayout hslots hforms
  | tagged tag variants =>
    rw [hlayout] at h
    obtain ⟨inner, henter, h⟩ := bind_eq_ok_iff.mp h
    obtain ⟨⟨name, fields⟩, htag, h⟩ := bind_eq_ok_iff.mp h
    obtain ⟨slots, hslots, h⟩ := bind_eq_ok_iff.mp h
    obtain ⟨forms, hforms, h⟩ := bind_eq_ok_iff.mp h
    cases h
    exact (Opens.tagged henter htag).readsObj hlayout hslots hforms
  | choice variants =>
    rw [hlayout] at h
    rcases members with - | ⟨⟨name, v⟩, - | ⟨p, rest⟩⟩
    · cases h
    · cases hname : variants.lookup name with
      | none =>
        simp only [hname] at h
        cases h
      | some shape =>
        simp only [hname] at h
        obtain ⟨form, hread, h⟩ := bind_eq_ok_iff.mp h
        cases h
        exact .choice hlayout hname hread
    · cases h

/-- An object that stands for a word has one member, with nothing in it. -/
theorem readsObj_of_read_word {words : List String}
    (h : read m optional (.word words) (.obj members) = .ok form) :
    ReadsObj m (.word words) members form := by
  rcases members with - | ⟨⟨name, v⟩, - | ⟨p, rest⟩⟩
  · cases h
  · rw [read] at h
    obtain ⟨form', hname, h⟩ := bind_eq_ok_iff.mp h
    by_cases hhollow : isHollow m v = true
    · rw [if_pos hhollow] at h
      cases h
      exact .word hname hhollow
    · rw [if_neg hhollow] at h
      cases h
  · cases h

theorem ReadsObj.read_eq (h : ReadsObj m shape members form) :
    read m optional shape (.obj members) = .ok form := by
  cases h with
  | @fields e _ inner fields build slots forms hopens hslots hforms =>
    rw [read]
    generalize hlayout : e.layout = layout at hopens hslots
    cases hopens with
    | record henter =>
      exact bind_eq_ok_iff.mpr ⟨_, henter, bind_eq_ok_iff.mpr ⟨_, hslots,
        bind_eq_ok_iff.mpr ⟨_, hforms, rfl⟩⟩⟩
    | tagged henter htag =>
      exact bind_eq_ok_iff.mpr ⟨_, henter, bind_eq_ok_iff.mpr ⟨_, htag,
        bind_eq_ok_iff.mpr ⟨_, hslots, bind_eq_ok_iff.mpr ⟨_, hforms, rfl⟩⟩⟩⟩
  | choice hlayout hname hread =>
    simp only [read, hlayout, hname]
    exact bind_eq_ok_iff.mpr ⟨_, hread, rfl⟩
  | word hname hhollow =>
    rw [read]
    refine bind_eq_ok_iff.mpr ⟨_, hname, ?_⟩
    rw [if_pos hhollow]
    rfl

/-- The ways to read an object. -/
theorem read_obj_eq_ok_iff :
    read m optional shape (.obj members) = .ok form ↔ ReadsObj m shape members form := by
  refine ⟨fun h => ?_, ReadsObj.read_eq⟩
  cases shape with
  | entity e => exact readsObj_of_read_entity h
  | word words => exact readsObj_of_read_word h
  | scalar =>
    rw [read] at h
    obtain ⟨_, _, h⟩ := bind_eq_ok_iff.mp h
    cases h
  | _ => cases h

end Format
end SafetyLint
