import SafetyLint.Proofs.Composites

/-!
# What arrays and objects ask of their parts

An array or object of some shape asks a shape of each of its parts (`itemShape?`, `memberShape?`).
In a record the field decides; in a tagged object first the tag decides which fields there are.  The
part was read with the shape that is asked for, and any other part that is read as the same form
would do in its place: `ReadsArr.hole` and `ReadsObj.hole`.

What is asked of a part does not depend on the part itself (`itemShape?_replace`,
`memberShape?_replace`), so a part that fits can be told from one that does not.
-/

namespace SafetyLint
namespace Format

variable {m : Mode} {shape : Shape} {form : Form}

/-! ## Which fields an object has -/

/-- The variant that a tag names, by its name or by its number. -/
def variant? (variants : List Variant) : Json → Option Variant
  | .str name => (variants.lookup name).map fun fields => (name, fields)
  | .int i => if i < 0 then none else variants[i.toNat]?
  | _ => none

/-- A tag that is accepted names the variant that is found. -/
theorem variant?_of_readTag {variants : List Variant} {w : Json} {variant : Variant}
    (h : readTag m variants w = .ok variant) : variant? variants w = some variant := by
  cases w with
  | str name =>
    rw [readTag] at h
    cases hname : variants.lookup name with
    | none =>
      simp only [hname] at h
      cases h
    | some fields =>
      simp only [hname] at h
      cases h
      rw [variant?, hname]
      rfl
  | int i =>
    cases m with
    | held =>
      simp only [readTag] at h
      by_cases hi : i < 0
      · rw [if_pos hi] at h
        cases h
      · rw [if_neg hi] at h
        cases hnumber : variants[i.toNat]? with
        | none =>
          simp only [hnumber] at h
          cases h
        | some v =>
          simp only [hnumber] at h
          cases h
          rw [variant?, if_neg hi, hnumber]
    | _ => cases h
  | _ => cases h

theorem mem_of_variant? {variants : List Variant} {w : Json} {variant : Variant}
    (h : variant? variants w = some variant) : variant ∈ variants := by
  cases w with
  | str name =>
    obtain ⟨fields, hname, rfl⟩ := Option.map_eq_some_iff.mp h
    exact mem_of_lookup_eq_some hname
  | int i =>
    rw [variant?] at h
    by_cases hi : i < 0
    · rw [if_pos hi] at h
      cases h
    · rw [if_neg hi] at h
      exact List.mem_of_getElem? h
  | _ => cases h

/-- The fields that an object of the layout with these members has. -/
def Layout.fields? (members : List (String × Json)) : Layout → Option (List Field)
  | .record fields => some fields
  | .tagged tag variants => ((members.lookup tag).bind (variant? variants)).map Prod.snd
  | .choice _ => none

/-- What an object of some shape with these members asks of the member with this key. -/
def memberShape? (members : List (String × Json)) (key : String) : Shape → Option Shape
  | .entity e =>
    match e.layout with
    | .choice variants => variants.lookup key
    | layout => (layout.fields? members).bind fun fields =>
        (fields.find? (·.key = key)).map Field.shape
  | _ => none

theorem memberShape?_choice {e : Entity} {variants : List (String × Shape)}
    (h : e.layout = .choice variants) (members : List (String × Json)) (key : String) :
    memberShape? members key (.entity e) = variants.lookup key := by
  rw [memberShape?, h]

theorem memberShape?_of_fields? {e : Entity} {members : List (String × Json)} {fields : List Field}
    (h : e.layout.fields? members = some fields) (key : String) :
    memberShape? members key (.entity e) = (fields.find? (·.key = key)).map Field.shape := by
  rw [memberShape?]
  generalize e.layout = layout at h
  cases layout with
  | choice variants => cases h
  | _ =>
    show Option.bind _ _ = _
    rw [h]
    rfl

theorem mem_keys_of_find? {fields : List Field} {key : String} {f : Field}
    (h : fields.find? (·.key = key) = some f) : key ∈ fields.map Field.key := by
  have hkey := List.find?_some (p := fun f : Field => f.key = key) h
  exact List.mem_map.mpr ⟨f, List.mem_of_find?_eq_some h, of_decide_eq_true hkey⟩

/-- No field is called like the tag. -/
theorem tag?_ne_of_mem_fields {e : Entity} {members : List (String × Json)} {fields : List Field}
    (h : e.layout.fields? members = some fields) {key : String}
    (hkey : key ∈ fields.map Field.key) : e.layout.tag? ≠ some key := by
  have hkeyed := wellKeyed_layout e
  generalize e.layout = layout at h hkeyed
  cases layout with
  | tagged tag variants =>
    obtain ⟨variant, hfound, rfl⟩ := Option.map_eq_some_iff.mp h
    obtain ⟨w, -, hw⟩ := Option.bind_eq_some_iff.mp hfound
    intro heq
    cases heq
    exact (List.nodup_cons.mp (hkeyed _ (mem_of_variant? hw))).1 hkey
  | _ => exact fun heq => Option.some_ne_none _ heq.symm

section Fields

variable {before after members : List (String × Json)} {layout : Layout} {key : String}

theorem lookup_insert_of_ne {name : String} (h : key ≠ name) (v : Json) :
    (before ++ (key, v) :: after).lookup name = (before ++ after).lookup name := by
  rw [List.lookup_append, List.lookup_append, List.lookup_cons, beq_eq_false_iff_ne.mpr h.symm]

/-- A member besides the tag does not change the fields. -/
theorem Layout.fields?_insert (h : layout.tag? ≠ some key) (v : Json) :
    layout.fields? (before ++ (key, v) :: after) = layout.fields? (before ++ after) := by
  cases layout with
  | tagged tag variants =>
    have hne : key ≠ tag := fun heq => h (congrArg some heq.symm)
    rw [fields?, fields?, lookup_insert_of_ne hne]
  | _ => rfl

theorem Layout.fields?_filter (h : layout.tag? ≠ some key) :
    layout.fields? (members.filter (·.1 ≠ key)) = layout.fields? members := by
  cases layout with
  | tagged tag variants =>
    have hne : tag ≠ key := fun heq => h (congrArg some heq)
    have hlookup : (members.filter (·.1 ≠ key)).lookup tag = members.lookup tag := by
      induction members with
      | nil => rfl
      | cons p rest ih =>
        obtain ⟨other, v⟩ := p
        by_cases hother : other = key
        · rw [List.filter_cons_of_neg (by simpa using hother), ih, List.lookup_cons,
            beq_eq_false_iff_ne.mpr fun heq => hne (heq.trans hother)]
        · rw [List.filter_cons_of_pos (by simpa using hother), List.lookup_cons, List.lookup_cons,
            ih]
    rw [fields?, fields?, hlookup]
  | _ => rfl

/-- What is asked of a member does not depend on the member. -/
theorem memberShape?_replace {v v' : Json} {shape asked : Shape}
    (h : memberShape? (before ++ (key, v) :: after) key shape = some asked) :
    memberShape? (before ++ (key, v') :: after) key shape = some asked := by
  cases shape with
  | entity e =>
    cases hlayout : e.layout with
    | choice variants =>
      rw [memberShape?_choice hlayout] at h ⊢
      exact h
    | _ =>
      cases hfields : e.layout.fields? (before ++ (key, v) :: after) with
      | none =>
        rw [memberShape?] at h
        simp only [hlayout] at h hfields
        rw [hfields] at h
        cases h
      | some fields =>
        rw [memberShape?_of_fields? hfields] at h
        obtain ⟨f, hfind, -⟩ := Option.map_eq_some_iff.mp h
        have htag := tag?_ne_of_mem_fields hfields (mem_keys_of_find? hfind)
        rw [Layout.fields?_insert htag, ← Layout.fields?_insert htag v'] at hfields
        rw [memberShape?_of_fields? hfields]
        exact h
  | _ => cases h

end Fields

/-- What an array of some shape with these items asks of its item number `i`. -/
def itemShape? (items : List Json) (i : Nat) : Shape → Option Shape
  | .list of => some of
  | .entity e =>
    match e.layout with
    | .record fields => fields[i]?.map Field.shape
    | .tagged _ variants =>
      match items, i with
      | w :: _, i + 1 => (variant? variants w).bind fun variant =>
          variant.2[i]?.map Field.shape
      | _, _ => none
    | .choice _ => none
  | _ => none

namespace Opens

variable {members members' before after : List (String × Json)} {layout : Layout} {inner : Mode}
  {fields : List Field} {build : List Form → Form} {key : String} {v v' : Json} {depth : Nat}

theorem fields?_eq (h : Opens m members layout inner fields build) :
    layout.fields? members = some fields := by
  cases h with
  | record _ => rfl
  | tagged _ htag =>
    obtain ⟨w, hlookup, hfound, -⟩ := lookup_of_findTag htag
    rw [Layout.fields?, hlookup, Option.bind_some, variant?_of_readTag hfound]
    rfl

theorem at_inner (h : Opens m members layout inner fields build) (hm : m.At depth) :
    inner.At (depth + 1) := by
  cases h with
  | record henter => exact hm.enter henter
  | tagged _ _ => trivial

theorem perm (h : Opens m members layout inner fields build) (hperm : members.Perm members') :
    Opens m members' layout inner fields build := by
  cases h with
  | record henter => exact .record henter
  | tagged henter htag => exact .tagged henter (findTag_perm hperm htag)

/-- A member besides the tag may be put in where it can be taken in. -/
theorem insert (h : Opens m (before ++ after) layout inner fields build)
    (hkey : layout.tag? ≠ some key) (hm : m.At depth) (hv : faultIn (depth + 1) v = none) :
    Opens m (before ++ (key, v) :: after) layout inner fields build := by
  cases h with
  | record henter => exact .record henter
  | tagged henter htag =>
    have hne : key ≠ _ := fun heq => hkey (congrArg some heq.symm)
    exact .tagged henter ((findTag_insert_iff hne).mpr ⟨(hm.enter henter).takeIn hv, htag⟩)

/-- A member besides the tag may be replaced. -/
theorem replace (h : Opens m (before ++ (key, v) :: after) layout inner fields build)
    (hkey : layout.tag? ≠ some key) (hm : m.At depth) (hkeeps : Keeps (depth + 1) v v') :
    Opens m (before ++ (key, v') :: after) layout inner fields build := by
  cases h with
  | record henter => exact .record henter
  | tagged henter htag =>
    have hne : key ≠ _ := fun heq => hkey (congrArg some heq.symm)
    obtain ⟨htake, hrest⟩ := (findTag_insert_iff hne).mp htag
    have htake' := hkeeps.takeIn (hm.enter henter) htake
    exact .tagged henter ((findTag_insert_iff hne).mpr ⟨htake', hrest⟩)

/-- A value that is no tag does not stand under the tag. -/
theorem tag?_ne_of_not_tag (h : Opens m (before ++ (key, v) :: after) layout inner fields build)
    (hv : ∀ m variants variant, readTag m variants v ≠ .ok variant) :
    layout.tag? ≠ some key := by
  cases h with
  | record _ => exact fun heq => Option.some_ne_none _ heq.symm
  | tagged _ htag =>
    intro heq
    cases heq
    obtain ⟨w, -, hfound, honly⟩ := lookup_of_findTag htag
    have hmem : (key, v) ∈ before ++ (key, v) :: after :=
      List.mem_append_right before (List.mem_cons_self ..)
    rw [← honly v hmem] at hfound
    exact hv _ _ _ hfound

/-- The tag is there, and there once. -/
theorem mem_tag {tag : String} (h : Opens m members layout inner fields build)
    (htag : layout.tag? = some tag) : tag ∈ members.map Prod.fst := by
  cases h with
  | record _ => cases htag
  | tagged _ hfind =>
    cases htag
    obtain ⟨w, hlookup, -⟩ := lookup_of_findTag hfind
    exact List.mem_map.mpr ⟨_, mem_of_lookup_eq_some hlookup, rfl⟩

theorem tag?_ne_of_twice (h : Opens m (before ++ (key, v) :: after) layout inner fields build)
    (htwice : key ∈ (before ++ after).map Prod.fst) : layout.tag? ≠ some key := by
  cases h with
  | record _ => exact fun heq => Option.some_ne_none _ heq.symm
  | tagged _ htag =>
    intro heq
    cases heq
    exact findTag_ne_ok_of_twice htwice htag

end Opens

/-! ## Holes in arrays -/

section Items

variable {before after : List Json} {v v' : Json} {forms : List Form}

/-- An item of a list may be replaced by one that is read as the same form. -/
theorem readItems_hole {of : Shape} (h : readItems m of (before ++ v :: after) = .ok forms) :
    ∃ x, read m false of v = .ok x ∧ ∀ v', read m false of v' = .ok x →
      readItems m of (before ++ v' :: after) = .ok forms := by
  induction before generalizing forms with
  | nil =>
    rw [List.nil_append, readItems] at h
    obtain ⟨x, hread, h⟩ := bind_eq_ok_iff.mp h
    refine ⟨x, hread, fun v' hread' => ?_⟩
    rw [List.nil_append, readItems, hread']
    exact h
  | cons u rest ih =>
    rw [List.cons_append, readItems] at h
    obtain ⟨y, hu, h⟩ := bind_eq_ok_iff.mp h
    obtain ⟨later, hlater, h⟩ := bind_eq_ok_iff.mp h
    obtain ⟨x, hread, hhole⟩ := ih hlater
    refine ⟨x, hread, fun v' hread' => ?_⟩
    rw [List.cons_append, readItems, hu, hhole v' hread']
    exact h

/-- A value that stands in the place of a field may be replaced by one that is read as the same
form. -/
theorem readPositions_hole {i : Nat} {fields : List Field}
    (h : readPositions m i fields (before ++ v :: after) = .ok forms) :
    ∃ f x, fields[before.length]? = some f ∧ read m f.isOptional f.shape v = .ok x ∧
      ∀ v', read m f.isOptional f.shape v' = .ok x →
        readPositions m i fields (before ++ v' :: after) = .ok forms := by
  induction before generalizing i fields forms with
  | nil =>
    cases fields with
    | nil =>
      rw [List.nil_append, readPositions] at h
      cases h
    | cons f fields =>
      rw [List.nil_append, readPositions] at h
      obtain ⟨x, hread, h⟩ := bind_eq_ok_iff.mp h
      refine ⟨f, x, rfl, hread, fun v' hread' => ?_⟩
      rw [List.nil_append, readPositions, hread']
      exact h
  | cons u rest ih =>
    cases fields with
    | nil =>
      rw [List.cons_append, readPositions] at h
      cases h
    | cons g fields =>
      rw [List.cons_append, readPositions] at h
      obtain ⟨y, hu, h⟩ := bind_eq_ok_iff.mp h
      obtain ⟨later, hlater, h⟩ := bind_eq_ok_iff.mp h
      obtain ⟨f, x, hfield, hread, hhole⟩ := ih hlater
      refine ⟨f, x, hfield, hread, fun v' hread' => ?_⟩
      rw [List.cons_append, readPositions, hu]
      show (readPositions m (i + 1) fields (rest ++ v' :: after) >>= _) = _
      rw [hhole v' hread']
      exact h

namespace ReadsArr

variable {depth : Nat}

/-- The item was read with the shape that is asked for, and another one that is read as the same
form would do. -/
theorem hole (h : ReadsArr m shape (before ++ v :: after) form) (hm : m.At depth)
    (hv : ∀ m variants variant, readTag m variants v ≠ .ok variant) :
    ∃ asked inner optional x, itemShape? (before ++ v :: after) before.length shape = some asked ∧
      inner.At (depth + 1) ∧ read inner optional asked v = .ok x ∧
      ∀ v', Keeps (depth + 1) v v' → read inner optional asked v' = .ok x →
        ReadsArr m shape (before ++ v' :: after) form := by
  generalize hitems : before ++ v :: after = items at h
  cases h with
  | @list of inner _ forms henter hread =>
    subst hitems
    obtain ⟨x, hx, hhole⟩ := readItems_hole hread
    exact ⟨of, inner, false, x, rfl, hm.enter henter, hx,
      fun v' _ hv' => .list henter (hhole v' hv')⟩
  | @record e fields inner _ forms hlayout henter hread =>
    subst hitems
    obtain ⟨f, x, hfield, hx, hhole⟩ := readPositions_hole hread
    refine ⟨f.shape, inner, f.isOptional, x, ?_, hm.enter henter, hx,
      fun v' _ hv' => .record hlayout henter (hhole v' hv')⟩
    rw [itemShape?, hlayout]
    simp only [hfield, Option.map_some]
  | @tagged e tag name variants fields inner w rest forms hlayout henter htag htake hread =>
    cases before with
    | nil =>
      cases hitems
      exact absurd htag (hv _ _ _)
    | cons u before =>
      cases hitems
      obtain ⟨f, x, hfield, hx, hhole⟩ := readPositions_hole hread
      refine ⟨f.shape, .held, f.isOptional, x, ?_, trivial, hx, fun v' hkeeps hv' => ?_⟩
      · rw [itemShape?, hlayout]
        simp only [List.length_cons, variant?_of_readTag htag, Option.bind_some, hfield,
          Option.map_some]
      · refine .tagged hlayout henter htag ?_ (hhole v' hv')
        have hothers := fun u hu => htake u (List.perm_middle.mem_iff.mpr hu)
        intro u hu
        rcases List.mem_cons.mp (List.perm_middle.mem_iff.mp hu) with rfl | hu
        · exact hkeeps.takeIn (hm.enter henter) (hothers v (List.mem_cons_self ..))
        · exact hothers u (List.mem_cons_of_mem _ hu)

end ReadsArr

/-- What is asked of an item does not depend on the item. -/
theorem itemShape?_replace :
    itemShape? (before ++ v :: after) before.length shape =
      itemShape? (before ++ v' :: after) before.length shape := by
  cases before with
  | nil => cases shape <;> rfl
  | cons u before => cases shape <;> rfl

end Items

/-! ## Holes in objects -/

section Members

variable {members members' before after : List (String × Json)} {key : String} {v v' : Json}
  {depth : Nat}

theorem eq_of_append_cons_eq_singleton {name : String} {u : Json}
    (h : before ++ (key, v) :: after = [(name, u)]) :
    before = [] ∧ after = [] ∧ key = name ∧ v = u := by
  cases before with
  | nil =>
    cases h
    exact ⟨rfl, rfl, rfl, rfl⟩
  | cons p before =>
    have hlength := congrArg List.length h
    simp at hlength

namespace ReadsObj

theorem perm (h : ReadsObj m shape members form) (hperm : members.Perm members') :
    ReadsObj m shape members' form := by
  cases h with
  | fields hopens hslots hforms =>
    exact .fields (hopens.perm hperm) (readMembers_perm hperm hslots) hforms
  | choice hlayout hname hread =>
    rw [List.perm_singleton.mp hperm.symm]
    exact .choice hlayout hname hread
  | word hname hhollow =>
    rw [List.perm_singleton.mp hperm.symm]
    exact .word hname hhollow

/-- A member that is asked for was read with the shape that is asked, and another one that is read
as the same form would do. -/
theorem hole (h : ReadsObj m shape (before ++ (key, v) :: after) form) (hm : m.At depth)
    {asked : Shape}
    (hasked : memberShape? (before ++ (key, v) :: after) key shape = some asked) :
    ∃ inner optional x, inner.At (depth + 1) ∧ read inner optional asked v = .ok x ∧
      ∀ v', Keeps (depth + 1) v v' → read inner optional asked v' = .ok x →
        ReadsObj m shape (before ++ (key, v') :: after) form := by
  generalize hmembers : before ++ (key, v) :: after = members at h
  cases h with
  | @fields e _ inner fields build slots forms hopens hslots hforms =>
    subst hmembers
    rw [memberShape?_of_fields? hopens.fields?_eq] at hasked
    obtain ⟨f, hfind, rfl⟩ := Option.map_eq_some_iff.mp hasked
    have hkey := mem_keys_of_find? hfind
    have htag := tag?_ne_of_mem_fields hopens.fields?_eq hkey
    obtain ⟨first, hbefore, hrest⟩ := readMembers_append_iff.mp hslots
    obtain ⟨next, htake, hafter⟩ := readMembers_cons_iff.mp hrest
    cases htake with
    | tag heq => exact absurd heq htag
    | passed _ hnone _ => exact absurd hkey (findIdx?_key_eq_none_iff.mp hnone)
    | @field _ _ i g x _ hfound hfield hslot hread =>
      obtain ⟨g', hfield', -, hfind'⟩ := getElem?_of_findIdx? hfound
      rw [hfield] at hfield'
      cases hfield'
      rw [hfind] at hfind'
      cases hfind'
      refine ⟨inner, f.isOptional, x, hopens.at_inner hm, hread, fun v' hkeeps hread' => ?_⟩
      refine .fields (hopens.replace htag hm hkeeps) ?_ hforms
      refine readMembers_append_iff.mpr ⟨first, hbefore, readMembers_cons_iff.mpr ?_⟩
      exact ⟨_, .field htag hfound hfield hslot hread', hafter⟩
  | choice hlayout hname hread =>
    obtain ⟨rfl, rfl, rfl, rfl⟩ := eq_of_append_cons_eq_singleton hmembers
    rw [memberShape?_choice hlayout, hname] at hasked
    cases hasked
    exact ⟨.held, false, _, trivial, hread, fun v' _ hread' => .choice hlayout hname hread'⟩
  | word _ _ => cases hasked

/-- A member that is not asked for may be replaced by one that can be passed over as well. -/
theorem replace_unasked (h : ReadsObj m shape (before ++ (key, v) :: after) form) (hm : m.At depth)
    (hasked : memberShape? (before ++ (key, v) :: after) key shape = none)
    (hv : ∀ m variants variant, readTag m variants v ≠ .ok variant)
    (hhollow : ∀ m, isHollow m v = true → isHollow m v' = true)
    (hkeeps : Keeps (depth + 1) v v') : ReadsObj m shape (before ++ (key, v') :: after) form := by
  generalize hmembers : before ++ (key, v) :: after = members at h
  cases h with
  | @fields e _ inner fields build slots forms hopens hslots hforms =>
    subst hmembers
    rw [memberShape?_of_fields? hopens.fields?_eq, Option.map_eq_none_iff] at hasked
    have htag := hopens.tag?_ne_of_not_tag hv
    obtain ⟨first, hbefore, hrest⟩ := readMembers_append_iff.mp hslots
    obtain ⟨next, htake, hafter⟩ := readMembers_cons_iff.mp hrest
    refine .fields (hopens.replace htag hm hkeeps) ?_ hforms
    refine readMembers_append_iff.mpr ⟨first, hbefore, readMembers_cons_iff.mpr ⟨next, ?_, hafter⟩⟩
    cases htake with
    | tag heq => exact absurd heq htag
    | passed _ hnone hpass => exact .passed htag hnone (hkeeps.passOver hpass)
    | field _ hfound _ _ _ =>
      obtain ⟨_, -, -, hfind⟩ := getElem?_of_findIdx? hfound
      rw [hasked] at hfind
      cases hfind
  | choice hlayout hname hread =>
    obtain ⟨rfl, rfl, rfl, rfl⟩ := eq_of_append_cons_eq_singleton hmembers
    rw [memberShape?_choice hlayout, hname] at hasked
    cases hasked
  | word hname hhollow' =>
    obtain ⟨rfl, rfl, rfl, rfl⟩ := eq_of_append_cons_eq_singleton hmembers
    exact .word hname (hhollow _ hhollow')

end ReadsObj

end Members

end Format
end SafetyLint
