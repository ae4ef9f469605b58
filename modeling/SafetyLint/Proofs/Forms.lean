import SafetyLint.Format.Read
import SafetyLint.Format.Write
import SafetyLint.Proofs.JsonText

/-!
# Forms and their written values

A form fits a shape when it has what the layout of the shape asks for (`Fits`): every field is
there, only an optional one holds nothing, and numbers keep within their bounds.  The value of a
form that fits is read back as that form (`Fits.read_write`), in every mode of reading, as long as
there is room for its depth.

Fields are where writing and reading differ: some are left out when they hold their default, a tag
stands in front of the others, and the members go into slots by their keys.  This works because
under one layout no key comes twice and no field is called like the tag (`Layout.WellKeyed`), which
is checked once for the whole table.
-/

namespace SafetyLint

/-! ## Depth -/

namespace Json

mutual

/-- How many arrays and objects stand inside each other. -/
def depth : Json → Nat
  | arr items => itemsDepth items + 1
  | obj members => membersDepth members + 1
  | hidden v => depth v
  | _ => 0

def itemsDepth : List Json → Nat
  | [] => 0
  | v :: rest => max (depth v) (itemsDepth rest)

def membersDepth : List (String × Json) → Nat
  | [] => 0
  | (_, v) :: rest => max (depth v) (membersDepth rest)

end

theorem depth_le_itemsDepth {v : Json} {items : List Json} (h : v ∈ items) :
    v.depth ≤ itemsDepth items := by
  induction items with
  | nil => exact absurd h List.not_mem_nil
  | cons u rest ih =>
    rw [itemsDepth]
    rcases List.mem_cons.mp h with rfl | h
    · exact Nat.le_max_left ..
    · exact Nat.le_trans (ih h) (Nat.le_max_right ..)

theorem depth_le_membersDepth {m : String × Json} {members : List (String × Json)}
    (h : m ∈ members) : m.2.depth ≤ membersDepth members := by
  induction members with
  | nil => exact absurd h List.not_mem_nil
  | cons n rest ih =>
    rw [membersDepth]
    rcases List.mem_cons.mp h with rfl | h
    · exact Nat.le_max_left ..
    · exact Nat.le_trans (ih h) (Nat.le_max_right ..)

/-! ## Values without faults -/

/-- The value is no fault and stands behind no unreadable key, whatever stands in it. -/
def isSound : Json → Bool
  | fault _ _ => false
  | hidden _ => false
  | _ => true

/-- A value in which nothing is wrong with the text. -/
def Sound (v : Json) : Prop := ∀ u ∈ Walk.preorder v, u.isSound

theorem sound_iff {v : Json} : v.Sound ↔ v.isSound ∧ ∀ u ∈ v.parts, u.Sound :=
  Walk.forall_mem_preorder

theorem isSound_of_isExact {v : Json} (h : v.isExact) : v.isSound := by
  cases v with
  | fault reading passing => exact absurd h Bool.false_ne_true
  | hidden v => exact absurd h Bool.false_ne_true
  | _ => rfl

theorem Exact.sound {v : Json} (h : v.Exact) : v.Sound := fun u hu => isSound_of_isExact (h u hu)

end Json

namespace Format

theorem faultInItems_eq_none_iff {depth : Nat} {items : List Json} :
    faultInItems depth items = none ↔ ∀ v ∈ items, faultIn depth v = none := by
  induction items with
  | nil => exact ⟨fun _ _ hv => absurd hv List.not_mem_nil, fun _ => rfl⟩
  | cons v rest ih => rw [faultInItems, Option.or_eq_none_iff, ih, List.forall_mem_cons]

theorem faultInMembers_eq_none_iff {depth : Nat} {members : List (String × Json)} :
    faultInMembers depth members = none ↔ ∀ m ∈ members, faultIn depth m.2 = none := by
  induction members with
  | nil => exact ⟨fun _ _ hm => absurd hm List.not_mem_nil, fun _ => rfl⟩
  | cons m rest ih => rw [faultInMembers, Option.or_eq_none_iff, ih, List.forall_mem_cons]

theorem faultIn_arr_iff {depth : Nat} {items : List Json} :
    faultIn depth (.arr items) = none ↔
      depth < depthLimit ∧ ∀ v ∈ items, faultIn (depth + 1) v = none := by
  rw [faultIn, ← faultInItems_eq_none_iff]
  by_cases hdepth : depth < depthLimit <;> simp [hdepth]

theorem faultIn_obj_iff {depth : Nat} {members : List (String × Json)} :
    faultIn depth (.obj members) = none ↔
      depth < depthLimit ∧ ∀ m ∈ members, faultIn (depth + 1) m.2 = none := by
  rw [faultIn, ← faultInMembers_eq_none_iff]
  by_cases hdepth : depth < depthLimit <;> simp [hdepth]

/-- A sound value that is not too deep can be taken in as a whole. -/
theorem faultIn_eq_none {v : Json} (h : v.Sound) {depth : Nat}
    (hroom : depth + v.depth ≤ depthLimit) : faultIn depth v = none := by
  induction v using Walk.induct generalizing depth with
  | step v ih =>
    obtain ⟨hself, hparts⟩ := Json.sound_iff.mp h
    cases v with
    | null => rfl
    | bool b => rfl
    | int i => rfl
    | float x => rfl
    | str s => rfl
    | arr items =>
      rw [Json.depth] at hroom
      refine faultIn_arr_iff.mpr ⟨by omega, fun v hv => ih v hv (hparts v hv) ?_⟩
      have := Json.depth_le_itemsDepth hv
      omega
    | obj members =>
      rw [Json.depth] at hroom
      refine faultIn_obj_iff.mpr ⟨by omega, fun m hm => ?_⟩
      have hpart : m.2 ∈ (Json.obj members).parts := List.mem_map_of_mem hm
      refine ih m.2 hpart (hparts m.2 hpart) ?_
      have := Json.depth_le_membersDepth hm
      omega
    | fault reading passing => exact absurd hself Bool.false_ne_true
    | hidden v => exact absurd hself Bool.false_ne_true

/-! ## Room for depth -/

namespace Mode

/-- In this mode there is room for a value of the given depth. -/
def Room : Mode → Nat → Prop
  | live depth, d => depth + d ≤ depthLimit
  | _, _ => True

theorem Room.mono {m : Mode} {c d : Nat} (h : m.Room d) (hcd : c ≤ d) : m.Room c := by
  cases m with
  | live depth => exact Nat.le_trans (Nat.add_le_add_left hcd depth) h
  | parsed => trivial
  | held => trivial

theorem Room.enter {m : Mode} {d : Nat} (h : m.Room (d + 1)) :
    ∃ m', m.enter = .ok m' ∧ m'.Room d := by
  cases m with
  | live depth =>
    have hroom : depth + (d + 1) ≤ depthLimit := h
    refine ⟨live (depth + 1), if_pos (by omega), ?_⟩
    show depth + 1 + d ≤ depthLimit
    omega
  | parsed => exact ⟨parsed, rfl, trivial⟩
  | held => exact ⟨held, rfl, trivial⟩

theorem takeIn_eq_ok {m : Mode} {v : Json} (h : v.Exact) (hroom : m.Room v.depth) :
    m.takeIn v = .ok () := by
  cases m with
  | live depth =>
    rw [takeIn, faultIn_eq_none h.sound hroom]
    rfl
  | parsed => rfl
  | held => rfl

end Mode

/-! ## Forms that fit -/

end Format

namespace Tree

/-- A scalar that is read back as it was written: no double, and no whole number beyond 64 bits. -/
def Scalar.isExact : Scalar → Bool
  | .int i => Format.minInt ≤ i && i ≤ Format.maxInt
  | .float _ => false
  | _ => true

theorem Scalar.isExact_int {i : Int} :
    (Scalar.int i).isExact ↔ Format.minInt ≤ i ∧ i ≤ Format.maxInt := by
  simp [isExact]

end Tree

namespace Format

/-- The form has the shape.  A field that holds nothing has to be optional. -/
inductive Fits : Shape → Form → Prop where
  | flag (b : Bool) : Fits .flag (.flag b)
  | nat {n : Nat} (h : n ≤ Json.maxWord) : Fits .nat (.int n)
  | int {i : Int} (hmin : minInt ≤ i) (hmax : i ≤ maxInt) : Fits .int (.int i)
  | text (s : String) : Fits .text (.text s)
  | scalar {x : Tree.Scalar} (h : x.isExact) : Fits .scalar (.scalar x)
  | word {words : List String} {name : String} (h : name ∈ words) :
    Fits (.word words) (.variant name [])
  | list {of : Shape} {items : List Form} (h : ∀ x ∈ items, Fits of x) :
    Fits (.list of) (.list items)
  | record {e : Entity} {fields : List Field} {forms : List Form}
    (hlayout : e.layout = .record fields) (hlength : forms.length = fields.length)
    (hnothing : ∀ p ∈ fields.zip forms, p.2 = .nothing → p.1.isOptional)
    (hfits : ∀ p ∈ fields.zip forms, p.2 ≠ .nothing → Fits p.1.shape p.2) :
    Fits (.entity e) (.record forms)
  | tagged {e : Entity} {tag name : String} {variants : List Variant} {fields : List Field}
    {forms : List Form} (hlayout : e.layout = .tagged tag variants)
    (hname : variants.lookup name = some fields) (hlength : forms.length = fields.length)
    (hnothing : ∀ p ∈ fields.zip forms, p.2 = .nothing → p.1.isOptional)
    (hfits : ∀ p ∈ fields.zip forms, p.2 ≠ .nothing → Fits p.1.shape p.2) :
    Fits (.entity e) (.variant name forms)
  | choice {e : Entity} {name : String} {variants : List (String × Shape)} {shape : Shape}
    {form : Form} (hlayout : e.layout = .choice variants)
    (hname : variants.lookup name = some shape) (hfits : Fits shape form) :
    Fits (.entity e) (.variant name [form])

/-- The form may stand in the field. -/
def FieldFits (f : Field) (x : Form) : Prop :=
  (x = .nothing → f.isOptional) ∧ (x ≠ .nothing → Fits f.shape x)

namespace Fits

theorem of_record {e : Entity} {fields : List Field} {forms : List Form}
    (hlayout : e.layout = .record fields) (h : List.Forall₂ FieldFits fields forms) :
    Fits (.entity e) (.record forms) := by
  obtain ⟨hlength, hzip⟩ := List.forall₂_iff_zip.mp h
  exact .record hlayout hlength.symm (fun p hp => (hzip hp).1) fun p hp => (hzip hp).2

theorem of_tagged {e : Entity} {tag name : String} {variants : List Variant} {fields : List Field}
    {forms : List Form} (hlayout : e.layout = .tagged tag variants)
    (hname : variants.lookup name = some fields) (h : List.Forall₂ FieldFits fields forms) :
    Fits (.entity e) (.variant name forms) := by
  obtain ⟨hlength, hzip⟩ := List.forall₂_iff_zip.mp h
  exact .tagged hlayout hname hlength.symm (fun p hp => (hzip hp).1) fun p hp => (hzip hp).2

theorem fields_of_record {e : Entity} {fields : List Field} {forms : List Form}
    (h : Fits (.entity e) (.record forms)) (hlayout : e.layout = .record fields) :
    List.Forall₂ FieldFits fields forms := by
  cases h with
  | record hlayout' hlength hnothing hfits =>
    obtain rfl := Layout.record.inj (hlayout'.symm.trans hlayout)
    exact List.forall₂_iff_zip.mpr
      ⟨hlength.symm, fun {f x} hp => ⟨hnothing (f, x) hp, hfits (f, x) hp⟩⟩

end Fits

/-! ## Writing -/

theorem write_nothing (shape : Shape) : write shape .nothing = .null := by
  rw [write]

theorem write_list (of : Shape) (items : List Form) :
    write (.list of) (.list items) = .arr (writeItems of items) := by
  rw [write]

theorem write_record {e : Entity} {fields : List Field} (forms : List Form)
    (h : e.layout = .record fields) :
    write (.entity e) (.record forms) = .obj (writeFields fields forms) := by
  simp only [write, h]

theorem write_tagged {e : Entity} {tag name : String} {variants : List Variant}
    {fields : List Field} (forms : List Form) (h : e.layout = .tagged tag variants)
    (hname : variants.lookup name = some fields) :
    write (.entity e) (.variant name forms) =
      .obj ((tag, .str name) :: writeFields fields forms) := by
  simp only [write, h, hname, Option.getD_some]

theorem write_choice {e : Entity} {name : String} {variants : List (String × Shape)}
    {shape : Shape} (form : Form) (h : e.layout = .choice variants)
    (hname : variants.lookup name = some shape) :
    write (.entity e) (.variant name [form]) = .obj [(name, write shape form)] := by
  simp only [write, h, hname, Option.getD_some]

theorem writeItems_eq_map (of : Shape) (items : List Form) :
    writeItems of items = items.map (write of) := by
  induction items with
  | nil => rfl
  | cons x rest ih => rw [writeItems, ih, List.map_cons]

/-- Every member that is written belongs to a field that is not left out. -/
theorem mem_writeFields {fields : List Field} {forms : List Form} {m : String × Json}
    (h : m ∈ writeFields fields forms) :
    ∃ p ∈ fields.zip forms, m = (p.1.key, write p.1.shape p.2) := by
  induction forms generalizing fields with
  | nil => exact absurd h List.not_mem_nil
  | cons x rest ih =>
    cases fields with
    | nil => exact absurd h List.not_mem_nil
    | cons f fields =>
      rw [writeFields] at h
      by_cases hout : f.leavesOut x
      · rw [if_pos hout] at h
        obtain ⟨p, hp, rfl⟩ := ih h
        exact ⟨p, List.mem_cons_of_mem _ hp, rfl⟩
      · rw [if_neg hout, List.mem_cons] at h
        rcases h with rfl | h
        · exact ⟨(f, x), List.mem_cons_self .., rfl⟩
        · obtain ⟨p, hp, rfl⟩ := ih h
          exact ⟨p, List.mem_cons_of_mem _ hp, rfl⟩

theorem exact_of_parts_eq_nil {v : Json} (hself : v.isExact) (hparts : v.parts = []) : v.Exact :=
  Json.exact_iff.mpr ⟨hself, fun _ hu => absurd (hparts ▸ hu) List.not_mem_nil⟩

theorem isExact_int_of_range {i : Int} (hmin : minInt ≤ i) (hmax : i ≤ maxInt) :
    (Json.int i).isExact := by
  refine Json.isExact_int.mpr ⟨hmin, Int.le_trans hmax ?_⟩
  decide

theorem exact_writeFields {fields : List Field} {forms : List Form}
    (h : ∀ p ∈ fields.zip forms, p.2 ≠ .nothing → (write p.1.shape p.2).Exact) :
    ∀ m ∈ writeFields fields forms, m.2.Exact := by
  intro m hm
  obtain ⟨⟨f, x⟩, hp, rfl⟩ := mem_writeFields hm
  by_cases hx : x = .nothing
  · subst hx
    rw [write_nothing]
    exact exact_of_parts_eq_nil rfl rfl
  · exact h (f, x) hp hx

theorem exact_obj {members : List (String × Json)} (h : ∀ m ∈ members, m.2.Exact) :
    (Json.obj members).Exact := by
  refine Json.exact_iff.mpr ⟨rfl, fun u hu => ?_⟩
  obtain ⟨m, hm, rfl⟩ := List.mem_map.mp hu
  exact h m hm

/-- What is written for a form that fits is an exact value. -/
theorem Fits.exact_write {shape : Shape} {form : Form} (h : Fits shape form) :
    (write shape form).Exact := by
  induction h with
  | flag b => exact exact_of_parts_eq_nil rfl rfl
  | nat h =>
    exact exact_of_parts_eq_nil (Json.isExact_int.mpr ⟨by omega, by omega⟩) rfl
  | int hmin hmax => exact exact_of_parts_eq_nil (isExact_int_of_range hmin hmax) rfl
  | text s => exact exact_of_parts_eq_nil rfl rfl
  | @scalar x h =>
    cases x with
    | bool b => exact exact_of_parts_eq_nil rfl rfl
    | int i =>
      obtain ⟨hmin, hmax⟩ := Tree.Scalar.isExact_int.mp h
      exact exact_of_parts_eq_nil (isExact_int_of_range hmin hmax) rfl
    | float x => exact absurd h Bool.false_ne_true
    | text s => exact exact_of_parts_eq_nil rfl rfl
  | word h => exact exact_of_parts_eq_nil rfl rfl
  | list h ih =>
    refine Json.exact_iff.mpr ⟨rfl, fun u hu => ?_⟩
    rw [write_list, Json.parts, writeItems_eq_map] at hu
    obtain ⟨x, hx, rfl⟩ := List.mem_map.mp hu
    exact ih x hx
  | record hlayout hlength hnothing hfits ih =>
    rw [write_record _ hlayout]
    exact exact_obj (exact_writeFields ih)
  | tagged hlayout hname hlength hnothing hfits ih =>
    rw [write_tagged _ hlayout hname]
    refine exact_obj fun m hm => ?_
    rcases List.mem_cons.mp hm with rfl | hm
    · exact exact_of_parts_eq_nil rfl rfl
    · exact exact_writeFields ih m hm
  | choice hlayout hname hfits ih =>
    rw [write_choice _ hlayout hname]
    refine exact_obj fun m hm => ?_
    rw [List.mem_singleton.mp hm]
    exact ih

/-! ## Keys -/

/-- Under one layout no key comes twice, and no field is called like the tag. -/
def Layout.WellKeyed : Layout → Prop
  | .record fields => (fields.map Field.key).Nodup
  | .tagged tag variants => ∀ v ∈ variants, (tag :: v.2.map Field.key).Nodup
  | .choice _ => True

instance (l : Layout) : Decidable l.WellKeyed :=
  match l with
  | .record fields => inferInstanceAs (Decidable (fields.map Field.key).Nodup)
  | .tagged tag variants =>
    inferInstanceAs (Decidable (∀ v ∈ variants, (tag :: v.2.map Field.key).Nodup))
  | .choice _ => inferInstanceAs (Decidable True)

theorem wellKeyed_layout (e : Entity) : e.layout.WellKeyed := by
  cases e <;> decide

theorem mem_of_lookup_eq_some {α : Type} {name : String} {a : α} {entries : List (String × α)}
    (h : entries.lookup name = some a) : (name, a) ∈ entries := by
  obtain ⟨before, after, rfl, -⟩ := List.lookup_eq_some_iff.mp h
  exact List.mem_append_right before (List.mem_cons_self ..)

/-! ## Slots -/

/-- The slots after all members of the forms are read: empty where a field is left out. -/
def slotsOf : List Field → List Form → Slots
  | f :: fields, x :: forms => (if f.leavesOut x then none else some x) :: slotsOf fields forms
  | _, _ => []

/-- Defaults come back where fields were left out. -/
theorem complete_slotsOf {fields : List Field} {forms : List Form}
    (h : forms.length = fields.length) : complete fields (slotsOf fields forms) = .ok forms := by
  induction fields generalizing forms with
  | nil =>
    rw [List.length_eq_zero_iff.mp h]
    rfl
  | cons f fields ih =>
    cases forms with
    | nil => cases h
    | cons x forms =>
      have hrest := ih (Nat.succ.inj h)
      rw [slotsOf]
      by_cases hout : f.leavesOut x
      · obtain ⟨-, hdefault⟩ := Bool.and_eq_true_iff.mp hout
        obtain ⟨d, hd, hform⟩ := (Option.any_eq_true _ _).mp hdefault
        rw [if_pos hout, (d.isForm_iff x).mp hform]
        simp only [complete, List.head?_cons, Option.join_some, hd, List.tail_cons, hrest]
        rfl
      · rw [if_neg hout]
        simp only [complete, List.head?_cons, List.tail_cons, hrest]
        rfl

/-- A field is found by its key. -/
theorem findIdx?_key {before fields : List Field} {f : Field}
    (h : ((before ++ f :: fields).map Field.key).Nodup) :
    (before ++ f :: fields).findIdx? (·.key = f.key) = some before.length := by
  have hnone : before.findIdx? (·.key = f.key) = none := by
    rw [List.findIdx?_eq_none_iff]
    intro g hg
    rw [List.map_append, List.map_cons] at h
    have hne := (List.nodup_append.mp h).2.2 g.key (List.mem_map_of_mem hg) f.key
      (List.mem_cons_self ..)
    exact decide_eq_false hne
  rw [List.findIdx?_append, hnone, List.findIdx?_cons]
  simp

/-- Reading the member of a field fills the slot of the field. -/
theorem readMembers_field {m : Mode} {tag : Option String} {before fields : List Field} {f : Field}
    {done slots : Slots} {v : Json} {x : Form} (htag : tag ≠ some f.key)
    (hkeys : ((before ++ f :: fields).map Field.key).Nodup) (hdone : done.length = before.length)
    (hread : read m f.isOptional f.shape v = .ok x) (members : List (String × Json)) :
    readMembers m tag (before ++ f :: fields) (done ++ none :: slots) ((f.key, v) :: members) =
      readMembers m tag (before ++ f :: fields) (done ++ some x :: slots) members := by
  have hslot : (done ++ none :: slots)[before.length]?.join = none := by
    rw [← hdone, List.getElem?_append_right (Nat.le_refl _), Nat.sub_self]
    rfl
  have hfield : (before ++ f :: fields)[before.length]? = some f := by
    rw [List.getElem?_append_right (Nat.le_refl _), Nat.sub_self]
    rfl
  have hset : (done ++ none :: slots).set before.length (some x) = done ++ some x :: slots := by
    rw [← hdone, List.set_append_right _ _ (Nat.le_refl _), Nat.sub_self]
    rfl
  rw [readMembers, if_neg htag, findIdx?_key hkeys]
  simp only [hslot, hfield, hread]
  show readMembers m tag _ (List.set _ _ (some x)) members = _
  rw [hset]

/-- Reading the members of the fields from some place on fills their slots. -/
theorem readMembers_writeFields {m : Mode} {tag : Option String} {fields : List Field}
    {forms : List Form} (hlength : forms.length = fields.length)
    (hread : ∀ p ∈ fields.zip forms, (p.1.key, write p.1.shape p.2) ∈ writeFields fields forms →
      read m p.1.isOptional p.1.shape (write p.1.shape p.2) = .ok p.2)
    (htag : ∀ f ∈ fields, tag ≠ some f.key) (before : List Field) (done : Slots)
    (hdone : done.length = before.length)
    (hkeys : ((before ++ fields).map Field.key).Nodup) :
    readMembers m tag (before ++ fields) (done ++ fields.map fun _ => none)
        (writeFields fields forms) =
      .ok (done ++ slotsOf fields forms) := by
  induction fields generalizing forms before done with
  | nil =>
    rw [List.length_eq_zero_iff.mp hlength]
    rfl
  | cons f fields ih =>
    cases forms with
    | nil => cases hlength
    | cons x forms =>
      -- the field moves to those before, with its slot
      have hmove : before ++ f :: fields = (before ++ [f]) ++ fields := by simp
      have hnext : ∀ slot : Option Form,
          (∀ p ∈ fields.zip forms, (p.1.key, write p.1.shape p.2) ∈ writeFields fields forms →
            read m p.1.isOptional p.1.shape (write p.1.shape p.2) = .ok p.2) →
          readMembers m tag (before ++ f :: fields) (done ++ slot :: fields.map fun _ => none)
            (writeFields fields forms) = .ok (done ++ slot :: slotsOf fields forms) := by
        intro slot hmore
        have h := ih (Nat.succ.inj hlength) hmore (fun g hg => htag g (List.mem_cons_of_mem f hg))
          (before ++ [f]) (done ++ [slot]) (by simp [hdone]) (hmove ▸ hkeys)
        rwa [← hmove, List.append_assoc, List.append_assoc] at h
      rw [writeFields] at hread ⊢
      rw [slotsOf, List.map_cons]
      by_cases hout : f.leavesOut x
      · rw [if_pos hout] at hread ⊢
        rw [if_pos hout]
        exact hnext none fun p hp hmem => hread p (List.mem_cons_of_mem _ hp) hmem
      · rw [if_neg hout] at hread ⊢
        have hx := hread (f, x) (List.mem_cons_self ..) (List.mem_cons_self ..)
        rw [if_neg hout, readMembers_field (htag f (List.mem_cons_self ..)) hkeys hdone hx]
        exact hnext (some x) fun p hp hmem =>
          hread p (List.mem_cons_of_mem _ hp) (List.mem_cons_of_mem _ hmem)

/-- Reading all members of an object, from empty slots to the forms. -/
theorem complete_readMembers {m : Mode} {tag : Option String} {fields : List Field}
    {forms : List Form} (hlength : forms.length = fields.length)
    (hread : ∀ p ∈ fields.zip forms, (p.1.key, write p.1.shape p.2) ∈ writeFields fields forms →
      read m p.1.isOptional p.1.shape (write p.1.shape p.2) = .ok p.2)
    (htag : ∀ f ∈ fields, tag ≠ some f.key) (hkeys : (fields.map Field.key).Nodup) :
    ∃ slots,
      readMembers m tag fields (fields.map fun _ => none) (writeFields fields forms) = .ok slots ∧
        complete fields slots = .ok forms :=
  ⟨slotsOf fields forms, readMembers_writeFields hlength hread htag [] [] rfl hkeys,
    complete_slotsOf hlength⟩

/-! ## Reading -/

theorem findTag_found {m : Mode} {tag : String} {variants : List Variant} {found : Variant}
    {members : List (String × Json)} (hkeys : ∀ p ∈ members, p.1 ≠ tag)
    (htake : ∀ p ∈ members, m.takeIn p.2 = .ok ()) :
    findTag m tag variants (some found) members = .ok found := by
  induction members with
  | nil => rfl
  | cons p rest ih =>
    obtain ⟨key, v⟩ := p
    rw [findTag, if_neg (hkeys (key, v) (List.mem_cons_self ..)),
      htake (key, v) (List.mem_cons_self ..)]
    exact ih (fun p hp => hkeys p (List.mem_cons_of_mem _ hp))
      fun p hp => htake p (List.mem_cons_of_mem _ hp)

/-- The tag in front names the variant. -/
theorem findTag_cons {m : Mode} {tag name : String} {variants : List Variant} {fields : List Field}
    (hname : variants.lookup name = some fields) {members : List (String × Json)}
    (hkeys : ∀ p ∈ members, p.1 ≠ tag) (htake : ∀ p ∈ members, m.takeIn p.2 = .ok ()) :
    findTag m tag variants none ((tag, .str name) :: members) = .ok (name, fields) := by
  have htag : readTag m variants (.str name) = .ok (name, fields) := by
    simp only [readTag, hname]
  rw [findTag, if_pos rfl, htag]
  exact findTag_found hkeys htake

theorem readItems_writeItems {m : Mode} {of : Shape} {items : List Form}
    (h : ∀ x ∈ items, read m false of (write of x) = .ok x) :
    readItems m of (writeItems of items) = .ok items := by
  induction items with
  | nil => rfl
  | cons x rest ih =>
    rw [writeItems, readItems, h x (List.mem_cons_self ..),
      ih fun y hy => h y (List.mem_cons_of_mem x hy)]
    rfl

/-- What is written for a field is read as the form in the field. -/
theorem read_field {m : Mode} {p : Field × Form} (hnothing : p.2 = .nothing → p.1.isOptional)
    (h : p.2 ≠ .nothing → read m p.1.isOptional p.1.shape (write p.1.shape p.2) = .ok p.2) :
    read m p.1.isOptional p.1.shape (write p.1.shape p.2) = .ok p.2 := by
  by_cases hx : p.2 = .nothing
  · rw [hx, write_nothing, read, if_pos (hnothing hx)]
  · exact h hx

/-- What is written for a form that fits is read back as the form. -/
theorem Fits.read_write {shape : Shape} {form : Form} (h : Fits shape form) (m : Mode)
    (optional : Bool) (hroom : m.Room (write shape form).depth) :
    read m optional shape (write shape form) = .ok form := by
  induction h generalizing m optional with
  | flag b => rfl
  | nat h => rfl
  | int hmin hmax => exact if_pos ⟨hmin, hmax⟩
  | text s => rfl
  | @scalar x h =>
    cases x with
    | bool b => rfl
    | int i =>
      show Except.ok (Form.scalar (if minInt ≤ i ∧ i ≤ maxInt then _ else _)) = _
      rw [if_pos (Tree.Scalar.isExact_int.mp h)]
    | float x => exact absurd h Bool.false_ne_true
    | text s => rfl
  | @word words name h => exact if_pos (List.contains_iff_mem.mpr h)
  | @list of items h ih =>
    rw [write_list] at hroom ⊢
    obtain ⟨m', henter, hroom'⟩ := Mode.Room.enter hroom
    have hitems : readItems m' of (writeItems of items) = .ok items := by
      refine readItems_writeItems fun x hx => ih x hx m' false (hroom'.mono ?_)
      refine Json.depth_le_itemsDepth ?_
      rw [writeItems_eq_map]
      exact List.mem_map_of_mem hx
    simp only [read, henter]
    show (readItems m' of _ >>= _) = _
    rw [hitems]
    rfl
  | @record e fields forms hlayout hlength hnothing hfits ih =>
    rw [write_record _ hlayout] at hroom ⊢
    obtain ⟨m', henter, hroom'⟩ := Mode.Room.enter hroom
    have hkeys : (fields.map Field.key).Nodup := by
      have h := wellKeyed_layout e
      rwa [hlayout] at h
    obtain ⟨slots, hslots, hforms⟩ := complete_readMembers hlength (fun p hp hmem =>
      read_field (hnothing p hp) fun hx =>
        ih p hp hx m' _ (hroom'.mono (Json.depth_le_membersDepth hmem)))
      (fun _ _ => Option.some_ne_none _ |>.symm) hkeys
    simp only [read, hlayout, henter]
    show (readMembers m' none fields _ _ >>= _) = _
    rw [hslots]
    show (complete fields slots >>= _) = _
    rw [hforms]
    rfl
  | @tagged e tag name variants fields forms hlayout hname hlength hnothing hfits ih =>
    rw [write_tagged _ hlayout hname] at hroom ⊢
    obtain ⟨m', henter, hroom'⟩ := Mode.Room.enter hroom
    have hkeys : (tag :: fields.map Field.key).Nodup := by
      have h := wellKeyed_layout e
      rw [hlayout] at h
      exact h (name, fields) (mem_of_lookup_eq_some hname)
    obtain ⟨htag, hkeys⟩ := List.nodup_cons.mp hkeys
    have hne : ∀ f ∈ fields, f.key ≠ tag := fun f hf heq => htag (heq ▸ List.mem_map_of_mem hf)
    have hfound : findTag m' tag variants none ((tag, .str name) :: writeFields fields forms) =
        .ok (name, fields) := by
      refine findTag_cons hname (fun p hp => ?_) fun p hp => ?_
      · obtain ⟨⟨f, x⟩, hfield, rfl⟩ := mem_writeFields hp
        exact hne f (List.of_mem_zip hfield).1
      · refine Mode.takeIn_eq_ok ?_ (hroom'.mono (Json.depth_le_membersDepth ?_))
        · exact exact_writeFields (fun p hp hx => (hfits p hp hx).exact_write) p hp
        · exact List.mem_cons_of_mem _ hp
    obtain ⟨slots, hslots, hforms⟩ := complete_readMembers hlength (fun p hp _ =>
      read_field (hnothing p hp) fun hx => ih p hp hx .held _ trivial)
      (fun f hf heq => hne f hf (Option.some_inj.mp heq).symm) hkeys
    simp only [read, hlayout, henter]
    show (findTag m' tag variants none _ >>= _) = _
    rw [hfound]
    show (readMembers .held (some tag) fields _ _ >>= _) = _
    rw [readMembers, if_pos rfl, hslots]
    show (complete fields slots >>= _) = _
    rw [hforms]
    rfl
  | @choice e name variants shape form hlayout hname hfits ih =>
    rw [write_choice _ hlayout hname]
    simp only [read, hlayout, hname]
    rw [ih .held false trivial]
    rfl

end Format
end SafetyLint
