import Mathlib.Logic.Relation
import SafetyLint.Format.Dump
import SafetyLint.Proofs.AskedShapes

/-!
# What a dump says does not depend on its layout

Two changes of a value leave what it says as it is.  The members of an object may change places,
whatever the object is (`Json.Shuffled`), and an object that is read as a record or a tagged object
may get members that nobody asks for (`Extends`).  Two other changes make it unreadable (`Spoils`):
a key that comes twice, and a key that has to be there and is not.

Where an object is read as something depends on the shape that is asked of it, so a change is made
along the shapes that the values around it ask for (`Changed`).  It also keeps count of the arrays
and objects around the place of the change, because there may only be so many.

Each kind of change is followed through a value by an induction of its own: `Shuffled.read`,
`Changed.read` and `Changed.read_ne_ok`.  Dumps come last, in `decodeDump_depends_on_content`.
-/

namespace SafetyLint

/-! ## Changes -/

/-- In one object, anywhere in the value, members change places. -/
inductive Json.Shuffled : Json → Json → Prop where
  | here {members members' : List (String × Json)} (h : members.Perm members') :
    Shuffled (.obj members) (.obj members')
  | item {v v' : Json} (before after : List Json) (h : Shuffled v v') :
    Shuffled (.arr (before ++ v :: after)) (.arr (before ++ v' :: after))
  | member {v v' : Json} (before : List (String × Json)) (key : String)
    (after : List (String × Json)) (h : Shuffled v v') :
    Shuffled (.obj (before ++ (key, v) :: after)) (.obj (before ++ (key, v') :: after))
  | hidden {v v' : Json} (h : Shuffled v v') : Shuffled (.hidden v) (.hidden v')

namespace Format

/-- A change of the members of an object that is read as an entity, inside of so many arrays and
objects. -/
abbrev Change := Nat → Entity → List (String × Json) → List (String × Json) → Prop

/-- In one object in a value of some shape, inside of so many arrays and objects, the members are
changed. -/
inductive Changed (R : Change) : Nat → Shape → Json → Json → Prop where
  | here {depth : Nat} {e : Entity} {members members' : List (String × Json)}
    (h : R depth e members members') :
    Changed R depth (.entity e) (.obj members) (.obj members')
  | item {depth : Nat} {shape asked : Shape} {v v' : Json} (before after : List Json)
    (hasked : itemShape? (before ++ v :: after) before.length shape = some asked)
    (h : Changed R (depth + 1) asked v v') :
    Changed R depth shape (.arr (before ++ v :: after)) (.arr (before ++ v' :: after))
  | member {depth : Nat} {shape asked : Shape} {v v' : Json} (before : List (String × Json))
    (key : String) (after : List (String × Json))
    (hasked : memberShape? (before ++ (key, v) :: after) key shape = some asked)
    (h : Changed R (depth + 1) asked v v') :
    Changed R depth shape (.obj (before ++ (key, v) :: after))
      (.obj (before ++ (key, v') :: after))

/-- A record or tagged object gets a member whose key is neither the tag nor one of its fields.  The
value of the member has no faults and does not nest too deep. -/
inductive Extends : Change where
  | intro {depth : Nat} {e : Entity} {before after : List (String × Json)} {fields : List Field}
    {key : String} {w : Json} (hfields : e.layout.fields? (before ++ after) = some fields)
    (hkey : key ∉ fields.map Field.key) (htag : e.layout.tag? ≠ some key) (hsound : w.Sound)
    (hroom : depth + 1 + w.depth ≤ depthLimit) :
    Extends depth e (before ++ after) (before ++ (key, w) :: after)

/-- A record or tagged object gets the tag or one of its fields a second time, or loses the tag or a
field without default. -/
inductive Spoils : Change where
  | twice {depth : Nat} {e : Entity} {before after : List (String × Json)} {fields : List Field}
    {key : String} {w : Json} (hfields : e.layout.fields? (before ++ after) = some fields)
    (hkey : key ∈ fields.map Field.key ∨ e.layout.tag? = some key)
    (htwice : key ∈ (before ++ after).map Prod.fst) :
    Spoils depth e (before ++ after) (before ++ (key, w) :: after)
  | missing {depth : Nat} {e : Entity} {members : List (String × Json)} {fields : List Field}
    {key : String} (hfields : e.layout.fields? members = some fields)
    (hkey : (∃ f ∈ fields, f.key = key ∧ f.default = none) ∨ e.layout.tag? = some key) :
    Spoils depth e members (members.filter (·.1 ≠ key))

/-- The value of an entity is laid out in another way, in one place. -/
inductive Relaid (e : Entity) : Json → Json → Prop where
  | shuffled {v v' : Json} (h : v.Shuffled v') : Relaid e v v'
  | extended {v v' : Json} (h : Changed Extends 0 (.entity e) v v') : Relaid e v v'

end Format

/-! ## Members that change places -/

namespace Json.Shuffled

open Format

variable {v v' : Json}

theorem keeps (h : v.Shuffled v') (depth : Nat) : Keeps depth v v' := by
  induction h generalizing depth with
  | here h => exact .perm h
  | item before after _ ih => exact .item (ih (depth + 1))
  | member before key after _ ih => exact .member (ih (depth + 1))
  | hidden _ ih =>
    refine ⟨fun h => ?_, fun h => (ih depth).past h, fun h => ?_⟩
    · cases h
    · cases h

/-- What has members is no tag. -/
theorem readTag_ne_ok (h : v.Shuffled v') (m : Mode) (variants : List Variant)
    (variant : Variant) : readTag m variants v ≠ .ok variant := by
  intro htag
  cases h <;> cases htag

theorem isHollow (h : v.Shuffled v') (m : Mode) (hv : Format.isHollow m v = true) :
    Format.isHollow m v' = true := by
  cases h with
  | @here members members' hperm =>
    cases members with
    | nil =>
      rw [List.nil_perm.mp hperm]
      exact hv
    | cons p rest => cases hv
  | item before after _ => cases hv
  | member before key after _ => cases before <;> cases hv
  | hidden _ => cases hv

/-- The order of members does not matter, in whatever objects. -/
theorem read (h : v.Shuffled v') {m : Mode} {optional : Bool} {shape : Shape} {form : Form}
    (hread : Format.read m optional shape v = .ok form) :
    Format.read m optional shape v' = .ok form := by
  induction h generalizing m optional shape form with
  | here hperm =>
    exact read_obj_eq_ok_iff.mpr ((read_obj_eq_ok_iff.mp hread).perm hperm)
  | item before after h ih =>
    obtain ⟨depth, hm⟩ := m.exists_at
    obtain ⟨asked, inner, opt, x, -, -, hx, hhole⟩ :=
      (read_arr_eq_ok_iff.mp hread).hole hm h.readTag_ne_ok
    exact read_arr_eq_ok_iff.mpr (hhole _ (h.keeps _) (ih hx))
  | @member v v' before key after h ih =>
    obtain ⟨depth, hm⟩ := m.exists_at
    have hobj := read_obj_eq_ok_iff.mp hread
    refine read_obj_eq_ok_iff.mpr ?_
    cases hasked : memberShape? (before ++ (key, v) :: after) key shape with
    | some asked =>
      obtain ⟨inner, opt, x, -, hx, hhole⟩ := hobj.hole hm hasked
      exact hhole _ (h.keeps _) (ih hx)
    | none => exact hobj.replace_unasked hm hasked h.readTag_ne_ok h.isHollow (h.keeps _)
  | hidden _ _ => cases shape <;> cases hread

end Json.Shuffled

namespace Format

variable {m : Mode} {optional : Bool} {shape : Shape} {form : Form} {depth : Nat} {v v' : Json}
  {e : Entity} {members members' : List (String × Json)}

/-- What is changed, and what it is changed to, is no tag. -/
theorem Changed.readTag_ne_ok {R : Change} (h : Changed R depth shape v v') (m : Mode)
    (variants : List Variant) (variant : Variant) :
    readTag m variants v ≠ .ok variant ∧ readTag m variants v' ≠ .ok variant := by
  cases h <;> exact ⟨error_ne_ok, error_ne_ok⟩

/-! ## Members that nobody asks for -/

theorem Extends.keeps (h : Extends depth e members members') :
    Keeps depth (.obj members) (.obj members') := by
  cases h with
  | intro _ _ _ hsound hroom =>
    exact .insert (faultIn_eq_none hsound hroom) (faultPast_eq_none hsound)

/-- A member that nobody asks for is passed over. -/
theorem ReadsObj.extend (h : ReadsObj m (.entity e) members form)
    (hextends : Extends depth e members members') (hm : m.At depth) :
    ReadsObj m (.entity e) members' form := by
  cases hextends with
  | @intro _ _ before after fields key w hfields hkey htag hsound hroom =>
    have hwithin := faultIn_eq_none hsound hroom
    generalize hmembers : before ++ after = members at h
    cases h with
    | @fields _ _ inner fields' build slots forms hopens hslots hforms =>
      subst hmembers
      obtain rfl : fields' = fields := Option.some_inj.mp (hopens.fields?_eq.symm.trans hfields)
      have hpass : inner.passOver w = .ok () := by
        cases inner with
        | live d =>
          have hshown : w.isHidden = false := by
            cases w with
            | hidden u => exact absurd (Json.sound_iff.mp hsound).1 Bool.false_ne_true
            | _ => rfl
          exact Mode.passOver_live_iff.mpr ⟨hshown, faultPast_eq_none hsound⟩
        | parsed => rfl
        | held => rfl
      obtain ⟨next, hbefore, hafter⟩ := readMembers_append_iff.mp hslots
      refine .fields (hopens.insert htag hm hwithin) ?_ hforms
      refine readMembers_append_iff.mpr ⟨next, hbefore, readMembers_cons_iff.mpr ⟨next, ?_, hafter⟩⟩
      exact .passed htag (findIdx?_key_eq_none_iff.mpr hkey) hpass
    | choice hlayout _ _ =>
      rw [hlayout] at hfields
      cases hfields

theorem Changed.keeps (h : Changed Extends depth shape v v') : Keeps depth v v' := by
  induction h with
  | here h => exact h.keeps
  | item before after _ _ ih => exact .item ih
  | member before key after _ _ ih => exact .member ih

/-- Members that nobody asks for do not matter, in whatever objects. -/
theorem Changed.read (h : Changed Extends depth shape v v') (hm : m.At depth)
    (hread : Format.read m optional shape v = .ok form) :
    Format.read m optional shape v' = .ok form := by
  induction h generalizing m optional form with
  | here h => exact read_obj_eq_ok_iff.mpr ((read_obj_eq_ok_iff.mp hread).extend h hm)
  | item before after hasked h ih =>
    obtain ⟨asked, inner, opt, x, hasked', hinner, hx, hhole⟩ :=
      (read_arr_eq_ok_iff.mp hread).hole hm fun m variants x => (h.readTag_ne_ok m variants x).1
    rw [hasked] at hasked'
    cases hasked'
    exact read_arr_eq_ok_iff.mpr (hhole _ h.keeps (ih hinner hx))
  | member before key after hasked h ih =>
    obtain ⟨inner, opt, x, hinner, hx, hhole⟩ := (read_obj_eq_ok_iff.mp hread).hole hm hasked
    exact read_obj_eq_ok_iff.mpr (hhole _ h.keeps (ih hinner hx))

/-! ## Keys that come twice, and keys that are missing -/

/-- An object with one of these is not read. -/
theorem not_readsObj_of_spoils (h : Spoils depth e members members') :
    ¬ ReadsObj m (.entity e) members' form := by
  intro hobj
  cases h with
  | @twice _ _ before after fields key w hfields hkey htwice =>
    generalize hmembers : before ++ (key, w) :: after = members' at hobj
    cases hobj with
    | @fields _ _ inner fields' build slots forms hopens hslots _ =>
      subst hmembers
      have htag := hopens.tag?_ne_of_twice htwice
      have hfields' := hopens.fields?_eq
      rw [Layout.fields?_insert htag, hfields] at hfields'
      cases hfields'
      rcases hkey with hkey | hkey
      · exact readMembers_ne_ok_of_twice (List.length_map _) htag hkey htwice hslots
      · exact htag hkey
    | choice hlayout _ _ =>
      rw [hlayout] at hfields
      cases hfields
  | @missing _ _ members fields key hfields hkey =>
    have hgone : key ∉ (members.filter (·.1 ≠ key)).map Prod.fst := by
      intro hmem
      obtain ⟨p, hp, hpkey⟩ := List.mem_map.mp hmem
      exact of_decide_eq_true (List.mem_filter.mp hp).2 hpkey
    generalize hmembers : members.filter (·.1 ≠ key) = members' at hobj
    cases hobj with
    | @fields _ _ inner fields' build slots forms hopens hslots hforms =>
      subst hmembers
      have htag : e.layout.tag? ≠ some key := fun htag => hgone (hopens.mem_tag htag)
      have hfields' := hopens.fields?_eq
      rw [Layout.fields?_filter htag, hfields] at hfields'
      cases hfields'
      rcases hkey with ⟨f, hf, rfl, hdefault⟩ | hkey
      · exact complete_ne_ok_of_missing hf hdefault hgone hslots hforms
      · exact htag hkey
    | choice hlayout _ _ =>
      rw [hlayout] at hfields
      cases hfields

/-- A value that is spoilt somewhere is not read. -/
theorem Changed.read_ne_ok (h : Changed Spoils depth shape v v') (hm : m.At depth) :
    Format.read m optional shape v' ≠ .ok form := by
  induction h generalizing m optional form with
  | here h => exact fun hread => not_readsObj_of_spoils h (read_obj_eq_ok_iff.mp hread)
  | item before after hasked h ih =>
    intro hread
    obtain ⟨asked, inner, opt, x, hasked', hinner, hx, -⟩ :=
      (read_arr_eq_ok_iff.mp hread).hole hm fun m variants x => (h.readTag_ne_ok m variants x).2
    rw [itemShape?_replace, hasked] at hasked'
    cases hasked'
    exact ih hinner hx
  | member before key after hasked h ih =>
    intro hread
    obtain ⟨inner, opt, x, hinner, hx, -⟩ :=
      (read_obj_eq_ok_iff.mp hread).hole hm (memberShape?_replace hasked)
    exact ih hinner hx

/-! ## Dumps -/

/-- A value that is laid out in another way is read as the same form. -/
theorem readLive_of_relaid (h : Relation.ReflTransGen (Relaid e) v v')
    (hread : readLive e v = .ok form) : readLive e v' = .ok form := by
  induction h with
  | refl => exact hread
  | tail _ hstep ih =>
    cases hstep with
    | shuffled hshuffled => exact hshuffled.read ih
    | extended hextended => exact hextended.read rfl ih

theorem readText_eq_ok_iff {text : String} :
    readText e text = .ok form ↔
      readLive e (Json.parse text).value = .ok form ∧ (Json.parse text).hasMore = false := by
  refine bind_eq_ok_iff.trans ⟨?_, ?_⟩
  · rintro ⟨x, hread, h⟩
    split at h
    · cases h
    · next hmore =>
      cases h
      exact ⟨hread, Bool.not_eq_true _ ▸ hmore⟩
  · rintro ⟨hread, hmore⟩
    refine ⟨form, hread, ?_⟩
    rw [hmore]
    rfl

/-- A dump that was accepted, and another one.

* If the value of the other one comes from the value of the first by moving members of objects and
  by adding members that are neither the tag nor a field of their object, it is accepted with the
  same tree.
* If in one object the tag or a field was added a second time, or the tag or a field without default
  was taken out, it is rejected. -/
theorem decodeDump_depends_on_content {text : String} {t : Tree.SourceFile}
    (h : decodeDump text = .ok t) (text' : String) :
    (Relation.ReflTransGen (Relaid .sourceFile) (Json.parse text).value (Json.parse text').value →
        (Json.parse text').hasMore = false → decodeDump text' = .ok t) ∧
      (Changed Spoils 0 (.entity .sourceFile) (Json.parse text).value (Json.parse text').value →
        ∃ e, decodeDump text' = .error e) := by
  obtain ⟨form, hform, rfl⟩ : ∃ form, readText .sourceFile text = .ok form ∧ fileOf form = t := by
    rw [decodeDump] at h
    cases hform : readText .sourceFile text with
    | ok form =>
      rw [hform] at h
      exact ⟨form, rfl, Except.ok.inj h⟩
    | error e =>
      rw [hform] at h
      cases h
  obtain ⟨hread, -⟩ := readText_eq_ok_iff.mp hform
  constructor
  · intro hrelaid hmore
    have hread' := readText_eq_ok_iff.mpr ⟨readLive_of_relaid hrelaid hread, hmore⟩
    rw [decodeDump, hread']
    rfl
  · intro hspoilt
    cases hread' : readText .sourceFile text' with
    | ok form' =>
      obtain ⟨hlive, -⟩ := readText_eq_ok_iff.mp hread'
      exact absurd hlive (hspoilt.read_ne_ok rfl)
    | error e =>
      refine ⟨e, ?_⟩
      rw [decodeDump, hread']
      rfl

/-- The value of a dump with one statement, whose kind has these members. -/
def nopDump (kind : List (String × Json)) : Json :=
  .obj [("path", .str "a.php"),
    ("stmts", .arr [.obj [("span", .obj [("start_line", .int 1), ("end_line", .int 1)]),
      ("kind", .obj kind)]])]

theorem exact_nopDump {kind : List (String × Json)} (h : (Json.obj kind).Exact) :
    (nopDump kind).Exact := by
  have hone : (Json.int 1).Exact := exact_of_parts_eq_nil (by decide) rfl
  have hspan : (Json.obj [("start_line", .int 1), ("end_line", .int 1)]).Exact :=
    exact_obj (by simp [hone])
  have hstmt : (Json.obj [("span", .obj [("start_line", .int 1), ("end_line", .int 1)]),
      ("kind", .obj kind)]).Exact := exact_obj (by simp [hspan, h])
  have hpath : (Json.str "a.php").Exact := exact_of_parts_eq_nil rfl rfl
  have hstmts : (Json.arr [.obj [("span", .obj [("start_line", .int 1), ("end_line", .int 1)]),
      ("kind", .obj kind)]]).Exact :=
    Json.exact_iff.mpr ⟨rfl, fun u hu => List.mem_singleton.mp hu ▸ hstmt⟩
  exact exact_obj (by simp [hpath, hstmts])

/-- A change of the tagged object is a change of the dump. -/
theorem changed_nopDump {R : Change} {kind kind' : List (String × Json)}
    (h : R 3 .stmtKind kind kind') :
    Changed R 0 (.entity .sourceFile) (nopDump kind) (nopDump kind') := by
  have hstmt : ∀ span, Changed R 2 (.entity .stmt) (.obj [("span", span), ("kind", .obj kind)])
      (.obj [("span", span), ("kind", .obj kind')]) :=
    fun span => .member [("span", span)] "kind" [] rfl (.here h)
  exact .member [("path", .str "a.php")] "stmts" [] rfl (.item [] [] rfl (hstmt _))

/-- The tag of a statement gets a neighbour, they change places, and it may not be repeated. -/
theorem decodeDump_depends_on_content_nopDump :
    let text := Json.renderAt false 0 (nopDump [("stmt", .str "nop")])
    let relaid := Json.renderAt true 0 (nopDump [("note", .arr [.null]), ("stmt", .str "nop")])
    let spoilt := Json.renderAt true 0 (nopDump [("stmt", .str "nop"), ("stmt", .str "nop")])
    decodeDump text = .ok ⟨"a.php", none, [⟨.line 1, .nop, []⟩]⟩ ∧
      decodeDump relaid = .ok ⟨"a.php", none, [⟨.line 1, .nop, []⟩]⟩ ∧
      ∃ e, decodeDump spoilt = .error e := by
  intro text relaid spoilt
  have hnull : Json.null.Exact := exact_of_parts_eq_nil rfl rfl
  have hnop : (Json.str "nop").Exact := exact_of_parts_eq_nil rfl rfl
  have hnote : (Json.arr [.null]).Exact :=
    Json.exact_iff.mpr ⟨rfl, fun u hu => List.mem_singleton.mp hu ▸ hnull⟩
  have htext : Json.parse text = ⟨nopDump [("stmt", .str "nop")], false⟩ :=
    Json.parse_renderAt false (exact_nopDump (exact_obj (by simp [hnop])))
  have hrelaid : Json.parse relaid =
      ⟨nopDump [("note", .arr [.null]), ("stmt", .str "nop")], false⟩ :=
    Json.parse_renderAt true (exact_nopDump (exact_obj (by simp [hnop, hnote])))
  have hspoilt : Json.parse spoilt =
      ⟨nopDump [("stmt", .str "nop"), ("stmt", .str "nop")], false⟩ :=
    Json.parse_renderAt true (exact_nopDump (exact_obj (by simp [hnop])))
  have hdecode : decodeDump text = .ok ⟨"a.php", none, [⟨.line 1, .nop, []⟩]⟩ := by
    rw [decodeDump, readText, htext]
    rfl
  refine ⟨hdecode, (decodeDump_depends_on_content hdecode relaid).1 ?_ (by rw [hrelaid]),
    (decodeDump_depends_on_content hdecode spoilt).2 ?_⟩
  · rw [htext, hrelaid]
    have hextends : Extends 3 .stmtKind ([("stmt", .str "nop")] ++ [])
        ([("stmt", .str "nop")] ++ ("note", .arr [.null]) :: []) :=
      .intro (by rfl) (by decide) (by decide) hnote.sound (by decide)
    refine .tail (.single (.extended (changed_nopDump hextends))) (.shuffled ?_)
    exact .member [("path", .str "a.php")] "stmts" [] (.item [] []
      (.member [("span", _)] "kind" [] (.here (.swap ..))))
  · rw [htext, hspoilt]
    have hspoils : Spoils 3 .stmtKind ([("stmt", .str "nop")] ++ [])
        ([("stmt", .str "nop")] ++ ("stmt", .str "nop") :: []) :=
      .twice (by rfl) (.inr rfl) (by decide)
    exact changed_nopDump hspoils

end Format
end SafetyLint
