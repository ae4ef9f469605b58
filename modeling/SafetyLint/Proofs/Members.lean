import SafetyLint.Proofs.Forms

/-!
# Members of an object, one at a time

Reading an object goes through its members in the order of the text, while the outcome is the same
in any order.  What one member does to the slots is said once (`Takes`): the tag does nothing, a
member that nobody asked for has to be passed over, and a member of a field fills the slot of its
field, which has to be empty.  Two such steps may change places, so members may be permuted
(`readMembers_perm`).

From there on it is enough to look at the first members.  A key that comes twice meets a slot that
is full (`readMembers_ne_ok_of_twice`), and a slot that no member fills stays empty, which a field
without default does not allow (`complete_ne_ok_of_missing`).

The tag is looked for in a round of its own, which succeeds when there is exactly one
(`findTag_eq_ok_iff`).
-/

namespace SafetyLint

theorem error_ne_ok {ε α : Type} {e : ε} {a : α} : (Except.error e : Except ε α) ≠ .ok a := by
  intro h
  cases h

theorem bind_eq_ok_iff {ε α β : Type} {x : Except ε α} {f : α → Except ε β} {b : β} :
    (x >>= f) = .ok b ↔ ∃ a, x = .ok a ∧ f a = .ok b := by
  cases x with
  | error e =>
    refine ⟨fun h => absurd h error_ne_ok, ?_⟩
    rintro ⟨a, ha, -⟩
    exact absurd ha error_ne_ok
  | ok a =>
    constructor
    · intro h
      exact ⟨a, rfl, h⟩
    · rintro ⟨a', ha, h⟩
      cases ha
      exact h

namespace Format

/-! ## One member -/

/-- In some slots, a member of an object is read and leaves these slots. -/
inductive Takes (m : Mode) (tag : Option String) (fields : List Field) (slots : Slots) :
    String × Json → Slots → Prop where
  | tag {key : String} {v : Json} (htag : tag = some key) :
    Takes m tag fields slots (key, v) slots
  | passed {key : String} {v : Json} (htag : tag ≠ some key)
    (hkey : fields.findIdx? (·.key = key) = none) (hpass : m.passOver v = .ok ()) :
    Takes m tag fields slots (key, v) slots
  | field {key : String} {v : Json} {i : Nat} {f : Field} {x : Form} (htag : tag ≠ some key)
    (hkey : fields.findIdx? (·.key = key) = some i) (hfield : fields[i]? = some f)
    (hslot : slots[i]?.join = none) (hread : read m f.isOptional f.shape v = .ok x) :
    Takes m tag fields slots (key, v) (slots.set i (some x))

variable {m : Mode} {tag : Option String} {fields : List Field} {slots slots' : Slots}
  {members members' before after : List (String × Json)}

/-- A key that is found belongs to a field. -/
theorem getElem?_of_findIdx? {key : String} {i : Nat}
    (h : fields.findIdx? (·.key = key) = some i) :
    ∃ f, fields[i]? = some f ∧ f.key = key ∧ fields.find? (·.key = key) = some f := by
  obtain ⟨hi, hkey, hfirst⟩ := List.findIdx?_eq_some_iff_getElem.mp h
  refine ⟨fields[i], List.getElem?_eq_getElem hi, of_decide_eq_true hkey, ?_⟩
  refine List.find?_eq_some_iff_getElem.mpr ⟨hkey, i, hi, rfl, fun j hj => ?_⟩
  rw [Bool.not_eq_true', ← Bool.not_eq_true]
  exact hfirst j hj

theorem Takes.readMembers_cons {p : String × Json} {next : Slots}
    (h : Takes m tag fields slots p next) :
    readMembers m tag fields slots (p :: members) = readMembers m tag fields next members := by
  cases h with
  | tag htag => rw [readMembers, if_pos htag]
  | passed htag hkey hpass =>
    rw [readMembers, if_neg htag, hkey]
    simp only [hpass]
    rfl
  | field htag hkey hfield hslot hread =>
    rw [readMembers, if_neg htag, hkey]
    simp only [hslot, hfield, hread]
    rfl

/-- If the members are read, the first one is. -/
theorem exists_takes_of_readMembers_cons {p : String × Json}
    (h : readMembers m tag fields slots (p :: members) = .ok slots') :
    ∃ next, Takes m tag fields slots p next := by
  obtain ⟨key, v⟩ := p
  rw [readMembers] at h
  by_cases htag : tag = some key
  · exact ⟨slots, .tag htag⟩
  rw [if_neg htag] at h
  cases hkey : fields.findIdx? (·.key = key) with
  | none =>
    simp only [hkey] at h
    obtain ⟨_, hpass, -⟩ := bind_eq_ok_iff.mp h
    exact ⟨slots, .passed htag hkey hpass⟩
  | some i =>
    obtain ⟨f, hfield, -⟩ := getElem?_of_findIdx? hkey
    cases hslot : slots[i]?.join with
    | some y =>
      simp only [hkey, hslot] at h
      exact absurd h error_ne_ok
    | none =>
      simp only [hkey, hslot, hfield] at h
      obtain ⟨x, hread, -⟩ := bind_eq_ok_iff.mp h
      exact ⟨slots.set i (some x), .field htag hkey hfield hslot hread⟩

theorem readMembers_cons_iff {p : String × Json} :
    readMembers m tag fields slots (p :: members) = .ok slots' ↔
      ∃ next, Takes m tag fields slots p next ∧
        readMembers m tag fields next members = .ok slots' := by
  constructor
  · intro h
    obtain ⟨next, htake⟩ := exists_takes_of_readMembers_cons h
    exact ⟨next, htake, htake.readMembers_cons.symm.trans h⟩
  · rintro ⟨next, htake, h⟩
    exact htake.readMembers_cons.trans h

theorem readMembers_append_iff :
    readMembers m tag fields slots (before ++ after) = .ok slots' ↔
      ∃ next, readMembers m tag fields slots before = .ok next ∧
        readMembers m tag fields next after = .ok slots' := by
  induction before generalizing slots with
  | nil =>
    constructor
    · intro h
      exact ⟨slots, rfl, h⟩
    · rintro ⟨next, hnext, h⟩
      cases hnext
      exact h
  | cons p rest ih =>
    rw [List.cons_append]
    constructor
    · intro h
      obtain ⟨t, htake, hrest⟩ := readMembers_cons_iff.mp h
      obtain ⟨next, hnext, hafter⟩ := ih.mp hrest
      exact ⟨next, readMembers_cons_iff.mpr ⟨t, htake, hnext⟩, hafter⟩
    · rintro ⟨next, hnext, hafter⟩
      obtain ⟨t, htake, hrest⟩ := readMembers_cons_iff.mp hnext
      exact readMembers_cons_iff.mpr ⟨t, htake, ih.mpr ⟨next, hrest, hafter⟩⟩

/-! ## The order of members -/

/-- Two members may change places. -/
theorem Takes.comm {p q : String × Json} {next : Slots} (hp : Takes m tag fields slots p next)
    (hq : Takes m tag fields next q slots') :
    ∃ between, Takes m tag fields slots q between ∧ Takes m tag fields between p slots' := by
  cases hp with
  | tag htag =>
    exact ⟨slots', hq, .tag htag⟩
  | passed htag hkey hpass => exact ⟨slots', hq, .passed htag hkey hpass⟩
  | @field key v i f x htag hkey hfield hslot hread =>
    cases hq with
    | tag htag' => exact ⟨slots, .tag htag', .field htag hkey hfield hslot hread⟩
    | passed htag' hkey' hpass' =>
      exact ⟨slots, .passed htag' hkey' hpass', .field htag hkey hfield hslot hread⟩
    | @field key' v' j g y htag' hkey' hfield' hslot' hread' =>
      by_cases hij : i = j
      · -- the slot is full unless there is none
        subst hij
        have hout : slots.length ≤ i := by
          by_contra hin
          rw [List.getElem?_set_self (by omega)] at hslot'
          cases hslot'
        refine ⟨slots, ?_, ?_⟩
        · have htake := Takes.field htag' hkey' hfield' hslot hread'
          rwa [List.set_eq_of_length_le hout] at htake
        · have htake := Takes.field htag hkey hfield hslot hread
          rw [List.set_eq_of_length_le hout] at htake ⊢
          rwa [List.set_eq_of_length_le hout]
      · rw [List.getElem?_set_ne hij] at hslot'
        refine ⟨slots.set j (some y), .field htag' hkey' hfield' hslot' hread', ?_⟩
        rw [List.set_comm _ _ hij]
        refine .field htag hkey hfield ?_ hread
        rw [List.getElem?_set_ne (Ne.symm hij)]
        exact hslot

/-- The order of members does not matter. -/
theorem readMembers_perm (hperm : members.Perm members')
    (h : readMembers m tag fields slots members = .ok slots') :
    readMembers m tag fields slots members' = .ok slots' := by
  induction hperm generalizing slots with
  | nil => exact h
  | cons p hperm ih =>
    obtain ⟨next, htake, hrest⟩ := readMembers_cons_iff.mp h
    exact readMembers_cons_iff.mpr ⟨next, htake, ih hrest⟩
  | swap p q rest =>
    obtain ⟨next, hq, hrest⟩ := readMembers_cons_iff.mp h
    obtain ⟨last, hp, hrest⟩ := readMembers_cons_iff.mp hrest
    obtain ⟨between, hp', hq'⟩ := hq.comm hp
    exact readMembers_cons_iff.mpr ⟨between, hp', readMembers_cons_iff.mpr ⟨last, hq', hrest⟩⟩
  | trans _ _ ih ih' => exact ih' (ih h)

/-! ## Keys that come twice, and keys that are missing -/

theorem findIdx?_key_eq_none_iff {key : String} :
    fields.findIdx? (·.key = key) = none ↔ key ∉ fields.map Field.key := by
  rw [List.findIdx?_eq_none_iff]
  constructor
  · intro h hmem
    obtain ⟨f, hf, hkey⟩ := List.mem_map.mp hmem
    exact of_decide_eq_false (h f hf) hkey
  · intro h f hf
    exact decide_eq_false fun hkey => h (List.mem_map.mpr ⟨f, hf, hkey⟩)

/-- The key of a field may not come twice. -/
theorem readMembers_ne_ok_of_twice (hlength : slots.length = fields.length) {key : String}
    {w : Json} (htag : tag ≠ some key) (hkey : key ∈ fields.map Field.key)
    (htwice : key ∈ (before ++ after).map Prod.fst) :
    readMembers m tag fields slots (before ++ (key, w) :: after) ≠ .ok slots' := by
  intro h
  -- both members go to the front
  obtain ⟨⟨other, u⟩, hmem, hother⟩ := List.mem_map.mp htwice
  obtain rfl : other = key := hother
  obtain ⟨first, last, hsplit⟩ := List.append_of_mem hmem
  have hperm : (before ++ (other, w) :: after).Perm
      ((other, w) :: (other, u) :: (first ++ last)) := by
    refine List.perm_middle.trans (List.Perm.cons _ ?_)
    rw [hsplit]
    exact List.perm_middle
  obtain ⟨next, hfirst, hrest⟩ := readMembers_cons_iff.mp (readMembers_perm hperm h)
  obtain ⟨_, hsecond, -⟩ := readMembers_cons_iff.mp hrest
  -- the first one fills the slot, and the second one finds it full
  cases hfirst with
  | tag heq => exact htag heq
  | passed _ hnone _ => exact findIdx?_key_eq_none_iff.mp hnone hkey
  | @field _ _ i f x _ hfound hfield _ _ =>
    cases hsecond with
    | tag heq => exact htag heq
    | passed _ hnone _ => exact findIdx?_key_eq_none_iff.mp hnone hkey
    | @field _ _ j g y _ hfound' _ hslot _ =>
      rw [hfound] at hfound'
      cases hfound'
      obtain ⟨hi, -⟩ := List.getElem?_eq_some_iff.mp hfield
      rw [List.getElem?_set_self (by omega)] at hslot
      cases hslot

/-- A member of another key leaves the slot of a field alone. -/
theorem Takes.getElem?_eq {p : String × Json} (h : Takes m tag fields slots p slots') {i : Nat}
    {f : Field} (hfield : fields[i]? = some f) (hkey : p.1 ≠ f.key) : slots'[i]? = slots[i]? := by
  cases h with
  | tag _ => rfl
  | passed _ _ _ => rfl
  | @field key v j g x _ hfound _ _ _ =>
    obtain ⟨g', hfield', hkey', -⟩ := getElem?_of_findIdx? hfound
    have hij : j ≠ i := by
      rintro rfl
      rw [hfield] at hfield'
      cases hfield'
      exact hkey hkey'.symm
    exact List.getElem?_set_ne hij

theorem readMembers_getElem?_eq (h : readMembers m tag fields slots members = .ok slots') {i : Nat}
    {f : Field} (hfield : fields[i]? = some f) (hkey : f.key ∉ members.map Prod.fst) :
    slots'[i]? = slots[i]? := by
  induction members generalizing slots with
  | nil =>
    cases h
    rfl
  | cons p rest ih =>
    rw [List.map_cons, List.mem_cons, not_or] at hkey
    obtain ⟨next, htake, hrest⟩ := readMembers_cons_iff.mp h
    exact (ih hrest hkey.2).trans (htake.getElem?_eq hfield (Ne.symm hkey.1))

/-- Slots are complete when each field has a form of its own or a default. -/
theorem exists_of_complete_cons {f : Field} {forms : List Form}
    (h : complete (f :: fields) slots = .ok forms) :
    ∃ x rest, (slots.head?.join = some x ∨ f.default.map Default.form = some x) ∧
      complete fields slots.tail = .ok rest := by
  rw [complete] at h
  cases hslot : slots.head?.join with
  | some x =>
    simp only [hslot] at h
    obtain ⟨_, -, h⟩ := bind_eq_ok_iff.mp h
    obtain ⟨rest, hrest, -⟩ := bind_eq_ok_iff.mp h
    exact ⟨x, rest, .inl rfl, hrest⟩
  | none =>
    cases hdefault : f.default with
    | some d =>
      simp only [hslot, hdefault] at h
      obtain ⟨_, -, h⟩ := bind_eq_ok_iff.mp h
      obtain ⟨rest, hrest, -⟩ := bind_eq_ok_iff.mp h
      exact ⟨d.form, rest, .inr rfl, hrest⟩
    | none =>
      simp only [hslot, hdefault] at h
      cases h

/-- A field without default needs a full slot. -/
theorem join_ne_none_of_complete {forms : List Form} (h : complete fields slots = .ok forms)
    {i : Nat} {f : Field} (hfield : fields[i]? = some f) (hdefault : f.default = none) :
    slots[i]?.join ≠ none := by
  induction fields generalizing slots forms i with
  | nil => cases hfield
  | cons g fields ih =>
    obtain ⟨x, rest, hx, hrest⟩ := exists_of_complete_cons h
    cases i with
    | zero =>
      cases hfield
      rw [← List.head?_eq_getElem?]
      intro hempty
      rw [hempty, hdefault] at hx
      rcases hx with hx | hx <;> cases hx
    | succ i =>
      have hnext := ih hrest hfield
      rwa [List.getElem?_tail] at hnext

/-- The member of a field without default has to be there. -/
theorem complete_ne_ok_of_missing {f : Field} (hf : f ∈ fields) (hdefault : f.default = none)
    (hkey : f.key ∉ members.map Prod.fst)
    (h : readMembers m tag fields (fields.map fun _ => none) members = .ok slots)
    {forms : List Form} : complete fields slots ≠ .ok forms := by
  intro hforms
  obtain ⟨i, hi, rfl⟩ := List.getElem_of_mem hf
  have hfield := List.getElem?_eq_getElem hi
  refine join_ne_none_of_complete hforms hfield hdefault ?_
  rw [readMembers_getElem?_eq h hfield hkey, List.getElem?_map, hfield]
  rfl

/-! ## The tag -/

section Tag

variable {tag : String} {variants : List Variant} {variant : Variant}

theorem findTag_cons_of_ne {key : String} (hkey : key ≠ tag) (v : Json) (found : Option Variant) :
    findTag m tag variants found ((key, v) :: members) =
      (m.takeIn v >>= fun _ => findTag m tag variants found members) := by
  cases found <;> exact if_neg hkey

theorem findTag_some_iff {found : Variant} :
    findTag m tag variants (some found) members = .ok variant ↔
      found = variant ∧ ∀ p ∈ members, p.1 ≠ tag ∧ m.takeIn p.2 = .ok () := by
  induction members with
  | nil =>
    rw [findTag, Except.ok.injEq]
    exact ⟨fun h => ⟨h, fun _ hp => absurd hp List.not_mem_nil⟩, fun h => h.1⟩
  | cons p rest ih =>
    obtain ⟨key, v⟩ := p
    rw [List.forall_mem_cons]
    by_cases hkey : key = tag
    · rw [findTag, if_pos hkey]
      exact ⟨fun h => absurd h error_ne_ok, fun h => absurd hkey h.2.1.1⟩
    · rw [findTag_cons_of_ne hkey]
      refine bind_eq_ok_iff.trans ⟨?_, ?_⟩
      · rintro ⟨_, htake, hrest⟩
        obtain ⟨hfound, hall⟩ := ih.mp hrest
        exact ⟨hfound, ⟨hkey, htake⟩, hall⟩
      · rintro ⟨hfound, ⟨-, htake⟩, hall⟩
        exact ⟨(), htake, ih.mpr ⟨hfound, hall⟩⟩

/-- The variant is found when there is exactly one tag and everything else can be taken in. -/
theorem findTag_eq_ok_iff :
    findTag m tag variants none members = .ok variant ↔
      ∃ w rest, members.Perm ((tag, w) :: rest) ∧ readTag m variants w = .ok variant ∧
        ∀ p ∈ rest, p.1 ≠ tag ∧ m.takeIn p.2 = .ok () := by
  induction members with
  | nil =>
    refine ⟨fun h => absurd h error_ne_ok, ?_⟩
    rintro ⟨w, rest, hperm, -⟩
    exact absurd hperm.length_eq (by simp)
  | cons p later ih =>
    obtain ⟨key, v⟩ := p
    by_cases hkey : key = tag
    · subst hkey
      rw [findTag, if_pos rfl]
      refine bind_eq_ok_iff.trans ⟨?_, ?_⟩
      · rintro ⟨found, hfound, hlater⟩
        obtain ⟨rfl, hall⟩ := findTag_some_iff.mp hlater
        exact ⟨v, later, .refl _, hfound, hall⟩
      · rintro ⟨w, rest, hperm, hfound, hall⟩
        rcases List.mem_cons.mp (hperm.mem_iff.mp (List.mem_cons_self ..)) with heq | hmem
        · obtain rfl : v = w := congrArg Prod.snd heq
          have hsame := hperm.cons_inv
          exact ⟨variant, hfound, findTag_some_iff.mpr
            ⟨rfl, fun p hp => hall p (hsame.mem_iff.mp hp)⟩⟩
        · exact absurd rfl (hall _ hmem).1
    · rw [findTag_cons_of_ne hkey]
      refine bind_eq_ok_iff.trans ⟨?_, ?_⟩
      · rintro ⟨_, htake, hlater⟩
        obtain ⟨w, rest, hperm, hfound, hall⟩ := ih.mp hlater
        refine ⟨w, (key, v) :: rest, (hperm.cons _).trans (.swap ..), hfound, ?_⟩
        exact List.forall_mem_cons.mpr ⟨⟨hkey, htake⟩, hall⟩
      · rintro ⟨w, rest, hperm, hfound, hall⟩
        rcases List.mem_cons.mp (hperm.mem_iff.mp (List.mem_cons_self ..)) with heq | hmem
        · exact absurd (congrArg Prod.fst heq) hkey
        · obtain ⟨first, last, rfl⟩ := List.append_of_mem hmem
          have hlater : later.Perm ((tag, w) :: (first ++ last)) := by
            refine List.Perm.cons_inv (hperm.trans ?_)
            exact (List.perm_middle.cons _).trans (.swap ..)
          refine ⟨(), (hall _ hmem).2, ih.mpr ⟨w, first ++ last, hlater, hfound, fun p hp => ?_⟩⟩
          refine hall p ?_
          rw [List.mem_append, List.mem_cons]
          rcases List.mem_append.mp hp with hp | hp
          · exact .inl hp
          · exact .inr (.inr hp)

theorem findTag_perm (hperm : members.Perm members')
    (h : findTag m tag variants none members = .ok variant) :
    findTag m tag variants none members' = .ok variant := by
  obtain ⟨w, rest, hmembers, hfound, hall⟩ := findTag_eq_ok_iff.mp h
  exact findTag_eq_ok_iff.mpr ⟨w, rest, hperm.symm.trans hmembers, hfound, hall⟩

/-- A member besides the tag has to be taken in, and does nothing else. -/
theorem findTag_insert_iff {key : String} (hkey : key ≠ tag) {v : Json} {found : Option Variant} :
    findTag m tag variants found (before ++ (key, v) :: after) = .ok variant ↔
      m.takeIn v = .ok () ∧ findTag m tag variants found (before ++ after) = .ok variant := by
  induction before generalizing found with
  | nil =>
    rw [List.nil_append, List.nil_append, findTag_cons_of_ne hkey]
    refine bind_eq_ok_iff.trans ⟨?_, ?_⟩
    · rintro ⟨_, htake, h⟩
      exact ⟨htake, h⟩
    · rintro ⟨htake, h⟩
      exact ⟨(), htake, h⟩
  | cons p rest ih =>
    obtain ⟨other, u⟩ := p
    rw [List.cons_append, List.cons_append]
    by_cases hother : other = tag
    · cases found with
      | some _ =>
        rw [findTag, findTag, if_pos hother, if_pos hother]
        exact ⟨fun h => absurd h error_ne_ok, fun h => absurd h.2 error_ne_ok⟩
      | none =>
        rw [findTag, findTag, if_pos hother, if_pos hother, bind_eq_ok_iff, bind_eq_ok_iff]
        constructor
        · rintro ⟨x, hx, h⟩
          obtain ⟨htake, h⟩ := ih.mp h
          exact ⟨htake, x, hx, h⟩
        · rintro ⟨htake, x, hx, h⟩
          exact ⟨x, hx, ih.mpr ⟨htake, h⟩⟩
    · rw [findTag_cons_of_ne hother, findTag_cons_of_ne hother, bind_eq_ok_iff, bind_eq_ok_iff]
      constructor
      · rintro ⟨x, hx, h⟩
        obtain ⟨htake, h⟩ := ih.mp h
        exact ⟨htake, x, hx, h⟩
      · rintro ⟨htake, x, hx, h⟩
        exact ⟨x, hx, ih.mpr ⟨htake, h⟩⟩

/-- The tag that is found is the only one, so it is the first one. -/
theorem lookup_of_findTag (h : findTag m tag variants none members = .ok variant) :
    ∃ w, members.lookup tag = some w ∧ readTag m variants w = .ok variant ∧
      ∀ u, (tag, u) ∈ members → u = w := by
  obtain ⟨w, rest, hperm, hfound, hall⟩ := findTag_eq_ok_iff.mp h
  have honly : ∀ u, (tag, u) ∈ members → u = w := by
    intro u hu
    rcases List.mem_cons.mp (hperm.mem_iff.mp hu) with heq | hmem
    · exact congrArg Prod.snd heq
    · exact absurd rfl (hall _ hmem).1
  refine ⟨w, ?_, hfound, honly⟩
  cases hlookup : members.lookup tag with
  | none =>
    have hmem : (tag, w) ∈ members := hperm.mem_iff.mpr (List.mem_cons_self ..)
    exact absurd (beq_self_eq_true tag) (by simpa using List.lookup_eq_none_iff.mp hlookup _ hmem)
  | some u => rw [honly u (mem_of_lookup_eq_some hlookup)]

/-- A tag may not come twice. -/
theorem findTag_ne_ok_of_twice {w : Json} (htwice : tag ∈ (before ++ after).map Prod.fst) :
    findTag m tag variants none (before ++ (tag, w) :: after) ≠ .ok variant := by
  intro h
  obtain ⟨u, rest, hperm, -, hall⟩ := findTag_eq_ok_iff.mp h
  have hcount : ((before ++ (tag, w) :: after).map Prod.fst).count tag =
      (((tag, u) :: rest).map Prod.fst).count tag := (hperm.map _).count_eq tag
  have hnone : (rest.map Prod.fst).count tag = 0 := by
    rw [List.count_eq_zero]
    intro hmem
    obtain ⟨p, hp, hkey⟩ := List.mem_map.mp hmem
    exact (hall p hp).1 hkey
  have hsome := List.count_pos_iff.mpr htwice
  rw [List.map_append, List.count_append] at hsome
  rw [List.map_append, List.map_cons, List.map_cons, List.count_append, List.count_cons_self,
    List.count_cons_self, hnone] at hcount
  omega

end Tag

end Format
end SafetyLint
