import SafetyLint.Config.Lookup
import SafetyLint.Proofs.ParentPaths

/-!
# Which configuration is found

`Probe.Finds` says where the configuration for a target is, case by case and without a search, and
`Probe.lookup` answers accordingly whatever the files are.

A directory is in reach of another one if it is above it and the root of no repository comes before
it (`Probe.Reaches`).  The search along the ancestors stops at the first directory with a
configuration or at the root of a repository, whichever comes first, and the root itself is still
looked at.  So it finds the nearest configuration in reach (`Probe.nearest?_ancestors_eq_some_iff`).
-/

namespace SafetyLint
namespace Config

namespace Probe

variable (p : Probe)

/-! ## What is to be found -/

/-- The configuration of a directory.  The name without a dot goes first. -/
inductive IsConfigOf (dir : String) : String → Prop where
  | plain (h : p.isFile (Path.join dir "powerten.toml") = true) :
    IsConfigOf dir (Path.join dir "powerten.toml")
  | dotted (hplain : p.isFile (Path.join dir "powerten.toml") = false)
    (h : p.isFile (Path.join dir ".powerten.toml") = true) :
    IsConfigOf dir (Path.join dir ".powerten.toml")

/-- The directory `n` steps above a directory has a configuration, and no directory before it is the
root of a repository. -/
structure Reaches (start : String) (n : Nat) (dir : String) : Prop where
  climbs : Path.Climbs start n dir
  config : ∃ found, p.IsConfigOf dir found
  inside : ∀ k < n, ∀ below, Path.Climbs start k below → p.exists? (Path.join below ".git") = false

/-- The directory of a target, as it is written. -/
inductive DirOf (target : String) : String → Prop where
  | dir (h : p.isFile target = false) : DirOf target target
  | parent {dir : String} (h : p.isFile target = true) (hparent : Path.parent? target = some dir) :
    DirOf target dir
  | noParent (h : p.isFile target = true) (hparent : Path.parent? target = none) :
    DirOf target "."

/-- A search starts at the absolute path of a directory, or at the directory as it is written if it
leads nowhere.  The empty path is the current directory. -/
inductive StartsAt (target : String) : String → Prop where
  | canonical {dir start : String} (hdir : p.DirOf target dir)
    (h : p.canonical? (if dir = "" then "." else dir) = some start) : StartsAt target start
  | written {dir : String} (hdir : p.DirOf target dir)
    (h : p.canonical? (if dir = "" then "." else dir) = none) :
    StartsAt target (if dir = "" then "." else dir)

/-- The answers to a lookup. -/
inductive Finds (target : String) :
    Option String → Option String → Except NoConfigIn ConfigSource → Prop where
  /-- What is named explicitly and is no directory is taken as it is. -/
  | file {path : String} {userDir : Option String} (h : p.isDir path = false) :
    Finds target (some path) userDir (.ok (.explicit path))
  | dir {path found : String} {userDir : Option String} (h : p.isDir path = true)
    (hfound : p.IsConfigOf path found) : Finds target (some path) userDir (.ok (.explicit found))
  | noConfig {path : String} {userDir : Option String} (h : p.isDir path = true)
    (hnone : ∀ found, ¬ p.IsConfigOf path found) :
    Finds target (some path) userDir (.error ⟨path⟩)
  /-- The configuration of the nearest directory in reach. -/
  | project {start dir found : String} {n : Nat} {userDir : Option String}
    (hstart : p.StartsAt target start) (hreaches : p.Reaches start n dir)
    (hnearest : ∀ k < n, ∀ below, ¬ p.Reaches start k below) (hfound : p.IsConfigOf dir found) :
    Finds target none userDir (.ok (.project found))
  | user {start dir : String} (hstart : p.StartsAt target start)
    (hnone : ∀ n above, ¬ p.Reaches start n above)
    (h : p.isFile (Path.join dir "config.toml") = true) :
    Finds target none (some dir) (.ok (.user (Path.join dir "config.toml")))
  | defaults {start : String} {userDir : Option String} (hstart : p.StartsAt target start)
    (hnone : ∀ n above, ¬ p.Reaches start n above)
    (h : ∀ dir, userDir = some dir → p.isFile (Path.join dir "config.toml") = false) :
    Finds target none userDir (.ok .defaults)

variable {p}

/-! ## One directory -/

theorem configIn?_eq_some_iff {dir found : String} :
    p.configIn? dir = some found ↔ p.IsConfigOf dir found := by
  have hnames : p.configIn? dir =
    [Path.join dir "powerten.toml", Path.join dir ".powerten.toml"].find? p.isFile := rfl
  rw [hnames, List.find?_cons]
  constructor
  · intro h
    cases hplain : p.isFile (Path.join dir "powerten.toml") with
    | true =>
      rw [hplain] at h
      obtain rfl := Option.some.inj h
      exact .plain hplain
    | false =>
      rw [hplain] at h
      have hdotted := List.find?_some h
      obtain rfl := List.mem_singleton.mp (List.mem_of_find?_eq_some h)
      exact .dotted hplain hdotted
  · intro h
    cases h with
    | plain h => rw [h]
    | dotted hplain h => rw [hplain, List.find?_cons, h]

theorem configIn?_eq_none_iff {dir : String} :
    p.configIn? dir = none ↔ ∀ found, ¬ p.IsConfigOf dir found := by
  rw [Option.eq_none_iff_forall_ne_some]
  exact forall_congr' fun found => not_congr configIn?_eq_some_iff

theorem isRepository_eq (dir : String) :
    p.isRepository dir = p.exists? (Path.join dir ".git") := rfl

/-! ## The search -/

/-- The search goes on from a directory. -/
structure Passes (p : Probe) (dir : String) : Prop where
  noConfig : ∀ found, ¬ p.IsConfigOf dir found
  inside : p.exists? (Path.join dir ".git") = false

theorem nearest?_cons_eq_some_iff {dir found : String} {rest : List String} :
    p.nearest? (dir :: rest) = some found ↔
      p.IsConfigOf dir found ∨ p.Passes dir ∧ p.nearest? rest = some found := by
  rw [nearest?]
  cases hconfig : p.configIn? dir with
  | some other =>
    have hother : p.IsConfigOf dir other := configIn?_eq_some_iff.mp hconfig
    constructor
    · intro h
      obtain rfl : other = found := Option.some.inj h
      exact Or.inl hother
    · rintro (hfound | ⟨hpasses, -⟩)
      · exact hconfig.symm.trans (configIn?_eq_some_iff.mpr hfound)
      · exact absurd hother (hpasses.noConfig other)
  | none =>
    have hnone := configIn?_eq_none_iff.mp hconfig
    rw [isRepository_eq, or_iff_right (hnone found)]
    cases hroot : p.exists? (Path.join dir ".git") with
    | true =>
      refine iff_of_false (by rintro ⟨⟩) ?_
      rintro ⟨hpasses, -⟩
      rw [hpasses.inside] at hroot
      cases hroot
    | false =>
      exact ⟨fun h => ⟨⟨hnone, hroot⟩, h⟩, fun h => h.2⟩

/-- The search along a list of directories finds a configuration in one of them, if it passes those
before it. -/
theorem nearest?_eq_some_iff {dirs : List String} {found : String} :
    p.nearest? dirs = some found ↔ ∃ (n : Nat) (dir : String), dirs[n]? = some dir ∧
      p.IsConfigOf dir found ∧ ∀ k < n, ∀ below, dirs[k]? = some below → p.Passes below := by
  induction dirs with
  | nil =>
    refine iff_of_false (by rintro ⟨⟩) ?_
    rintro ⟨n, dir, hdir, -⟩
    cases hdir
  | cons first rest ih =>
    rw [nearest?_cons_eq_some_iff, ih]
    constructor
    · rintro (hfound | ⟨hpasses, n, dir, hdir, hfound, hbefore⟩)
      · exact ⟨0, first, rfl, hfound, fun k hk => absurd hk k.not_lt_zero⟩
      · refine ⟨n + 1, dir, hdir, hfound, fun k hk below hbelow => ?_⟩
        cases k with
        | zero =>
          obtain rfl : first = below := Option.some.inj hbelow
          exact hpasses
        | succ k => exact hbefore k (Nat.lt_of_succ_lt_succ hk) below hbelow
    · rintro ⟨n, dir, hdir, hfound, hbefore⟩
      cases n with
      | zero =>
        obtain rfl : first = dir := Option.some.inj hdir
        exact Or.inl hfound
      | succ n =>
        have hpasses : p.Passes first := hbefore 0 n.succ_pos first rfl
        exact Or.inr ⟨hpasses, n, dir, hdir, hfound, fun k hk below hbelow =>
          hbefore (k + 1) (Nat.succ_lt_succ hk) below hbelow⟩

/-- The search along the ancestors finds the nearest configuration in reach. -/
theorem nearest?_ancestors_eq_some_iff {start found : String} :
    p.nearest? (Path.ancestors start) = some found ↔ ∃ (n : Nat) (dir : String),
      p.Reaches start n dir ∧ (∀ k < n, ∀ below, ¬ p.Reaches start k below) ∧
        p.IsConfigOf dir found := by
  simp only [nearest?_eq_some_iff, Path.getElem?_ancestors_eq_some_iff]
  constructor
  · rintro ⟨n, dir, hclimbs, hfound, hbefore⟩
    have hreaches : p.Reaches start n dir :=
      ⟨hclimbs, ⟨found, hfound⟩, fun k hk below hbelow => (hbefore k hk below hbelow).inside⟩
    refine ⟨n, dir, hreaches, fun k hk below hbelow => ?_, hfound⟩
    obtain ⟨other, hother⟩ := hbelow.config
    exact (hbefore k hk below hbelow.climbs).noConfig other hother
  · rintro ⟨n, dir, hreaches, hnearest, hfound⟩
    refine ⟨n, dir, hreaches.climbs, hfound, fun k hk below hbelow => ?_⟩
    refine ⟨fun other hother => hnearest k hk below ?_, hreaches.inside k hk below hbelow⟩
    exact ⟨hbelow, ⟨other, hother⟩, fun j hj => hreaches.inside j (hj.trans hk)⟩

theorem nearest?_ancestors_eq_none_iff {start : String} :
    p.nearest? (Path.ancestors start) = none ↔ ∀ n above, ¬ p.Reaches start n above := by
  constructor
  · intro hnone n
    -- the least number of steps to a configuration in reach would be found
    induction n using Nat.strong_induction_on with
    | _ n ih =>
      intro above hreaches
      obtain ⟨found, hfound⟩ := hreaches.config
      have hsome := nearest?_ancestors_eq_some_iff.mpr ⟨n, above, hreaches, ih, hfound⟩
      rw [hnone] at hsome
      cases hsome
  · intro hnone
    cases h : p.nearest? (Path.ancestors start) with
    | none => rfl
    | some found =>
      obtain ⟨n, dir, hreaches, -⟩ := nearest?_ancestors_eq_some_iff.mp h
      exact absurd hreaches (hnone n dir)

/-! ## Where the search starts -/

theorem dirOf_iff {target dir : String} :
    p.DirOf target dir ↔ (if p.isFile target then Path.parentOrHere target else target) = dir := by
  constructor
  · intro h
    cases h with
    | dir h => rw [if_neg (Bool.eq_false_iff.mp h)]
    | parent h hparent => rw [if_pos h, Path.parentOrHere, hparent, Option.getD_some]
    | noParent h hparent => rw [if_pos h, Path.parentOrHere, hparent, Option.getD_none]
  · rintro rfl
    cases h : p.isFile target with
    | false => exact .dir h
    | true =>
      rw [if_pos rfl, Path.parentOrHere]
      cases hparent : Path.parent? target with
      | some dir => exact .parent h hparent
      | none => exact .noParent h hparent

theorem searchStart_eq {target dir : String} (h : p.DirOf target dir) :
    p.searchStart target =
      (p.canonical? (if dir = "" then "." else dir)).getD (if dir = "" then "." else dir) := by
  rw [searchStart, dirOf_iff.mp h]
  simp only [String.isEmpty_iff]

theorem startsAt_searchStart (p : Probe) (target : String) :
    p.StartsAt target (p.searchStart target) := by
  obtain ⟨dir, hdir⟩ : ∃ dir, p.DirOf target dir := ⟨_, dirOf_iff.mpr rfl⟩
  rw [searchStart_eq hdir]
  cases h : p.canonical? (if dir = "" then "." else dir) with
  | some start => exact .canonical hdir h
  | none => exact .written hdir h

/-- A search starts in one place. -/
theorem StartsAt.eq_searchStart {target start : String} (h : p.StartsAt target start) :
    start = p.searchStart target := by
  cases h with
  | canonical hdir h => rw [searchStart_eq hdir, h, Option.getD_some]
  | written hdir h => rw [searchStart_eq hdir, h, Option.getD_none]

/-! ## The lookup -/

theorem userConfig?_some (dir : String) :
    p.userConfig? (some dir) = if p.isFile (Path.join dir "config.toml") = true then
      some (Path.join dir "config.toml") else none := rfl

/-- Whatever the answer is, it is the one that is described. -/
theorem finds_lookup (p : Probe) (target : String) (explicit userDir : Option String) :
    p.Finds target explicit userDir (p.lookup target explicit userDir) := by
  cases explicit with
  | some path =>
    rw [lookup]
    cases hdir : p.isDir path with
    | false => exact .file hdir
    | true =>
      cases hconfig : p.configIn? path with
      | some found => exact .dir hdir (configIn?_eq_some_iff.mp hconfig)
      | none => exact .noConfig hdir (configIn?_eq_none_iff.mp hconfig)
  | none =>
    have hstart := p.startsAt_searchStart target
    rw [lookup]
    cases hnearest : p.nearest? (Path.ancestors (p.searchStart target)) with
    | some found =>
      obtain ⟨n, dir, hreaches, hbefore, hfound⟩ := nearest?_ancestors_eq_some_iff.mp hnearest
      exact .project hstart hreaches hbefore hfound
    | none =>
      have hnone := nearest?_ancestors_eq_none_iff.mp hnearest
      cases userDir with
      | none => exact .defaults hstart hnone (by rintro dir ⟨⟩)
      | some dir =>
        rw [userConfig?_some]
        cases hfile : p.isFile (Path.join dir "config.toml") with
        | true => exact .user hstart hnone hfile
        | false =>
          refine .defaults hstart hnone ?_
          rintro other ⟨⟩
          exact hfile

theorem Finds.lookup_eq {target : String} {explicit userDir : Option String}
    {answer : Except NoConfigIn ConfigSource} (h : p.Finds target explicit userDir answer) :
    p.lookup target explicit userDir = answer := by
  cases h with
  | file h => rw [lookup, if_neg (Bool.eq_false_iff.mp h)]
  | dir h hfound => rw [lookup, if_pos h, configIn?_eq_some_iff.mpr hfound]
  | noConfig h hnone => rw [lookup, if_pos h, configIn?_eq_none_iff.mpr hnone]
  | project hstart hreaches hnearest hfound =>
    obtain rfl := hstart.eq_searchStart
    rw [lookup, nearest?_ancestors_eq_some_iff.mpr ⟨_, _, hreaches, hnearest, hfound⟩]
  | user hstart hnone h =>
    obtain rfl := hstart.eq_searchStart
    rw [lookup, nearest?_ancestors_eq_none_iff.mpr hnone, userConfig?_some, if_pos h]
  | defaults hstart hnone h =>
    obtain rfl := hstart.eq_searchStart
    rw [lookup, nearest?_ancestors_eq_none_iff.mpr hnone]
    cases userDir with
    | none => rfl
    | some dir => rw [userConfig?_some, if_neg (Bool.eq_false_iff.mp (h dir rfl))]

/-- Nothing above the root of a repository is in reach. -/
theorem Reaches.le_of_root {start dir root : String} {n m : Nat} (h : p.Reaches start n dir)
    (hclimbs : Path.Climbs start m root) (hroot : p.exists? (Path.join root ".git") = true) :
    n ≤ m := by
  by_contra hbeyond
  have hinside := h.inside m (Nat.lt_of_not_le hbeyond) root hclimbs
  rw [hinside] at hroot
  cases hroot

/-- The lookup of a configuration gives the one answer that is right for the files there are.

* An explicit file is taken as it is, and an explicit directory has to have a configuration.
  Otherwise the nearest directory in reach decides, then the directory of the user, and in the end
  there are the defaults.
* The configuration of a project is not above the root of a repository that the search starts in.
* The directories above another one are found at every number of steps up to the number of its
  components, without the root, and have its components without as many at the end. -/
theorem lookup_eq_iff_finds (p : Probe) (target : String) (explicit userDir : Option String) :
    (∀ answer, p.lookup target explicit userDir = answer ↔
      p.Finds target explicit userDir answer) ∧
    (∀ found start root m, p.lookup target explicit userDir = .ok (.project found) →
      p.StartsAt target start → Path.Climbs start m root →
      p.exists? (Path.join root ".git") = true →
        ∃ n ≤ m, ∃ dir, Path.Climbs start n dir ∧ p.IsConfigOf dir found) ∧
    ∀ start n,
      ((∃ dir, Path.Climbs start n dir) ↔
        n ≤ ((Path.components start).filter (· ≠ .root)).length) ∧
      ∀ dir, Path.Climbs start n dir → Path.components dir = (Path.components start).rdrop n := by
  have hfinds := p.finds_lookup target explicit userDir
  refine ⟨fun answer => ?_, ?_, fun start n => ⟨Path.exists_climbs_iff, ?_⟩⟩
  · constructor
    · rintro rfl
      exact hfinds
    · intro h
      exact h.lookup_eq
  · intro found start root m hlookup hstart hclimbs hroot
    rw [hlookup] at hfinds
    cases hfinds with
    | project hstart' hreaches hnearest hfound =>
      obtain rfl := hstart'.eq_searchStart.trans hstart.eq_searchStart.symm
      exact ⟨_, hreaches.le_of_root hclimbs hroot, _, hreaches.climbs, hfound⟩
  · intro dir hclimbs
    exact hclimbs.components_eq

/-- The configuration above the root of the repository is out of reach. -/
example : ({ isFile := (· = "/work/powerten.toml")
             isDir := fun _ => true
             exists? := (· = "/work/project/.git")
             canonical? := some } : Probe).lookup "/work/project/dumps" none none =
    .ok .defaults := by
  decide

end Probe
end Config
end SafetyLint
