/-!
# TOML values and tables

A TOML text is a sequence of statements: `key = value`, and headers that say into which table the
following keys go.  The statements are put into a tree one by one, and the tree remembers how each
table came about, because that decides what may still be added to it:

* a table with a header of its own is explicit and gets no second header;
* a table that only occurs on the way to another header is implicit, and a header may still come;
* a table made by a dotted key is open to dotted keys only;
* an array of tables grows by one table for each of its headers;
* a value, an inline table included, is final.
-/

namespace SafetyLint

/-- A TOML value. -/
inductive Toml where
  | str (s : String)
  | int (i : Int)
  | float (x : Float)
  | bool (b : Bool)
  /-- A date, a time or both, in its usual text. -/
  | moment (text : String)
  | arr (items : List Toml)
  | table (members : List (String × Toml))
  deriving Inhabited

namespace Toml

/-- How a table came about. -/
inductive Origin where
  | explicit
  | implicit
  | dotted
  deriving DecidableEq

/-- An entry of a table that is still being filled. -/
inductive Entry where
  | value (v : Toml)
  | table (origin : Origin) (members : List (String × Entry))
  | tables (done : List Toml) (last : List (String × Entry))

/-- The entries of a table that is still being filled. -/
abbrev Entries := List (String × Entry)

mutual

/-- The finished value of an entry. -/
def Entry.finish : Entry → Toml
  | .value v => v
  | .table _ members => .table (finishAll members)
  | .tables done last => .arr (done ++ [.table (finishAll last)])

/-- The finished members of a table. -/
def finishAll : List (String × Entry) → List (String × Toml)
  | [] => []
  | (key, entry) :: rest => (key, entry.finish) :: finishAll rest

end

/-- Changes the entry of a key, or makes one. -/
def alter (key : String) (f : Option Entry → Option Entry) : Entries → Option Entries
  | [] => (f none).map fun e => [(key, e)]
  | (k, e) :: rest =>
    if k = key then (f (some e)).map fun e => (k, e) :: rest
    else (alter key f rest).map fun rest => (k, e) :: rest

/-- Goes down a path of tables, makes those that are missing, and changes the entries found at the
end. -/
def descend (f : Entries → Option Entries) : List String → Entries → Option Entries
  | [], entries => f entries
  | key :: rest, entries =>
    alter key (fun
      | none => (descend f rest []).map (.table .implicit)
      | some (.value _) => none
      | some (.table origin members) => (descend f rest members).map (.table origin)
      | some (.tables done last) => (descend f rest last).map (.tables done)) entries

/-- A table header. -/
def openTable (path : List String) (entries : Entries) : Option Entries :=
  match path.getLast? with
  | none => none
  | some key =>
    descend (alter key fun
      | none => some (.table .explicit [])
      | some (.table .implicit members) => some (.table .explicit members)
      | some _ => none) path.dropLast entries

/-- A header of an array of tables. -/
def openElement (path : List String) (entries : Entries) : Option Entries :=
  match path.getLast? with
  | none => none
  | some key =>
    descend (alter key fun
      | none => some (.tables [] [])
      | some (.tables done last) => some (.tables (done ++ [.table (finishAll last)]) [])
      | some _ => none) path.dropLast entries

/-- Puts a value behind the rest of a dotted key into a table; `inDotted` says that the table was
made by dotted keys, which has to be so behind a dot and only there. -/
def insertDotted (key : String) (v : Toml) : (path : List String) → (behindDot inDotted : Bool) →
    Entries → Option Entries
  | [], behindDot, inDotted, entries =>
    if behindDot = inDotted then
      alter key (fun
        | none => some (.value v)
        | some _ => none) entries
    else none
  | k :: rest, _, _, entries =>
    alter k (fun
      | none => (insertDotted key v rest true true []).map (.table .dotted)
      | some (.value _) => none
      | some (.table .explicit _) => none
      | some (.table origin members) =>
        (insertDotted key v rest true (origin = .dotted) members).map (.table origin)
      | some (.tables done last) =>
        (insertDotted key v rest true false last).map (.tables done)) entries

/-- Puts a value under a dotted key. -/
def insert (path : List String) (v : Toml) (entries : Entries) : Option Entries :=
  match path.getLast? with
  | none => none
  | some key => insertDotted key v path.dropLast false false entries

end Toml

end SafetyLint
