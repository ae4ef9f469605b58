import SafetyLint.Ignore.Rules

/-!
# Rules for all repositories

A user may have ignore rules that count in every repository.  Their file is named in one of some
configuration files, or has a usual place.

Of a configuration file only one setting matters, and it is looked for without regard to sections.
The setting starts a line, but blanks around its parts may also be line breaks.
-/

namespace SafetyLint
namespace Ignore

/-- The environment of a run: variables with their values. -/
abbrev Environment := List (String × String)

/-- The directory that a variable names, if it is not empty. -/
def namedDir? (env : Environment) (name : String) : Option String :=
  (env.lookup name).filter fun d => !d.isEmpty

/-- The home directory of the user; one without a home lives at the root. -/
def homeDir (env : Environment) : String := (namedDir? env "HOME").getD "/"

/-- The directory of a user's configuration files. -/
def userConfigDir (env : Environment) : String :=
  (namedDir? env "XDG_CONFIG_HOME").getD (Path.join (homeDir env) ".config")

/-- The configuration file for all users. -/
def systemConfig (env : Environment) : String :=
  (env.lookup "GIT_CONFIG_SYSTEM").getD "/etc/gitconfig"

/-! ## The setting -/

/-- A blank of a configuration file: the space and the control characters from the tab to the
carriage return. -/
def isConfigBlank (c : Char) : Bool := c = ' ' || ('\t' ≤ c && c ≤ '\r')

def skipConfigBlank (cs : List Char) : List Char := cs.dropWhile isConfigBlank

/-- Nothing but blanks follows up to the end of the line. -/
def endsLine (cs : List Char) : Bool :=
  (cs.takeWhile isConfigBlank).contains '\n' || (skipConfigBlank cs).isEmpty

/-- A word that ends its line, perhaps with a quote behind it.  A quote at the end of the word does
not belong to it unless it is the whole word. -/
def lastWord? (cs : List Char) : Option (List Char) :=
  let word := cs.takeWhile fun c => !isConfigBlank c
  let rest := cs.dropWhile fun c => !isConfigBlank c
  if word.isEmpty then none
  else if endsLine rest then
    some (if word.getLast? = some '"' && word.length ≠ 1 then word.dropLast else word)
  else
    match skipConfigBlank rest with
    | '"' :: after => if endsLine after then some word else none
    | _ => none

/-- The value of a setting, which may stand in quotes. -/
def settingValue? (cs : List Char) : Option (List Char) :=
  let cs := skipConfigBlank cs
  match cs with
  | '"' :: rest => lastWord? (skipConfigBlank rest) <|> lastWord? cs
  | _ => lastWord? cs

/-- What follows a key, in whatever case it is written. -/
def behindKey? (key cs : List Char) : Option (List Char) :=
  if (cs.take key.length).map Char.toLower = key then some (cs.drop key.length) else none

/-- The value of the setting that starts here. -/
def setting? (key cs : List Char) : Option (List Char) := do
  let rest ← behindKey? key (skipConfigBlank cs)
  match skipConfigBlank rest with
  | '=' :: value => settingValue? value
  | _ => none

/-- The value of the first setting with this key; `atStart` says that the text starts a line. -/
def findSetting? (key : List Char) (atStart : Bool) : List Char → Option (List Char)
  | [] => none
  | c :: rest =>
    (if atStart then setting? key (c :: rest) else none) <|> findSetting? key (c = '\n') rest

/-! ## The file of rules -/

/-- The path with every tilde replaced by the home directory. -/
def expandHome (env : Environment) (path : List Char) : String :=
  String.ofList (path.flatMap fun c => if c = '~' then (homeDir env).toList else [c])

/-- The file that a configuration file names. -/
def excludesFile? (disk : Disk) (env : Environment) (config : String) : Option String :=
  match disk.readText config with
  | .ok text => (findSetting? "excludesfile".toList true text.toList).map (expandHome env)
  | .error _ => none

/-- The configuration files that may name the file of rules, in the order in which they count. -/
def configFiles (env : Environment) : List String :=
  (env.lookup "GIT_CONFIG_GLOBAL").toList
    ++ [Path.join (homeDir env) ".gitconfig", Path.join (userConfigDir env) "git/config",
      systemConfig env]

/-- The usual place of the file of rules. -/
def usualFile (env : Environment) : String := Path.join (userConfigDir env) "git/ignore"

/-- The file with the rules for all repositories. -/
def globalFile (disk : Disk) (env : Environment) : String :=
  ((configFiles env).findSome? (excludesFile? disk env)).getD (usualFile env)

/-- The rules for all repositories.  They are relative to the current directory. -/
def globalRules (disk : Disk) (env : Environment) : RuleSet :=
  .inDir (Disk.pathOf disk.current) (rulesAt disk (globalFile disk env)).1

end Ignore
end SafetyLint
