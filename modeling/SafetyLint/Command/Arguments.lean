import SafetyLint.Text.Blank

/-!
# Command lines

A command line is a command with its options; two options may also stand before the command.  A
level of the grammar is a list of options, and one scan reads the arguments of any level.
-/

namespace SafetyLint
namespace Command

/-! ## Commands -/

/-- How findings are printed. -/
inductive OutputFormat where
  | text
  | json
  | compact
  | pretty
  deriving DecidableEq, Repr, Inhabited

namespace OutputFormat

def word : OutputFormat → String
  | text => "text"
  | json => "json"
  | compact => "compact"
  | pretty => "pretty"

def all : List OutputFormat := [text, json, compact, pretty]

def ofWord? (s : String) : Option OutputFormat := all.find? fun f => f.word == s

end OutputFormat

/-- The options of a check. -/
structure CheckOptions where
  /-- A directory or a dump. -/
  path : String
  format : OutputFormat
  /-- Rules to run, by id or name, with commas between them. -/
  rules : Option String
  /-- Patterns of dumps to skip. -/
  exclude : List String
  deriving DecidableEq, Repr

/-- What to do. -/
inductive Action where
  | check (options : CheckOptions)
  | listRules
  | init (force : Bool)
  deriving DecidableEq, Repr

/-- A command line. -/
structure Invocation where
  verbose : Bool
  /-- A configuration that is named explicitly. -/
  config : Option String
  action : Action
  deriving DecidableEq, Repr

/-- A command line that names no action. -/
inductive Stop where
  | rejected
  | help
  | version
  deriving DecidableEq, Repr

/-! ## The grammar -/

/-- What an option takes. -/
inductive Takes where
  | nothing
  | text
  /-- A text that is not empty. -/
  | path
  | format
  /-- Nothing, and all else is left aside. -/
  | stop (s : Stop)
  deriving DecidableEq

/-- An option by its names. -/
structure OptionSpec where
  long : String
  short : Option Char
  takes : Takes
  repeatable : Bool

namespace OptionSpec

def verbose : OptionSpec := ⟨"verbose", some 'v', .nothing, false⟩
def config : OptionSpec := ⟨"config", some 'c', .path, false⟩
def help : OptionSpec := ⟨"help", some 'h', .stop .help, false⟩
def version : OptionSpec := ⟨"version", some 'V', .stop .version, false⟩
def format : OptionSpec := ⟨"format", some 'f', .format, false⟩
def rules : OptionSpec := ⟨"rules", none, .text, false⟩
def exclude : OptionSpec := ⟨"exclude", some 'e', .text, true⟩
def force : OptionSpec := ⟨"force", none, .nothing, false⟩

end OptionSpec

/-- The arguments of one level. -/
structure Grammar where
  options : List OptionSpec
  /-- The name under which an argument without a dash is kept, if there may be one. -/
  positional : Option String
  /-- An argument without a dash is a command. -/
  hasCommands : Bool

/-- The options that may stand before the command. -/
def outerGrammar : Grammar where
  options := [.verbose, .config, .help, .version]
  positional := none
  hasCommands := true

/-- The options behind a command. -/
def grammar? : String → Option Grammar
  | "check" =>
    some {
      options := [.verbose, .config, .help, .format, .rules, .exclude]
      positional := some "path"
      hasCommands := false }
  | "list-rules" =>
    some { options := [.verbose, .config, .help], positional := none, hasCommands := false }
  | "init" =>
    some { options := [.verbose, .config, .help, .force], positional := none, hasCommands := false }
  | _ => none

/-! ## Scanning -/

/-- Options with their values, in order. -/
abbrev Settled := List (String × String)

/-- The value may be given to an option of this kind. -/
def Takes.accepts : Takes → String → Bool
  | nothing, _ => true
  | text, _ => true
  | path, s => !s.isEmpty
  | format, s => (OutputFormat.ofWord? s).isSome
  | stop _, _ => true

/-- Keeps the value of an option, once unless it may be repeated. -/
def settle (o : OptionSpec) (value : String) (found : Settled) : Except Stop Settled :=
  if !o.takes.accepts value || (!o.repeatable && (found.lookup o.long).isSome) then .error .rejected
  else .ok (found ++ [(o.long, value)])

/-- The argument looks like an option, so that it is no value. -/
def isDashed (arg : String) : Bool := arg.toList.head? = some '-' && arg.length ≠ 1

/-- What is known in the middle of a scan: options that are settled, and one that awaits its
value. -/
structure Progress where
  found : Settled
  awaiting : Option OptionSpec

/-- A long option from behind its dashes. -/
def longOption (g : Grammar) (body : List Char) (found : Settled) : Except Stop Progress :=
  let name := String.ofList (body.takeWhile (· ≠ '='))
  let value := (body.dropWhile (· ≠ '=')).tail
  let attached := body.contains '='
  match g.options.find? fun o => o.long == name with
  | none => .error .rejected
  | some o =>
    match o.takes with
    | .stop s => .error (if attached then .rejected else s)
    | .nothing =>
      if attached then .error .rejected else (settle o "" found).map fun f => ⟨f, none⟩
    | _ =>
      if attached then (settle o (String.ofList value) found).map fun f => ⟨f, none⟩
      else .ok ⟨found, some o⟩

/-- A cluster of short options from behind its dash. -/
def shortOptions (g : Grammar) : List Char → Settled → Except Stop Progress
  | [], found => .ok ⟨found, none⟩
  | c :: rest, found =>
    match g.options.find? fun o => o.short == some c with
    | none => .error .rejected
    | some o =>
      match o.takes with
      | .stop s => .error s
      | .nothing => do shortOptions g rest (← settle o "" found)
      | _ =>
        if rest.isEmpty then .ok ⟨found, some o⟩
        else
          let value := if rest.head? = some '=' then rest.tail else rest
          (settle o (String.ofList value) found).map fun f => ⟨f, none⟩

/-- An argument without a dash, on a level without commands. -/
def positional (g : Grammar) (arg : String) (found : Settled) : Except Stop Settled :=
  match g.positional with
  | none => .error .rejected
  | some name => settle ⟨name, none, .path, false⟩ arg found

/-- Scans the arguments of a level, up to a command if the level has commands.  Behind two dashes
nothing is an option. -/
def scan (g : Grammar) (onlyPlain : Bool) (p : Progress) :
    List String → Except Stop (Settled × Option (String × List String))
  | [] => if p.awaiting.isSome then .error .rejected else .ok (p.found, none)
  | arg :: rest =>
    match p.awaiting with
    | some o =>
      if isDashed arg then .error .rejected
      else do scan g onlyPlain ⟨← settle o arg p.found, none⟩ rest
    | none =>
      if onlyPlain || !isDashed arg then
        if g.hasCommands then
          if onlyPlain then .error .rejected else .ok (p.found, some (arg, rest))
        else do scan g onlyPlain ⟨← positional g arg p.found, none⟩ rest
      else if arg = "--" then scan g true p rest
      else
        match arg.toList.drop 1 with
        | '-' :: body => do scan g onlyPlain (← longOption g body p.found) rest
        | body => do scan g onlyPlain (← shortOptions g body p.found) rest

/-! ## Invocations -/

/-- The action that a command and its options name. -/
def actionOf (command : String) (found : Settled) : Action :=
  match command with
  | "check" =>
    .check {
      path := (found.lookup "path").getD "."
      format := ((found.lookup "format").bind OutputFormat.ofWord?).getD .text
      rules := found.lookup "rules"
      exclude := (found.filter fun f => f.1 == "exclude").map Prod.snd }
  | "init" => .init (found.lookup "force").isSome
  | _ => .listRules

/-- The environment variable that names a configuration. -/
def configVariable : String := "POWERTEN_CONFIG"

/-- Reads a command line.  A configuration named behind the command goes before one named in front
of it, and both before the one of the environment.  That one may not be empty, unless a
configuration is named in both places. -/
def Invocation.parse (env : List (String × String)) (args : List String) :
    Except Stop Invocation := do
  let (outer, command) ← scan outerGrammar false ⟨[], none⟩ args
  match command with
  | none => .error .rejected
  | some (name, rest) =>
    match grammar? name with
    | none =>
      -- The help command may name one command.
      let known := rest.all fun c => (grammar? c).isSome || c = "help"
      if name = "help" && known && rest.length ≤ 1 then .error .help else .error .rejected
    | some g =>
      let (inner, _) ← scan g false ⟨[], none⟩ rest
      let namesBoth := (outer.lookup "config").isSome && (inner.lookup "config").isSome
      if env.lookup configVariable = some "" && !namesBoth then .error .rejected
      else
        return {
          verbose := (outer.lookup "verbose").isSome || (inner.lookup "verbose").isSome
          config := inner.lookup "config" <|> outer.lookup "config" <|> env.lookup configVariable
          action := actionOf name inner }

end Command
end SafetyLint
