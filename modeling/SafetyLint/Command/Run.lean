import SafetyLint.Command.Check
import SafetyLint.Command.Output
import SafetyLint.Command.Template

/-!
# Running a command line

What a run does is a value: the number it ends with, what it prints, why it failed and which files
it writes.  Whoever runs it only carries that out.
-/

namespace SafetyLint
namespace Command

open Config Ignore

/-- What a run does. -/
structure Outcome where
  exit : Nat
  output : String
  /-- Why the run failed. -/
  failure : Option String
  /-- Paths with the texts that are written there. -/
  writes : List (String × String)
  deriving DecidableEq, Repr

namespace Outcome

/-- Nothing but output. -/
def printing (output : String) : Outcome := ⟨0, output, none, []⟩

/-- A failed run. -/
def failing (message : String) : Outcome := ⟨1, "", some message, []⟩

/-- A command line that was not understood. -/
def rejected : Outcome := ⟨2, "", none, []⟩

end Outcome

/-- The version of the program. -/
def versionText : String := "powerten 0.3.0\n"

/-- How to use the program. -/
def helpText : String :=
  "Power-of-ten safety linter\n\nUsage: powerten [OPTIONS] <COMMAND>\n\nCommands:\n"
    ++ "  check       Run the safety rules over AST dumps\n"
    ++ "  list-rules  List available rules\n"
    ++ "  init        Initialize configuration file\n"

/-- A configuration to start from is written to the current directory, unless there is one and
`force` is not given. -/
def startConfig (disk : Disk) (force : Bool) : Outcome :=
  let name := projectNames.headD ""
  let path := Path.join "." name
  if disk.exists? path && !force then
    .failing ("Configuration file already exists at " ++ path ++ ". Use --force to overwrite.")
  else if disk.isDir path then .failing ("Failed to write " ++ path)
  else {
    exit := 0
    output := "Created " ++ name ++ "\n\nNext steps:\n  1. Edit " ++ name
      ++ " to tune the rules\n  2. Dump your sources to *.ast.json and run: powerten check\n"
    failure := none
    writes := [(path, template)] }

/-- A report is printed, and the run fails if there are errors in it. -/
def reporting (format : OutputFormat) (r : Report) : Outcome :=
  ⟨if r.hasErrors then 1 else 0, printed r format, none, []⟩

/-- What an invocation does. -/
def Invocation.outcome (i : Invocation) (disk : Disk) (env : Environment) : Outcome :=
  match i.action with
  | .check options =>
    match check disk env i.config options with
    | .ok r => reporting options.format r
    | .error e => .failing e.message
  | .listRules => .printing ruleList
  | .init force => startConfig disk force

/-- What a command line does. -/
def run (disk : Disk) (env : Environment) (args : List String) : Outcome :=
  match Invocation.parse env args with
  | .ok i => i.outcome disk env
  | .error .version => .printing versionText
  | .error .help => .printing helpText
  | .error .rejected => .rejected

end Command
end SafetyLint
