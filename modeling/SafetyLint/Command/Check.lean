import SafetyLint.Command.Arguments
import SafetyLint.Config.Lookup
import SafetyLint.Config.OfToml
import SafetyLint.Engine.Analyzer
import SafetyLint.Format.Load
import SafetyLint.Ignore.Discovery
import SafetyLint.Ignore.Global
import SafetyLint.Rules.All

/-!
# Checking dumps

A check finds its configuration, narrows it to the rules that were asked for, finds the dumps, loads
them and analyzes the files in them.  Each step can fail, and the first failure ends the check.
-/

namespace SafetyLint
namespace Command

open Config Ignore SafetyLint.Tree

/-- The ending of the names of dumps. -/
def dumpEnding : String := ".ast.json"

/-- Why a check gives no report. -/
inductive CheckError where
  | noConfig (e : NoConfigIn)
  | unreadableConfig (path : String)
  | invalidConfig (e : InvalidField)
  | unknownRule (word : String)
  | noRules
  | missingTarget (path : String)
  | badExclude (fault : ExcludeFault)
  | badIgnoreFile (fault : FileFault)
  | unreadableDump (path : String)

def CheckError.message : CheckError → String
  | noConfig e => e.message
  | unreadableConfig path => "Failed to load config: " ++ path
  | invalidConfig _ => "Invalid configuration"
  | unknownRule word => "Unknown rule: " ++ word
  | noRules => "--rules must name at least one rule"
  | missingTarget path => "No such file or directory: " ++ path
  | badExclude fault => fault.message
  | badIgnoreFile fault => fault.message
  | unreadableDump path => "Failed to load " ++ path

/-! ## Configuration -/

/-- The directory of a user's configuration. -/
def userDir (env : Environment) : String :=
  (env.lookup "POWERTEN_CONFIG_DIR").getD (Path.join (homeDir env) ".powerten")

/-- Reads the configuration that was found. -/
def loadConfig (disk : Disk) (source : ConfigSource) : Except CheckError Configuration :=
  match source.path? with
  | none => .ok .default
  | some path =>
    match (disk.readText path).toOption.bind Configuration.parse? with
    | some c => .ok c
    | none => .error (.unreadableConfig path)

/-! ## Rules by name -/

/-- The parts of a text between its commas. -/
def splitCommas (cs : List Char) : List (List Char) :=
  cs.foldr
    (fun c parts =>
      if c = ',' then [] :: parts
      else
        match parts with
        | [] => [[c]]
        | p :: rest => (c :: p) :: rest)
    [[]]

/-- The words of a list with commas. -/
def listedWords (list : String) : List String :=
  ((splitCommas list.toList).map Text.trim).filter (fun w => !w.isEmpty) |>.map String.ofList

/-- The rule that a word means, by id or by name. -/
def ruleOfWord (word : String) : Except CheckError RuleId :=
  match RuleId.ofWord? word with
  | some id => .ok id
  | none =>
    match Rules.ofName? word with
    | some r => .ok r.id
    | none => .error (.unknownRule word)

/-- The rules of a list with commas; there has to be one. -/
def listedRules (list : String) : Except CheckError (List RuleId) := do
  let ids ← (listedWords list).mapM ruleOfWord
  if ids.isEmpty then .error .noRules else .ok ids

/-- The settings with only the listed rules, if there is a list. -/
def narrow (settings : Settings) : Option String → Except CheckError Settings
  | none => .ok settings
  | some list => (listedRules list).map settings.only

/-! ## Dumps -/

/-- The dumps at a path: the path itself if it is a file, else those below it. -/
def findDumps (disk : Disk) (env : Environment) (analyzer : AnalyzerSection)
    (options : CheckOptions) : Except CheckError (List String) :=
  if disk.isFile options.path then .ok [options.path]
  else if !disk.isDir options.path then .error (.missingTarget options.path)
  else do
    let excluded ← (excludeRules (analyzer.exclude ++ options.exclude)).mapError
      CheckError.badExclude
    let search : Search := {
      disk
      start := options.path
      ending := dumpEnding
      excluded := .inDir options.path excluded
      gitignore := analyzer.respectGitignore
      global := globalRules disk env }
    search.find.mapError .badIgnoreFile

/-- Loads dumps. -/
def loadDumps (disk : Disk) (dumps : List String) : Except CheckError (List SourceFile) :=
  dumps.mapM fun dump => (Format.loadDump disk dump).mapError fun _ => .unreadableDump dump

/-- The directory from which paths are reported. -/
def reportRoot (disk : Disk) (path : String) : String :=
  if disk.isFile path then Path.parentOrHere path else path

/-! ## The check -/

/-- Checks the dumps at a path. -/
def check (disk : Disk) (env : Environment) (config : Option String) (options : CheckOptions) :
    Except CheckError Report := do
  let found := (Probe.ofDisk disk).lookup options.path config (some (userDir env))
  let source ← found.mapError .noConfig
  let configuration ← loadConfig disk source
  let settings ← configuration.validate.mapError .invalidConfig
  let settings ← narrow settings options.rules
  let dumps ← findDumps disk env configuration.analyzer options
  let files ← loadDumps disk dumps
  let analyzer : Analyzer :=
    ⟨Dispatcher.build Rules.all settings, some (reportRoot disk options.path)⟩
  return analyzer.analyze files

end Command
end SafetyLint
