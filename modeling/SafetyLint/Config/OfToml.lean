import SafetyLint.Config.Basic
import SafetyLint.Toml.Reader

/-!
# Configurations in TOML

Each section of a configuration is a table.  Fields that are absent have their default, fields that
nobody knows are passed over, and a section that nobody knows makes the text no configuration.  A
section may also be written as an array of its fields in their order.  Where a table is expected, a
date or time passes for one with a single member, which holds its text.
-/

namespace SafetyLint

namespace Toml

/-- The whole number that a value is. -/
def asInt? : Toml → Option Int
  | int i => some i
  | _ => none

/-- The truth value that a value is. -/
def asBool? : Toml → Option Bool
  | bool b => some b
  | _ => none

/-- The text that a value is. -/
def asStr? : Toml → Option String
  | str s => some s
  | _ => none

/-- The texts that an array holds. -/
def asStrs? : Toml → Option (List String)
  | arr items => items.mapM asStr?
  | _ => none

/-- The scalar that a value is. -/
def asScalar? : Toml → Option Tree.Scalar
  | str s => some (.text s)
  | int i => some (.int i)
  | float x => some (.float x)
  | bool b => some (.bool b)
  | _ => none

/-- A value without members. -/
def isHollow : Toml → Bool
  | arr items => items.isEmpty
  | table members => members.isEmpty
  | _ => false

/-- The severity that a value names: its word, or a table with the word as its only key and nothing
behind it. -/
def asSeverity? : Toml → Option Severity
  | str s => Severity.ofWord? s
  | table [(key, v)] => if isHollow v then Severity.ofWord? key else none
  | _ => none

/-- The key under which a date or time holds its text. -/
def momentKey : String := "$__toml_private_datetime"

/-- The members of a value that passes for a table. -/
def members? : Toml → Option (List (String × Toml))
  | table members => some members
  | moment text => some [(momentKey, .str text)]
  | _ => none

/-- The values of a table, each read in the same way. -/
def asMap? {α : Type} (read? : Toml → Option α) (t : Toml) : Option (List (String × α)) :=
  t.members?.bind fun members => members.mapM fun m => (read? m.2).map fun a => (m.1, a)

/-- The fields of a section: by name, or by position. -/
def asSection? (names : List String) : Toml → Option (List (String × Toml))
  | arr items => some (names.zip items)
  | t => t.members?

/-- The value of a field, or its default if it is absent. -/
def field {α : Type} (members : List (String × Toml)) (name : String) (read? : Toml → Option α)
    (default : α) : Option α :=
  match members.lookup name with
  | none => some default
  | some v => read? v

end Toml

namespace Config

open Toml (field asInt? asBool? asStrs? asScalar? asSeverity? asMap? asSection?)

/-- A section without `exclude` excludes nothing: the default is for those who have no section. -/
def AnalyzerSection.ofToml? (t : Toml) : Option AnalyzerSection := do
  let d := Configuration.default.analyzer
  let ms ← asSection? ["exclude", "respect_gitignore"] t
  return {
    exclude := ← field ms "exclude" asStrs? []
    respectGitignore := ← field ms "respect_gitignore" asBool? d.respectGitignore }

def RulesSection.ofToml? (t : Toml) : Option RulesSection := do
  let d := Configuration.default.rules
  let ms ← asSection? ["enabled", "except"] t
  return {
    enabled := ← field ms "enabled" asStrs? d.enabled
    except := ← field ms "except" asStrs? d.except }

def LoopsSection.ofToml? (t : Toml) : Option LoopsSection := do
  let d := Configuration.default.loops
  let ms ← asSection? ["max_iterations"] t
  return { maxIterations := ← field ms "max_iterations" asInt? d.maxIterations }

def AllocationSection.ofToml? (t : Toml) : Option AllocationSection := do
  let d := Configuration.default.allocation
  let ms ← asSection?
    ["init_methods", "resource_functions", "container_methods", "container_types"] t
  return {
    initMethods := ← field ms "init_methods" asStrs? d.initMethods
    resourceFunctions := ← field ms "resource_functions" asStrs? d.resourceFunctions
    containerMethods := ← field ms "container_methods" asStrs? d.containerMethods
    containerTypes := ← field ms "container_types" asStrs? d.containerTypes }

def FunctionLengthSection.ofToml? (t : Toml) : Option FunctionLengthSection := do
  let d := Configuration.default.functionLength
  let ms ← asSection? ["max_lines", "include_comments", "include_blank_lines"] t
  return {
    maxLines := ← field ms "max_lines" asInt? d.maxLines
    includeComments := ← field ms "include_comments" asBool? d.includeComments
    includeBlankLines := ← field ms "include_blank_lines" asBool? d.includeBlankLines }

def AssertionsSection.ofToml? (t : Toml) : Option AssertionsSection := do
  let d := Configuration.default.assertions
  let ms ← asSection? ["functions", "methods", "exception_functions", "minimum"] t
  return {
    functions := ← field ms "functions" asStrs? d.functions
    methods := ← field ms "methods" asStrs? d.methods
    exceptionFunctions := ← field ms "exception_functions" asStrs? d.exceptionFunctions
    minimum := ← field ms "minimum" asInt? d.minimum }

def DataScopeSection.ofToml? (t : Toml) : Option DataScopeSection := do
  let d := Configuration.default.dataScope
  let ms ← asSection? ["max_class_properties", "allowed_public_properties", "allowed_globals",
    "max_lines_to_first_use"] t
  return {
    maxClassProperties := ← field ms "max_class_properties" asInt? d.maxClassProperties
    allowedPublicProperties :=
      ← field ms "allowed_public_properties" asStrs? d.allowedPublicProperties
    allowedGlobals := ← field ms "allowed_globals" asStrs? d.allowedGlobals
    maxLinesToFirstUse := ← field ms "max_lines_to_first_use" asInt? d.maxLinesToFirstUse }

def ReturnValuesSection.ofToml? (t : Toml) : Option ReturnValuesSection := do
  let d := Configuration.default.returnValues
  let ms ← asSection? ["ignored_functions", "allow_fluent_chains"] t
  return {
    ignoredFunctions := ← field ms "ignored_functions" asStrs? d.ignoredFunctions
    allowFluentChains := ← field ms "allow_fluent_chains" asBool? d.allowFluentChains }

def DereferencesSection.ofToml? (t : Toml) : Option DereferencesSection := do
  let d := Configuration.default.dereferences
  let ms ← asSection? ["max"] t
  return { max := ← field ms "max" asInt? d.max }

def DiagnosticsSection.ofToml? (t : Toml) : Option DiagnosticsSection := do
  let d := Configuration.default.diagnostics
  let ms ← asSection?
    ["suppression_functions", "required_directives", "required_directives_any"] t
  return {
    suppressionFunctions := ← field ms "suppression_functions" asStrs? d.suppressionFunctions
    requiredDirectives :=
      ← field ms "required_directives" (asMap? asScalar?) d.requiredDirectives
    requiredDirectivesAny := ← field ms "required_directives_any" asStrs? d.requiredDirectivesAny }

namespace Configuration

/-- The names of the sections. -/
def sectionNames : List String :=
  ["analyzer", "rules", "severity", "loops", "allocation", "function_length", "assertions",
    "data_scope", "return_values", "dereferences", "diagnostics"]

/-- The configuration that a table holds. -/
def ofToml? (ms : List (String × Toml)) : Option Configuration := do
  let d := Configuration.default
  if ms.all fun m => sectionNames.contains m.1 then
    return {
      analyzer := ← field ms "analyzer" AnalyzerSection.ofToml? d.analyzer
      rules := ← field ms "rules" RulesSection.ofToml? d.rules
      severity := ← field ms "severity" (asMap? asSeverity?) d.severity
      loops := ← field ms "loops" LoopsSection.ofToml? d.loops
      allocation := ← field ms "allocation" AllocationSection.ofToml? d.allocation
      functionLength := ← field ms "function_length" FunctionLengthSection.ofToml? d.functionLength
      assertions := ← field ms "assertions" AssertionsSection.ofToml? d.assertions
      dataScope := ← field ms "data_scope" DataScopeSection.ofToml? d.dataScope
      returnValues := ← field ms "return_values" ReturnValuesSection.ofToml? d.returnValues
      dereferences := ← field ms "dereferences" DereferencesSection.ofToml? d.dereferences
      diagnostics := ← field ms "diagnostics" DiagnosticsSection.ofToml? d.diagnostics }
  else none

/-- The configuration that a text holds. -/
def parse? (text : String) : Option Configuration := (Toml.parse? text).bind ofToml?

end Configuration

/-- Why a text gives no settings. -/
inductive ConfigError where
  /-- The text is no TOML, or not of the shape of a configuration. -/
  | unreadable
  | invalid (e : InvalidField)
  deriving DecidableEq, Repr

/-- The settings that a text holds. -/
def Settings.parse (text : String) : Except ConfigError Settings :=
  match Configuration.parse? text with
  | none => .error .unreadable
  | some c => c.validate.mapError .invalid

end Config
end SafetyLint
