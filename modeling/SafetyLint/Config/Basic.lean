import SafetyLint.Config.Settings

/-!
# Configurations

A configuration is what a user wrote, section by section, with the defaults filled in.  Its numbers
may be out of range and its rule ids may be unknown; `Configuration.validate` turns it into settings
or names the first field that will not do.
-/

namespace SafetyLint
namespace Config

/-! ## Sections -/

structure AnalyzerSection where
  /-- Patterns of dumps to skip. -/
  exclude : List String
  respectGitignore : Bool

structure RulesSection where
  enabled : List String
  except : List String

structure LoopsSection where
  maxIterations : Int

structure AllocationSection where
  initMethods : List String
  resourceFunctions : List String
  containerMethods : List String
  containerTypes : List String

structure FunctionLengthSection where
  maxLines : Int
  includeComments : Bool
  includeBlankLines : Bool

structure AssertionsSection where
  functions : List String
  methods : List String
  exceptionFunctions : List String
  minimum : Int

structure DataScopeSection where
  maxClassProperties : Int
  allowedPublicProperties : List String
  allowedGlobals : List String
  maxLinesToFirstUse : Int

structure ReturnValuesSection where
  ignoredFunctions : List String
  allowFluentChains : Bool

structure DereferencesSection where
  max : Int

structure DiagnosticsSection where
  suppressionFunctions : List String
  /-- Directives with their required value. -/
  requiredDirectives : List (String × Tree.Scalar)
  /-- Directives that may have any value. -/
  requiredDirectivesAny : List String

/-- A configuration. -/
structure Configuration where
  analyzer : AnalyzerSection
  rules : RulesSection
  /-- Severities by rule id. -/
  severity : List (String × Severity)
  loops : LoopsSection
  allocation : AllocationSection
  functionLength : FunctionLengthSection
  assertions : AssertionsSection
  dataScope : DataScopeSection
  returnValues : ReturnValuesSection
  dereferences : DereferencesSection
  diagnostics : DiagnosticsSection

/-! ## Defaults -/

namespace Configuration

/-- The configuration of a user who wrote nothing. -/
def default : Configuration where
  analyzer := { exclude := ["**/vendor/**"], respectGitignore := true }
  rules := { enabled := RuleId.all.map RuleId.word, except := [] }
  severity := []
  loops := { maxIterations := 1000 }
  allocation := {
    initMethods := ["__construct", "initialize", "init", "setup", "boot", "register"]
    resourceFunctions := ["fopen", "curl_init", "stream_socket_client", "fsockopen", "tmpfile",
      "imagecreate", "imagecreatetruecolor"]
    containerMethods := ["add", "push", "append", "insert", "put", "set"]
    containerTypes := ["SplDoublyLinkedList", "SplStack", "SplQueue", "ArrayObject"] }
  functionLength := { maxLines := 60, includeComments := true, includeBlankLines := true }
  assertions := {
    functions := ["assert", "assertNotNull", "assertEquals", "assertSame", "assertGreaterThan",
      "assertInstanceOf"]
    methods := ["assertTrue", "assertFalse", "assertCount", "assertNotEmpty", "assertNull",
      "assertContains"]
    exceptionFunctions := ["trigger_error", "throw"]
    minimum := 2 }
  dataScope := {
    maxClassProperties := 10
    allowedPublicProperties := ["id", "name", "created_at", "updated_at"]
    allowedGlobals := ["_GET", "_POST", "_SESSION", "_COOKIE", "_SERVER", "_ENV", "_FILES",
      "_REQUEST"]
    maxLinesToFirstUse := 10 }
  returnValues := {
    ignoredFunctions := ["printf", "fprintf", "vprintf", "error_log", "trigger_error", "fwrite",
      "file_put_contents", "fputcsv", "header"]
    allowFluentChains := true }
  dereferences := { max := 1 }
  diagnostics := {
    suppressionFunctions := ["error_reporting", "ini_set", "set_error_handler"]
    requiredDirectives := [("strict_types", .int 1)]
    requiredDirectivesAny := [] }

end Configuration

/-! ## Validation -/

/-- What is wrong with the value of a field. -/
inductive Complaint where
  | negative (value : Int)
  | tooLarge (value : Int)
  | zero
  | unknownRule (word : String)
  /-- A pattern will not do. -/
  | badPattern (pattern message : String)
  deriving DecidableEq, Repr

def Complaint.message : Complaint → String
  | negative value => s!"must not be negative (got {value})"
  | tooLarge value => s!"{value} is too large"
  | zero => "must be greater than zero"
  | unknownRule word => RuleId.unknownText word
  | badPattern _ message => message

/-- A field with a value that will not do. -/
structure InvalidField where
  field : String
  complaint : Complaint
  deriving DecidableEq, Repr

def InvalidField.message (e : InvalidField) : String :=
  match e.complaint with
  | .badPattern pattern message =>
    "Invalid pattern `" ++ pattern ++ "` in `" ++ e.field ++ "`: " ++ message
  | complaint => "Invalid value for `" ++ e.field ++ "`: " ++ complaint.message

/-- The greatest value of a threshold. -/
def maxThreshold : Int := 4294967295

/-- A threshold: neither negative nor too large. -/
def threshold (field : String) (value : Int) : Except InvalidField Nat :=
  if value < 0 then .error ⟨field, .negative value⟩
  else if maxThreshold < value then .error ⟨field, .tooLarge value⟩
  else .ok value.toNat

/-- The rule with this id. -/
def ruleId (field word : String) : Except InvalidField RuleId :=
  match RuleId.ofWord? word with
  | some id => .ok id
  | none => .error ⟨field, .unknownRule word⟩

/-- The rules with these ids. -/
def ruleIds (field : String) : List String → Except InvalidField (List RuleId)
  | [] => .ok []
  | word :: rest => do
    let id ← ruleId field word
    let ids ← ruleIds field rest
    return id :: ids

/-- The severities by rule. -/
def severityOverrides : List (String × Severity) → Except InvalidField (List (RuleId × Severity))
  | [] => .ok []
  | (word, severity) :: rest => do
    let id ← ruleId "severity" word
    let overrides ← severityOverrides rest
    return (id, severity) :: overrides

/-- Pairs in the order of their keys. -/
def sortedByKey {α : Type} (pairs : List (String × α)) : List (String × α) :=
  pairs.mergeSort fun a b => a.1 ≤ b.1

/-- The required directives: those with a value, and those without one that are not among them. -/
def directives (d : DiagnosticsSection) : List (String × Option Tree.Scalar) :=
  let valued := d.requiredDirectives.map fun p => (p.1, some p.2)
  let unvalued := d.requiredDirectivesAny.filter fun n => (valued.lookup n).isNone
  valued ++ unvalued.map fun n => (n, none)

/-- The patterns of a field. -/
def allowList (library : Text.PatternLibrary) (field : String) (patterns : List String) :
    Except InvalidField Text.AllowList :=
  (Text.AllowList.compileBy library field patterns).mapError fun bad =>
    ⟨bad.field, .badPattern bad.pattern bad.message⟩

/-- The largest accepted loop bound, which may not be zero either. -/
def loopThreshold (value : Int) : Except InvalidField Nat := do
  let n ← threshold "loops.max_iterations" value
  if n = 0 then .error ⟨"loops.max_iterations", .zero⟩ else .ok n

/-- The settings of a configuration, or its first field that will not do.  Severities are looked at
in the order of their ids, and patterns are left to a library. -/
def Configuration.validateBy (library : Text.PatternLibrary) (c : Configuration) :
    Except InvalidField Settings := do
  let maxLoopIterations ← loopThreshold c.loops.maxIterations
  let severities ← severityOverrides (sortedByKey c.severity)
  let maxFunctionLines ← threshold "function_length.max_lines" c.functionLength.maxLines
  let minAssertions ← threshold "assertions.minimum" c.assertions.minimum
  let maxClassProperties ←
    threshold "data_scope.max_class_properties" c.dataScope.maxClassProperties
  let allowedPublicProperties ←
    allowList library "data_scope.allowed_public_properties" c.dataScope.allowedPublicProperties
  let allowedGlobals ← allowList library "data_scope.allowed_globals" c.dataScope.allowedGlobals
  let maxLinesToFirstUse ←
    threshold "data_scope.max_lines_to_first_use" c.dataScope.maxLinesToFirstUse
  let maxDereferences ← threshold "dereferences.max" c.dereferences.max
  let enabled ← ruleIds "rules.enabled" c.rules.enabled
  let excepted ← ruleIds "rules.except" c.rules.except
  return {
    maxLoopIterations
    initMethods := c.allocation.initMethods
    resourceFunctions := c.allocation.resourceFunctions
    containerMethods := c.allocation.containerMethods
    containerTypes := c.allocation.containerTypes
    maxFunctionLines
    countComments := c.functionLength.includeComments
    countBlankLines := c.functionLength.includeBlankLines
    assertionFunctions := c.assertions.functions
    assertionMethods := c.assertions.methods
    exceptionFunctions := c.assertions.exceptionFunctions
    minAssertions
    maxClassProperties
    allowedPublicProperties
    allowedGlobals
    maxLinesToFirstUse
    ignoredFunctions := c.returnValues.ignoredFunctions
    allowFluentChains := c.returnValues.allowFluentChains
    maxDereferences
    suppressionFunctions := c.diagnostics.suppressionFunctions
    requiredDirectives := directives c.diagnostics
    enabled
    excepted
    severities }

/-- The settings of a configuration for the program and its library. -/
def Configuration.validate (c : Configuration) : Except InvalidField Settings :=
  c.validateBy Text.Glob.library

/-- The settings of a user who wrote nothing. -/
def Settings.default : Settings where
  maxLoopIterations := 1000
  initMethods := Configuration.default.allocation.initMethods
  resourceFunctions := Configuration.default.allocation.resourceFunctions
  containerMethods := Configuration.default.allocation.containerMethods
  containerTypes := Configuration.default.allocation.containerTypes
  maxFunctionLines := 60
  countComments := true
  countBlankLines := true
  assertionFunctions := Configuration.default.assertions.functions
  assertionMethods := Configuration.default.assertions.methods
  exceptionFunctions := Configuration.default.assertions.exceptionFunctions
  minAssertions := 2
  maxClassProperties := 10
  allowedPublicProperties := ⟨Configuration.default.dataScope.allowedPublicProperties⟩
  allowedGlobals := ⟨Configuration.default.dataScope.allowedGlobals⟩
  maxLinesToFirstUse := 10
  ignoredFunctions := Configuration.default.returnValues.ignoredFunctions
  allowFluentChains := true
  maxDereferences := 1
  suppressionFunctions := Configuration.default.diagnostics.suppressionFunctions
  requiredDirectives := [("strict_types", some (.int 1))]
  enabled := RuleId.all
  excepted := []
  severities := []

end Config
end SafetyLint
