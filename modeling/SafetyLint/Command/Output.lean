import SafetyLint.Command.Arguments
import SafetyLint.Format.Findings
import SafetyLint.Json.Printer
import SafetyLint.Rules.All

/-!
# Printed reports
-/

namespace SafetyLint
namespace Command

/-! ## Reports -/

/-- A text in a colour of the terminal. -/
def coloured (colour : Nat) (text : String) : String :=
  "\x1b[" ++ toString colour ++ "m" ++ text ++ "\x1b[0m"

def red : Nat := 31
def green : Nat := 32
def yellow : Nat := 33
def blue : Nat := 34

def severityColour : Severity → Nat
  | .error => red
  | .warning => yellow
  | .info => blue

/-- The word of a severity in its colour. -/
def severityInColour (s : Severity) : String := coloured (severityColour s) s.word

/-- The colour of a summary: that of the worst finding, and green without errors and warnings. -/
def summaryColour (r : Report) : Nat :=
  if 0 < r.count .error then red else if 0 < r.count .warning then yellow else green

/-- The numbers of a report. -/
def summary (r : Report) : String :=
  coloured (summaryColour r)
      ("Found " ++ toString (r.count .error) ++ " error(s), " ++ toString (r.count .warning)
        ++ " warning(s), " ++ toString (r.count .info) ++ " info(s) in " ++ toString r.filesChecked
        ++ " file(s)") ++ "\n"
    ++ (if 0 < r.failures then
          toString r.failures
            ++ " check(s) could not be completed; see analysis_error entries above\n"
        else "")

/-- A report as it is printed.  The pretty format shows its findings elsewhere. -/
def printed (r : Report) : OutputFormat → String
  | .text =>
    String.join (r.findings.map fun f => f.blockWith severityInColour ++ "\n") ++ summary r
  | .json => (Format.encodeReport r).renderPretty ++ "\n"
  | .compact => String.join (r.findings.map fun f => f.line ++ "\n")
  | .pretty => summary r

/-! ## The list of rules -/

/-- A text with blanks behind it, so that it has at least `width` characters. -/
def padded (width : Nat) (s : String) : String :=
  s ++ String.ofList (List.replicate (width - s.length) ' ')

/-- A row of the list of rules. -/
def ruleRow (id name severity description : String) : String :=
  padded 10 id ++ " " ++ padded 24 name ++ " " ++ padded 9 severity ++ " " ++ description ++ "\n"

/-- The list of rules. -/
def ruleList : String :=
  "Available rules:\n\n" ++ ruleRow "Code" "Name" "Severity" "Description"
    ++ String.ofList (List.replicate 96 '-') ++ "\n"
    ++ String.join (Rules.all.map fun r =>
        ruleRow r.id.word r.name r.severity.word r.description)
    ++ "\nRule 8 (preprocessor use) has no counterpart in the analyzed language.\n"
    ++ "\nUse --rules to run a subset, e.g.:\n"
    ++ "  powerten check --rules fixed-loop-bounds,no-heap-allocation\n"
    ++ "  powerten check --rules rule_2,rule_3\n"

end Command
end SafetyLint
