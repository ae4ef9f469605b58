import SafetyLint.Finding
import SafetyLint.Format.Read
import SafetyLint.Format.Write
import SafetyLint.Format.OfForm
import SafetyLint.Format.ToForm

/-!
# Written findings and reports
-/

namespace SafetyLint
namespace Format

/-! ## Forms -/

def locationForm (l : Location) : Form := .record [.text l.file, natForm l.line]

def suggestionForm? : Option String → Form
  | some help => .record [.text help]
  | none => .nothing

def findingForm (f : Finding) : Form :=
  .record [.text f.code, .text f.rule, .variant f.severity.word [], locationForm f.location,
    .text f.message, suggestionForm? f.suggestion]

def reportForm (r : Report) : Form :=
  .record [.list (r.findings.map findingForm), natForm r.filesChecked]

def locationOf : Form → Location
  | .record [file, line] => ⟨textOf file, natOf line⟩
  | _ => ⟨"", 0⟩

def severityOf (f : Form) : Severity := (Severity.ofWord? (wordOf f)).getD .info

def suggestionOf? : Form → Option String
  | .record [help] => some (textOf help)
  | _ => none

def findingOf : Form → Finding
  | .record [code, rule, severity, location, message, suggestion] =>
    ⟨textOf code, textOf rule, severityOf severity, locationOf location, textOf message,
      suggestionOf? suggestion⟩
  | _ => default

def reportOf : Form → Report
  | .record [findings, filesChecked] => ⟨(itemsOf findings).map findingOf, natOf filesChecked⟩
  | _ => default

@[simp] theorem locationOf_locationForm (l : Location) : locationOf (locationForm l) = l := by
  simp [locationForm, locationOf, textOf, natForm, natOf, intOf]

@[simp] theorem suggestionOf?_suggestionForm? (help : Option String) :
    suggestionOf? (suggestionForm? help) = help := by
  cases help <;> rfl

@[simp] theorem severityOf_word (s : Severity) : severityOf (.variant s.word []) = s := by
  simp [severityOf, wordOf]

/-- A finding is what its form describes. -/
@[simp] theorem findingOf_findingForm (f : Finding) : findingOf (findingForm f) = f := by
  simp [findingForm, findingOf, textOf]

/-- A report is what its form describes. -/
@[simp] theorem reportOf_reportForm (r : Report) : reportOf (reportForm r) = r := by
  simp [reportForm, reportOf, itemsOf, natForm, natOf, intOf, Function.comp_def]

/-! ## Values -/

/-- A place as a JSON value. -/
def encodeLocation (l : Location) : Json := writeEntity .location (locationForm l)

/-- A finding as a JSON value. -/
def encodeFinding (f : Finding) : Json := writeEntity .finding (findingForm f)

/-- A report as a JSON value. -/
def encodeReport (r : Report) : Json := writeEntity .report (reportForm r)

/-- The finding in a JSON value. -/
def decodeFinding (v : Json) : Except ReadError Finding := (readEntity .finding v).map findingOf

/-- The report in a JSON value. -/
def decodeReport (v : Json) : Except ReadError Report := (readEntity .report v).map reportOf

end Format
end SafetyLint
