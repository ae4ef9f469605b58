import SafetyLint.Engine.Rule

/-!
# Function length

A function is as long as its declaration, from the signature to the closing brace.  Comment lines
and blank lines may be left out of the count, which needs the text of the file; without the text all
lines count.  Declarations without a body are not looked at.
-/

namespace SafetyLint
namespace Rules
namespace FunctionLength

open SafetyLint.Tree Config

def info : RuleInfo where
  id := .functionLength
  name := "function-length"
  description := "Restrict functions to a single printed page."
  severity := .error

/-- Number of lines that count, of the lines of a declaration. -/
def countedLines (settings : Settings) (lines : List (List Char)) : Nat :=
  let comments := if settings.countComments then 0 else Text.commentLines lines
  let blanks := if settings.countBlankLines then 0 else Text.blankLines lines
  lines.length - comments - blanks

/-- The length of a declaration. -/
def measuredLength (settings : Settings) (c : Context) (decl : FunctionDecl) : Nat :=
  if settings.countComments && settings.countBlankLines then decl.span.lineCount
  else
    match c.file.bind fun f => f.lines? decl.span.firstLine decl.span.lastLine with
    | some lines => countedLines settings lines
    | none => decl.span.lineCount

/-- What to say about a declaration. -/
def message? (settings : Settings) (c : Context) (label : String) (decl : FunctionDecl) :
    Option String :=
  let length := measuredLength settings c decl
  if decl.body.isSome && settings.maxFunctionLines < length then
    some (label ++ " \"" ++ decl.name ++ "\" has " ++ toString length
      ++ " lines which exceeds the maximum of " ++ toString settings.maxFunctionLines
      ++ " lines (single printed page).")
  else none

def findings (settings : Settings) (site : Site) (c : Context) : List Finding :=
  let message :=
    match site.node with
    | .function decl => message? settings c "Function" decl
    | .method decl => message? settings c "Method" decl
    | _ => none
  message.toList.map (c.finding info site.node.line)

end FunctionLength

/-- Functions fit on a page. -/
def functionLength : Rule where
  toRuleInfo := FunctionLength.info
  kinds := [.function, .method]
  check := Rule.plain FunctionLength.findings
  finish := Rule.silent

end Rules
end SafetyLint
