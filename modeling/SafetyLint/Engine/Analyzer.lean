import SafetyLint.Engine.Dispatcher

/-!
# Walking files

A visit of a node enters it, asks the rules, visits the children and leaves it.  What happens on the
way is a list of events; the findings of a file are the findings of its events in order.
-/

namespace SafetyLint

open SafetyLint.Tree Config

/-- Something that happened during a visit. -/
inductive Event where
  /-- The rules were asked about a node; the context is the one they left. -/
  | asked (depth : Nat) (site : Site) (context : Context) (findings : List Finding)
  /-- A node was left. -/
  | left (depth : Nat) (site : Site) (findings : List Finding)

def Event.findings : Event → List Finding
  | asked _ _ _ fs => fs
  | left _ _ fs => fs

namespace Dispatcher

/-- Visits each child in the context that the one before left. -/
def visitList {α : Type} (visitOne : α → Context → List Event × Context) :
    List α → Context → List Event × Context
  | [], c => ([], c)
  | a :: rest, c =>
    let (here, c) := visitOne a c
    let (later, c) := visitList visitOne rest c
    (here ++ later, c)

/-- Visits a node and everything below it. -/
def visit (d : Dispatcher) (depth : Nat) (site : Site) (c : Context) : List Event × Context :=
  let (findings, c) := d.dispatch site (enter site c)
  let first := Event.asked depth site c findings
  let (below, c) :=
    visitList (fun (child : { s : Site // s ∈ site.children }) c => d.visit (depth + 1) child.1 c)
      site.children.attach c
  let (last, c) := d.leave site c
  (first :: below ++ [.left depth site last], c)
termination_by Walk.weight site
decreasing_by exact Walk.weight_lt_of_mem_children child.2

end Dispatcher

/-- A dispatcher and the root from which paths are reported. -/
structure Analyzer where
  dispatcher : Dispatcher
  root : Option String

namespace Analyzer

/-- The findings of file number `i`, walked alone, in the order of the walk. -/
def walkFile (a : Analyzer) (i : Nat) (f : SourceFile) : List Finding :=
  let c := Context.empty.enterFile (.ofFile i f a.root)
  (a.dispatcher.visit 0 (.ofFile i f) c).1.flatMap Event.findings

/-- The findings of one file, sorted by place. -/
def analyzeFile (a : Analyzer) (f : SourceFile) : List Finding := sortFindings (a.walkFile 0 f)

/-- The report on some files, sorted by place. -/
def analyze (a : Analyzer) (files : List SourceFile) : Report :=
  Report.sort ⟨(files.mapIdx a.walkFile).flatten, files.length⟩

end Analyzer

end SafetyLint
