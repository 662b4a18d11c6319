/-
The call graph of a project and the questions put to it.
-/
import GoSurvey.CallGraph.Extract
import GoSurvey.CallGraph.Report
import GoSurvey.CallGraph.Resolve
import GoSurvey.Project.Basic

namespace GoSurvey.Project

open Text

/-- The functions and calls of all files, resolved. -/
def callGraph (p : Project) : Except Failure CallGraph :=
  p.sources.map fun fs =>
    CallGraph.ofGraphs (fs.map fun (file, content) => CallGraph.ofFile content file)

/-- The graph of the functions. -/
def functionGraph (p : Project) : Except Failure FunctionGraph := do
  match FunctionGraph.ofCallGraph? (← p.callGraph) with
  | some g => .ok g
  | none => .error .emptyReceiver

/-- Orphans, cycles and busy files. -/
def patterns (p : Project) (count : Int) : Except Failure PatternReport :=
  p.functionGraph.map (·.patterns count)

/-- The metrics of the busiest functions. -/
def busiest (p : Project) (count : Int) : Except Failure (List FunctionMetrics) :=
  p.functionGraph.map (·.busiest count)

/-- The first paths between the functions that two names stand for. -/
def paths (p : Project) (source target : Text) (count : Int) :
    Except Failure (List (List Text)) := do
  match (← p.functionGraph).pathsBetween? source target count with
  | some paths => .ok paths
  | none => .error .negativeLimit

/-- The functions that those of a name reach. -/
def reachable (p : Project) (name : Text) (depth : Int) : Except Failure (List Text) :=
  p.functionGraph.map (·.reachableFrom name depth)

end GoSurvey.Project
