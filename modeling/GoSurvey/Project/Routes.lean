/-
Routes and data flows of a project.
-/
import GoSurvey.Flow.Trace
import GoSurvey.Project.Basic
import GoSurvey.Route.MainFlow

namespace GoSurvey.Project

open Text

/-- The routes, the first registration for each method and path. -/
def routes (p : Project) : Except Failure (List Route) := p.sources.map Route.routesOf

/-- The route with an id. -/
def findRoute? (p : Project) (id : Text) : Except Failure (Option Route) :=
  p.routes.map fun rs => rs.find? (·.id == id)

/-- What flows are traced in. -/
def library (p : Project) : Flow.Library Failure where
  files := p.sources
  read file := (p.disk.read (p.rootPath.append (.ofText file))).toOption

/-- The data flow of a route, be it one of the project or not. -/
def traceRoute (p : Project) (r : Route) : Except Failure DataFlow := Flow.trace p.library r

/-- The data flow of the route with an id. -/
def trace (p : Project) (id : Text) : Except Failure DataFlow := do
  match ← p.findRoute? id with
  | some r => p.traceRoute r
  | none => .error (.routeNotFound id)

/-- The first function or method of a name. -/
def function? (p : Project) (name : Text) : Except Failure (Option Flow.FunctionSource) :=
  p.library.function? name

/-- The first struct of a name. -/
def struct? (p : Project) (name : Text) : Except Failure (Option Flow.StructSource) :=
  p.library.struct? name

/-- The summary of where the program starts. -/
def mainFlow (p : Project) : Except Failure Route.MainFlow := p.sources.map Route.mainFlowOf

end GoSurvey.Project
