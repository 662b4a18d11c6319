/-
The analyses as answers to web requests: a status and a body. Paths that
clients send are taken relative to the project root and are answered
only if they stay below it.
-/
import GoSurvey.Report.CallRecord
import GoSurvey.Report.FlowRecord
import GoSurvey.Report.Tool

namespace GoSurvey.Endpoint

open Text

/-- The body of an answer. -/
inductive Body where
  | json (value : Json)
  | plain (text : Text)

/-- An answer to a request. -/
structure Response where
  status : Nat
  body : Body

/-- An answer, or the reason why there is none. -/
abbrev Answer := Except Failure Response

/-- A successful answer. -/
def ok (value : Json) : Response := ⟨200, .json value⟩

/-- The answer that something is not there. -/
def missing (message : Text) : Response := ⟨404, .json (.object [("error", .text message)])⟩

/-- A served project: where its root is, and how it is analysed. -/
structure Service where
  project : Project
  /-- The names on the way to the root. -/
  root : List Text

/-- The service of the project at a path, with its own settings if some are given. -/
def Service.ofRoot (d : Disk) (root : Text) (config : Option Config) : Service :=
  let names := d.resolve (.ofText root)
  ⟨⟨d, config.getD { root := (Path.ofNames names).text }⟩, names⟩

namespace Service

/-- The root as a text. -/
def rootText (s : Service) : Text := (Path.ofNames s.root).text

/-- The path that a client means, if it does not leave the project. -/
def inside? (s : Service) (file : Text) : Option Path :=
  let names := s.project.disk.resolve ((Path.ofNames s.root).append (.ofText file))
  (Path.below? s.root names).map fun _ => .ofNames names

/-- The file that a client means, if there is one in the project. -/
def file? (s : Service) (file : Text) : Except Failure (Option Path) :=
  match s.inside? file with
  | none => .ok none
  | some path => (s.project.disk.isFile path).map fun isFile => if isFile then some path else none

/-- The totals. -/
def overview (s : Service) : Answer := do
  let a ← s.project.analysis
  .ok (ok (.object [("projectRoot", .text s.rootText), ("totalFiles", .nat a.counts.files),
    ("totalElements", a.counts.record)]))

/-- All structures. -/
def analysis (s : Service) : Answer := s.project.analysis.map fun a => ok a.record

/-- The structure of one file. -/
def structureOf (s : Service) (file : Text) : Answer := do
  match ← s.file? file with
  | none => .ok (missing "File not found")
  | some path =>
    .ok (ok (Project.fileStructure s.project.disk path.text s.rootText).record)

/-- The symbols that are declared more than once. -/
def duplicates (s : Service) : Answer :=
  s.project.duplicates.map fun groups => ok (duplicatesRecord groups)

/-- The definition of the identifier at a place in a file. -/
def definition (s : Service) (file : Text) (line column : Int) : Answer := do
  match ← s.file? file with
  | none => .ok (missing "File not found")
  | some path =>
    match ← Project.definition? s.project.disk path.text line column (some s.project.config) with
    | some info => .ok (ok info.record)
    | none => .ok (missing "Definition not found")

/-- The definition of a name. -/
def symbol (s : Service) (name : Text) : Answer := do
  match ← s.project.symbol? name with
  | some info => .ok (ok info.record)
  | none => .ok (missing "Symbol not found")

/-- The lines that mention a name. -/
def usages (s : Service) (name : Text) : Answer :=
  (s.project.usages name).map fun us => ok (.list Symbol.SymbolUsage.record us)

/-- Functions and calls. -/
def callGraph (s : Service) : Answer := s.project.callGraph.map fun g => ok g.record

/-- Orphans, cycles and busy files. -/
def patterns (s : Service) (count : Int) : Answer :=
  (s.project.patterns count).map fun r => ok r.record

/-- The paths between two functions. -/
def paths (s : Service) (source target : Text) : Answer :=
  (s.project.paths source target Tool.pathCount).map fun ps =>
    ok (.object [("paths", .list Json.texts ps)])

/-- The metrics of the busiest functions. -/
def metrics (s : Service) (count : Int) : Answer :=
  (s.project.busiest count).map fun ms => ok (.list FunctionMetrics.record ms)

/-- The functions that a function reaches. -/
def reachable (s : Service) (function : Text) (depth : Int) : Answer :=
  (s.project.reachable function depth).map fun ids =>
    ok (.object [("function", .text function), ("reachable", .texts ids)])

/-- The routes. -/
def routes (s : Service) : Answer := s.project.routes.map fun rs => ok (.list Route.record rs)

/-- The data flow of a route. -/
def flow (s : Service) (id : Text) : Answer :=
  match s.project.trace id with
  | .error (.routeNotFound id) => .ok (missing (Failure.routeNotFound id).message)
  | .error e => .error e
  | .ok flow => .ok (ok flow.record)

/-- The summary of where the program starts. -/
def mainFlow (s : Service) : Answer := s.project.mainFlow.map fun flow => ok flow.record

/-- What a path means in the project. -/
def resolve (s : Service) (path : Text) : Answer := do
  let resolved ← Project.resolvePath s.project.disk path s.rootText
  let found ← s.project.disk.present (.ofText resolved)
  .ok (ok (.object [("input", .text path), ("resolved", .text resolved), ("exists", .bool found)]))

/-- The text of a file. -/
def source (s : Service) (file : Text) : Answer := do
  match ← s.file? file with
  | none => .ok ⟨404, .plain "Not found"⟩
  | some path =>
    match s.project.disk.read path with
    | .ok content => .ok ⟨200, .plain content⟩
    | .error _ => .ok ⟨500, .plain "Could not read file"⟩

end Service
end GoSurvey.Endpoint
