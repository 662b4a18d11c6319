/-
The analyses as texts for tools: one function for each question, with
the whole answer as one text.
-/
import GoSurvey.Project.Calls
import GoSurvey.Project.Routes
import GoSurvey.Report.Layout

namespace GoSurvey.Tool

open Text Report

/-- An answer, or the reason why there is none. -/
abbrev Answer := Except Failure Text

/-- The project at a path. -/
def projectAt (d : Disk) (path : Text) : Project := ⟨d, { root := d.resolvedText (.ofText path) }⟩

/-- A heading with a number, and lines under it; nothing if there are none. -/
def titled (title : Text) (count : Nat) (body : List Text) : List Text :=
  if count = 0 then [] else ("\n" ++ title ++ " (" ++ ofNat count ++ "):") :: body

/-- A declaration with its line number. -/
def listed (line : Nat) (label : Text) : Text := "  " ++ lineTag line ++ " " ++ label

/-- A field of a struct. -/
def fieldLine (f : StructField) : Text :=
  "          " ++ f.name ++ " " ++ f.type ++ enclose [' ', ' ', backtick] f.tag [backtick]

/-- The lines that list the declarations of a file. -/
def structureLines (s : FileStructure) : List Text :=
  List.flatten
    [["File: " ++ packageLabel s],
     titled "Imports" s.imports.length (s.imports.map fun d => listed d.line (importLabel d)),
     titled "Types" s.types.length (s.types.map fun d => listed d.line d.name),
     titled "Constants" s.constants.length (s.constants.map fun d => listed d.line d.name),
     titled "Variables" s.packageVars.length (s.packageVars.map fun d => listed d.line d.name),
     titled "Structs" s.structs.length
       (s.structs.flatMap fun d => listed d.line (structLabel d) :: d.fields.map fieldLine),
     titled "Interfaces" s.interfaces.length
       (s.interfaces.map fun d => listed d.line (interfaceLabel d)),
     titled "Functions" s.functions.length
       (s.functions.map fun d =>
         listed d.line (functionLabel d ++ enclose " " d.returnType []))]

/-- The declarations of a file of a project. -/
def fileStructure (d : Disk) (path project : Text) : Answer := do
  let root := d.resolvedText (.ofText project)
  let file ← Project.resolvePath d path root
  if ← d.isFile (.ofText file) then
    .ok (joinLines (structureLines (Project.fileStructure d file root)))
  else .ok ("File not found: " ++ path)

/-- How many of the files with most functions are listed. -/
def largestCount : Nat := 10

/-- The files with most functions, those with none left out. -/
def largestLines (ss : List FileStructure) : List Text :=
  let largest :=
    (ss.mergeSort fun a b => decide (b.functions.length ≤ a.functions.length)).take largestCount
  let rows := (largest.filter (!·.functions.isEmpty)).map fun s =>
    "  " ++ padRight 50 s.file ++ " " ++ padLeft 3 (ofNat s.functions.length)
  if rows.isEmpty then [] else "\nMost functions:" :: rows

/-- The totals of a project. -/
def projectOverview (d : Disk) (project : Text) (includeVendor : Bool) : Answer := do
  let p := projectAt d project
  let p := if includeVendor then { p with config := p.config.includeVendor } else p
  let a ← p.analysis
  .ok (joinLines
    (("Project: " ++ p.config.root) :: countLines a.counts ++ largestLines a.structures))

/-- The symbols that are declared more than once. -/
def duplicateSymbols (d : Disk) (project : Text) : Answer := do
  let groups ← (projectAt d project).duplicates
  if groups.isEmpty then .ok "No duplicate symbols"
  else
    .ok (joinLines (("Duplicate symbols (" ++ ofNat groups.length ++ "):")
      :: (sortedGroups groups).flatMap fun (key, symbols) =>
        ("\n" ++ key) :: symbols.map fun s => indented (place s.file s.line)))

/-- A definition on three lines. -/
def definitionText (s : Symbol.SymbolInfo) : Text :=
  upper s.kind.text ++ ": " ++ s.name ++ "\n  location:  " ++ place s.file s.line
    ++ "\n  signature: " ++ s.signature

/-- The definition of the identifier at a place. -/
def definition (d : Disk) (path : Text) (line column : Int) : Answer := do
  match ← Project.definition? d path line column none with
  | some s => .ok (definitionText s)
  | none =>
    .ok ("No definition found at " ++ path ++ ":" ++ ofInt line ++ ":" ++ ofInt column)

/-- The definition of a name in the project around a file. -/
def symbolInfo (d : Disk) (name path : Text) : Answer := do
  match ← (Project.around d path none).symbol? name with
  | some s => .ok (definitionText s)
  | none => .ok ("Symbol not found: " ++ name)

/-- How many lines a long listing is cut to. -/
def listingLimit : Nat := 200

/-- The lines that mention a name. -/
def symbolUsages (d : Disk) (name project : Text) : Answer := do
  let usages ← (projectAt d project).usages name
  if usages.isEmpty then .ok ("No usages of " ++ name)
  else
    let rows := (usages.take listingLimit).map fun u =>
      indented (place u.file u.line) ++ "  " ++ u.code
    let more := usages.length - listingLimit
    .ok (page
      [["Usages of " ++ name ++ " (" ++ ofNat usages.length ++ "):"],
       rows,
       if more = 0 then [] else ["  ... " ++ ofNat more ++ " more"]])

/-- Whether a call is made by a function of a name or calls one. -/
def involves (function : Text) (c : FunctionCall) : Bool :=
  c.caller == function || lastPiece '.' c.called == function

/-- The calls of a project, or those that involve a function if one is named. -/
def callGraph (d : Disk) (project function : Text) : Answer := do
  let g ← (projectAt d project).callGraph
  let calls := if function.isEmpty then g.calls else g.calls.filter (involves function)
  let resolved := calls.filter (·.resolved)
  let rows := (resolved.take listingLimit).map fun c =>
    "  " ++ callerLabel c ++ " → " ++ c.called ++ "  " ++ place c.file c.line ++ " → "
      ++ targetPlace c
  .ok (page
    [["Functions: " ++ ofNat g.functions.length,
      "Calls:     " ++ ofNat calls.length ++ "  (resolved " ++ ofNat resolved.length ++ ")",
      []],
     rows])

/-- A function with its metrics. -/
def metricsLine (m : FunctionMetrics) : Text :=
  "  " ++ m.id ++ "  bc=" ++ Decimal.fixed 3 m.betweenness ++ "  in=" ++ ofNat m.inDegree
    ++ " out=" ++ ofNat m.outDegree

/-- The conspicuous parts of the call graph. -/
def callPatterns (d : Disk) (project : Text) : Answer := do
  let g ← (projectAt d project).functionGraph
  let r := g.patterns 10
  .ok (page
    [["=== Call Graph Patterns ===\n",
      "Orphans (" ++ ofNat r.orphans.length ++ ") — no callers, no callees:"],
     r.orphans.map indented,
     ["\nRecursion Cycles (" ++ ofNat r.cycles.length ++ "):"],
     r.cycles.map fun cycle => indented (cycleLabel cycle),
     ["\nHub Files (most edges):"],
     r.hubFiles.map indented,
     ["\nBottlenecks (betweenness):"],
     (g.busiest 5).map metricsLine])

/-- The functions that a function reaches. -/
def reachable (d : Disk) (function project : Text) (depth : Int) : Answer := do
  let ids ← (projectAt d project).reachable function depth
  if ids.isEmpty then .ok ("Nothing reachable from '" ++ function ++ "'")
  else
    .ok (joinLines (("Reachable from " ++ function ++ " (depth " ++ ofInt depth ++ "): "
      ++ ofNat ids.length) :: ids.map indented))

/-- How many paths are looked for where no number is given. -/
def pathCount : Int := 5

/-- The paths from one function to another. -/
def callPath (d : Disk) (source target project : Text) : Answer := do
  let paths ← (projectAt d project).paths source target pathCount
  if paths.isEmpty then
    .ok ("No path found from '" ++ source ++ "' to '" ++ target ++ "'")
  else .ok (joinLines ((source ++ " → " ++ target ++ ":") :: pathLines 1 paths))

/-- The routes of a project. -/
def apiRoutes (d : Disk) (project : Text) : Answer := do
  let routes ← (projectAt d project).routes
  if routes.isEmpty then .ok "No routes found"
  else
    .ok (joinLines (("Routes (" ++ ofNat routes.length ++ "):")
      :: routes.flatMap fun r => [indented (routeRow r), "          id: " ++ r.id]))

/-- The data flow of a route, or that there is no such route. -/
def traceRoute (d : Disk) (id project : Text) : Answer :=
  match (projectAt d project).trace id with
  | .error (.routeNotFound id) => .ok (Failure.routeNotFound id).message
  | .error e => .error e
  | .ok flow =>
    .ok (page
      [[flow.route.method ++ " " ++ flow.route.path ++ "  (" ++ ofNat flow.nodes.length
          ++ " nodes, " ++ ofNat flow.edges.length ++ " edges)\n"],
       flow.nodes.map fun n => "  [" ++ n.kind.text ++ "] " ++ n.name ++ "  " ++ nodePlace n,
       ["\nEdges:"],
       flow.edges.map fun e => indented (edgeLabel flow.nodes e)])

/-- The summary of where the program starts. -/
def mainFlow (d : Disk) (project : Text) : Answer := do
  let flow ← (projectAt d project).mainFlow
  .ok (page
    [["Main file:   " ++ orNone flow.mainFile,
      "Router file: " ++ orNone flow.routerFile,
      "\nHandlers (" ++ ofNat flow.handlers.length ++ "):"],
     flow.handlers.map indented,
     ["\nMiddlewares (" ++ ofNat flow.middlewares.length ++ "):"],
     flow.middlewares.map indented,
     titled "Routes" flow.routes.length
       (flow.routes.map fun r => "  ALL " ++ r.path ++ " → " ++ r.handler)])

/-- What a path means in a project. -/
def resolveFile (d : Disk) (path project : Text) : Answer :=
  Project.resolvePath d path (d.resolvedText (.ofText project))

end GoSurvey.Tool
