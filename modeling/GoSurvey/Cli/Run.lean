/-
What the commands print. A command is run on a disk and yields two texts
and an exit code; nothing else happens.
-/
import GoSurvey.Cli.Command
import GoSurvey.Json.Printer
import GoSurvey.Report.CallRecord
import GoSurvey.Report.FlowRecord
import GoSurvey.Report.Layout
import GoSurvey.Report.Tool

namespace GoSurvey.Cli

open Text Report

/-- What a command leaves behind. -/
structure Outcome where
  code : Nat
  stdout : Text
  stderr : Text
  deriving DecidableEq, Repr

/-- What a command leaves behind, or the reason why it stops short. -/
abbrev Result := Except Failure Outcome

/-- Lines, each with its end. -/
def printed (ls : List Text) : Text := ls.flatMap fun line => line ++ [newline]

/-- An exit code with lines on the standard output. -/
def out (code : Nat) (ls : List Text) : Outcome := ⟨code, printed ls, []⟩

/-- Failure with a line on the standard error output. -/
def complaint (line : Text) : Outcome := ⟨1, [], printed [line]⟩

/-- A value as JSON, or else lines. -/
def answer (json : Bool) (value : Json) (ls : List Text) : Outcome :=
  out 0 (if json then [value.render] else ls)

/-- The project of a scope. -/
def Scope.project (s : Scope) (d : Disk) : Project :=
  let config : Config := { root := d.resolvedText (.ofText s.path), respectIgnore := s.ignoreFile }
  ⟨d, if s.includeVendor then config.includeVendor else config⟩

/-- A declaration in a listing: the kind, the line, and what is said of it. -/
def listed (kind : Text) (line : Nat) (label : Text) : Text :=
  "  " ++ padRight 9 kind ++ " " ++ lineTag line ++ " " ++ label

/-- The lines that list the declarations of a file. -/
def structureLines (s : FileStructure) : List Text :=
  List.flatten
  [[packageLabel s],
   s.imports.map fun d => listed "import" d.line (importLabel d),
   s.types.map fun d => listed "type" d.line (d.name ++ " " ++ d.type),
   s.constants.map fun d => listed "const" d.line (d.name ++ enclose " = " d.value []),
   s.packageVars.map fun d => trimEnd (listed "var" d.line (d.name ++ " " ++ d.type)),
   s.structs.map fun d => listed "struct" d.line (structLabel d),
   s.interfaces.map fun d => listed "interface" d.line (interfaceLabel d),
   s.functions.map fun d =>
     trimEnd (listed "func" d.line (functionLabel d ++ " " ++ d.returnType))]

/-- A definition as JSON or on three lines. -/
def printSymbol (json : Bool) (s : Symbol.SymbolInfo) : Outcome :=
  answer json s.record
    [upper s.kind.text ++ "  " ++ s.name,
     "  file:      " ++ place s.file s.line,
     "  signature: " ++ s.signature]

/-- The lines about the functions and resolved calls of a project. -/
def callGraphLines (g : CallGraph) : List Text :=
  let resolved := g.calls.filter (·.resolved)
  ("Functions: " ++ ofNat g.functions.length)
    :: ("Calls:     " ++ ofNat g.calls.length ++ "  (resolved " ++ ofNat resolved.length ++ ")\n")
    :: resolved.map fun c =>
      "  " ++ callerLabel c ++ " → " ++ c.called ++ "  (" ++ place c.file c.line ++ " → "
        ++ targetPlace c ++ ")"

/-- The lines about the conspicuous parts of a call graph. -/
def patternLines (r : PatternReport) : List Text :=
  List.flatten
  [["=== Call Graph Patterns ===\n",
    "Orphans — zero connections (" ++ ofNat r.orphans.length ++ "):"],
   r.orphans.map indented,
   ["\nRecursion Cycles (" ++ ofNat r.cycles.length ++ "):"],
   r.cycles.map fun cycle => indented (cycleLabel cycle),
   ["\nHub Files (most edges):"],
   r.hubFiles.map indented]

/-- A row of the table of busy functions. -/
def metricsRow (function betweenness inDegree outDegree : Text) : Text :=
  padRight 50 function ++ " " ++ padLeft 11 betweenness ++ " " ++ padLeft 4 inDegree ++ " "
    ++ padLeft 4 outDegree

/-- The table of busy functions. -/
def metricsLines (ms : List FunctionMetrics) : List Text :=
  metricsRow "function" "betweenness" "in" "out" :: ms.map fun m =>
    metricsRow m.id (Decimal.fixed 3 m.betweenness) (ofNat m.inDegree) (ofNat m.outDegree)

/-- The lines about a data flow. -/
def flowLines (flow : DataFlow) : List Text :=
  List.flatten
  [[flow.route.method ++ " " ++ flow.route.path ++ "\n"],
   flow.nodes.map fun n =>
     "  [" ++ padRight 10 n.kind.text ++ "] " ++ padRight 35 n.name ++ " " ++ nodePlace n,
   [[]],
   flow.edges.map fun e => indented (edgeLabel flow.nodes e)]

/-- The lines about where a program starts. -/
def mainFlowLines (flow : Route.MainFlow) : List Text :=
  ("Main file:   " ++ orNone flow.mainFile)
    :: ("Router file: " ++ orNone flow.routerFile)
    :: ("Handlers:    " ++ orNone (join ", " flow.handlers))
    :: ("Middlewares: " ++ orNone (join ", " flow.middlewares))
    :: flow.routes.map fun r => "  ALL " ++ r.path ++ " → " ++ r.handler

/-- The declarations of a file. -/
def runStructure (d : Disk) (file path : Text) (json : Bool) : Result := do
  let root := d.resolvedText (.ofText path)
  let found ← Project.resolvePath d file root
  if ← d.isFile (.ofText found) then
    let s := Project.fileStructure d found root
    .ok (answer json s.record (structureLines s))
  else .ok (complaint ("File not found: " ++ file))

/-- What is said where a server would start. -/
def notServed : Outcome := complaint "Serving is left to a server"

/-- Runs a command. -/
def run (d : Disk) : Command → Result
  | .structure file path json => runStructure d file path json
  | .project s => do
    let p := s.project d
    let a ← p.analysis
    .ok (answer s.json a.record (("Project:    " ++ p.config.root) :: countLines a.counts))
  | .duplicates s => do
    let groups ← (s.project d).duplicates
    .ok (answer s.json (duplicatesRecord groups)
      (if groups.isEmpty then ["No duplicate symbols"]
       else (sortedGroups groups).flatMap fun (key, symbols) =>
        key :: symbols.map fun x => indented (place x.file x.line)))
  | .definition file line column json => do
    match ← Project.definition? d (d.resolvedText (.ofText file)) line column none with
    | some s => .ok (printSymbol json s)
    | none =>
      .ok (out 1
        ["No definition found at " ++ file ++ ":" ++ ofInt line ++ ":" ++ ofInt column])
  | .symbol name s => do
    match ← (s.project d).symbol? name with
    | some info => .ok (printSymbol s.json info)
    | none => .ok (out 1 ["Symbol not found: " ++ name])
  | .usages name s => do
    let usages ← (s.project d).usages name
    .ok (answer s.json (.list Symbol.SymbolUsage.record usages)
      (usages.map fun u => place u.file u.line ++ "  " ++ u.code))
  | .callGraph s => do
    let g ← (s.project d).callGraph
    .ok (answer s.json g.record (callGraphLines g))
  | .patterns count s => do
    let r ← (s.project d).patterns count
    .ok (answer s.json r.record (patternLines r))
  | .callPath source target s => do
    let paths ← (s.project d).paths source target Tool.pathCount
    let code := if paths.isEmpty then 1 else 0
    if s.json then .ok (out code [(Json.list Json.texts paths).render])
    else if paths.isEmpty then
      .ok (out code ["No path found from " ++ source ++ " to " ++ target])
    else .ok (out code (pathLines 1 paths))
  | .bottlenecks count s => do
    let ms ← (s.project d).busiest count
    .ok (answer s.json (.list FunctionMetrics.record ms) (metricsLines ms))
  | .reachable function depth s => do
    let ids ← (s.project d).reachable function depth
    if s.json then .ok (out 0 [(Json.texts ids).render])
    else if ids.isEmpty then .ok (out 1 ["Nothing reachable from " ++ function])
    else .ok (out 0 (ids.map indented))
  | .routes s => do
    let routes ← (s.project d).routes
    .ok (answer s.json (.list Route.record routes)
      (routes.flatMap fun r => [routeRow r, "        id: " ++ r.id]))
  | .trace id s =>
    match (s.project d).trace id with
    | .error (.routeNotFound id) => .ok (complaint (Failure.routeNotFound id).message)
    | .error e => .error e
    | .ok flow => .ok (answer s.json flow.record (flowLines flow))
  | .resolve input path => do
    let resolved ← Project.resolvePath d input (d.resolvedText (.ofText path))
    let found ← d.present (.ofText resolved)
    .ok (out (if found then 0 else 1) [resolved])
  | .mainFlow s => do
    let flow ← (s.project d).mainFlow
    .ok (answer s.json flow.record (mainFlowLines flow))
  | .serve => .ok notServed
  | .api path => do
    if ← d.isDir (.ofNames (d.resolve (.ofText path))) then .ok notServed
    else .ok (complaint ("Not a directory: " ++ d.resolvedText (.ofText path)))

/-- The names of the commands, as help shows them. -/
def helpLines : List Text := "Commands:" :: commands.map fun c => indented c.name

/-- The exit code for words that make no command. -/
def unusableCode : Nat := 2

/-- Runs the command that words name. -/
def runWords (d : Disk) (words : List Text) : Result :=
  match parse words with
  | .ok command => run d command
  | .error .help => .ok (out 0 helpLines)
  | .error .unusable => .ok (⟨unusableCode, [], printed helpLines⟩)

end GoSurvey.Cli
