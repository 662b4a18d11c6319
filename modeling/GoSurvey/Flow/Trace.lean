/-
Tracing the data flow of a route. From the handler on, every call in the
body of a function becomes a node, once for each name and part, and an
edge; a node that is found in the project is traced in its turn.

A function is traced once: the files and names that have been traced are
part of the state, and there are only so many of them, which is what
bounds the depth of the tracing.
-/
import GoSurvey.Flow.Lookup

namespace GoSurvey.Flow

open Text Source

/-- What tracing looks into, with `ε` the reasons for which a project cannot be searched. -/
structure Library (ε : Type) where
  /-- The files of the project as paths and contents. -/
  files : Except ε (List (Text × Text))
  /-- The text of the file at a path relative to the root. -/
  read : Text → Option Text

namespace Library

variable {ε : Type}

/-- The first result that a search of the files gives. -/
def findSome? {α : Type} (lib : Library ε) (f : (content file : Text) → Option α) :
    Except ε (Option α) :=
  lib.files.map fun fs => fs.findSome? fun (file, content) => f content file

/-- The first function or method of a name. -/
def function? (lib : Library ε) (name : Text) : Except ε (Option FunctionSource) :=
  lib.findSome? fun content file => findFunction? content name file

/-- The first struct of a name. -/
def struct? (lib : Library ε) (name : Text) : Except ε (Option StructSource) :=
  lib.findSome? fun content file => findStruct? content name file

end Library

/-- The file of nodes outside the project. -/
def externalFile : Text := "external"

/-- The file of nodes that cannot be found. -/
def unknownFile : Text := "unknown"

/-- The name after the last dot. -/
def leafName (name : Text) : Text := lastPiece '.' name

-- ============================================================== nodes

/-- The node of a route. -/
def routeNode (r : Route) : FlowNode :=
  { id := "route-" ++ r.id
    kind := .route
    name := r.method ++ " " ++ r.path
    file := r.file
    line := some r.line
    content := r.snippet
    detail := some (.route (routeParameters r.path)) }

/-- The length up to which the body of a handler is shown. -/
def handlerExcerpt : Nat := 300

/-- The length from which the body of a handler says enough. -/
def handlerMinimum : Nat := 20

/-- What is shown of a handler: its body or, if there is little of it, its signature. -/
def handlerContent (name : Text) (source : FunctionSource) : Text :=
  let shown :=
    if handlerExcerpt < source.body.length then source.body.take handlerExcerpt ++ "..."
    else source.body
  if shown.length < handlerMinimum then
    trimEnd ("func " ++ name ++ "(" ++ source.params ++ ") " ++ source.returns)
  else shown

/-- The node of a handler that was found. -/
def handlerNode (r : Route) (source : FunctionSource) : FlowNode :=
  { id := "handler-" ++ r.handler
    kind := .handler
    name := r.handler
    file := source.file
    line := some source.line
    content := handlerContent r.handler source
    detail := some (.handler (parameterNames source.params) source.returns) }

/-- The node of a handler of which only the registration is known, and perhaps the line of the
variable that holds it. -/
def stubHandler (r : Route) (variableLine : Option Nat) : FlowNode :=
  { id := "handler-" ++ r.handler
    kind := .handler
    name := r.handler
    file := r.file
    line := some (variableLine.getD r.line)
    content := orElse r.snippet ("Handler: " ++ r.handler) }

/-- The node of a handler: looked for in the file of the registration, there also as a variable,
and then in the whole project. -/
def findHandler {ε : Type} (lib : Library ε) (r : Route) : Except ε FlowNode := do
  let content := lib.read r.file
  match content.bind fun c => findFunction? c r.handler r.file with
  | some source => .ok (handlerNode r source)
  | none =>
    match content.bind fun c => variableLine? c r.handler with
    | some line => .ok (stubHandler r (some line))
    | none =>
      match ← lib.function? r.handler with
      | some source => .ok (handlerNode r source)
      | none => .ok (stubHandler r none)

/-- The node of a call that leads out of the project. -/
def externalNode (call : BodyCall) (kind : NodeKind) (id : Text) : FlowNode :=
  { id := id
    kind := kind
    name := call.name
    file := externalFile
    content := call.context
    detail := some (.call (callArguments call.context)) }

/-- The node of a call that nothing is known about. -/
def unknownNode (call : BodyCall) (kind : NodeKind) (id : Text) : FlowNode :=
  { id := id, kind := kind, name := call.name, file := unknownFile, content := call.context }

/-- The length up to which the body of a called function is shown. -/
def bodyExcerpt : Nat := 150

/-- The name of the type in the first result, without stars and brackets. -/
def resultTypeName (source : FunctionSource) : Text :=
  (trim (before "," source.returns)).dropWhile fun c => c == '*' || c == '[' || c == ']'

/-- The struct that a constructor of transferred objects is about: the one of its name, or else
the one of its result. -/
def structOf? {ε : Type} (lib : Library ε) (leaf : Text) (source : FunctionSource) :
    Except ε (Option StructSource) := do
  match ← lib.struct? leaf with
  | some s => .ok (some s)
  | none =>
    let name := resultTypeName source
    if Declaration.isWordText name then lib.struct? name else .ok none

/-- What is shown of a called function, and what is known about it. -/
def foundContent {ε : Type} (lib : Library ε) (leaf : Text) (kind : NodeKind)
    (source : FunctionSource) : Except ε (Text × Option NodeDetail) := do
  match kind with
  | .dto =>
    let text := ((← structOf? lib leaf source).map (·.source)).getD source.body
    .ok (fieldsText text, some (.dto (fieldNames text)))
  | .database =>
    let query := databaseQuery source.body
    .ok (query, some (.database query (tableName? query)))
  | _ => .ok (source.body.take bodyExcerpt ++ "...", none)

/-- The node of a call to a function that was found. -/
def functionNode (call : BodyCall) (kind : NodeKind) (id : Text) (source : FunctionSource)
    (content : Text) (detail : Option NodeDetail) : FlowNode :=
  { id := id
    kind := kind
    name := call.name
    file := source.file
    line := some source.line
    content := content
    detail := detail }

/-- The node of a call that names a struct. -/
def structNode (call : BodyCall) (kind : NodeKind) (id : Text) (s : StructSource) : FlowNode :=
  { id := id
    kind := kind
    name := call.name
    file := s.file
    line := some s.line
    content := fieldsText s.source
    detail := some (.dto (fieldNames s.source)) }

/-- The struct that a call names; only calls about transferred objects are taken to name one. -/
def structFor? {ε : Type} (lib : Library ε) (kind : NodeKind) (leaf : Text) :
    Except ε (Option StructSource) :=
  if kind = .dto then lib.struct? leaf else .ok none

/-- The node of a call to something that is not found as a function. -/
def otherNode (call : BodyCall) (kind : NodeKind) (id : Text) : Option StructSource → FlowNode
  | some s => structNode call kind id s
  | none =>
    if List.elem '.' call.name then externalNode call kind id else unknownNode call kind id

/-- The node of a call, found in the project where possible. -/
def callNode {ε : Type} (lib : Library ε) (call : BodyCall) (kind : NodeKind) (id : Text) :
    Except ε FlowNode := do
  if kind = .external then .ok (externalNode call kind id)
  else
    let leaf := leafName call.name
    match ← lib.function? leaf with
    | some source =>
      (foundContent lib leaf kind source).map fun (content, detail) =>
        functionNode call kind id source content detail
    | none => (structFor? lib kind leaf).map (otherNode call kind id)

-- ============================================================ tracing

/-- A function as a trace looks for it: a name without qualifiers in the file at a path. -/
structure Visit where
  file : Text
  leaf : Text
  deriving DecidableEq, Repr

/-- The text that marks a function as traced. -/
def Visit.key (v : Visit) : Text := v.file ++ ":" ++ v.leaf

/-- A function that has been traced: the body that was read for a node. -/
structure Expansion where
  /-- The id of the node. -/
  node : Text
  visit : Visit
  source : FunctionSource
  deriving DecidableEq, Repr

/-- How far a trace has come. -/
structure Trace where
  nodes : List FlowNode
  edges : List FlowEdge
  /-- The functions that have been looked for, the last one first. -/
  visits : List Visit := []
  /-- Those of them that were found, in the order in which they were. -/
  expansions : List Expansion := []

namespace Trace

/-- The node of a name and a part, if there is one already. -/
def findNode? (t : Trace) (name : Text) (kind : NodeKind) : Option FlowNode :=
  t.nodes.find? fun n => n.name == name && n.kind == kind

/-- The id of a new node. -/
def newId (t : Trace) (call : BodyCall) (kind : NodeKind) : Text :=
  kind.text ++ "-" ++ call.name ++ "-" ++ ofNat t.nodes.length

/-- Adds an edge to a node that is there. -/
def link (t : Trace) (source : Text) (target : FlowNode) (call : BodyCall) : Trace :=
  { t with edges := t.edges ++ [⟨source, target.id, dataTypeOf call.context, none⟩] }

/-- Adds a node and the edge to it. -/
def grow (t : Trace) (source : Text) (node : FlowNode) (call : BodyCall) : Trace :=
  { t with
    nodes := t.nodes ++ [node]
    edges := t.edges ++ [⟨source, node.id, dataTypeOf call.context, call.transformation⟩] }

/-- Whether a function has been looked for. -/
def hasSeen (t : Trace) (v : Visit) : Bool := t.visits.any (·.key == v.key)

/-- Notes that a function is looked for. -/
def see (t : Trace) (v : Visit) : Trace := { t with visits := v :: t.visits }

/-- Notes that a function has been found. -/
def expand (t : Trace) (e : Expansion) : Trace := { t with expansions := t.expansions ++ [e] }

/-- Whether a node is in a file that can be looked into. -/
def isTraceable (node : FlowNode) : Bool := node.file != externalFile && node.file != unknownFile

/-- The function that a visit finds. -/
def bodyOf? {ε : Type} (lib : Library ε) (v : Visit) : Option FunctionSource :=
  (lib.read v.file).bind fun content => findFunction? content v.leaf v.file

/-- Traces a call; `next` traces the function that it reaches. -/
def followCall {ε : Type} (lib : Library ε)
    (next : Trace → (file name source : Text) → Except ε Trace) (source : Text) (t : Trace)
    (call : BodyCall) : Except ε Trace := do
  let kind := kindOf call.name call.context
  match t.findNode? call.name kind with
  | some node => .ok (t.link source node call)
  | none =>
    let node ← callNode lib call kind (t.newId call kind)
    let grown := t.grow source node call
    if isTraceable node then next grown node.file node.name node.id else .ok grown

/-- Traces the calls of a function of a file, the node of which has the id `source`, unless it has
been traced; `fuel` bounds the depth. -/
def follow {ε : Type} (lib : Library ε) :
    (fuel : Nat) → Trace → (file name source : Text) → Except ε Trace
  | 0, t, _, _, _ => .ok t
  | fuel + 1, t, file, name, source =>
    let visit : Visit := ⟨file, leafName name⟩
    if t.hasSeen visit then .ok t
    else
      match bodyOf? lib visit with
      | none => .ok (t.see visit)
      | some found =>
        (bodyCalls found.body).foldlM (followCall lib (follow lib fuel) source)
          ((t.see visit).expand ⟨source, visit, found⟩)

/-- The paths of the files that may be looked into: that of the handler and those of the
project. -/
def readableFiles {ε : Type} (lib : Library ε) (file : Text) : List Text :=
  match lib.files with
  | .error _ => [file]
  | .ok fs => file :: fs.map (·.1)

/-- The number of parts of a text, told apart by where they start and how long they are. -/
def partCount (t : Text) : Nat := (t.length + 1) * (t.length + 1)

/-- A bound on the number of functions that can be looked for: every one of them is in a readable
file, and its name is that of the handler or a part of a readable file. -/
def depthBound {ε : Type} (lib : Library ε) (file : Text) : Nat :=
  let files := readableFiles lib file
  let parts := (files.map fun f => partCount ((lib.read f).getD [])).foldr (· + ·) 0
  files.length * (parts + 1) + 1

/-- The trace of a route and its handler before any function is looked for. -/
def start (r : Route) (handler : FlowNode) : Trace :=
  let first := routeNode r
  { nodes := [first, handler], edges := [⟨first.id, handler.id, "HTTP Request", none⟩] }

end Trace

/-- The state of a trace whose route and handler are known, and the functions traced from there. -/
def traceFrom {ε : Type} (lib : Library ε) (r : Route) (handler : FlowNode) : Except ε Trace :=
  Trace.follow lib (Trace.depthBound lib handler.file) (Trace.start r handler)
    handler.file handler.name handler.id

/-- The data flow of a route. -/
def trace {ε : Type} (lib : Library ε) (r : Route) : Except ε DataFlow := do
  let handler ← findHandler lib r
  let t ← traceFrom lib r handler
  .ok ⟨r, t.nodes, t.edges⟩

end GoSurvey.Flow
