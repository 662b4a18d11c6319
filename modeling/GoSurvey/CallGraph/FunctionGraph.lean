/-
The graph of functions: an edge for every resolved call from inside a
function, from the function whose definition encloses the call to the
function it reaches.

The enclosing definition is the last one of the file that starts at the
line of the call or before it, so that methods of one name on several
types stay apart.
-/
import GoSurvey.CallGraph.Basic
import GoSurvey.Digraph.Basic

namespace GoSurvey

open Text

/-- A function as a node, with the functions it calls and the line of the last call to each. -/
structure FunctionNode where
  id : Text
  name : Text
  qualified : Text
  file : Text
  line : Nat
  package : Text
  callees : List (Text × Nat) := []
  deriving DecidableEq, Repr

/-- The functions of a project and who calls whom. -/
structure FunctionGraph where
  nodes : List FunctionNode := []
  deriving DecidableEq, Repr

/-- The node of a function without calls, if the function has an id. -/
def FunctionNode.ofFunction? (f : FunctionDef) : Option FunctionNode := do
  let qualified ← f.qualifiedName?
  let id ← f.id?
  some ⟨id, f.name, qualified, f.file, f.line, f.package, []⟩

namespace FunctionGraph

/-- Adds a node. A node of the same id gives way to it and leaves it its place and its calls. -/
def addNode (node : FunctionNode) : List FunctionNode → List FunctionNode
  | [] => [node]
  | first :: rest =>
    if first.id = node.id then { node with callees := first.callees } :: rest
    else first :: addNode node rest

/-- Notes a call. A repeated call keeps its place and takes the later line. -/
def addCallee (target : Text) (line : Nat) : List (Text × Nat) → List (Text × Nat)
  | [] => [(target, line)]
  | (id, old) :: rest =>
    if id = target then (target, line) :: rest else (id, old) :: addCallee target line rest

/-- Adds an edge from one node to another. -/
def addEdge (source target : Text) (line : Nat) (nodes : List FunctionNode) : List FunctionNode :=
  nodes.map fun node =>
    if node.id = source then { node with callees := addCallee target line node.callees } else node

/-- The order of definitions by line and then by id. -/
def startsBefore (a b : FunctionNode) : Bool :=
  decide (a.line < b.line) || (a.line == b.line && le a.id b.id)

/-- The later of the best definition so far and another one. -/
def later (best : Option FunctionNode) (d : FunctionNode) : Option FunctionNode :=
  match best with
  | none => some d
  | some b => if startsBefore b d then some d else some b

/-- The last of the definitions of a file that start at a line or before it. -/
def enclosing? (definitions : List FunctionNode) (file : Text) (line : Nat) :
    Option FunctionNode :=
  let above := definitions.filter fun d => d.file == file && decide (d.line ≤ line)
  above.foldl later none

/-- The last of the definitions at a place. -/
def definedAt? (definitions : List FunctionNode) (file : Text) (line : Nat) :
    Option FunctionNode :=
  definitions.reverse.find? fun d => d.file == file && d.line == line

/-- The ends of the edge that a call makes. A call outside all functions makes none. -/
def edgeOf? (definitions : List FunctionNode) (c : FunctionCall) : Option (Text × Text) := do
  let file ← c.targetFile
  if c.caller.isEmpty then none
  let line ← c.targetLine
  let source ← enclosing? definitions c.file c.line
  let target ← definedAt? definitions file line
  some (source.id, target.id)

/-- Adds the edge that a call makes. -/
def addCall (definitions : List FunctionNode) (nodes : List FunctionNode) (c : FunctionCall) :
    List FunctionNode :=
  match edgeOf? definitions c with
  | some (source, target) => addEdge source target c.line nodes
  | none => nodes

/-- The graph of functions and calls; there is none if a function has no id. -/
def ofCallGraph? (g : CallGraph) : Option FunctionGraph := do
  let definitions ← g.functions.mapM FunctionNode.ofFunction?
  let nodes := definitions.foldl (fun nodes d => addNode d nodes) []
  some ⟨g.calls.foldl (addCall definitions) nodes⟩

/-- The directed graph of the ids. -/
def digraph (g : FunctionGraph) : Digraph Text :=
  ⟨g.nodes.map fun node => (node.id, node.callees.map (·.1))⟩

/-- The node with an id. -/
def node? (g : FunctionGraph) (id : Text) : Option FunctionNode := g.nodes.find? (·.id == id)

end FunctionGraph
end GoSurvey
