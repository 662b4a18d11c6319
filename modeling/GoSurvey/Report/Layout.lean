/-
How single things are written on a line of a report, in one place for
all reports that share the wording.
-/
import GoSurvey.CallGraph.Report
import GoSurvey.Decimal.Fixed
import GoSurvey.Project.Totals
import GoSurvey.Flow.Basic

namespace GoSurvey.Report

open Text

/-- The width of the line number in a listing. -/
def lineWidth : Nat := 5

/-- A line number in a listing. -/
def lineTag (line : Nat) : Text := 'L' :: padRight lineWidth (ofNat line)

/-- A file and a line. -/
def place (file : Text) (line : Nat) : Text := file ++ ":" ++ ofNat line

/-- The name of a package, or a question mark. -/
def packageLabel (s : FileStructure) : Text :=
  s.file ++ "  (package " ++ orElse s.package "?" ++ ")"

/-- The path of an import in quotes, its name before it. -/
def importLabel (d : ImportDecl) : Text :=
  enclose [] d.importedAs " " ++ "\"" ++ d.path ++ "\""

/-- A struct with the number of its fields. -/
def structLabel (d : StructDecl) : Text := d.name ++ "  (" ++ ofNat d.fields.length ++ " fields)"

/-- An interface with the number of its methods. -/
def interfaceLabel (d : InterfaceDecl) : Text :=
  d.name ++ "  (" ++ ofNat d.methods.length ++ " methods)"

/-- A receiver in parentheses, the name and the parameters of a function. -/
def functionLabel (d : FunctionDecl) : Text :=
  enclose "(" d.receiver ") " ++ d.name ++ "("
    ++ join ", " (d.parameters.map fun p => trim (p.name ++ " " ++ p.type)) ++ ")"

/-- The totals of an analysis, one a line. -/
def countLines (c : ElementCounts) : List Text :=
  ["Files:      " ++ ofNat c.files,
   "Imports:    " ++ ofNat c.imports,
   "Types:      " ++ ofNat c.types,
   "Constants:  " ++ ofNat c.constants,
   "Variables:  " ++ ofNat c.packageVars,
   "Functions:  " ++ ofNat c.functions,
   "Structs:    " ++ ofNat c.structs,
   "Interfaces: " ++ ofNat c.interfaces]

/-- The groups of repeated symbols in the order of their keys. -/
def sortedGroups (groups : List (Text × List ProjectSymbol)) : List (Text × List ProjectSymbol) :=
  groups.mergeSort fun a b => le a.1 b.1

/-- The function that makes a call, or a stand-in for calls outside all functions. -/
def callerLabel (c : FunctionCall) : Text := orElse c.caller "(top level)"

/-- Where the function is that a call reaches. -/
def targetPlace (c : FunctionCall) : Text :=
  place (c.targetFile.getD []) (c.targetLine.getD 0)

/-- An id without its file. -/
def shortId (id : Text) : Text := lastPieceOfText "::" id

/-- The members of a cycle. -/
def cycleLabel (cycle : List Text) : Text := join " ↔ " (cycle.map shortId)

/-- The functions on a path. -/
def pathLabel (path : List Text) : Text := join " → " (path.map shortId)

/-- Paths with their numbers, from `number` on. -/
def pathLines : (number : Nat) → List (List Text) → List Text
  | _, [] => []
  | number, path :: rest =>
    ("  Path " ++ ofNat number ++ ": " ++ pathLabel path) :: pathLines (number + 1) rest

/-- A route in a table. -/
def routeRow (r : Route) : Text :=
  padRight 7 r.method ++ " " ++ padRight 35 r.path ++ " " ++ padRight 30 r.handler ++ " "
    ++ place r.file r.line

/-- Where a node is. -/
def nodePlace (n : FlowNode) : Text :=
  match n.line with
  | some (line + 1) => place n.file (line + 1)
  | _ => n.file

/-- The name of the node with an id; of several the last. -/
def nodeName (nodes : List FlowNode) (id : Text) : Text :=
  ((nodes.reverse.find? (·.id == id)).map (·.name)).getD id

/-- An edge between the names of its ends. -/
def edgeLabel (nodes : List FlowNode) (e : FlowEdge) : Text :=
  nodeName nodes e.source ++ " → " ++ nodeName nodes e.target ++ "  ("
    ++ join ", " (e.dataType :: e.transformation.toList) ++ ")"

/-- A text, or a stand-in for one that is missing. -/
def orNone (t : Text) : Text := orElse t "(none)"

/-- A text with two blanks before it. -/
def indented (t : Text) : Text := "  " ++ t

/-- A text of several groups of lines. -/
def page (groups : List (List Text)) : Text := joinLines groups.flatten

end GoSurvey.Report
