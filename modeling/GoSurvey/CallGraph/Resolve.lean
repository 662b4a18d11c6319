/-
Which function a call reaches. Functions are looked up by package and
name and, failing that, by name alone; of several the last one counts.
-/
import GoSurvey.CallGraph.Basic

namespace GoSurvey.CallGraph

open Text

/-- The last function with a property. -/
def lastWith (p : FunctionDef → Bool) (functions : List FunctionDef) : Option FunctionDef :=
  functions.reverse.find? p

/-- A package and a name as one key. -/
def qualifiedKey (package name : Text) : Text := package ++ "." ++ name

/-- The last function whose package and name make up a key. -/
def byQualified? (functions : List FunctionDef) (key : Text) : Option FunctionDef :=
  lastWith (fun f => qualifiedKey f.package f.name == key) functions

/-- The last function with a name. -/
def byName? (functions : List FunctionDef) (name : Text) : Option FunctionDef :=
  lastWith (·.name == name) functions

/-- The qualifier and the name of a called function; a bare name has the package of its file. -/
def qualifierAndName (c : FunctionCall) : Text × Text :=
  (cutLast? '.' c.called).getD (c.package, c.called)

/-- The function that a call reaches. -/
def target? (functions : List FunctionDef) (c : FunctionCall) : Option FunctionDef :=
  let (qualifier, name) := qualifierAndName c
  match byQualified? functions (qualifiedKey qualifier name) with
  | some f => some f
  | none => byName? functions name

/-- A call with the place of the function it reaches, if it reaches one. -/
def resolveCall (functions : List FunctionDef) (c : FunctionCall) : FunctionCall :=
  match target? functions c with
  | some f => { c with targetFile := some f.file, targetLine := some f.line }
  | none => c

/-- The graph with every call resolved that reaches a function. -/
def resolve (g : CallGraph) : CallGraph :=
  { g with calls := g.calls.map (resolveCall g.functions) }

/-- The graph of several files, resolved over all of them. -/
def ofGraphs (gs : List CallGraph) : CallGraph :=
  resolve ⟨gs.flatMap (·.functions), gs.flatMap (·.calls)⟩

end GoSurvey.CallGraph
