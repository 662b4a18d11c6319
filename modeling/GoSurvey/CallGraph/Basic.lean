/-
Functions and calls as the call graph knows them.

A function is named in three ways: by its bare name, by its qualified
name, which puts the type of the receiver before it, and by its id,
which puts the file before that. The last two need the type of the
receiver to be there: a receiver that consists of a type parameter list
alone has none, and then neither name exists.
-/
import GoSurvey.Text.Pattern

namespace GoSurvey

open Text

/-- A function or method with a signature. -/
structure FunctionDef where
  name : Text
  file : Text
  line : Nat
  package : Text
  params : List Text := []
  returns : List Text := []
  receiver : Text := []
  deriving DecidableEq, Repr

/-- A call; once resolved it knows where the function it calls is defined. -/
structure FunctionCall where
  /-- The function the call is in; empty outside all functions. -/
  caller : Text
  file : Text
  line : Nat
  /-- The called function as written. -/
  called : Text
  /-- The package of the calling file. -/
  package : Text
  targetFile : Option Text := none
  targetLine : Option Nat := none
  deriving DecidableEq, Repr

/-- Functions and calls of a project. -/
structure CallGraph where
  functions : List FunctionDef := []
  calls : List FunctionCall := []
  deriving DecidableEq, Repr

namespace FunctionDef

/-- A type parameter list up to the end of its line. -/
def typeParameterTail : Pattern := "[" ++ .run (· != newline) ++ .atEnd

/-- A receiver without its type parameters. -/
def plainReceiver (receiver : Text) : Text :=
  match typeParameterTail.search receiver with
  | some m => receiver.take m.start
  | none => receiver

/-- The type of the receiver, empty for a function without one; `none` if the receiver holds no
type. -/
def receiverType? (f : FunctionDef) : Option Text :=
  if f.receiver.isEmpty then some []
  else ((words (plainReceiver f.receiver)).getLast?).map (·.dropWhile (· == '*'))

/-- The name with the type of the receiver before it. -/
def qualifiedName? (f : FunctionDef) : Option Text :=
  f.receiverType?.map fun type => if type.isEmpty then f.name else type ++ "." ++ f.name

/-- The qualified name with the file before it. -/
def id? (f : FunctionDef) : Option Text :=
  f.qualifiedName?.map fun name => f.file ++ "::" ++ name

end FunctionDef

/-- Whether the function that a call reaches is known. -/
def FunctionCall.resolved (c : FunctionCall) : Bool := c.targetFile.isSome

end GoSurvey
