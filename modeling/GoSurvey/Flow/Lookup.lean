/-
Looking up functions, structs and calls in the text of a file, for the
tracing of flows.
-/
import GoSurvey.Flow.Classify
import GoSurvey.Source.Body
import GoSurvey.Declaration.Member

namespace GoSurvey.Flow

open Text Source Pattern

/-- A function found in a file, with its parts as written. -/
structure FunctionSource where
  file : Text
  line : Nat
  signature : Text
  params : Text
  returns : Text
  body : Text
  deriving DecidableEq, Repr

/-- What follows the name of a function. -/
def parameterListStart : Pattern := blanks ++ Declaration.typeParameters ++ blanks ++ "("

/-- The signature of a function of a name. -/
def functionNamed (name : Text) : Pattern :=
  lineStart ++ "func" ++ blanks1 ++ lit name ++ parameterListStart

/-- The signature of a method of a name. -/
def methodNamed (name : Text) : Pattern :=
  lineStart ++ "func" ++ blanks ++ "(" ++ run (except ')') ++ ")" ++ blanks ++ lit name
    ++ parameterListStart

/-- The result in the rest of a signature line, without parentheses around it. -/
def resultOf (tail : Text) : Text :=
  let result := trim (before "\x7b" (before [newline] tail))
  if startsWith "(" result && endsWith ")" result then trim (result.drop 1).dropLast else result

/-- The first function of a name in a text, or else the first method of that name. -/
def findFunction? (content name file : Text) : Option FunctionSource :=
  ([functionNamed name, methodNamed name].findSome? (·.search content)).map fun m =>
    let body := functionBody content m.start
    let line := lineAt content m.start
    match findMatching? parentheses content (m.stop - 1) with
    | some (opener, closer) =>
      { file := file
        line := line
        signature := slice content m.start (closer + 1)
        params := slice content (opener + 1) closer
        returns := resultOf (content.drop (closer + 1))
        body := body }
    | none =>
      { file := file, line := line, signature := m.text, params := [], returns := [], body := body }

/-- A struct found in a file. -/
structure StructSource where
  file : Text
  line : Nat
  source : Text
  deriving DecidableEq, Repr

/-- The head of a struct of a name. -/
def structNamed (name : Text) : Pattern :=
  lineStart ++ "type" ++ blanks1 ++ lit name ++ blanks1 ++ "struct" ++ blanks ++ "\x7b"

/-- The first struct of a name in a text, up to its closing brace or the end. -/
def findStruct? (content name file : Text) : Option StructSource :=
  ((structNamed name).search content).map fun m =>
    let stop :=
      match findMatching? braces content m.start with
      | some (_, closer) => closer + 1
      | none => content.length
    ⟨file, lineAt content m.start, slice content m.start stop⟩

/-- The line of a variable of a name that is set where it is declared. -/
def variableLine? (content name : Text) : Option Nat :=
  (("var" ++ blanks1 ++ lit name ++ blanks ++ "=").search content).map (lineAt content ·.start)

/-- A call in the body of a function. -/
structure BodyCall where
  name : Text
  /-- The line of the call, trimmed. -/
  context : Text
  /-- The number of the line in the body. -/
  line : Nat
  transformation : Option Text
  deriving DecidableEq, Repr

/-- A called name with any number of qualifiers, and the parenthesis after it. -/
def bodyCallSite : Pattern := group 1 (word ++ repeated ("." ++ word)) ++ blanks ++ "("

/-- The calls in lines of a body of which the first has a number. -/
def bodyCallsFrom : (number : Nat) → List Text → List BodyCall
  | _, [] => []
  | number, line :: rest =>
    let context := trim line
    let names :=
      if startsWith "//" context then []
      else ((bodyCallSite.findAll line).map (·.group 1)).filter (!isUntraced ·)
    names.map (fun name => ⟨name, context, number, transformationOf? line⟩)
      ++ bodyCallsFrom (number + 1) rest

/-- The calls in a body that a flow follows. -/
def bodyCalls (body : Text) : List BodyCall := bodyCallsFrom 1 (lines body)

end GoSurvey.Flow
