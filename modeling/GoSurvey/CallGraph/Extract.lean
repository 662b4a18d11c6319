/-
Functions and calls in the text of one file. Signatures are looked for
in the whole text, calls line by line; the function a call belongs to is
that of the nearest signature line above it.
-/
import GoSurvey.CallGraph.Basic
import GoSurvey.Declaration.Structure

namespace GoSurvey.CallGraph

open Text Source Pattern

-- ===================================================== known names

/-- Functions that the language brings along. -/
def builtins : List Text :=
  ["make", "len", "cap", "append", "copy", "delete", "close", "panic", "recover", "print",
   "println", "new", "complex", "real", "imag", "min", "max", "clear"]

/-- Keywords that may stand before a parenthesis. -/
def keywords : List Text :=
  ["if", "for", "switch", "select", "go", "defer", "return", "break", "continue", "func", "range",
   "case", "else", "var", "const", "type"]

/-- Types whose names convert a value. -/
def conversions : List Text :=
  ["string", "int", "int8", "int16", "int32", "int64", "uint", "uint8", "uint16", "uint32",
   "uint64", "uintptr", "float32", "float64", "byte", "rune", "bool", "error", "any", "complex64",
   "complex128"]

/-- Packages whose calls are of no interest. -/
def ignoredPackages : List Text := ["fmt.", "log.", "strconv.", "strings."]

/-- Whether a called name is no function of a project. -/
def isBuiltinOrKeyword (name : Text) : Bool :=
  builtins.contains name || keywords.contains name || conversions.contains name
    || ignoredPackages.any (startsWith · name)

-- ======================================================== functions

/-- Spaces and tabs. -/
def gap : Pattern := run fun c => c == ' ' || c == '\t'

/-- Spaces and tabs, at least one. -/
def gap1 : Pattern := run1 fun c => c == ' ' || c == '\t'

/-- A text in parentheses without a closing one inside. -/
def parenthesized (index : Nat) : Pattern := "(" ++ group index (run (except ')')) ++ ")"

/-- A single result type. -/
def resultType : Pattern :=
  optional "*" ++ run1 Declaration.isQualified
    ++ optional ("[" ++ run1 Declaration.isQualified ++ "]")

/-- A signature: receiver, name, parameters, and results in parentheses or a single one. -/
def signature : Pattern :=
  lineStart ++ "func" ++ gap1 ++ optional (parenthesized 1 ++ gap) ++ group 2 word ++ gap
    ++ Declaration.typeParameters ++ gap ++ parenthesized 3
    ++ optional (choice (gap ++ parenthesized 4) (gap ++ group 5 resultType))

/-- The name of a parameter, or a stand-in for that of an anonymous one. -/
def parameterName (part : Text) : Text :=
  match words part with
  | name :: _ :: _ => name
  | _ => "param"

/-- The functions with a signature in the text, in source order. -/
def functionsIn (content file package : Text) : List FunctionDef :=
  (signature.findAll content).map fun m =>
    { name := m.group 2
      file := file
      line := lineAt content m.start
      package := package
      params := (splitTopLevel ',' (m.group 3)).map parameterName
      returns := ((splitOn ',' ((m.group? 4).getD (m.group 5))).map trim).filter (!·.isEmpty)
      receiver := trim (m.group 1) }

-- ============================================================ calls

/-- A line with a signature. -/
def signatureLine : Pattern :=
  atStart ++ "func" ++ blanks1 ++ optional ("(" ++ run (except ')') ++ ")" ++ blanks)
    ++ group 1 word ++ blanks ++ one fun c => c == '[' || c == '('

/-- A called name, which may have one qualifier, and the parenthesis after it. -/
def callSite : Pattern := group 1 (word ++ optional ("." ++ word)) ++ blanks ++ "("

/-- The names called in one line. -/
def calledIn (line : Text) : List Text :=
  ((callSite.findAll (stripLineComment line)).map (·.group 1)).filter (!isBuiltinOrKeyword ·)

/-- The calls in lines of which the first has a number and lies in the function `current`. -/
def callsFrom (file package : Text) :
    (current : Text) → (number : Nat) → List Text → List FunctionCall
  | _, _, [] => []
  | current, number, line :: rest =>
    match signatureLine.matchStart line with
    | some m => callsFrom file package (m.group 1) (number + 1) rest
    | none =>
      (calledIn line).map (fun called => ⟨current, file, number, called, package, none, none⟩)
        ++ callsFrom file package current (number + 1) rest

/-- The calls in the text, in source order. A signature line is not searched for calls. -/
def callsIn (content file package : Text) : List FunctionCall :=
  callsFrom file package [] 1 (lines content)

/-- The functions and calls of one file. -/
def ofFile (content file : Text) : CallGraph :=
  let package := Declaration.packageName content
  ⟨functionsIn content file package, callsIn content file package⟩

end GoSurvey.CallGraph
