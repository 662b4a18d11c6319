/-
Parameter lists. Names that stand alone share the type of the next
parameter that has one, as in `a, b int`; where none follows, what
looked like names were types of anonymous parameters.
-/
import GoSurvey.Declaration.Basic
import GoSurvey.Source.Split
import GoSurvey.Text.Pattern

namespace GoSurvey.Declaration

open Text Source

/-- The words that begin a type and are therefore no parameter names. -/
def typeKeywords : List Text := ["chan", "map", "func", "struct", "interface"]

/-- Whether a text is one word. -/
def isWordText (t : Text) : Bool := !t.isEmpty && t.all isWord

/-- What one part of a parameter list looks like. -/
inductive ParameterPart where
  /-- A name and its type. -/
  | named (name type : Text)
  /-- A single word, which may be a name or a type. -/
  | bare (text : Text)
  /-- Anything else, which is a type. -/
  | type (text : Text)
  deriving DecidableEq, Repr

/-- Reads one part of a parameter list. -/
def ParameterPart.ofText (part : Text) : ParameterPart :=
  match firstWord? part with
  | some (name, some rest) =>
    if isWordText name && !typeKeywords.contains name then .named name (trim rest) else .type part
  | _ => if isWordText part then .bare part else .type part

/-- A parameter without a name. -/
def anonymous (type : Text) : Parameter := ⟨[], type⟩

/-- The parameters of parts that are preceded by `pending` bare words. -/
def assignTypes : (pending : List Text) → List ParameterPart → List Parameter
  | pending, [] => pending.map anonymous
  | pending, .bare text :: rest => assignTypes (pending ++ [text]) rest
  | pending, .named name type :: rest =>
    pending.map (⟨·, type⟩) ++ ⟨name, type⟩ :: assignTypes [] rest
  | pending, .type text :: rest => pending.map anonymous ++ anonymous text :: assignTypes [] rest

/-- The parameters of a list without its parentheses. -/
def parseParameters (params : Text) : List Parameter :=
  assignTypes [] ((splitTopLevel ',' params).map ParameterPart.ofText)

end GoSurvey.Declaration
