/-
Function bodies. The braces after a signature need not be those of the
body: a result may be a struct or interface type written out. Such a
group is recognised by the keyword before its brace and stepped over.
-/
import GoSurvey.Source.Delimiter
import GoSurvey.Source.Position
import GoSurvey.Text.Pattern

namespace GoSurvey.Source

open Text Pattern

/-- The end of a text that makes a brace after it the brace of a type. -/
def typeKeywordEnd : Pattern := wordEdge ++ oneOf ["interface", "struct"] ++ blanks ++ Pattern.atEnd

/-- How much of the text before a brace is searched for the keyword of a type. -/
def typeKeywordWindow : Nat := 16

/-- Whether the brace at an offset belongs to a type, in a signature that starts at `start`. -/
def opensType (text : Text) (start offset : Nat) : Bool :=
  typeKeywordEnd.occursIn (slice text (max start (offset - typeKeywordWindow)) offset)

/-- The first brace at `position` or after it that opens a balanced group and is not the brace of
a type; each round steps over a group, and `fuel` bounds the rounds. -/
def findBodyOpenFrom (text : Text) (start : Nat) : (fuel position : Nat) → Option Nat
  | 0, _ => none
  | fuel + 1, position =>
    match findMatching? braces text position with
    | none => none
    | some (opener, closer) =>
      if opensType text start opener then findBodyOpenFrom text start fuel (closer + 1)
      else some opener

/-- The offset of the brace that opens a function body at `start` or after it. -/
def findBodyOpen? (text : Text) (start : Nat) : Option Nat :=
  findBodyOpenFrom text start (text.length + 1) start

/-- The trimmed text between the braces of a function body; empty where there is none. -/
def functionBody (text : Text) (start : Nat) : Text :=
  match findBodyOpen? text start with
  | none => []
  | some position =>
    match findMatching? braces text position with
    | none => []
    | some (opener, closer) => trim (slice text (opener + 1) closer)

end GoSurvey.Source
