/-
Specs of `const`, `var` and `type`. A keyword is followed by one spec, or
by a group of specs in parentheses, on one line or on several. A spec of
a group may itself extend over several lines, when its first line ends
in a brace or leaves a parenthesis open.
-/
import GoSurvey.Declaration.Comment
import GoSurvey.Source.Block
import GoSurvey.Text.Pattern

namespace GoSurvey.Declaration

open Text Source Pattern

/-- One spec without its keyword. -/
structure Spec where
  line : Nat
  text : Text
  comments : List Text
  deriving DecidableEq, Repr

/-- The first line of a spec. -/
def Spec.head (s : Spec) : Text := before [newline] s.text

/-- The specs of a group on one line, given from the keyword on. -/
def inlineSpecs (number : Nat) (first : Text) : List Spec :=
  let inside := ((cut? "(" first).map (·.2)).getD []
  let parts := (splitOn ';' (trim (dropEndWhile (· == ')') inside))).map trim
  (parts.filter (!·.isEmpty)).map fun part => ⟨number, part, []⟩

/-- The delimiters a spec leaves open at the end of its first line, if it leaves any. -/
def openDelimiters? (line : Text) : Option Delimiters :=
  if endsWith "\x7b" line then some braces
  else if hasUnbalanced parentheses line then some parentheses
  else none

/-- The specs in the lines of a group after its first, up to the line with the index `last`. The
first line has the index `index`, and `skip` lines belong to the spec before. -/
def specsFrom (lines : List Text) (last : Nat) :
    (skip : Nat) → List Text → (index : Nat) → List Spec
  | _, [], _ => []
  | skip + 1, _ :: rest, index => specsFrom lines last skip rest (index + 1)
  | 0, raw :: rest, index =>
    let line := trim raw
    if index = last && startsWith ")" line then []
    else if line.isEmpty || startsWith lineMark line then specsFrom lines last 0 rest (index + 1)
    else
      match openDelimiters? line with
      | some d =>
        let stop := blockEnd d lines index
        ⟨index + 1, trim (linesText lines index stop), leadingComments lines index⟩
          :: specsFrom lines last (stop - index) rest (index + 1)
      | none =>
        ⟨index + 1, line, leadingComments lines index⟩ :: specsFrom lines last 0 rest (index + 1)

/-- A keyword that opens a group. -/
def groupOpen (keyword : Text) : Pattern := atStart ++ lit keyword ++ blanks ++ "("

/-- A keyword and the blanks after it. -/
def keywordBlanks (keyword : Text) : Pattern := atStart ++ lit keyword ++ blanks1

/-- A text without the match of a pattern at its start. -/
def dropMatch (p : Pattern) (t : Text) : Text :=
  match p.matchStart t with
  | some m => t.drop m.stop
  | none => t

/-- The specs after a keyword in the line of an index, and the index of the last line they take. -/
def groupSpecs (keyword : Text) (lines : List Text) (index : Nat) : List Spec × Nat :=
  let first := trim (lines[index]?.getD [])
  if ((groupOpen keyword).matchStart first).isNone then
    ([⟨index + 1, dropMatch (keywordBlanks keyword) first, leadingComments lines index⟩], index)
  else
    let last := blockEnd parentheses lines index
    if last = index then (inlineSpecs (index + 1) first, index)
    else
      (specsFrom lines last 0 ((lines.take (last + 1)).drop (index + 1)) (index + 1), last)

end GoSurvey.Declaration
