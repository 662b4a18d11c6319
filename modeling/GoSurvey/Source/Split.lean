/-
Cutting one line or one list of Go source: the code before a line
comment, and the parts between top-level separators.

Both know literals. In a string or character literal a backslash takes
the next character with it for `stripLineComment`; for `splitTopLevel` a
quote ends a literal unless a backslash stands directly before it.
-/
import GoSurvey.Source.Delimiter

namespace GoSurvey.Source

open Text

/-- The text before the first line comment outside literals, if there is one. `quote` is the
literal the text starts in, and `skip` passes over its first character. -/
def beforeLineComment? : (quote : Option Char) → (skip : Bool) → Text → Option Text
  | _, _, [] => none
  | quote, true, c :: rest => (beforeLineComment? quote false rest).map (c :: ·)
  | some quote, false, c :: rest =>
    let escape := c = backslash && quote ≠ backtick
    (beforeLineComment? (if c = quote then none else some quote) escape rest).map (c :: ·)
  | none, false, c :: rest =>
    if isQuote c then (beforeLineComment? (some c) false rest).map (c :: ·)
    else if c = '/' && rest.head? = some '/' then some []
    else (beforeLineComment? none false rest).map (c :: ·)

/-- A line without the comment at its end and the blanks before that. -/
def stripLineComment (line : Text) : Text :=
  match beforeLineComment? none false line with
  | some code => trimEnd code
  | none => line

/-- The brackets that nest. -/
def isOpening (c : Char) : Bool := c == '(' || c == '[' || c == '{'

/-- The closing partners of the brackets that nest. -/
def isClosing (c : Char) : Bool := c == ')' || c == ']' || c == '}'

/-- The pieces between separators that stand outside brackets and literals. -/
def piecesFrom (sep : Char) : (depth : Int) → (quote previous : Option Char) → Text → List Text
  | _, _, _, [] => [[]]
  | depth, quote, previous, c :: rest =>
    let extend (pieces : List Text) : List Text :=
      match pieces with
      | [] => [[c]]
      | piece :: pieces => (c :: piece) :: pieces
    match quote with
    | some q =>
      extend (piecesFrom sep depth
        (if c = q && previous ≠ some backslash then none else some q) (some c) rest)
    | none =>
      if isQuote c then extend (piecesFrom sep depth (some c) (some c) rest)
      else if isOpening c then extend (piecesFrom sep (depth + 1) none (some c) rest)
      else if isClosing c then extend (piecesFrom sep (depth - 1) none (some c) rest)
      else if c = sep && depth = 0 then [] :: piecesFrom sep depth none (some c) rest
      else extend (piecesFrom sep depth none (some c) rest)

/-- The trimmed parts between top-level separators; empty parts are left out. -/
def splitTopLevel (sep : Char) (text : Text) : List Text :=
  ((piecesFrom sep 0 none none text).map trim).filter (!·.isEmpty)

end GoSurvey.Source
