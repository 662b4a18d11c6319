/-
Comments: all that start a line of a file, and those directly above a
declaration.
-/
import GoSurvey.Declaration.Basic
import GoSurvey.Text.Blank

namespace GoSurvey.Declaration

open Text

/-- The mark of a line comment. -/
def lineMark : Text := "//"

/-- The mark that opens a block comment. -/
def blockMark : Text := "/*"

/-- The mark that closes a block comment. -/
def blockEndMark : Text := "*/"

/-- The text of a line comment, if the trimmed line is one. -/
def lineComment? (line : Text) : Option Text :=
  let trimmed := trim line
  if startsWith lineMark trimmed then some (trim (trimmed.drop 2)) else none

theorem head?_of_lineComment? {line text : Text} (h : lineComment? line = some text) :
    (trim line).head? = some '/' := by
  unfold lineComment? at h
  dsimp only at h
  split at h
  · next hmark => exact head?_of_startsWith hmark
  · cases h

/-- A block comment from the lines read so far, the last of them first. -/
def blockComment (start : Nat) (parts : List Text) : Comment :=
  ⟨trim (joinLines parts.reverse), start, .block⟩

/-- The comments in lines of which the first has a number. `unclosed` is a block comment that
began above them: the number of its line and its parts, the last of them first. -/
def commentsFrom : List Text → (number : Nat) → (unclosed : Option (Nat × List Text)) → List Comment
  | [], _, none => []
  | [], _, some (start, parts) => [blockComment start parts]
  | line :: rest, number, some (start, parts) =>
    match cut? blockEndMark line with
    | some (inside, _) =>
      blockComment start (inside :: parts) :: commentsFrom rest (number + 1) none
    | none => commentsFrom rest (number + 1) (some (start, line :: parts))
  | line :: rest, number, none =>
    let trimmed := trim line
    match lineComment? line with
    | some text => ⟨text, number, .line⟩ :: commentsFrom rest (number + 1) none
    | none =>
      if startsWith blockMark trimmed then
        let opened := trimmed.drop 2
        match cut? blockEndMark opened with
        | some (inside, _) =>
          blockComment number [inside] :: commentsFrom rest (number + 1) none
        | none => commentsFrom rest (number + 1) (some (number, [opened]))
      else commentsFrom rest (number + 1) none

/-- The comments that start a line of the text. A block comment without an end runs to the last
line. -/
def comments (content : Text) : List Comment := commentsFrom (lines content) 1 none

/-- The line comments at the end of a list of lines, without a line between them that is none;
the lines are given last first. -/
def trailingComments : List Text → List Text
  | [] => []
  | line :: above =>
    match lineComment? line with
    | some text => text :: trailingComments above
    | none => []

/-- The line comments directly above the line of an index, in source order. -/
def leadingComments (lines : List Text) (index : Nat) : List Text :=
  (trailingComments (lines.take index).reverse).reverse

end GoSurvey.Declaration
