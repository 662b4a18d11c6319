/-
Constructs that extend over several lines. A block starts at a line and
ends at the line of the closer that balances its first opener; when
there is no such closer it runs to the last line.
-/
import GoSurvey.Source.Delimiter

namespace GoSurvey.Source

open Text

/-- The lines of a construct and the index of the last of them. -/
structure Block where
  content : Text
  endIndex : Nat
  deriving DecidableEq, Repr

/-- Where the lines fed to a scan leave it. -/
inductive BlockEnd where
  /-- The first opener is balanced in the line of this index. -/
  | closedAt (index : Nat)
  /-- There is an opener, and the lines end before it is balanced. -/
  | unclosed
  /-- The lines to be looked at hold no opener. -/
  | unopened
  deriving DecidableEq, Repr

/-- Feeds lines to a scan, the first of them having the given index. With `firstOnly` the opener
has to stand in that line. -/
def blockEndFrom (d : Delimiters) (firstOnly : Bool) :
    List Text → Nat → DelimiterScan → BlockEnd
  | [], _, s => if s.opened then .unclosed else .unopened
  | line :: rest, index, s =>
    let (closed, s') := s.feed d (line ++ [newline]) 0
    if firstOnly && !s'.opened then .unopened
    else if closed.isSome then .closedAt index
    else blockEndFrom d false rest (index + 1) s'

/-- The lines with indices from `first` to `last`, as one text. -/
def linesText (lines : List Text) (first last : Nat) : Text :=
  joinLines ((lines.take (last + 1)).drop first)

/-- The block that starts at a line, if there is such a line. With `sameLine` its opener has to
stand in that line, and the block is that line alone if it does not. -/
def extractBlock? (d : Delimiters) (sameLine : Bool) (lines : List Text) (start : Nat) :
    Option Block :=
  lines[start]?.map fun first =>
    match blockEndFrom d sameLine (lines.drop start) start {} with
    | .closedAt index => ⟨linesText lines start index, index⟩
    | .unclosed => ⟨joinLines (lines.drop start), lines.length - 1⟩
    | .unopened => ⟨first, start⟩

/-- The index of the last line of the block that starts at a line. -/
def blockEnd (d : Delimiters) (lines : List Text) (start : Nat) : Nat :=
  ((extractBlock? d true lines start).map (·.endIndex)).getD start

/-- Whether a line opens a delimiter that it does not close. -/
def hasUnbalanced (d : Delimiters) (line : Text) : Bool :=
  let (closed, s) := DelimiterScan.feed d {} (line ++ [newline]) 0
  closed.isNone && s.opened

end GoSurvey.Source
