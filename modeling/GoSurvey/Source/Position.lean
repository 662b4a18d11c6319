/-
Offsets and lines of one text: the line of an offset, the offsets at
which lines start, and cuts between two offsets.
-/
import GoSurvey.Text.Basic

namespace GoSurvey.Source

open Text

/-- The number, from 1 on, of the line an offset lies in. -/
def lineAt (text : Text) (offset : Nat) : Nat := (text.take offset).count newline + 1

/-- The text from one offset up to another. -/
def slice (text : Text) (start stop : Nat) : Text := (text.take stop).drop start

/-- The offsets at which lines start, the first of them at `offset`. -/
def lineOffsetsFrom (offset : Nat) : List Text → List Nat
  | [] => []
  | line :: rest => offset :: lineOffsetsFrom (offset + line.length + 1) rest

/-- The offsets at which the lines of a text start. -/
def lineOffsets (lines : List Text) : List Nat := lineOffsetsFrom 0 lines

end GoSurvey.Source
