/-
Balanced delimiters in Go source. A `DelimiterScan` counts openers and
closers and knows where it is lexically, so that a brace inside a
literal or a comment never counts.

The scan can be fed a text in chunks. What lasts from one chunk to the
next is whether it is inside a literal or a block comment, the depth,
and the place of the first opener; a line comment ends with its chunk.
`findMatching?` is the scan of one whole text.
-/
import GoSurvey.Text.Blank

namespace GoSurvey

namespace Text

/-- The delimiters of string, character and raw literals. -/
def isQuote (c : Char) : Bool := c == doubleQuote || c == singleQuote || c == backtick

end Text

namespace Source

open Text

/-- What the scan is inside of. -/
inductive Region where
  | code
  | lineComment
  | blockComment
  /-- A literal and the quote that ends it. -/
  | literal (quote : Char)
  deriving DecidableEq, Repr

/-- How far a scan has come. -/
structure DelimiterScan where
  region : Region := .code
  /-- Openers that are not closed yet. -/
  depth : Nat := 0
  /-- Where the first opener stands. -/
  openedAt : Option Nat := none
  deriving DecidableEq, Repr

/-- A pair of delimiters, each a single character. -/
structure Delimiters where
  opener : Char
  closer : Char
  deriving DecidableEq, Repr

/-- Curly braces, which delimit bodies. -/
def braces : Delimiters := ⟨'{', '}'⟩

/-- Parentheses, which delimit parameter lists and groups of declarations. -/
def parentheses : Delimiters := ⟨'(', ')'⟩

namespace DelimiterScan

/-- Whether an opener has been seen. -/
def opened (s : DelimiterScan) : Bool := s.openedAt.isSome

/-- What one character does to a scan. -/
inductive Step where
  /-- Goes on with the next character. -/
  | next (s : DelimiterScan)
  /-- Goes on with the character after the next, which belongs to this one. -/
  | afterNext (s : DelimiterScan)
  /-- The first opener has been balanced. -/
  | closed (s : DelimiterScan)

/-- The effect of a character at an offset, given the text after it. -/
def step (d : Delimiters) (s : DelimiterScan) (offset : Nat) (c : Char) (rest : Text) : Step :=
  match s.region with
  | .lineComment => .next (if c = newline then { s with region := .code } else s)
  | .blockComment =>
    if c = '*' ∧ rest.head? = some '/' then .afterNext { s with region := .code } else .next s
  | .literal quote =>
    if c = backslash ∧ quote ≠ backtick then .afterNext s
    else if c = quote ∨ (c = newline ∧ quote ≠ backtick) then .next { s with region := .code }
    else .next s
  | .code =>
    if c = '/' ∧ rest.head? = some '/' then .afterNext { s with region := .lineComment }
    else if c = '/' ∧ rest.head? = some '*' then .afterNext { s with region := .blockComment }
    else if isQuote c then .next { s with region := .literal c }
    else if c = d.opener then
      .next { s with depth := s.depth + 1, openedAt := some (s.openedAt.getD offset) }
    else if c = d.closer ∧ 0 < s.depth then
      if s.depth = 1 then .closed { s with depth := 0 }
      else .next { s with depth := s.depth - 1 }
    else .next s

/-- Scans a text that stands at an offset, after one more character if `skip` says so. The offset
returned is that of the closer that balances the first opener. -/
def run (d : Delimiters) : (skip : Bool) → Text → Nat → DelimiterScan → Option Nat × DelimiterScan
  | _, [], _, s => (none, s)
  | true, _ :: rest, offset, s => run d false rest (offset + 1) s
  | false, c :: rest, offset, s =>
    match step d s offset c rest with
    | .next s' => run d false rest (offset + 1) s'
    | .afterNext s' => run d true rest (offset + 1) s'
    | .closed s' => (some offset, s')

/-- A line comment does not outlast its chunk. -/
def endChunk (s : DelimiterScan) : DelimiterScan :=
  if s.region = .lineComment then { s with region := .code } else s

/-- Scans a chunk from an offset in it on, up to the closer that balances the first opener. -/
def feed (d : Delimiters) (s : DelimiterScan) (chunk : Text) (start : Nat) :
    Option Nat × DelimiterScan :=
  let (closed, s') := run d false (chunk.drop start) start s
  (closed, s'.endChunk)

end DelimiterScan

/-- The offsets of the first opener at `start` or after it and of the closer that balances it. -/
def findMatching? (d : Delimiters) (text : Text) (start : Nat) : Option (Nat × Nat) :=
  match DelimiterScan.feed d {} text start with
  | (some closer, s) => s.openedAt.map fun opener => (opener, closer)
  | (none, _) => none

end Source
end GoSurvey
