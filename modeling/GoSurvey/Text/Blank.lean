/-
Blank characters and the operations built on them: trimming, cutting
into words, and squeezing.

Blanks are the white space of every script, not of ASCII alone, and the
separators of files, groups, records and units.
-/
import GoSurvey.Text.Basic

namespace GoSurvey.Text

/-- White space of any script, and the information separators U+001C to U+001F. -/
def isBlank (c : Char) : Bool :=
  let n := c.toNat
  (0x9 ≤ n && n ≤ 0xD) || (0x1C ≤ n && n ≤ 0x20) || n == 0x85 || n == 0xA0 || n == 0x1680
    || (0x2000 ≤ n && n ≤ 0x200A) || n == 0x2028 || n == 0x2029 || n == 0x202F || n == 0x205F
    || n == 0x3000

/-- The text without blanks at its start. -/
def trimStart (t : Text) : Text := t.dropWhile isBlank

/-- The text without blanks at its end. -/
def trimEnd (t : Text) : Text := dropEndWhile isBlank t

/-- The text without blanks at either end. -/
def trim (t : Text) : Text := stripWhile isBlank t

/-- Whether nothing but blanks is in the text. -/
def isBlankText (t : Text) : Bool := t.all isBlank

/-- The maximal runs without blanks. -/
def words : Text → List Text
  | [] => []
  | c :: rest =>
    if isBlank c then words rest
    else
      match rest with
      | [] => [[c]]
      | d :: _ =>
        if isBlank d then [c] :: words rest
        else
          match words rest with
          | [] => [[c]]
          | w :: ws => (c :: w) :: ws

/-- The first word and, where something follows it, what follows it from its next word on. -/
def firstWord? (t : Text) : Option (Text × Option Text) :=
  match trimStart t with
  | [] => none
  | c :: rest =>
    let start := c :: rest
    let tail := trimStart (start.dropWhile (!isBlank ·))
    some (start.takeWhile (!isBlank ·), if tail.isEmpty then none else some tail)

/-- Puts one space in the place of every run of blanks. -/
def squeeze : Text → Text
  | [] => []
  | c :: rest =>
    if isBlank c then
      match rest with
      | [] => [' ']
      | d :: _ => if isBlank d then squeeze rest else ' ' :: squeeze rest
    else c :: squeeze rest

end GoSurvey.Text
