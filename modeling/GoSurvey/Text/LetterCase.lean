/-
Letter case beyond ASCII: putting a text in lower or upper case, and the
comparison that does not tell the cases of a letter apart.

Two rules need more than one character at a time. A capital may become
several characters (the sharp s becomes `SS`), and a capital sigma
becomes the final small sigma where a cased letter stands before it and
none after it, accents and apostrophes not counted.
-/
import GoSurvey.Text.LetterCase.Table

namespace GoSurvey.Text

/-- The mapping of one code point by a case table. -/
def shiftedBy (n : Nat) : List CaseRun → Option Nat
  | [] => none
  | (first, last, step, image) :: rest =>
    if first ≤ n && n ≤ last && (n - first) % step == 0 then some (n - first + image)
    else shiftedBy n rest

/-- The small form of a letter, taken by itself. -/
def lowerChar (c : Char) : Text :=
  if c.toNat < 0x80 then [c.toLower]
  else if c.toNat = 0x130 then ['i', Char.ofNat 0x307]
  else [((shiftedBy c.toNat lowerRuns).map Char.ofNat).getD c]

/-- The capital form of a letter. -/
def upperChar (c : Char) : Text :=
  if c.toNat < 0x80 then [c.toUpper]
  else
    match longUpper.lookup c.toNat with
    | some codes => codes.map Char.ofNat
    | none => [((shiftedBy c.toNat upperRuns).map Char.ofNat).getD c]

/-- Whether a letter has case. -/
def isCased (c : Char) : Bool :=
  if c.toNat < 0x80 then c.isAlpha else inRanges c.toNat casedRanges

/-- Whether a character is passed over in the search for the letters next to a sigma. -/
def isSkipped (c : Char) : Bool := inRanges c.toNat skippedRanges

/-- Whether the nearest character that is not passed over is a cased letter. -/
def meetsCased (t : Text) : Bool := ((t.dropWhile isSkipped).head?.map isCased).getD false

/-- Lower case of a text whose characters before it are `seen`, the nearest first. -/
def lowerAfter (seen : Text) : Text → Text
  | [] => []
  | c :: rest =>
    if c.toNat = 0x3A3 then
      Char.ofNat (if meetsCased seen && !meetsCased rest then 0x3C2 else 0x3C3)
        :: lowerAfter (c :: seen) rest
    else lowerChar c ++ lowerAfter (c :: seen) rest

/-- The text in lower case. -/
def lower (t : Text) : Text := lowerAfter [] t

/-- The text in upper case. -/
def upper (t : Text) : Text := t.flatMap upperChar

/-- Whether a character is a given capital ASCII letter in some case; the dotted and the dotless
i and the long s count as forms of their letters. -/
def isForm (capital c : Char) : Bool :=
  c == capital || c == capital.toLower
    || (capital == 'I' && (c.toNat == 0x130 || c.toNat == 0x131))
    || (capital == 'K' && c.toNat == 0x212A)
    || (capital == 'S' && c.toNat == 0x17F)

end GoSurvey.Text
