/-
Source text as a list of characters, and the operations on it that need
no knowledge of what a character is: cutting into lines and pieces,
looking for one text inside another, joining, padding, ordering.

Everything here is structural recursion on the text, so each function
has the equations one would write down for it. `splitOn` and `join` are
inverse in one direction (`join_splitOn`), which is what lets line
numbers and offsets of the same text be exchanged.
-/

namespace GoSurvey

/-- A text is the list of its characters; offsets and columns are positions in it. -/
abbrev Text := List Char

instance : Coe String Text := ⟨String.toList⟩

namespace Text

/-- The character that ends a line. -/
abbrev newline : Char := '\n'

/-- The double quote. -/
abbrev doubleQuote : Char := '\x22'

/-- The single quote. -/
abbrev singleQuote : Char := '\x27'

/-- The backtick, which delimits raw literals. -/
abbrev backtick : Char := '\x60'

/-- The backslash. -/
abbrev backslash : Char := '\x5c'

-- ============================================================ pieces

/-- Cuts at every occurrence of a character; there is always one more piece than cuts. -/
def splitOn (sep : Char) : Text → List Text
  | [] => [[]]
  | c :: rest =>
    if c = sep then [] :: splitOn sep rest
    else
      match splitOn sep rest with
      | [] => [[c]]
      | piece :: pieces => (c :: piece) :: pieces

/-- Joins pieces, with a text between neighbours. -/
def join (sep : Text) : List Text → Text
  | [] => []
  | [piece] => piece
  | piece :: pieces => piece ++ sep ++ join sep pieces

/-- The lines of a text, which are what stands between its newlines. -/
def lines (t : Text) : List Text := splitOn newline t

/-- Lines put back together. -/
def joinLines (ls : List Text) : Text := join [newline] ls

theorem splitOn_ne_nil (sep : Char) (t : Text) : splitOn sep t ≠ [] := by
  induction t with
  | nil => simp [splitOn]
  | cons c rest ih =>
    unfold splitOn
    split
    · simp
    · split <;> simp

/-- Cutting loses nothing but the separators, which joining puts back. -/
theorem join_splitOn (sep : Char) (t : Text) : join [sep] (splitOn sep t) = t := by
  induction t with
  | nil => simp [splitOn, join]
  | cons c rest ih =>
    unfold splitOn
    split
    · next h =>
      cases hs : splitOn sep rest with
      | nil => exact absurd hs (splitOn_ne_nil sep rest)
      | cons piece pieces => rw [hs] at ih; simp [join, ih, h]
    · split
      · next hs => exact absurd hs (splitOn_ne_nil sep rest)
      · next piece pieces hs =>
        rw [hs] at ih
        cases pieces <;> simp_all [join]

/-- The piece after the last separator; all of the text where there is none. -/
def lastPiece (sep : Char) (t : Text) : Text := (splitOn sep t).getLastD []

-- ======================================================== occurrences

/-- Whether the text begins with `mark`. -/
def startsWith (mark t : Text) : Bool := mark.isPrefixOf t

theorem startsWith_iff {mark t : Text} : startsWith mark t = true ↔ mark <+: t :=
  List.isPrefixOf_iff_prefix

theorem head?_of_startsWith {c : Char} {mark t : Text} (h : startsWith (c :: mark) t = true) :
    t.head? = some c := by
  obtain ⟨rest, rfl⟩ := startsWith_iff.1 h
  rfl

/-- Whether the text ends with `mark`. -/
def endsWith (mark t : Text) : Bool := mark.isSuffixOf t

/-- The text around the first occurrence of `mark`. -/
def cut? (mark : Text) : Text → Option (Text × Text)
  | [] => if mark.isEmpty then some ([], []) else none
  | c :: rest =>
    if startsWith mark (c :: rest) then some ([], (c :: rest).drop mark.length)
    else (cut? mark rest).map fun (before, after) => (c :: before, after)

/-- Whether `mark` occurs in the text. -/
def contains (mark : Text) : Text → Bool
  | [] => mark.isEmpty
  | c :: rest => startsWith mark (c :: rest) || contains mark rest

/-- What stands before the first occurrence of `mark`; all of the text where there is none. -/
def before (mark t : Text) : Text := ((cut? mark t).map (·.1)).getD t

/-- The text around the last occurrence of a character. -/
def cutLast? (sep : Char) : Text → Option (Text × Text)
  | [] => none
  | c :: rest =>
    match cutLast? sep rest with
    | some (before, after) => some (c :: before, after)
    | none => if c = sep then some ([], rest) else none

/-- Cuts at every occurrence of a text that is not empty. The number counts the characters of the
last occurrence that are still to be passed over. -/
def splitOnTextFrom (mark : Text) : Nat → Text → List Text
  | _, [] => [[]]
  | skip + 1, _ :: rest => splitOnTextFrom mark skip rest
  | 0, c :: rest =>
    if startsWith mark (c :: rest) then [] :: splitOnTextFrom mark (mark.length - 1) rest
    else
      match splitOnTextFrom mark 0 rest with
      | [] => [[c]]
      | piece :: pieces => (c :: piece) :: pieces

/-- The piece after the last occurrence of a text that is not empty. -/
def lastPieceOfText (mark t : Text) : Text := (splitOnTextFrom mark 0 t).getLastD []

-- ============================================================== trims

/-- The text without the longest end in the class. -/
def dropEndWhile (cls : Char → Bool) (t : Text) : Text := (t.reverse.dropWhile cls).reverse

/-- The text without its first and its last run in the class. -/
def stripWhile (cls : Char → Bool) (t : Text) : Text := dropEndWhile cls (t.dropWhile cls)

-- ============================================================= layout

/-- The decimal digits of a number. -/
def ofNat (n : Nat) : Text := Nat.toDigits 10 n

/-- A number with its sign, if it is negative. -/
def ofInt (i : Int) : Text := if i < 0 then '-' :: ofNat i.natAbs else ofNat i.natAbs

/-- Fills with blanks on the right up to a width. -/
def padRight (width : Nat) (t : Text) : Text := t ++ List.replicate (width - t.length) ' '

/-- Fills with blanks on the left up to a width. -/
def padLeft (width : Nat) (t : Text) : Text := List.replicate (width - t.length) ' ' ++ t

/-- The order of texts by code point. -/
def le (a b : Text) : Bool := !decide (b < a)

/-- A text with others before and after it; nothing if it is empty. -/
def enclose (before t after : Text) : Text := if t.isEmpty then [] else before ++ t ++ after

/-- `t` if it is not empty, else `default`. -/
def orElse (t default : Text) : Text := if t.isEmpty then default else t

end Text
end GoSurvey
