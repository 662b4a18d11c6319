/-
JSON as indented ASCII text: two blanks a level, one item or field a
line, and everything outside the printable ASCII range escaped, with a
pair of surrogates for characters beyond U+FFFF.
-/
import GoSurvey.Json.Basic
import GoSurvey.Decimal.Shortest

namespace GoSurvey.Json

open Text

/-- A UTF-16 unit as an escape. -/
def unitEscape (n : Nat) : Text :=
  let digits := Nat.toDigits 16 n
  "\\u" ++ List.replicate (4 - digits.length) '0' ++ digits

/-- One character inside a JSON string. -/
def escape (c : Char) : Text :=
  let n := c.toNat
  if c = doubleQuote ∨ c = backslash then [backslash, c]
  else if 0x20 ≤ n ∧ n ≤ 0x7E then [c]
  else if c = '\n' then "\\n"
  else if c = '\r' then "\\r"
  else if c = '\t' then "\\t"
  else if n = 0x8 then "\\b"
  else if n = 0xC then "\\f"
  else if n < 0x10000 then unitEscape n
  else
    let m := n - 0x10000
    unitEscape (0xD800 + m / 0x400) ++ unitEscape (0xDC00 + m % 0x400)

/-- A JSON string. -/
def quoted (t : Text) : Text := doubleQuote :: t.flatMap escape ++ [doubleQuote]

/-- A new line at a nesting level. -/
def lineBreak (level : Nat) : Text := newline :: List.replicate (2 * level) ' '

/-- Brackets around items that stand on lines of their own. -/
def enclosed (opener closer : Char) (level : Nat) (items : List Text) : Text :=
  if items.isEmpty then [opener, closer]
  else opener :: lineBreak (level + 1) ++ join (',' :: lineBreak (level + 1)) items
    ++ lineBreak level ++ [closer]

mutual

/-- A value at a nesting level. -/
def renderAt (level : Nat) : Json → Text
  | null => "null"
  | bool b => if b then "true" else "false"
  | int i => ofInt i
  | real x => Decimal.shortest x
  | text t => quoted t
  | array items => enclosed '[' ']' level (renderItems (level + 1) items)
  | object fields => enclosed '\x7b' '\x7d' level (renderFields (level + 1) fields)

/-- The items of an array. -/
def renderItems (level : Nat) : List Json → List Text
  | [] => []
  | item :: rest => renderAt level item :: renderItems level rest

/-- The fields of an object. -/
def renderFields (level : Nat) : List (Text × Json) → List Text
  | [] => []
  | (key, value) :: rest => (quoted key ++ ": " ++ renderAt level value) :: renderFields level rest

end

/-- A value as indented text. -/
def render (value : Json) : Text := renderAt 0 value

end GoSurvey.Json
