/-
HTTP routes, and the three normal forms a registration is read into:
its path, the name of its handler, and its id.
-/
import GoSurvey.Text.Pattern
import GoSurvey.Text.LetterCase

namespace GoSurvey

open Text

/-- A registered route. -/
structure Route where
  id : Text
  /-- The method in capitals, `ALL` where the registration names none. -/
  method : Text
  path : Text
  handler : Text
  /-- The file that holds the registration. -/
  file : Text
  line : Nat
  snippet : Text := []
  middleware : List Text := []
  deriving DecidableEq, Repr

namespace Route

/-- A slash at the end of the text, or before the newline that ends it. -/
def finalSlash : Pattern := "/" ++ .atEnd

/-- A path with exactly one slash at its start and none at its end. -/
def cleanPath (path : Text) : Text :=
  let rooted := '/' :: path.dropWhile (· == '/')
  let trimmed :=
    match finalSlash.search rooted with
    | some m => rooted.take m.start ++ rooted.drop m.stop
    | none => rooted
  orElse trimmed "/"

/-- A name with dots in it. -/
def handlerToken : Pattern :=
  .one (fun c => c.isAlpha || c == '_') ++ .run (fun c => isWord c || c == '.')

/-- The last identifier of a handler expression; an expression without one is taken as it is, less
its blanks. -/
def handlerName (expression : Text) : Text :=
  match (handlerToken.findAll expression).getLast? with
  | none => expression.filter (!isBlank ·)
  | some m => lastPiece '.' (dropEndWhile (· == '.') m.text)

/-- The text with a hyphen in the place of every character that no word has. -/
def hyphenate (t : Text) : Text := t.map fun c => if isWord c then c else '-'

/-- Puts one hyphen in the place of every run of them. -/
def collapseHyphens : Text → Text
  | [] => []
  | c :: rest =>
    if c = '-' && rest.head? = some '-' then collapseHyphens rest else c :: collapseHyphens rest

/-- The id of a registration, which depends on nothing but the registration. -/
def makeId (method path handler file : Text) (line : Int) : Text :=
  collapseHyphens
    (join "-" [lower method, hyphenate path, hyphenate handler, hyphenate file, ofInt line])

end Route
end GoSurvey
