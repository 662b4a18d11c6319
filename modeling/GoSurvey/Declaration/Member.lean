/-
The members of struct and interface types. A body is cut into lines, and
lines without a comment mark further at semicolons; each piece is then a
comment, a member, or neither. Comments are collected until a member
takes them.
-/
import GoSurvey.Declaration.Parameter
import GoSurvey.Declaration.Comment
import GoSurvey.Source.Body

namespace GoSurvey.Declaration

open Text Source Pattern

/-- The pieces of the first balanced braces in a text, each of which holds one member at most. -/
def bodyPieces (content : Text) : List Text :=
  match findMatching? braces content 0 with
  | none => []
  | some (opener, closer) =>
    (lines (slice content (opener + 1) closer)).flatMap fun line =>
      if contains lineMark line then [line]
      else (splitOn ';' line).filter fun piece => !isBlankText piece

/-- A type parameter list, or nothing. -/
def typeParameters : Pattern := optional bracketed

/-- The name before a keyword such as `struct`. -/
def nameBefore (keyword : Text) : Pattern :=
  group 1 word ++ typeParameters ++ blanks1 ++ lit keyword ++ wordEdge

/-- Words with commas between them. -/
def nameList : Pattern := word ++ repeated (blanks ++ "," ++ blanks ++ word)

/-- The names of a name list. -/
def namesOf (t : Text) : List Text := (splitOn ',' t).map trim

/-- A text between backticks, or nothing. -/
def optionalTag (index : Nat) : Pattern :=
  optional (one (· == backtick) ++ group index (run (except backtick)) ++ one (· == backtick))

/-- Fields with names: the names, the type, and a tag. -/
def fieldPattern : Pattern :=
  atStart ++ group 1 nameList ++ blanks1 ++ group 2 (shortRun1 (except backtick)) ++ blanks
    ++ optionalTag 3 ++ Pattern.atEnd

/-- The characters of a qualified name. -/
def isQualified (c : Char) : Bool := isWord c || c == '.'

/-- An embedded field: a type name and a tag. -/
def embeddedPattern : Pattern :=
  atStart ++ optional "*" ++ group 1 (run1 isQualified) ++ blanks ++ optionalTag 2 ++ Pattern.atEnd

/-- How many more braces a text opens than it closes. -/
def braceBalance (t : Text) : Int := t.count '{' - t.count '}'

/-- The fields in the pieces of a struct body. `nested` counts the braces of an inner struct that
are still open, and `pending` are the comments since the last field. -/
def fieldsFrom : (nested : Int) → (pending : List Text) → List Text → List StructField
  | _, _, [] => []
  | nested, pending, raw :: rest =>
    let text := trim raw
    if nested ≠ 0 then fieldsFrom (nested + braceBalance text) pending rest
    else if text.isEmpty then fieldsFrom 0 pending rest
    else
      match lineComment? text with
      | some comment => fieldsFrom 0 (pending ++ [comment]) rest
      | none =>
        let code := stripLineComment text
        match fieldPattern.matchStart code with
        | some m =>
          let written := trim (m.group 2)
          let opens := endsWith "\x7b" written
          let type := if opens then trim written.dropLast else written
          (namesOf (m.group 1)).map (fun name => ⟨name, type, m.group 3, pending⟩)
            ++ fieldsFrom (if opens then braceBalance code else 0) [] rest
        | none =>
          match embeddedPattern.matchStart code with
          | some m =>
            ⟨lastPiece '.' (m.group 1), trim (before [backtick] code), m.group 2, pending⟩
              :: fieldsFrom 0 [] rest
          | none => fieldsFrom 0 pending rest

/-- A struct from the text of its declaration. -/
def parseStruct? (content : Text) (line : Nat) (comments : List Text) : Option StructDecl :=
  ((nameBefore "struct").search content).map fun m =>
    ⟨m.group 1, fieldsFrom 0 [] (bodyPieces content), line, content, comments⟩

/-- The head of an interface method. -/
def methodPattern : Pattern := atStart ++ group 1 word ++ blanks ++ "("

/-- The method in a piece of code, if it is one. -/
def parseMethod? (code : Text) (comments : List Text) : Option InterfaceMethod := do
  let m ← methodPattern.matchStart code
  let (opener, closer) ← findMatching? parentheses code (m.stop - 1)
  some ⟨m.group 1, parseParameters (slice code (opener + 1) closer),
    trim (code.drop (closer + 1)), comments⟩

/-- The methods in the pieces of an interface body, `pending` being the comments since the last
method. -/
def methodsFrom : (pending : List Text) → List Text → List InterfaceMethod
  | _, [] => []
  | pending, raw :: rest =>
    let text := trim raw
    if text.isEmpty then methodsFrom pending rest
    else
      match lineComment? text with
      | some comment => methodsFrom (pending ++ [comment]) rest
      | none =>
        match parseMethod? (stripLineComment text) pending with
        | some method => method :: methodsFrom [] rest
        | none => methodsFrom pending rest

/-- An interface from the text of its declaration. -/
def parseInterface? (content : Text) (line : Nat) (comments : List Text) : Option InterfaceDecl :=
  ((nameBefore "interface").search content).map fun m =>
    ⟨m.group 1, methodsFrom [] (bodyPieces content), line, content, comments⟩

end GoSurvey.Declaration
