/-
How single specs are read: imports, constants, variables and types.
-/
import GoSurvey.Declaration.Group
import GoSurvey.Declaration.Member

namespace GoSurvey.Declaration

open Text Source Pattern

-- ============================================================ imports

/-- An import path in quotes or backticks, with the name before it. -/
def importPattern : Pattern :=
  optional (group 1 (run1 isQualified) ++ blanks1)
    ++ choice ("\"" ++ group 2 (run1 (except doubleQuote)) ++ "\"")
      (one (· == backtick) ++ group 3 (run1 (except backtick)) ++ one (· == backtick))

/-- The word `import` at the start of a line. -/
def importKeyword : Pattern := atStart ++ "import" ++ wordEdge

/-- The imports in one line of an import declaration. -/
def parseImports (number : Nat) (raw : Text) : List ImportDecl :=
  let code := dropMatch importKeyword (stripLineComment (trim raw))
  let text := trim (stripWhile (fun c => c == '(' || c == ')') (trim code))
  if startsWith lineMark text then []
  else (importPattern.findAll text).map fun m =>
    ⟨(m.group? 2).getD (m.group 3), number, trim raw, m.group 1⟩

/-- The imports in lines of which the first has a number. -/
def importsFrom : (number : Nat) → List Text → List ImportDecl
  | _, [] => []
  | number, line :: rest => parseImports number line ++ importsFrom (number + 1) rest

-- ============================================== constants and variables

/-- The characters of a type word in a constant spec. -/
def isTypeWord (c : Char) : Bool :=
  isWord c || c == '.' || c == '*' || c == '[' || c == ']'

/-- Every character of a line. -/
def inLine (c : Char) : Bool := c != newline

/-- A value after an equals sign, up to the end, or nothing. -/
def optionalValue : Pattern := optional ("=" ++ blanks ++ group 3 (run1 inLine)) ++ Pattern.atEnd

/-- A constant: a name, a type word, a value. -/
def constantPattern : Pattern :=
  atStart ++ group 1 word ++ optional (blanks1 ++ group 2 (run1 isTypeWord)) ++ blanks
    ++ optionalValue

/-- The constant that a spec declares. -/
def parseConstant? (s : Spec) : Option ConstantDecl :=
  (constantPattern.matchStart (trim (stripLineComment s.head))).map fun m =>
    ⟨m.group 1, trim (m.group 3), s.line, trim s.head, s.comments⟩

/-- Variables: names, a type, values. -/
def variablePattern : Pattern :=
  atStart ++ group 1 nameList ++ blanks ++ group 2 (shortRun (except '=')) ++ blanks
    ++ optionalValue

/-- The variables that a spec declares. -/
def parseVariables (s : Spec) : List VariableDecl :=
  match variablePattern.matchStart (trim (stripLineComment s.head)) with
  | none => []
  | some m =>
    (namesOf (m.group 1)).map fun name =>
      ⟨name, trim (m.group 2), s.line, trim s.head, s.comments⟩

-- =============================================================== types

/-- A type definition or alias: the name and the underlying type. -/
def typePattern : Pattern :=
  atStart ++ optional ("type" ++ blanks1) ++ group 1 word ++ typeParameters ++ blanks
    ++ optional ("=" ++ blanks) ++ group 2 (run1 inLine) ++ Pattern.atEnd

/-- The type that a spec declares, if it is no struct or interface. -/
def parseType? (s : Spec) : Option TypeDecl :=
  match typePattern.matchStart (trim (stripLineComment s.head)) with
  | none => none
  | some m =>
    if m.group 1 = "type" then none
    else
      some ⟨m.group 1, trim (dropEndWhile (· == '{') (m.group 2)), s.line, trim s.head, s.comments⟩

/-- A type spec of the kind that a keyword names. -/
def typeSpecOf (keyword : Text) : Pattern :=
  atStart ++ optional ("type" ++ blanks1) ++ word ++ typeParameters ++ blanks1 ++ lit keyword
    ++ wordEdge

/-- The declaration of a type spec, by what stands after its name. -/
def typeSpec? (s : Spec) : Option Declaration :=
  if ((typeSpecOf "struct").matchStart s.head).isSome then
    (parseStruct? s.text s.line s.comments).map .ofStruct
  else if ((typeSpecOf "interface").matchStart s.head).isSome then
    (parseInterface? s.text s.line s.comments).map .ofInterface
  else (parseType? s).map .ofType

end GoSurvey.Declaration
