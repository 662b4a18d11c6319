/-
What a call is about, judged by words in the called name and in the line
of the call.
-/
import GoSurvey.Flow.Basic
import GoSurvey.Source.Split

namespace GoSurvey.Flow

open Text Source Pattern

/-- A rule that tells the part a called thing plays. -/
structure KindRule where
  kind : NodeKind
  /-- Words in the name, in lower case. -/
  nameMarks : List Text
  /-- Words in the line of the call, in lower case. -/
  contextMarks : List Text

/-- The rules; the first that applies decides. -/
def kindRules : List KindRule :=
  [⟨.dto, ["dto", "model", "request", "response"], ["json.marshal", "json.unmarshal"]⟩,
   ⟨.database, ["db", "query", "exec", "scan"], ["select", "insert", "update", "delete"]⟩,
   ⟨.repository, ["repo", "repository", "find", "save", "get", "create"], []⟩,
   ⟨.external, ["http", "client", "api"], ["http.get", "http.post"]⟩]

/-- Whether a rule applies to a name and a context in lower case. -/
def KindRule.applies (r : KindRule) (name context : Text) : Bool :=
  r.nameMarks.any (contains · name) || r.contextMarks.any (contains · context)

/-- The part that a called thing plays; a service where no rule applies. -/
def kindOf (name context : Text) : NodeKind :=
  ((kindRules.find? (·.applies (lower name) (lower context))).map (·.kind)).getD .service

/-- Words in a line, in lower case, and the type of data that they speak of. -/
def dataTypeMarks : List (List Text × Text) :=
  [(["json", "marshal", "unmarshal"], "JSON"), (["xml"], "XML"), (["string", "text"], "String"),
   (["int", "number"], "Number"), (["bool"], "Boolean"), (["slice", "array"], "Array")]

/-- The type of data that a line speaks of. -/
def dataTypeOf (context : Text) : Text :=
  let lowered := lower context
  ((dataTypeMarks.find? fun (marks, _) => marks.any (contains · lowered)).map (·.2)).getD "Data"

/-- Words in a line and the transformation that they stand for. -/
def transformationMarks : List (List Text × Text) :=
  [(["json.Marshal", "json.Unmarshal"], "JSON Conversion"), (["strconv."], "Type Conversion"),
   (["strings."], "String Processing")]

/-- The transformation that a line performs, if it shows one. -/
def transformationOf? (line : Text) : Option Text :=
  (transformationMarks.find? fun (marks, _) => marks.any (contains · line)).map (·.2)

/-- Called names that are never followed. -/
def untracedNames : List Text :=
  ["len", "cap", "make", "append", "copy", "delete", "close", "panic", "recover", "print",
   "println", "new", "complex", "real", "imag", "min", "max", "if", "for", "switch", "select",
   "go", "defer", "return", "break", "continue", "range", "func"]

/-- Packages whose calls are never followed. -/
def untracedPackages : List Text :=
  ["fmt.", "log.", "strings.", "strconv.", "time.", "context.", "json.", "http.", "url.",
   "regexp.", "sort.", "math."]

/-- Whether a call is left out of a flow. -/
def isUntraced (name : Text) : Bool :=
  untracedNames.contains name || untracedPackages.any (startsWith · name)

/-- A parameter in a path. -/
def routeParameter : Pattern := "\x7b" ++ group 1 (run1 (except '}')) ++ "\x7d"

/-- The parameters in a path. -/
def routeParameters (path : Text) : List Text := (routeParameter.findAll path).map (·.group 1)

/-- The first words of the parts of a parameter list. -/
def parameterNames (params : Text) : List Text :=
  (splitTopLevel ',' params).map fun part => (words part).headD []

/-- A text in parentheses. -/
def argumentList : Pattern := "(" ++ group 1 (run (except ')')) ++ ")"

/-- The arguments in the first parentheses of a line. -/
def callArguments (context : Text) : List Text :=
  match argumentList.search context with
  | none => []
  | some m => ((splitOn ',' (m.group 1)).map trim).filter (!·.isEmpty)

-- ============================================================ queries

/-- A word in capital or small letters, given in capitals. -/
def anyCase (capitals : Text) : Pattern :=
  capitals.foldr (fun c p => one (isForm c) ++ p) nothing

/-- The words that begin a query. -/
def queryVerb : Pattern :=
  choice (anyCase "SELECT") (choice (anyCase "INSERT") (choice (anyCase "UPDATE")
    (anyCase "DELETE")))

/-- A query in a literal with the given quote. -/
def queryLiteral (quote : Char) : Pattern :=
  one (· == quote) ++ group 1 (queryVerb ++ run1 (except quote)) ++ one (· == quote)

/-- How much of a text without a query stands in for one. -/
def queryExcerpt : Nat := 100

/-- The first of several patterns that matches a text gives its group 1. -/
def firstGroup? (ps : List Pattern) (t : Text) : Option Text :=
  ps.findSome? fun p => (p.search t).map (·.group 1)

/-- The first query in a text, looked for between double quotes and then between backticks; the
beginning of the text where there is none. -/
def databaseQuery (content : Text) : Text :=
  (firstGroup? [queryLiteral doubleQuote, queryLiteral backtick] content).getD
    (content.take queryExcerpt ++ "...")

/-- What stands before the name of a table. -/
def tableForms : List Pattern :=
  [anyCase "FROM" ++ blanks1 ++ group 1 word,
   anyCase "INSERT" ++ blanks1 ++ anyCase "INTO" ++ blanks1 ++ group 1 word,
   anyCase "UPDATE" ++ blanks1 ++ group 1 word,
   anyCase "DELETE" ++ blanks1 ++ anyCase "FROM" ++ blanks1 ++ group 1 word]

/-- The table that a query is about. -/
def tableName? (query : Text) : Option Text := firstGroup? tableForms query

-- ============================================================= fields

/-- The body of a struct, up to its first closing brace. -/
def structBody : Pattern :=
  "type" ++ blanks1 ++ word ++ blanks1 ++ "struct" ++ blanks ++ "\x7b"
    ++ group 1 (run1 (except '}')) ++ "\x7d"

/-- How many lines of a text without a struct stand in for one. -/
def fieldsExcerpt : Nat := 10

/-- The text of the fields of the first struct; the first lines where there is none. -/
def fieldsText (content : Text) : Text :=
  match structBody.search content with
  | some m => trim (m.group 1)
  | none => joinLines ((lines content).take fieldsExcerpt)

/-- A field with a name and something after it. -/
def fieldName : Pattern := atStart ++ group 1 word ++ blanks1

/-- The first words of the lines of the first struct that consist of more than one word. -/
def fieldNames (content : Text) : List Text :=
  match structBody.search content with
  | none => []
  | some m =>
    (lines (m.group 1)).filterMap fun line => (fieldName.matchStart (trim line)).map (·.group 1)

end GoSurvey.Flow
