/-
What the line of a definition looks like. Each rule is a pattern for a
name; two of them hold only inside a `const` or `var` group, or on a
line that holds such a group as a whole. The rules stand in the order of
their priority: structs and interfaces come before types in general,
declarations of a package before short declarations in a body.
-/
import GoSurvey.Declaration.Spec

namespace GoSurvey.Symbol

open Text Pattern Declaration

/-- What a definition defines. -/
inductive DefinitionKind where
  | declared (kind : SymbolKind)
  | shortVariable
  deriving DecidableEq, Repr

/-- The word for a kind of definition. -/
def DefinitionKind.text : DefinitionKind → Text
  | .declared kind => kind.text
  | .shortVariable => "short_var"

/-- The keywords that open groups of values. -/
inductive GroupKeyword where
  | const
  | var
  deriving DecidableEq, Repr

/-- The keyword as written. -/
def GroupKeyword.text : GroupKeyword → Text
  | .const => "const"
  | .var => "var"

/-- A form of definition. -/
structure DefinitionRule where
  kind : DefinitionKind
  /-- The group the rule is confined to, if it is. -/
  group : Option GroupKeyword
  /-- The lines that define a name. -/
  pattern : Text → Pattern

/-- The start of a line and the blanks there. -/
def indent : Pattern := .atStart ++ blanks

/-- What follows the name of a function. -/
def functionTail : Pattern := blanks ++ one fun c => c == '[' || c == '('

/-- Names, each with a comma after it. -/
def namesWithCommas : Pattern := repeated (word ++ blanks ++ "," ++ blanks)

/-- The opening of a group on the line of its first spec, or nothing. -/
def groupStart (keyword : GroupKeyword) : Pattern :=
  optional (lit keyword.text ++ blanks ++ "(" ++ blanks)

/-- A type word. -/
def typeWord : Pattern := run1 isTypeWord

/-- The rules in the order of their priority. -/
def definitionRules : List DefinitionRule :=
  [⟨.declared .function, none, fun name =>
      indent ++ "func" ++ blanks1 ++ lit name ++ functionTail⟩,
   ⟨.declared .function, none, fun name =>
      indent ++ "func" ++ blanks ++ "(" ++ blanks ++ run isWord ++ blanks ++ word ++ blanks ++ ")"
        ++ blanks ++ lit name ++ functionTail⟩,
   ⟨.declared .function, none, fun name =>
      indent ++ "func" ++ blanks ++ "(" ++ blanks ++ run isWord ++ blanks ++ "*" ++ blanks ++ word
        ++ typeParameters ++ blanks ++ ")" ++ blanks ++ lit name ++ functionTail⟩,
   ⟨.declared .struct, none, fun name =>
      indent ++ "type" ++ blanks1 ++ lit name ++ typeParameters ++ blanks1 ++ "struct"
        ++ wordEdge⟩,
   ⟨.declared .interface, none, fun name =>
      indent ++ "type" ++ blanks1 ++ lit name ++ typeParameters ++ blanks1 ++ "interface"
        ++ wordEdge⟩,
   ⟨.declared .type, none, fun name =>
      indent ++ "type" ++ blanks1 ++ lit name ++ wordEdge
        ++ notAhead (typeParameters ++ blanks1 ++ oneOf ["struct", "interface"] ++ wordEdge)⟩,
   ⟨.declared .constant, none, fun name =>
      indent ++ "const" ++ blanks1 ++ lit name ++ wordEdge ++ blanks
        ++ choice "=" (typeWord ++ blanks ++ "=")⟩,
   ⟨.declared .constant, some .const, fun name =>
      indent ++ groupStart .const ++ lit name ++ wordEdge ++ blanks
        ++ choice .atEnd (choice "=" (choice ","
          (choice (typeWord ++ blanks ++ choice "=" .atEnd) "//")))⟩,
   ⟨.declared .variable, none, fun name =>
      indent ++ "var" ++ blanks1 ++ namesWithCommas ++ lit name ++ wordEdge⟩,
   ⟨.declared .variable, some .var, fun name =>
      indent ++ groupStart .var ++ namesWithCommas ++ lit name ++ wordEdge ++ blanks
        ++ choice "=" (choice "," typeWord)⟩,
   ⟨.shortVariable, none, fun name =>
      indent ++ namesWithCommas ++ lit name ++ blanks
        ++ repeated ("," ++ blanks ++ word ++ blanks) ++ ":="⟩]

/-- A keyword of a group. -/
def groupKeyword : Pattern := group 1 (oneOf [GroupKeyword.const.text, GroupKeyword.var.text])

/-- A line that opens a group and holds nothing else but a comment. -/
def groupOpenLine : Pattern :=
  indent ++ groupKeyword ++ blanks ++ "(" ++ blanks ++ optional ("//" ++ run inLine) ++ .atEnd

/-- A line that closes a group. -/
def groupCloseLine : Pattern := indent ++ ")"

/-- A line that opens a group and may go on. -/
def groupStartLine : Pattern := indent ++ groupKeyword ++ blanks ++ "("

/-- The keyword that a match remembers. -/
def keywordOf (m : Match) : GroupKeyword :=
  if m.group 1 = GroupKeyword.const.text then .const else .var

end GoSurvey.Symbol
