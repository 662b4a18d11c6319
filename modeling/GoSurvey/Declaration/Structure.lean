/-
All declarations of a file in one pass over its lines. A line that
begins a construct is read together with the lines the construct
extends over, and the pass goes on after them, so no line belongs to two
constructs; lines that begin nothing are passed over.
-/
import GoSurvey.Declaration.Spec
import GoSurvey.Declaration.Function

namespace GoSurvey.Declaration

open Text Source Pattern

/-- What a line begins. -/
inductive Construct where
  | imports
  | struct
  | interface
  | type
  | constants
  | packageVars
  | function
  deriving DecidableEq, Repr

/-- A `type` line whose name is followed by a keyword. -/
def typeLineOf (keyword : Text) : Pattern :=
  atStart ++ "type" ++ blanks1 ++ word ++ typeParameters ++ blanks1 ++ lit keyword ++ wordEdge

/-- A line that begins with a keyword. -/
def keywordLine (keyword : Text) : Pattern := atStart ++ lit keyword ++ wordEdge

/-- The constructs by the lines that begin them, the first match deciding. -/
def constructLines : List (Construct × Pattern) :=
  [(.imports, keywordLine "import"),
   (.struct, typeLineOf "struct"),
   (.interface, typeLineOf "interface"),
   (.type, keywordLine "type"),
   (.constants, keywordLine "const"),
   (.packageVars, keywordLine "var"),
   (.function, keywordLine "func")]

/-- What a trimmed line begins, if it begins anything. -/
def classify? (trimmed : Text) : Option Construct :=
  (constructLines.find? fun (_, p) => (p.matchStart trimmed).isSome).map (·.1)

/-- The declarations of the construct that begins in the line of an index, and the index of its
last line. -/
def readConstruct (content : Text) (lines : List Text) (index offset : Nat) (trimmed : Text) :
    Construct → List Declaration × Nat
  | .imports =>
    let last := blockEnd parentheses lines index
    ((importsFrom (index + 1) ((lines.take (last + 1)).drop index)).map .ofImport, last)
  | .struct =>
    let block := (extractBlock? braces true lines index).getD ⟨[], index⟩
    (((parseStruct? block.content (index + 1) (leadingComments lines index)).map .ofStruct).toList,
      block.endIndex)
  | .interface =>
    let block := (extractBlock? braces true lines index).getD ⟨[], index⟩
    (((parseInterface? block.content (index + 1) (leadingComments lines index)).map
      .ofInterface).toList, block.endIndex)
  | .type =>
    let (specs, last) := groupSpecs "type" lines index
    (specs.filterMap typeSpec?,
      if last = index && List.elem '{' trimmed then blockEnd braces lines index else last)
  | .constants =>
    let (specs, last) := groupSpecs "const" lines index
    ((specs.filterMap parseConstant?).map .ofConstant, last)
  | .packageVars =>
    let (specs, last) := groupSpecs "var" lines index
    ((specs.flatMap parseVariables).map .ofVariable,
      if last = index && endsWith "\x7b" trimmed then blockEnd braces lines index else last)
  | .function =>
    let block := functionBlockAt content lines offset index
    (((parseFunction? block.content (index + 1) (leadingComments lines index)).map
      .ofFunction).toList, block.endIndex)

/-- The declarations in lines of which the first has an index and an offset; `skip` of the lines
belong to the construct before. -/
def declarationsFrom (content : Text) (lines : List Text) :
    (skip : Nat) → List Text → (index offset : Nat) → List Declaration
  | _, [], _, _ => []
  | skip + 1, line :: rest, index, offset =>
    declarationsFrom content lines skip rest (index + 1) (offset + line.length + 1)
  | 0, line :: rest, index, offset =>
    let trimmed := trim line
    match classify? trimmed with
    | none => declarationsFrom content lines 0 rest (index + 1) (offset + line.length + 1)
    | some construct =>
      let (found, last) := readConstruct content lines index offset trimmed construct
      found
        ++ declarationsFrom content lines (last - index) rest (index + 1) (offset + line.length + 1)

/-- The declarations of a text in source order. -/
def declarations (content : Text) : List Declaration :=
  let lines := Text.lines content
  declarationsFrom content lines 0 lines 0 0

/-- The line that names the package. -/
def packagePattern : Pattern := lineStart ++ "package" ++ blanks1 ++ group 1 word

/-- The package a text belongs to; empty where no line names one. -/
def packageName (content : Text) : Text :=
  ((packagePattern.search content).map (·.group 1)).getD []

/-- The declarations and comments of a text, under the name of its file. -/
def structureOf (content file : Text) : FileStructure :=
  .ofDeclarations file (packageName content) (declarations content) (comments content)

end GoSurvey.Declaration
