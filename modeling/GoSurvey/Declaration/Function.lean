/-
Function and method declarations: where they end, and how their
signature is read. A signature may extend over several lines; it is put
on one line, without comments, before it is read.
-/
import GoSurvey.Declaration.Member
import GoSurvey.Source.Block

namespace GoSurvey.Declaration

open Text Source Pattern

/-- The head of a signature up to its parameter list: the receiver and the name. -/
def functionHead : Pattern :=
  atStart ++ "func" ++ blanks
    ++ optional ("(" ++ group 1 (run (except ')')) ++ ")" ++ blanks)
    ++ group 2 word ++ blanks ++ typeParameters ++ blanks ++ ahead "("

/-- The signature of a declaration on one line. -/
def signatureLine (content : Text) : Text :=
  let written :=
    match findBodyOpen? content 0 with
    | some opener => content.take opener
    | none => before [newline] content
  trim (squeeze (join " " ((lines written).map stripLineComment)))

/-- A function from the text of its declaration. -/
def parseFunction? (content : Text) (line : Nat) (comments : List Text) : Option FunctionDecl :=
  let signature := signatureLine content
  (functionHead.matchStart signature).map fun m =>
    let (params, result) :=
      match findMatching? parentheses signature m.stop with
      | some (opener, closer) => (slice signature (opener + 1) closer, signature.drop (closer + 1))
      | none => (signature.drop (m.stop + 1), [])
    { name := m.group 2
      parameters := parseParameters params
      returnType := trim (dropEndWhile (· == '{') (trim result))
      line := line
      snippet := content
      comments := comments
      receiver := trim (m.group 1) }

/-- A line that begins another declaration. -/
def nextDeclaration : Pattern :=
  one (· == newline) ++ oneOf ["func", "type", "var", "const", "import"] ++ wordEdge

/-- The block of the function whose line has an index and an offset in the content: up to the
closing brace of its body, or its line alone if no body follows before the next declaration. -/
def functionBlockAt (content : Text) (lines : List Text) (offset index : Nat) : Block :=
  let single : Block := ⟨lines[index]?.getD [], index⟩
  match findBodyOpen? content offset with
  | none => single
  | some opener =>
    if nextDeclaration.occursIn (slice content offset opener) then single
    else
      match findMatching? braces content opener with
      | none => ⟨joinLines (lines.drop index), lines.length - 1⟩
      | some (_, closer) =>
        let last := lineAt content closer - 1
        ⟨linesText lines index last, last⟩

/-- The block of the function whose line has an index. -/
def functionBlock (content : Text) (lines : List Text) (index : Nat) : Block :=
  functionBlockAt content lines ((lineOffsets lines)[index]?.getD 0) index

end GoSurvey.Declaration
