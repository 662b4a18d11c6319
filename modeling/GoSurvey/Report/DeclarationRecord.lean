/-
Declarations as JSON records. Every field is present, in the order of
the type, under its name in mixed case.
-/
import GoSurvey.Declaration.Basic
import GoSurvey.Json.Basic

namespace GoSurvey

/-- The record of a parameter. -/
def Parameter.record (p : Parameter) : Json :=
  .object [("name", .text p.name), ("type", .text p.type)]

/-- The record of an import. -/
def ImportDecl.record (d : ImportDecl) : Json :=
  .object [("path", .text d.path), ("line", .nat d.line), ("codeSnippet", .text d.snippet),
    ("alias", .text d.importedAs)]

/-- The record of a type. -/
def TypeDecl.record (d : TypeDecl) : Json :=
  .object [("name", .text d.name), ("type", .text d.type), ("line", .nat d.line),
    ("codeSnippet", .text d.snippet), ("comments", .texts d.comments)]

/-- The record of a constant. -/
def ConstantDecl.record (d : ConstantDecl) : Json :=
  .object [("name", .text d.name), ("value", .text d.value), ("line", .nat d.line),
    ("codeSnippet", .text d.snippet), ("comments", .texts d.comments)]

/-- The record of a variable. -/
def VariableDecl.record (d : VariableDecl) : Json :=
  .object [("name", .text d.name), ("type", .text d.type), ("line", .nat d.line),
    ("codeSnippet", .text d.snippet), ("comments", .texts d.comments)]

/-- The record of a function. -/
def FunctionDecl.record (d : FunctionDecl) : Json :=
  .object [("name", .text d.name), ("parameters", .list Parameter.record d.parameters),
    ("returnType", .text d.returnType), ("line", .nat d.line), ("codeSnippet", .text d.snippet),
    ("comments", .texts d.comments), ("receiver", .text d.receiver)]

/-- The record of a field. -/
def StructField.record (f : StructField) : Json :=
  .object [("name", .text f.name), ("type", .text f.type), ("tag", .text f.tag),
    ("comments", .texts f.comments)]

/-- The record of a struct. -/
def StructDecl.record (d : StructDecl) : Json :=
  .object [("name", .text d.name), ("fields", .list StructField.record d.fields),
    ("line", .nat d.line), ("codeSnippet", .text d.snippet), ("comments", .texts d.comments)]

/-- The record of a method of an interface. -/
def InterfaceMethod.record (m : InterfaceMethod) : Json :=
  .object [("name", .text m.name), ("parameters", .list Parameter.record m.parameters),
    ("returnType", .text m.returnType), ("comments", .texts m.comments)]

/-- The record of an interface. -/
def InterfaceDecl.record (d : InterfaceDecl) : Json :=
  .object [("name", .text d.name), ("methods", .list InterfaceMethod.record d.methods),
    ("line", .nat d.line), ("codeSnippet", .text d.snippet), ("comments", .texts d.comments)]

/-- The word for the form of a comment. -/
def CommentForm.text : CommentForm → Text
  | .line => "line"
  | .block => "block"

/-- The record of a comment. -/
def Comment.record (c : Comment) : Json :=
  .object [("text", .text c.text), ("line", .nat c.line), ("type", .text c.form.text)]

/-- The record of a file. -/
def FileStructure.record (s : FileStructure) : Json :=
  .object [("filePath", .text s.file), ("packageName", .text s.package),
    ("imports", .list ImportDecl.record s.imports), ("types", .list TypeDecl.record s.types),
    ("constants", .list ConstantDecl.record s.constants),
    ("variables", .list VariableDecl.record s.packageVars),
    ("functions", .list FunctionDecl.record s.functions),
    ("structs", .list StructDecl.record s.structs),
    ("interfaces", .list InterfaceDecl.record s.interfaces),
    ("comments", .list Comment.record s.comments)]

/-- The record of a symbol. -/
def ProjectSymbol.record (s : ProjectSymbol) : Json :=
  .object [("name", .text s.name), ("kind", .text s.kind.text), ("file", .text s.file),
    ("line", .nat s.line)]

end GoSurvey
