/-
What a file of Go source declares.

A `Declaration` is one of seven kinds; the extractor yields them in
source order, and a `FileStructure` sorts them by kind without changing
the order within a kind (`FileStructure.ofDeclarations`). Comments of a
declaration are the texts of the `//` lines directly above it.
-/
import GoSurvey.Text.Basic

namespace GoSurvey

/-- A parameter; the name of an anonymous one is empty. -/
structure Parameter where
  name : Text
  type : Text
  deriving DecidableEq, Repr

/-- An import, with the name it is imported under if it has one. -/
structure ImportDecl where
  path : Text
  line : Nat
  snippet : Text
  importedAs : Text
  deriving DecidableEq, Repr

/-- A type that is neither a struct nor an interface, with its underlying type. -/
structure TypeDecl where
  name : Text
  type : Text
  line : Nat
  snippet : Text
  comments : List Text
  deriving DecidableEq, Repr

/-- A constant; its value is empty where the declaration gives none. -/
structure ConstantDecl where
  name : Text
  value : Text
  line : Nat
  snippet : Text
  comments : List Text
  deriving DecidableEq, Repr

/-- A package-level variable; its type is empty where the declaration gives none. -/
structure VariableDecl where
  name : Text
  type : Text
  line : Nat
  snippet : Text
  comments : List Text
  deriving DecidableEq, Repr

/-- A function, or a method if the receiver is not empty. -/
structure FunctionDecl where
  name : Text
  parameters : List Parameter
  returnType : Text
  line : Nat
  snippet : Text
  comments : List Text
  receiver : Text
  deriving DecidableEq, Repr

/-- A field of a struct. -/
structure StructField where
  name : Text
  type : Text
  tag : Text
  comments : List Text
  deriving DecidableEq, Repr

/-- A struct type. -/
structure StructDecl where
  name : Text
  fields : List StructField
  line : Nat
  snippet : Text
  comments : List Text
  deriving DecidableEq, Repr

/-- A method of an interface. -/
structure InterfaceMethod where
  name : Text
  parameters : List Parameter
  returnType : Text
  comments : List Text
  deriving DecidableEq, Repr

/-- An interface type. -/
structure InterfaceDecl where
  name : Text
  methods : List InterfaceMethod
  line : Nat
  snippet : Text
  comments : List Text
  deriving DecidableEq, Repr

/-- The two forms of a comment. -/
inductive CommentForm where
  | line
  | block
  deriving DecidableEq, Repr

/-- A comment that starts a line. -/
structure Comment where
  text : Text
  line : Nat
  form : CommentForm
  deriving DecidableEq, Repr

/-- A declaration of any kind. -/
inductive Declaration where
  | ofImport (d : ImportDecl)
  | ofType (d : TypeDecl)
  | ofConstant (d : ConstantDecl)
  | ofVariable (d : VariableDecl)
  | ofFunction (d : FunctionDecl)
  | ofStruct (d : StructDecl)
  | ofInterface (d : InterfaceDecl)
  deriving DecidableEq, Repr

namespace Declaration

/-- The line of a declaration. -/
def line : Declaration → Nat
  | ofImport d => d.line
  | ofType d => d.line
  | ofConstant d => d.line
  | ofVariable d => d.line
  | ofFunction d => d.line
  | ofStruct d => d.line
  | ofInterface d => d.line

/-- The import, if it is one. -/
def asImport? : Declaration → Option ImportDecl
  | ofImport d => some d
  | _ => none

/-- The type, if it is one. -/
def asType? : Declaration → Option TypeDecl
  | ofType d => some d
  | _ => none

/-- The constant, if it is one. -/
def asConstant? : Declaration → Option ConstantDecl
  | ofConstant d => some d
  | _ => none

/-- The variable, if it is one. -/
def asVariable? : Declaration → Option VariableDecl
  | ofVariable d => some d
  | _ => none

/-- The function, if it is one. -/
def asFunction? : Declaration → Option FunctionDecl
  | ofFunction d => some d
  | _ => none

/-- The struct, if it is one. -/
def asStruct? : Declaration → Option StructDecl
  | ofStruct d => some d
  | _ => none

/-- The interface, if it is one. -/
def asInterface? : Declaration → Option InterfaceDecl
  | ofInterface d => some d
  | _ => none

end Declaration

/-- The declarations and comments of one file. -/
structure FileStructure where
  file : Text
  package : Text := []
  imports : List ImportDecl := []
  types : List TypeDecl := []
  constants : List ConstantDecl := []
  packageVars : List VariableDecl := []
  functions : List FunctionDecl := []
  structs : List StructDecl := []
  interfaces : List InterfaceDecl := []
  comments : List Comment := []
  deriving DecidableEq, Repr

/-- Sorts declarations by kind. -/
def FileStructure.ofDeclarations (file package : Text) (ds : List Declaration)
    (comments : List Comment) : FileStructure where
  file := file
  package := package
  imports := ds.filterMap (·.asImport?)
  types := ds.filterMap (·.asType?)
  constants := ds.filterMap (·.asConstant?)
  packageVars := ds.filterMap (·.asVariable?)
  functions := ds.filterMap (·.asFunction?)
  structs := ds.filterMap (·.asStruct?)
  interfaces := ds.filterMap (·.asInterface?)
  comments := comments

/-- The kinds of named declarations. -/
inductive SymbolKind where
  | function
  | struct
  | interface
  | type
  | constant
  | variable
  deriving DecidableEq, Repr

/-- The word for a kind. -/
def SymbolKind.text : SymbolKind → Text
  | .function => "function"
  | .struct => "struct"
  | .interface => "interface"
  | .type => "type"
  | .constant => "constant"
  | .variable => "variable"

/-- A named declaration and where it stands. -/
structure ProjectSymbol where
  name : Text
  kind : SymbolKind
  file : Text
  line : Nat
  deriving DecidableEq, Repr

/-- What two declarations share when one repeats the other: the kind and the name. -/
def ProjectSymbol.key (s : ProjectSymbol) : Text := s.kind.text ++ ":" ++ s.name

/-- The named declarations of a file, kind by kind. -/
def FileStructure.symbols (s : FileStructure) : List ProjectSymbol :=
  s.functions.map (fun d => ⟨d.name, .function, s.file, d.line⟩)
    ++ s.structs.map (fun d => ⟨d.name, .struct, s.file, d.line⟩)
    ++ s.interfaces.map (fun d => ⟨d.name, .interface, s.file, d.line⟩)
    ++ s.types.map (fun d => ⟨d.name, .type, s.file, d.line⟩)
    ++ s.constants.map (fun d => ⟨d.name, .constant, s.file, d.line⟩)
    ++ s.packageVars.map (fun d => ⟨d.name, .variable, s.file, d.line⟩)

end GoSurvey
