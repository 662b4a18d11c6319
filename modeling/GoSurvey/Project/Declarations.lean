/-
Declarations and names over all files of a project: structures, totals,
repeated symbols, definitions and mentions.
-/
import GoSurvey.Declaration.Structure
import GoSurvey.Project.Locate
import GoSurvey.Symbol.Definition

namespace GoSurvey

open Text

/-- How many there are of everything. -/
structure ElementCounts where
  files : Nat
  imports : Nat
  types : Nat
  constants : Nat
  packageVars : Nat
  functions : Nat
  structs : Nat
  interfaces : Nat
  deriving DecidableEq, Repr

/-- The totals over structures. -/
def ElementCounts.ofStructures (ss : List FileStructure) : ElementCounts :=
  let total (size : FileStructure → Nat) : Nat := ss.foldl (fun n s => n + size s) 0
  { files := ss.length
    imports := total (·.imports.length)
    types := total (·.types.length)
    constants := total (·.constants.length)
    packageVars := total (·.packageVars.length)
    functions := total (·.functions.length)
    structs := total (·.structs.length)
    interfaces := total (·.interfaces.length) }

/-- The symbols with each key, the keys in the order in which they come up first. -/
def groupByKey (symbols : List ProjectSymbol) : List (Text × List ProjectSymbol) :=
  (symbols.map (·.key)).eraseDups.map fun key => (key, symbols.filter (·.key == key))

namespace Project

open GoSurvey.Symbol

/-- The structure of one file, under its path relative to a root; nothing is declared in a file
that cannot be read. -/
def fileStructure (d : Disk) (file root : Text) : FileStructure :=
  let path := Path.ofText file
  let name := d.relativeText path (.ofText root)
  match d.read path with
  | .ok content => Declaration.structureOf content name
  | .error _ => { file := name }

/-- The structures of all files. -/
def structures (p : Project) : Except Failure (List FileStructure) :=
  p.sources.map fun fs => fs.map fun (file, content) => Declaration.structureOf content file

/-- The symbols that are declared more than once, by their keys. -/
def duplicates (p : Project) : Except Failure (List (Text × List ProjectSymbol)) :=
  p.structures.map fun ss =>
    (groupByKey (ss.flatMap (·.symbols))).filter fun (_, symbols) => decide (1 < symbols.length)

/-- A definition in a file as one in a project. -/
def symbolInfo (name file : Text) (d : LocalDefinition) : SymbolInfo :=
  ⟨name, d.kind, file, d.line, d.signature⟩

/-- The definition of a name in the file at a path. -/
def symbolInFile? (d : Disk) (file name : Text) : Except Failure (Option SymbolInfo) := do
  let path := Path.ofText file
  let content ← d.read path
  .ok ((definitionIn? content name).map (symbolInfo name (d.resolvedText path)))

/-- The definition of a name in the first file that has one. -/
def symbol? (p : Project) (name : Text) : Except Failure (Option SymbolInfo) :=
  p.files.map fun fs => fs.findSome? fun f =>
    (definitionIn? f.content name).map (symbolInfo name (p.absolute f))

/-- The project around a file, unless settings are given. -/
def around (d : Disk) (file : Text) (config : Option Config) : Project :=
  ⟨d, config.getD { root := findRoot d file Config.moduleMarker }⟩

/-- The identifier at a line, counted from 1, and a column, counted from 0. -/
def identifierIn? (content : Text) (line column : Int) : Option Text :=
  if line < 1 then none
  else do
    let text ← (lines content)[line.toNat - 1]?
    let name ← identifierAt? text column
    if name.isEmpty then none else some name

/-- The definition of the identifier at a place in a file. -/
def definition? (d : Disk) (file : Text) (line column : Int) (config : Option Config) :
    Except Failure (Option SymbolInfo) :=
  match d.read (.ofText file) with
  | .error _ => .ok none
  | .ok content =>
    match identifierIn? content line column with
    | none => .ok none
    | some name => (around d file config).symbol? name

/-- The lines that contain a name. -/
def usages (p : Project) (name : Text) : Except Failure (List SymbolUsage) :=
  p.sources.map fun fs => fs.flatMap fun (file, content) => usagesIn content file name

end Project
end GoSurvey
