/-
A project: a disk and what is to be analysed on it. Its source files are
those below the root that the settings let through; every analysis of
the whole project starts from this list (`Project.files`).
-/
import GoSurvey.FileTree.Ignore

namespace GoSurvey

open Text

/-- What is to be analysed. -/
structure Config where
  /-- The path of the project root. -/
  root : Text
  sourceSuffix : Text := ".go"
  /-- Files whose names end like this are left out. -/
  testSuffix : Text := "_test.go"
  /-- Directories of these names are not entered. -/
  excludedDirs : List Text := ["vendor", "node_modules"]
  /-- Whether directories whose names begin with a dot are not entered. -/
  skipHidden : Bool := true
  /-- Whether the ignore file in the root is honoured. -/
  respectIgnore : Bool := false
  deriving DecidableEq, Repr

namespace Config

/-- The file that marks the root of a module. -/
def moduleMarker : Text := "go.mod"

/-- The directories that are always left out unless asked for. -/
def vendorDir : Text := "vendor"

/-- The settings without the exclusion of vendored code. -/
def includeVendor (c : Config) : Config :=
  { c with excludedDirs := c.excludedDirs.filter (· != vendorDir) }

/-- Whether directories of a name are entered. -/
def keepsDir (c : Config) (name : Text) : Bool :=
  !(c.skipHidden && startsWith "." name) && !c.excludedDirs.contains name

/-- Whether a file name is that of a source file. -/
def isSource (c : Config) (name : Text) : Bool :=
  endsWith c.sourceSuffix name && !endsWith c.testSuffix name

end Config

/-- A source file: its path below the project root and its text. -/
structure SourceFile where
  path : List Text
  content : Text
  deriving DecidableEq, Repr

namespace SourceFile

/-- The path below the root as a text. -/
def relative (f : SourceFile) : Text := join "/" f.path

end SourceFile

/-- A disk and what is to be analysed on it. -/
structure Project where
  disk : Disk
  config : Config

namespace Project

/-- The path of the root. -/
def rootPath (p : Project) : Path := .ofText p.config.root

/-- The names on the way to the root. -/
def rootNames (p : Project) : List Text := p.disk.resolve p.rootPath

/-- The absolute path of a file below the root. -/
def absolute (p : Project) (f : SourceFile) : Text := (Path.ofNames (p.rootNames ++ f.path)).text

/-- The name of the ignore file. -/
def ignoreFile : Text := ".gitignore"

/-- The rules of the ignore file in the root, none if it is not to be honoured or not there. -/
def ignoreRules (p : Project) : Except Failure (List Ignore.Rule) :=
  let path := Path.ofNames (p.rootNames ++ [ignoreFile])
  if p.config.respectIgnore && p.disk.exists? path then do
    Ignore.rules (← p.disk.read path)
  else .ok []

/-- The files below a directory, in the order of their paths; none if it is no directory. -/
def leavesAt (d : Disk) (keep : Text → Bool) (path : Path) : List FileTree.Leaf :=
  ((d.find? path).map (FileTree.leaves keep)).getD []

/-- The source files, with only those directories entered that are kept. -/
def filesKeeping (p : Project) (keep : Text → Bool) : Except Failure (List SourceFile) := do
  let rules ← p.ignoreRules
  let all := (leavesAt p.disk keep (.ofNames p.rootNames)).map fun (path, content) =>
    (⟨path, content⟩ : SourceFile)
  .ok (all.filter fun f =>
    p.config.isSource (f.path.getLastD []) && !Ignore.ignores rules f.relative)

/-- The source files. -/
def files (p : Project) : Except Failure (List SourceFile) := p.filesKeeping p.config.keepsDir

/-- The source files as pairs of path and text. -/
def sources (p : Project) : Except Failure (List (Text × Text)) :=
  p.files.map fun fs => fs.map fun f => (f.relative, f.content)

end Project
end GoSurvey
