/-
Finding files and projects by incomplete paths.
-/
import GoSurvey.Project.Basic

namespace GoSurvey.Project

open Text

/-- The directories from one upwards, each as the names on the way to it. -/
def upwards : (namesReversed : List Text) → List (List Text)
  | [] => [[]]
  | name :: above => (name :: above).reverse :: upwards above

/-- The nearest directory above a file that has an entry of a name; the directory of the file
where there is none. -/
def findRoot (d : Disk) (file marker : Text) : Text :=
  let start := (d.resolve (.ofText file)).dropLast
  let marked (names : List Text) : Bool :=
    d.exists? ((Path.ofNames names).append (.ofText marker))
  (Path.ofNames (((upwards start.reverse).find? marked).getD start)).text

/-- The first file of a name below a directory, hidden and excluded directories left out. -/
def findByName? (d : Disk) (root name : Text) : Option Text :=
  let path := Path.ofText root
  let config : Config := { root := path.text }
  ((leavesAt d config.keepsDir path).find? fun leaf => leaf.1.getLastD [] == name).map
    fun leaf => (path.append ⟨.relative, leaf.1⟩).text

/-- The first file below a directory that has the same name as a path. -/
def findFile? (d : Disk) (root file : Text) : Option Text :=
  findByName? d root (Path.ofText file).name

/-- What a path means to someone at work on a project: an absolute path that exists, a path below
the root that exists, or else a file of the same name; the path itself where there is none. -/
def resolvePath (d : Disk) (input root : Text) : Except Failure Text := do
  let path := Path.ofText input
  let joined := (Path.ofText root).append path
  if path.isAbsolute then
    if ← d.present path then return input
  if ← d.present joined then return joined.text
  return (findByName? d root path.name).getD input

end GoSurvey.Project
