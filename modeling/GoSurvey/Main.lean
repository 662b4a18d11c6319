/-
The program: reads the part of the disk that the words on the command
line can be about, runs the command on it, and prints what the command
leaves behind. Everything that decides something is in `Cli.runWords`.

What is read: for the working directory and for every word that names
something on the disk, the directory it is or lies in and, if there is
one, the nearest directory upwards that marks a module. Directories that
no analysis enters are left out, and of the directories on the way from
the root only the names in them are read.
-/
import GoSurvey.Cli.Run
import GoSurvey.Text.Encoding

namespace GoSurvey.Program

/-- The text of a file; empty if it cannot be read. -/
def readFileText (base : String) : IO Text := do
  try
    let bytes ← IO.FS.readBinFile base
    return Text.ofBytes bytes.toList
  catch _ => return []

/-- Whether a directory is left out. -/
def isLeftOut (name : String) : Bool :=
  name == "node_modules" || (name.startsWith "." && name != ".gitignore")

/-- No path that the system opens is as long as this, so no tree is as deep. -/
def maxDepth : Nat := 4096

/-- The tree below a directory, at most so many levels of it. Links are not followed. -/
def readTree : (depth : Nat) → (path : String) → IO FileTree
  | 0, _ => return FileTree.empty
  | depth + 1, path => do
  let cwd ← IO.currentDir
  try
    let mut entries := #[]
    for entry in ← (cwd / path).readDir do
      let below := path ++ "/" ++ entry.fileName
      let kind ← try pure (some (← entry.path.symlinkMetadata).type) catch _ => pure none
      match kind with
      | some .dir =>
        unless isLeftOut entry.fileName do
          entries := entries.push (entry.fileName.toList, ← readTree depth below)
      | some .file =>
        entries := entries.push (entry.fileName.toList, .file (← readFileText below))
      | _ => pure ()
    return .dir entries.toList
  catch _ => return FileTree.empty

/-- The names in a directory, with nothing in them. -/
def readNames (path : String) : IO FileTree := do
  let cwd ← IO.currentDir
  try
    let mut entries := #[]
    for entry in ← (cwd / path).readDir do
      let below := if ← entry.path.isDir then FileTree.empty else .file []
      entries := entries.push (entry.fileName.toList, below)
    return .dir entries.toList
  catch _ => return FileTree.empty

/-- The text of an absolute path. -/
def pathString (names : List Text) : String := String.ofList (Path.ofNames names).text

/-- The nearest directory that marks a module, from one upwards. The names come innermost first. -/
def moduleDir? (upwards : List Text) : IO (Option (List Text)) := do
  let cwd ← IO.currentDir
  let names := upwards.reverse
  if ← (cwd / pathString (names ++ [Config.moduleMarker])).pathExists then return some names
  else match upwards with
    | [] => return none
    | _ :: rest => moduleDir? rest

/-- The directories to be read for a word. -/
def dirsFor (cwd : List Text) (word : String) : IO (List (List Text)) := do
  let here ← IO.currentDir
  let names := Path.resolve cwd (.ofText word.toList)
  let path := here / pathString names
  unless ← path.pathExists do return []
  let dir := if ← path.isDir then names else names.dropLast
  let marked ← moduleDir? (names.reverse.drop 1)
  return dir :: marked.toList

/-- Adds the names in the directories on the way to one. -/
def addWay (tree : FileTree) : (way : List Text) → List Text → IO FileTree
  | _, [] => pure tree
  | way, name :: rest => do
    let listed ← readNames (pathString way)
    let missing := listed.entries.filter fun (n, _) =>
      (((⟨tree, []⟩ : Disk).find? (Path.ofNames (way ++ [n]))).isNone : Bool)
    let tree := missing.foldl (fun t (n, below) => FileTree.put below (way ++ [n]) t) tree
    addWay tree (way ++ [name]) rest

/-- The part of the disk that words can be about. -/
def readDisk (words : List String) : IO Disk := do
  let cwd := (Path.ofText (toString (← IO.currentDir)).toList).parts
  let wanted ← (("." :: words).flatMap fun w => w :: (w.splitOn "=").drop 1).mapM (dirsFor cwd)
  let dirs := wanted.flatten.eraseDups.mergeSort fun a b => decide (a.length ≤ b.length)
  let mut tree := FileTree.empty
  for dir in dirs do
    tree ← addWay tree [] dir
    tree := FileTree.put (← readTree maxDepth (pathString dir)) dir tree
  return ⟨tree, cwd⟩

end GoSurvey.Program

open GoSurvey Program in
/-- Runs the command that the words on the command line name. -/
def main (args : List String) : IO UInt32 := do
  match Cli.runWords (← readDisk args) (args.map String.toList) with
  | .ok outcome =>
    (← IO.getStdout).putStr (String.ofList outcome.stdout)
    (← IO.getStderr).putStr (String.ofList outcome.stderr)
    return UInt32.ofNat outcome.code
  | .error failure =>
    (← IO.getStderr).putStrLn (String.ofList failure.message)
    return 1
