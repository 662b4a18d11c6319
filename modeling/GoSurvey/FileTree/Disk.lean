/-
Files as programs find them: a tree from the root on, and a working
directory. A path is followed name by name, so everything on the way has
to be a directory, also what a `..` leads out of.

What a path leads to in the tree (`find`) is one thing, what the system
says about a path that is put to it (`stat`) another: it takes no path and
asks no directory for a name that is too long. A project and its files
have paths that it takes; the text of a client may be anything, so
questions about that (`present`, `isFile`, `isDir`) can fail.
-/
import GoSurvey.FileTree.Basic
import GoSurvey.FileTree.Path
import GoSurvey.Text.Encoding

namespace GoSurvey

/-- Why a request cannot be answered. -/
inductive Failure where
  /-- No route has this id. -/
  | routeNotFound (id : Text)
  /-- A path leads nowhere. -/
  | fileNotFound
  /-- A directory stands where a file is to be read. -/
  | isDirectory
  /-- A file stands where a path goes on. -/
  | notDirectory
  /-- A path, or a name in it, is too long for the system. -/
  | nameTooLong
  /-- A function has a receiver without a type. -/
  | emptyReceiver
  /-- A negative number of paths is asked for. -/
  | negativeLimit
  /-- An ignore file holds a pattern that means nothing. -/
  | badIgnorePattern
  deriving DecidableEq, Repr

/-- What is said about a failure. -/
def Failure.message : Failure → Text
  | routeNotFound id => "Route with ID " ++ id ++ " not found"
  | fileNotFound => "No such file"
  | isDirectory => "Is a directory"
  | notDirectory => "Not a directory"
  | nameTooLong => "File name too long"
  | emptyReceiver => "Receiver without a type"
  | negativeLimit => "Negative number of paths"
  | badIgnorePattern => "Invalid ignore pattern"

/-- A tree from the root on, and the names on the way to the working directory. -/
structure Disk where
  tree : FileTree
  cwd : List Text

namespace Disk

open Text

/-- Follows names from a place in a tree; `above` are the directories on the way to it, the
nearest first. No directory is asked for a name that does not fit. -/
def follow (fits : Text → Bool) :
    (above : List FileTree) → FileTree → List Text → Except Failure FileTree
  | _, here, [] => .ok here
  | above, here, name :: rest =>
    match here with
    | .file _ => .error .notDirectory
    | .dir es =>
      if name = Path.parentMark then
        match above with
        | [] => follow fits [] here rest
        | parent :: above => follow fits above parent rest
      else if fits name then
        match es.lookup name with
        | none => .error .fileNotFound
        | some below => follow fits (here :: above) below rest
      else .error .nameTooLong

/-- The names on the way from the root along a path. -/
def way (d : Disk) (p : Path) : List Text := if p.isAbsolute then p.parts else d.cwd ++ p.parts

/-- What a path leads to. -/
def find (d : Disk) (p : Path) : Except Failure FileTree :=
  follow (fun _ => true) [] d.tree (d.way p)

/-- What a path leads to, if it leads anywhere. -/
def find? (d : Disk) (p : Path) : Option FileTree := (d.find p).toOption

/-- Whether a path leads anywhere. -/
def exists? (d : Disk) (p : Path) : Bool := (d.find? p).isSome

/-- The number of bytes that a name may have. -/
def nameLimit : Nat := 255

/-- The number of bytes that a path may have. -/
def pathLimit : Nat := 4095

/-- Whether a directory can be asked for a name. -/
def isShort (name : Text) : Bool := decide (byteLength name ≤ nameLimit)

/-- What the system finds at a path. -/
def stat (d : Disk) (p : Path) : Except Failure FileTree :=
  if byteLength p.text ≤ pathLimit then follow isShort [] d.tree (d.way p)
  else .error .nameTooLong

/-- Whether the system finds something of a kind at a path; nothing is found where the path leads
nowhere. -/
def check (d : Disk) (kind : FileTree → Bool) (p : Path) : Except Failure Bool :=
  match d.stat p with
  | .ok t => .ok (kind t)
  | .error .fileNotFound | .error .notDirectory => .ok false
  | .error e => .error e

/-- Whether the system finds anything at a path. -/
def present (d : Disk) (p : Path) : Except Failure Bool := d.check (fun _ => true) p

/-- Whether the system finds a file at a path. -/
def isFile (d : Disk) (p : Path) : Except Failure Bool := d.check FileTree.isFile p

/-- Whether the system finds a directory at a path. -/
def isDir (d : Disk) (p : Path) : Except Failure Bool := d.check FileTree.isDir p

/-- The text of the file that a path leads to. -/
def read (d : Disk) (p : Path) : Except Failure Text := do
  match ← d.find p with
  | .file content => .ok content
  | .dir _ => .error .isDirectory

/-- The names on the way to what a path means. -/
def resolve (d : Disk) (p : Path) : List Text := p.resolve d.cwd

/-- A path as an absolute text without dots. -/
def resolvedText (d : Disk) (p : Path) : Text := (Path.ofNames (d.resolve p)).text

/-- A path relative to a root; unchanged where it is not below the root. -/
def relativeText (d : Disk) (path root : Path) : Text := path.relativeTo d.cwd root

end Disk
end GoSurvey
