/-
A tree of directories and text files. The walk through a tree goes by
name, not by the order in which a directory lists its entries, so it
comes upon the files in the order of their paths.

There are no links in a tree, no entries but directories and files, and
none that a program may not read. What is said about the files of a
project is said about such trees.
-/
import GoSurvey.Text.Basic

namespace GoSurvey

/-- A file with its text, or a directory with its named entries. -/
inductive FileTree where
  | file (content : Text)
  | dir (entries : List (Text × FileTree))

namespace FileTree

/-- The empty directory. -/
def empty : FileTree := .dir []

/-- Whether it is a file. -/
def isFile : FileTree → Bool
  | file _ => true
  | dir _ => false

/-- Whether it is a directory. -/
def isDir : FileTree → Bool
  | file _ => false
  | dir _ => true

/-- The entries of a directory; a file has none. -/
def entries : FileTree → List (Text × FileTree)
  | file _ => []
  | dir es => es

/-- The entry of a name. -/
def child? (t : FileTree) (name : Text) : Option FileTree := t.entries.lookup name

/-- Entries with one of a name set, in the place of an entry of that name if there is one. -/
def setEntry (name : Text) (t : FileTree) : List (Text × FileTree) → List (Text × FileTree)
  | [] => [(name, t)]
  | (n, old) :: rest => if n = name then (name, t) :: rest else (n, old) :: setEntry name t rest

/-- The tree with another put at a path; directories on the way are made. -/
def put (new : FileTree) : List Text → FileTree → FileTree
  | [], _ => new
  | name :: path, t =>
    .dir (setEntry name (put new path ((t.child? name).getD empty)) t.entries)

/-- The tree without what is at a path. -/
def remove : List Text → FileTree → FileTree
  | [], t => t
  | [name], t => .dir (t.entries.filter fun (n, _) => n != name)
  | name :: path, t =>
    match t.child? name with
    | none => t
    | some below => .dir (setEntry name (remove path below) t.entries)

/-- A file below a directory: the names on the way to it, and its text. -/
abbrev Leaf := List Text × Text

mutual

/-- The files below a directory in the order of their paths. Only directories whose name is kept
are entered. -/
def leaves (keep : Text → Bool) : FileTree → List Leaf
  | file _ => []
  | dir es => ((leafGroups keep es).mergeSort fun a b => Text.le a.1 b.1).flatMap (·.2)

/-- The files of each entry, under the name of the entry. -/
def leafGroups (keep : Text → Bool) : List (Text × FileTree) → List (Text × List Leaf)
  | [] => []
  | (name, file content) :: rest => (name, [([name], content)]) :: leafGroups keep rest
  | (name, dir es) :: rest =>
    let below := if keep name then leaves keep (dir es) else []
    (name, below.map fun (path, content) => (name :: path, content)) :: leafGroups keep rest

end

end FileTree
end GoSurvey
