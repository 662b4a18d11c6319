/-
Paths as texts name them. Repeated slashes, single dots and a slash at
the end have no meaning; `..` is kept until the path is resolved, which
takes it back together with the name before it.
-/
import GoSurvey.Text.Basic

namespace GoSurvey

open Text

/-- Where a path starts. -/
inductive Anchor where
  /-- At the working directory. -/
  | relative
  /-- At the root. -/
  | root
  /-- At the root, written with two slashes. -/
  | doubleRoot
  deriving DecidableEq, Repr

/-- A path. -/
structure Path where
  anchor : Anchor
  parts : List Text
  deriving DecidableEq, Repr

namespace Path

/-- The part that stands for the directory above. -/
def parentMark : Text := ".."

/-- The anchor of a text, by the number of slashes it begins with. -/
def anchorOf (t : Text) : Anchor :=
  match (t.takeWhile (· == '/')).length with
  | 0 => .relative
  | 2 => .doubleRoot
  | _ => .root

/-- The path that a text names. -/
def ofText (t : Text) : Path :=
  ⟨anchorOf t, (splitOn '/' t).filter fun part => !part.isEmpty && part != ['.']⟩

/-- What an anchor is written as. -/
def Anchor.text : Anchor → Text
  | .relative => []
  | .root => "/"
  | .doubleRoot => "//"

/-- The path as a text; the empty path is a dot. -/
def text (p : Path) : Text :=
  orElse (Anchor.text p.anchor ++ join "/" p.parts) "."

/-- Whether a path does not depend on the working directory. -/
def isAbsolute (p : Path) : Bool := p.anchor != .relative

/-- A path seen from another; an absolute path stays what it is. -/
def append (p q : Path) : Path := if q.isAbsolute then q else ⟨p.anchor, p.parts ++ q.parts⟩

/-- The last part; empty if there is none. -/
def name (p : Path) : Text := p.parts.getLastD []

/-- Takes back every `..` with the name before it; at the root it has no effect. The names before
the given ones are `above`, the nearest first. -/
def collapseFrom : (above : List Text) → List Text → List Text
  | above, [] => above.reverse
  | above, part :: rest =>
    if part = parentMark then collapseFrom above.tail rest else collapseFrom (part :: above) rest

/-- The names on the way from the root to what a path means in a working directory. -/
def resolve (cwd : List Text) (p : Path) : List Text :=
  collapseFrom [] (if p.isAbsolute then p.parts else cwd ++ p.parts)

/-- An absolute path from the names on the way. -/
def ofNames (names : List Text) : Path := ⟨.root, names⟩

/-- The rest of a list of names after another list, if it begins with that. -/
def below? : (root names : List Text) → Option (List Text)
  | [], names => some names
  | _ :: _, [] => none
  | r :: root, n :: names => if r = n then below? root names else none

/-- A path relative to a root, with slashes; unchanged where it is not below the root. -/
def relativeTo (cwd : List Text) (path root : Path) : Text :=
  match below? (root.resolve cwd) (path.resolve cwd) with
  | some names => (⟨.relative, names⟩ : Path).text
  | none => path.text

end Path
end GoSurvey
