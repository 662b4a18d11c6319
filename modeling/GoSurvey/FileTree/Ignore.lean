/-
Ignore files: which paths the lines of a `.gitignore` exclude. Each line
is read into a rule, which is a pattern for whole paths and a sign; of
the rules that match a path the last one decides.

A line is cut into segments at slashes. `**` stands for any number of
directories, a lone `*` for one name, and every other segment is a glob.
-/
import GoSurvey.FileTree.Disk
import GoSurvey.Text.Pattern

namespace GoSurvey.Ignore

open Text Pattern

-- ============================================================== lines

/-- The characters that end a line of an ignore file. -/
def endsLine (c : Char) : Bool :=
  let n := c.toNat
  (0xA ≤ n && n ≤ 0xD) || (0x1C ≤ n && n ≤ 0x1E) || n == 0x85 || n == 0x2028 || n == 0x2029

/-- The lines of an ignore file. -/
def fileLines : Text → List Text
  | [] => [[]]
  | c :: rest =>
    if endsLine c then [] :: fileLines rest
    else
      match fileLines rest with
      | [] => [[c]]
      | line :: lines => (c :: line) :: lines

/-- A line without the blanks at its end, which an escaped space protects. -/
def trimLine (line : Text) : Text := if endsWith "\\ " line then line else trimEnd line

-- ============================================================== globs

/-- Every character but a slash. -/
def inName (c : Char) : Bool := c != '/'

/-- Every character that a name on the way may have. -/
def inPath (c : Char) : Bool := c != newline

/-- The ranges of a character class; a hyphen between two characters makes a range of them. -/
def classRanges : Text → List (Char × Char)
  | low :: '-' :: high :: rest => (low, high) :: classRanges rest
  | c :: rest => (c, c) :: classRanges rest
  | [] => []

/-- The pattern of a character class without its brackets. -/
def classPattern (body : Text) : Pattern :=
  let (negated, members) :=
    match body with
    | '!' :: rest => (true, rest)
    | '^' :: rest => (true, rest)
    | _ => (false, body)
  let ranges := classRanges members
  one fun c => ranges.any (fun (low, high) => low ≤ c && c ≤ high) != negated

/-- The length of the class that a text after its opening bracket begins with, the closing bracket
not counted. A bracket that comes first, be it after a negation, does not close the class. -/
def classLength? (t : Text) : Option Nat :=
  let signs := if t.head? = some '!' || t.head? = some '^' then 1 else 0
  let signs := if (t.drop signs).head? = some ']' then signs + 1 else signs
  ((t.drop signs).findIdx? (· == ']')).map (· + signs)

/-- What a segment or a line is read into. -/
inductive Reading (α : Type) where
  | value (a : α)
  /-- The line has no effect. -/
  | dropped
  /-- The line means nothing. -/
  | invalid

/-- Reads a glob, of which the first `skip` characters have been read already. -/
def glob : (skip : Nat) → (escaped : Bool) → Text → Reading Pattern
  | _, escaped, [] => if escaped then .invalid else .value .nothing
  | skip + 1, escaped, _ :: rest => glob skip escaped rest
  | 0, escaped, c :: rest =>
    let andThen (p : Pattern) (tail : Reading Pattern) : Reading Pattern :=
      match tail with
      | .value q => .value (p ++ q)
      | other => other
    if escaped then andThen (one (· == c)) (glob 0 false rest)
    else if c = backslash then glob 0 true rest
    else if c = '*' then andThen (run inName) (glob 0 false rest)
    else if c = '?' then andThen (one inName) (glob 0 false rest)
    else if c = '[' then
      match classLength? rest with
      | none => .dropped
      | some n => andThen (classPattern (rest.take n)) (glob (n + 1) false rest)
    else andThen (one (· == c)) (glob 0 false rest)

-- =========================================================== segments

/-- A segment that stands for any number of directories. -/
def anyDirs : Text := "**"

/-- Segments without a `**` after another. -/
def collapseDirs : List Text → List Text
  | [] => []
  | s :: rest =>
    if s = anyDirs && rest.head? = some anyDirs then collapseDirs rest else s :: collapseDirs rest

/-- The segments of a line without its sign. A line without a slash at its start or inside holds
at every depth, and a slash at the end stands for all below; none are left of the empty line. -/
def segments (line : Text) : List Text :=
  let written := splitOn '/' line
  let placed :=
    match written with
    | [] :: rest => rest
    | [s] => if s = anyDirs then written else [anyDirs, s]
    | [s, []] => if s = anyDirs then written else [anyDirs, s, []]
    | _ => written
  let ended :=
    if 1 < placed.length && placed.getLast? = some [] then placed.dropLast ++ [anyDirs] else placed
  collapseDirs ended

/-- What is below a directory, or nothing. -/
def optionalBelow : Pattern := optional ("/" ++ run inPath)

/-- The pattern of segments after the first. `slash` says whether a slash has to come before the
next name. -/
def restPattern : (slash : Bool) → List Text → Reading Pattern
  | _, [] => .value .atEnd
  | slash, s :: rest =>
    let separator : Pattern := if slash then "/" else .nothing
    let ending : Pattern := if rest.isEmpty then optionalBelow else .nothing
    if s = anyDirs then
      let dirs : Pattern :=
        if rest.isEmpty then "/" ++ run inPath else optional ("/" ++ run1 inPath)
      match restPattern true rest with
      | .value q => .value (dirs ++ q)
      | other => other
    else
      match (if s = "*" then .value (run1 inName) else glob 0 false s : Reading Pattern) with
      | .value p =>
        match restPattern true rest with
        | .value q => .value (separator ++ p ++ ending ++ q)
        | other => other
      | other => other

/-- The pattern of a whole line, given its segments and whether it ends in a slash. -/
def linePattern (isDir : Bool) (segments : List Text) : Reading Pattern :=
  match segments with
  | [] => .invalid
  | s :: rest =>
    if s = anyDirs then
      if rest.isEmpty then
        .value (if isDir then run1 inPath ++ "/" ++ run inPath ++ .atEnd
          else run1 inName ++ optionalBelow ++ .atEnd)
      else
        match restPattern false rest with
        | .value q => .value (optional (run1 inPath ++ "/") ++ q)
        | other => other
    else restPattern false segments

-- ============================================================== rules

/-- What a line does: paths that match are ignored or, with a negated line, kept. -/
structure Rule where
  ignores : Bool
  pattern : Pattern

/-- Reads one line. -/
def rule (line : Text) : Reading Rule :=
  let trimmed := trimLine line
  if trimmed.isEmpty || startsWith "#" trimmed || trimmed = "/" then .dropped
  else
    let negated := startsWith "!" trimmed
    let body := if negated then trimmed.drop 1 else trimmed
    match linePattern (endsWith "/" body) (segments body) with
    | .value p => .value ⟨!negated, p⟩
    | .dropped => .dropped
    | .invalid => .invalid

/-- The rules of an ignore file. A line that means nothing spoils them all. -/
def rulesFrom : List Text → Except Failure (List Rule)
  | [] => .ok []
  | line :: rest =>
    match rule line with
    | .value r => (rulesFrom rest).map (r :: ·)
    | .dropped => rulesFrom rest
    | .invalid => .error .badIgnorePattern

/-- The rules of an ignore file. -/
def rules (content : Text) : Except Failure (List Rule) := rulesFrom (fileLines content)

/-- Whether rules ignore a path: the last that matches decides, and without one nothing is
ignored. -/
def ignores (rules : List Rule) (path : Text) : Bool :=
  ((rules.reverse.find? fun r => (r.pattern.matchStart path).isSome).map (·.ignores)).getD false

end GoSurvey.Ignore
