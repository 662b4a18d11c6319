/-
Where a name is defined in a file, and which name stands at a place.

The definition is found by rule before line: the highest rule that any
line satisfies wins, and of several lines that satisfy it the first. So a
struct further down beats a variable further up.
-/
import GoSurvey.Symbol.Rule

namespace GoSurvey.Symbol

open Text Pattern

/-- An identifier. -/
def identifier : Pattern := one (fun c => c.isAlpha || c == '_') ++ run isWord

/-- The identifier at a column of a line; the column just after it counts. -/
def identifierAt? (line : Text) (column : Int) : Option Text :=
  ((identifier.findAll line).find? fun m =>
    decide ((m.start : Int) ≤ column) && decide (column ≤ (m.stop : Int))).map (·.text)

/-- A rule for a particular name. -/
structure NameRule where
  kind : DefinitionKind
  group : Option GroupKeyword
  pattern : Pattern

/-- The rules for a name. -/
def rulesFor (name : Text) : List NameRule :=
  definitionRules.map fun r => ⟨r.kind, r.group, r.pattern name⟩

/-- Whether a rule applies in a group, or in a line that starts a group of its own. -/
def NameRule.applies (r : NameRule) (group inline : Option GroupKeyword) : Bool :=
  r.group.isNone || r.group == group || r.group == inline

/-- The index of the first rule that applies to a line in a group and that the line satisfies. -/
def rank? (rules : List NameRule) (group : Option GroupKeyword) (line : Text) : Option Nat :=
  let inline := (groupStartLine.matchStart line).map keywordOf
  rules.findIdx? fun r => r.applies group inline && r.pattern.occursIn line

/-- What a line means for the group it stands in. -/
inductive GroupStep where
  /-- Opens a group. -/
  | opens (keyword : GroupKeyword)
  /-- Closes the group. -/
  | closes
  /-- Leaves the group as it is. -/
  | inside
  deriving DecidableEq, Repr

/-- What a line means for a group. -/
def groupStep (group : Option GroupKeyword) (line : Text) : GroupStep :=
  match groupOpenLine.matchStart line with
  | some m => .opens (keywordOf m)
  | none =>
    if group.isSome && (groupCloseLine.matchStart line).isSome then .closes else .inside

/-- The rank and index of the best line, `best` being the best so far. A line of the highest rank
ends the search. -/
def bestLine (rules : List NameRule) :
    (current : Option GroupKeyword) → (best : Option (Nat × Nat)) → (index : Nat) → List Text →
      Option (Nat × Nat)
  | _, best, _, [] => best
  | current, best, index, line :: rest =>
    match groupStep current line with
    | .opens keyword => bestLine rules (some keyword) best (index + 1) rest
    | .closes => bestLine rules none best (index + 1) rest
    | .inside =>
      match rank? rules current line with
      | none => bestLine rules current best (index + 1) rest
      | some rank =>
        if rank < (best.map (·.1)).getD rules.length then
          if rank = 0 then some (0, index)
          else bestLine rules current (some (rank, index)) (index + 1) rest
        else bestLine rules current best (index + 1) rest

/-- A definition inside a file. -/
structure LocalDefinition where
  kind : DefinitionKind
  line : Nat
  /-- The defining line, trimmed. -/
  signature : Text
  deriving DecidableEq, Repr

/-- The definition of a name in a text. -/
def definitionIn? (content name : Text) : Option LocalDefinition := do
  let rules := rulesFor name
  let lines := lines content
  let (rank, index) ← bestLine rules none none 0 lines
  let rule ← rules[rank]?
  some ⟨rule.kind, index + 1, trim (lines[index]?.getD [])⟩

/-- A definition in a project. -/
structure SymbolInfo where
  name : Text
  kind : DefinitionKind
  /-- The absolute path of the file. -/
  file : Text
  line : Nat
  signature : Text
  deriving DecidableEq, Repr

/-- A line that mentions a name. -/
structure SymbolUsage where
  file : Text
  line : Nat
  code : Text
  deriving DecidableEq, Repr

/-- The mentions of a name in lines of which the first has a number. -/
def usagesFrom (file name : Text) : (number : Nat) → List Text → List SymbolUsage
  | _, [] => []
  | number, line :: rest =>
    if contains name line then ⟨file, number, trim line⟩ :: usagesFrom file name (number + 1) rest
    else usagesFrom file name (number + 1) rest

/-- The lines of a text that contain a name. -/
def usagesIn (content file name : Text) : List SymbolUsage := usagesFrom file name 1 (lines content)

end GoSurvey.Symbol
