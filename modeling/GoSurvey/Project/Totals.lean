/-
The structures of a project together with the totals over them.
-/
import GoSurvey.Project.Declarations
import GoSurvey.Report.DeclarationRecord

namespace GoSurvey

/-- The record of totals. -/
def ElementCounts.record (c : ElementCounts) : Json :=
  .object [("files", .nat c.files), ("imports", .nat c.imports), ("types", .nat c.types),
    ("constants", .nat c.constants), ("variables", .nat c.packageVars),
    ("functions", .nat c.functions), ("structs", .nat c.structs),
    ("interfaces", .nat c.interfaces)]

/-- The structures of a project and the totals over them. -/
structure ProjectAnalysis where
  structures : List FileStructure
  counts : ElementCounts
  deriving DecidableEq, Repr

namespace ProjectAnalysis

/-- The analysis that consists of some structures. -/
def ofStructures (ss : List FileStructure) : ProjectAnalysis := ⟨ss, .ofStructures ss⟩

/-- The record of an analysis. -/
def record (a : ProjectAnalysis) : Json :=
  .object [("structures", .list FileStructure.record a.structures),
    ("totalFiles", .nat a.counts.files), ("totalElements", a.counts.record)]

end ProjectAnalysis

/-- The analysis of all files of a project. -/
def Project.analysis (p : Project) : Except Failure ProjectAnalysis :=
  p.structures.map .ofStructures

/-- The record of repeated symbols: one field for each key. -/
def duplicatesRecord (groups : List (Text × List ProjectSymbol)) : Json :=
  .object (groups.map fun (key, symbols) => (key, .list ProjectSymbol.record symbols))

end GoSurvey
