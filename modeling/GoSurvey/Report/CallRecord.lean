/-
Functions, calls and reports on the graph of functions as JSON records.
-/
import GoSurvey.CallGraph.Report
import GoSurvey.Json.Basic

namespace GoSurvey

/-- The record of a function. -/
def FunctionDef.record (f : FunctionDef) : Json :=
  .object [("name", .text f.name), ("file", .text f.file), ("line", .nat f.line),
    ("package", .text f.package), ("params", .texts f.params), ("returns", .texts f.returns),
    ("receiver", .text f.receiver)]

/-- The record of a call. -/
def FunctionCall.record (c : FunctionCall) : Json :=
  .object [("callerFunc", .text c.caller), ("callerFile", .text c.file),
    ("callerLine", .nat c.line), ("calledFunc", .text c.called), ("package", .text c.package),
    ("calledFile", .option .text c.targetFile), ("calledLine", .option .nat c.targetLine)]

/-- The record of functions and calls. -/
def CallGraph.record (g : CallGraph) : Json :=
  .object [("functions", .list FunctionDef.record g.functions),
    ("calls", .list FunctionCall.record g.calls)]

/-- The record of metrics. -/
def FunctionMetrics.record (m : FunctionMetrics) : Json :=
  .object [("functionId", .text m.id), ("inDegree", .nat m.inDegree),
    ("outDegree", .nat m.outDegree), ("betweenness", .real m.betweenness)]

/-- The record of a pattern report. -/
def PatternReport.record (r : PatternReport) : Json :=
  .object [("orphans", .texts r.orphans), ("cycles", .list Json.texts r.cycles),
    ("hubFiles", .texts r.hubFiles)]

end GoSurvey
