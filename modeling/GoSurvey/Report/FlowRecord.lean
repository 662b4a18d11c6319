/-
Routes, flows and definitions as JSON records.
-/
import GoSurvey.Flow.Basic
import GoSurvey.Route.MainFlow
import GoSurvey.Symbol.Definition
import GoSurvey.Json.Basic

namespace GoSurvey

/-- The record of a route. -/
def Route.record (r : Route) : Json :=
  .object [("id", .text r.id), ("method", .text r.method), ("path", .text r.path),
    ("handler", .text r.handler), ("handlerFile", .text r.file), ("handlerLine", .nat r.line),
    ("codeSnippet", .text r.snippet), ("middleware", .texts r.middleware)]

/-- The record of a route in the summary of a program, which confines no route to a method. -/
def Route.PlainRoute.record (r : Route.PlainRoute) : Json :=
  .object [("path", .text r.path), ("handler", .text r.handler), ("method", .text "ALL")]

/-- The record of the summary of a program. -/
def Route.MainFlow.record (flow : Route.MainFlow) : Json :=
  .object [("mainFile", .text flow.mainFile), ("routerFile", .text flow.routerFile),
    ("handlers", .texts flow.handlers), ("routes", .list Route.PlainRoute.record flow.routes),
    ("middlewares", .texts flow.middlewares)]

/-- The record of the detail of a node. -/
def NodeDetail.record : NodeDetail → Json
  | .route parameters => .object [("parameters", .texts parameters), ("kind", .text "route")]
  | .handler parameters returnType =>
    .object [("parameters", .texts parameters), ("returnType", .text returnType),
      ("kind", .text "handler")]
  | .dto fields => .object [("dtoFields", .texts fields), ("kind", .text "dto")]
  | .database query table =>
    .object [("databaseQuery", .text query), ("tableName", .option .text table),
      ("kind", .text "database")]
  | .call parameters => .object [("parameters", .texts parameters), ("kind", .text "call")]

/-- The record of a node. -/
def FlowNode.record (n : FlowNode) : Json :=
  .object [("id", .text n.id), ("type", .text n.kind.text), ("name", .text n.name),
    ("file", .text n.file), ("line", .option .nat n.line), ("content", .text n.content),
    ("metadata", .option NodeDetail.record n.detail)]

/-- The record of an edge. -/
def FlowEdge.record (e : FlowEdge) : Json :=
  .object [("source", .text e.source), ("target", .text e.target), ("dataType", .text e.dataType),
    ("transformation", .option .text e.transformation)]

/-- The record of a flow. -/
def DataFlow.record (flow : DataFlow) : Json :=
  .object [("route", flow.route.record), ("nodes", .list FlowNode.record flow.nodes),
    ("edges", .list FlowEdge.record flow.edges)]

/-- The record of a definition. -/
def Symbol.SymbolInfo.record (s : Symbol.SymbolInfo) : Json :=
  .object [("name", .text s.name), ("kind", .text s.kind.text), ("file", .text s.file),
    ("line", .nat s.line), ("signature", .text s.signature)]

/-- The record of a mention. -/
def Symbol.SymbolUsage.record (u : Symbol.SymbolUsage) : Json :=
  .object [("file", .text u.file), ("line", .nat u.line), ("code", .text u.code)]

end GoSurvey
