/-
A coarse summary of where a program starts: the file with the main
function, the file that wires the router, and the files that look like
handlers or middleware. It goes by marks in the text and words in the
path, nothing more.
-/
import GoSurvey.Route.Registration

namespace GoSurvey.Route

open Text Pattern

/-- A route as the summary lists it. -/
structure PlainRoute where
  path : Text
  handler : Text
  deriving DecidableEq, Repr

/-- The summary; a file that was not found is empty. -/
structure MainFlow where
  mainFile : Text := []
  routerFile : Text := []
  handlers : List Text := []
  routes : List PlainRoute := []
  middlewares : List Text := []
  deriving DecidableEq, Repr

/-- The mark of the main function. -/
def mainMark : Text := "func main("

/-- The marks of a file that wires a router. -/
def routerMarks : List Text := ["mux.Handle", "router", "NewRouter"]

/-- The registrations that the summary lists. -/
def plainForms : List Pattern :=
  ["mux.Handle(" ++ pathAndHandler, "mux.HandleFunc(" ++ pathAndHandler]

/-- The registrations of a text that the summary lists. -/
def plainRoutes (content : Text) : List PlainRoute :=
  plainForms.flatMap fun form =>
    (form.findAll content).map fun m => ⟨m.group 3, trim (m.group 4)⟩

/-- The summary with a file added; a later main or router file takes the place of an earlier. -/
def MainFlow.addFile (flow : MainFlow) (file content : Text) : MainFlow :=
  let lowered := lower file
  let isRouter := routerMarks.any (contains · content)
  { mainFile := if contains mainMark content then file else flow.mainFile
    routerFile := if isRouter then file else flow.routerFile
    handlers :=
      if contains "handler" lowered || contains "http.ResponseWriter" content then
        flow.handlers ++ [file]
      else flow.handlers
    routes := if isRouter then flow.routes ++ plainRoutes content else flow.routes
    middlewares :=
      if contains "middleware" lowered || contains "http.Handler" content then
        flow.middlewares ++ [file]
      else flow.middlewares }

/-- The summary of several files, given as path and content. -/
def mainFlowOf (files : List (Text × Text)) : MainFlow :=
  files.foldl (fun flow (file, content) => flow.addFile file content) {}

end GoSurvey.Route
