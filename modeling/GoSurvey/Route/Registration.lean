/-
Route registrations in the text of a file. They are found by forms, one
for each way in which the routers of gorilla/mux, gin, echo, chi and
net/http are told of a route. The forms are tried in order over the
whole text, and a place matched by one form is not matched by another.

In every form group 1 is the router, group 2 the method, group 3 the path
and group 4 the handler. A form without a router belongs to net/http; a
form without a handler claims its place and gives no route.
-/
import GoSurvey.Route.Basic
import GoSurvey.Source.Body
import GoSurvey.Source.Split

namespace GoSurvey.Route

open Text Source Pattern

/-- The methods that routers have a function for. -/
def verbs : List Text := ["GET", "POST", "PUT", "DELETE", "PATCH"]

/-- A text between double quotes, not empty. -/
def quoted (index : Nat) : Pattern := "\"" ++ group index (run1 (except doubleQuote)) ++ "\""

/-- The router of a registration and the dot after it. -/
def router : Pattern := group 1 word ++ "."

/-- The path and the handler, with the parenthesis after them. -/
def pathAndHandler : Pattern :=
  quoted 3 ++ "," ++ blanks ++ group 4 (run1 (except ')')) ++ ")"

/-- The methods that a registration is confined to, or nothing. -/
def methodsSuffix : Pattern := optional (".Methods(" ++ quoted 2 ++ ")")

/-- The forms of registrations in the order in which they are tried. -/
def registrationForms : List Pattern :=
  [router ++ "Handle(" ++ notAhead ("\"" ++ oneOf verbs ++ "\"") ++ pathAndHandler
      ++ methodsSuffix,
   router ++ "HandleFunc(" ++ pathAndHandler ++ methodsSuffix,
   router ++ "PathPrefix(" ++ quoted 3 ++ ").Handler(" ++ group 4 (run1 (except ')')) ++ ")",
   router ++ "PathPrefix(" ++ quoted 3 ++ ").Subrouter()",
   router ++ group 2 (oneOf verbs) ++ "(" ++ pathAndHandler,
   router ++ "Handle(\"" ++ group 2 (oneOf verbs) ++ "\"," ++ blanks ++ pathAndHandler,
   router ++ group 2 (oneOf ["Get", "Post", "Put", "Delete", "Patch"]) ++ "(" ++ pathAndHandler,
   "http.HandleFunc(" ++ pathAndHandler,
   "mux.HandleFunc(" ++ pathAndHandler]

/-- A call that adds middleware to a router. -/
def useCall : Pattern := router ++ "Use("

/-- The names of the middleware added to a router anywhere in the text. -/
def middlewareOf (content router : Text) : List Text :=
  ((useCall.findAll content).filter fun m => m.group 1 == router).flatMap fun m =>
    match findMatching? parentheses content (m.stop - 1) with
    | some (opener, closer) =>
      (splitTopLevel ',' (slice content (opener + 1) closer)).map handlerName
    | none => []

/-- The length from which a line is a snippet by itself. -/
def snippetLength : Nat := 20

/-- The line of a number, joined by the two after it where it is short. -/
def snippetAt (lines : List Text) (number : Nat) : Text :=
  match lines.drop (number - 1) with
  | [] => []
  | line :: rest =>
    let snippet := trim line
    if snippet.length < snippetLength && !rest.isEmpty then
      trim (squeeze (join " " (line :: rest.take 2)))
    else snippet

/-- The name under which registrations without a router are kept. -/
def defaultRouter : Text := "http"

/-- The route of a registration in a text, if it has a handler. -/
def ofMatch? (content : Text) (lines : List Text) (file : Text) (m : Match) : Option Route :=
  (m.group? 4).map fun expression =>
    let method := orElse (m.group 2) "ALL"
    let path := cleanPath (m.group 3)
    let handler := handlerName expression
    let line := lineAt content m.start
    { id := makeId method path handler file line
      method := upper method
      path := path
      handler := handler
      file := file
      line := line
      snippet := snippetAt lines line
      middleware := middlewareOf content ((m.group? 1).getD defaultRouter) }

/-- The matches of the forms at places that no form before has matched. -/
def registrationsFrom (content : Text) :
    (claimed : List Nat) → (forms : List Pattern) → List Match
  | _, [] => []
  | claimed, form :: rest =>
    let found := (form.findAll content).filter fun m => !claimed.contains m.start
    found ++ registrationsFrom content (found.map (·.start) ++ claimed) rest

/-- The registrations in a text, form by form. -/
def registrations (content : Text) : List Match := registrationsFrom content [] registrationForms

/-- The routes registered in a text. -/
def routesIn (content file : Text) : List Route :=
  (registrations content).filterMap (ofMatch? content (lines content) file)

/-- The routes with the first registration for each method and path. -/
def firstRegistrations : (seen : List (Text × Text)) → List Route → List Route
  | _, [] => []
  | seen, r :: rest =>
    if seen.contains (r.method, r.path) then firstRegistrations seen rest
    else r :: firstRegistrations ((r.method, r.path) :: seen) rest

/-- The routes of several files, given as path and content. -/
def routesOf (files : List (Text × Text)) : List Route :=
  firstRegistrations [] (files.flatMap fun (file, content) => routesIn content file)

end GoSurvey.Route
