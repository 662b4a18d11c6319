/-
The data flow of a request: a graph whose first node is the route, whose
second is the handler, and whose further nodes are what the handler
calls, directly or through others.
-/
import GoSurvey.Route.Basic

namespace GoSurvey

/-- The part that a node plays. -/
inductive NodeKind where
  | route
  | handler
  | service
  | dto
  | repository
  | database
  | external
  deriving DecidableEq, Repr

/-- The word for a part. -/
def NodeKind.text : NodeKind → Text
  | .route => "route"
  | .handler => "handler"
  | .service => "service"
  | .dto => "dto"
  | .repository => "repository"
  | .database => "database"
  | .external => "external"

/-- What is known about a node beyond its place. -/
inductive NodeDetail where
  /-- The parameters in the path of a route. -/
  | route (parameters : List Text)
  /-- The parameters and the result of a handler. -/
  | handler (parameters : List Text) (returnType : Text)
  /-- The fields of a transferred object. -/
  | dto (fields : List Text)
  /-- A query and the table it is about. -/
  | database (query : Text) (table : Option Text)
  /-- The arguments of a call that leads out of the project. -/
  | call (parameters : List Text)
  deriving DecidableEq, Repr

/-- A node of a flow. -/
structure FlowNode where
  id : Text
  kind : NodeKind
  name : Text
  /-- A path in the project, or a word for where the node is otherwise. -/
  file : Text
  line : Option Nat := none
  content : Text := []
  detail : Option NodeDetail := none
  deriving DecidableEq, Repr

/-- A step of the data from one node to another. -/
structure FlowEdge where
  source : Text
  target : Text
  dataType : Text
  transformation : Option Text := none
  deriving DecidableEq, Repr

/-- The flow of the requests to a route. -/
structure DataFlow where
  route : Route
  nodes : List FlowNode
  edges : List FlowEdge
  deriving DecidableEq, Repr

end GoSurvey
