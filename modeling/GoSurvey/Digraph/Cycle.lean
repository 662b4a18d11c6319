/-
Cycles as classes of nodes that reach each other. A class with a single
node is no cycle, even if the node has an edge to itself.
-/
import GoSurvey.Digraph.Level

namespace GoSurvey.Digraph

variable {α : Type} [DecidableEq α]

/-- Every node with the nodes it reaches. -/
def closure (g : Digraph α) : List (α × List α) :=
  g.nodes.map fun u => (u, (g.levels u).flatten)

/-- The nodes of a closure that reach a node and are reached from it. -/
def classOf (closure : List (α × List α)) (u : α) (reached : List α) : List α :=
  (closure.filter fun (v, back) => reached.contains v && back.contains u).map (·.1)

/-- The classes with more than one node, by the order of their first nodes. -/
def cycles (g : Digraph α) : List (List α) :=
  let closure := g.closure
  closure.filterMap fun (u, reached) =>
    let members := classOf closure u reached
    if 1 < members.length && members.head? = some u then some members else none

end GoSurvey.Digraph
