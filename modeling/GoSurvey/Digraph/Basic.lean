/-
Finite directed graphs in which nodes and edges have an order: each node
comes with the list of its successors. Self-loops are allowed.
-/

namespace GoSurvey

/-- A directed graph as the list of its nodes, each with its successors. -/
structure Digraph (α : Type) where
  adjacency : List (α × List α)
  deriving DecidableEq, Repr

namespace Digraph

variable {α : Type} [DecidableEq α]

/-- The nodes in order. -/
def nodes (g : Digraph α) : List α := g.adjacency.map (·.1)

/-- The successors of a node in order; none if it is not a node. -/
def successors (g : Digraph α) (u : α) : List α := (g.adjacency.lookup u).getD []

/-- The edges, grouped by their first end. -/
def edges (g : Digraph α) : List (α × α) :=
  g.adjacency.flatMap fun (u, vs) => vs.map fun v => (u, v)

/-- The number of edges into a node, a self-loop counted. -/
def inDegree (g : Digraph α) (v : α) : Nat :=
  (g.adjacency.filter fun (_, vs) => vs.contains v).length

/-- The number of edges out of a node, a self-loop counted. -/
def outDegree (g : Digraph α) (u : α) : Nat := (g.successors u).length

/-- The nodes without an edge. -/
def isolated (g : Digraph α) : List α :=
  g.nodes.filter fun v => g.inDegree v == 0 && g.outDegree v == 0

end Digraph
end GoSurvey
