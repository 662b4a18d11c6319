/-
Betweenness: how many of the shortest paths between other nodes lead
through a node. Each source contributes to a node the sum, over the
nodes that the source reaches through it, of the share of shortest paths
that use it; the shares are gathered from the farthest level inwards.

The sums are sums of doubles, so their order is part of the definition:
sources in node order, and for each source the nodes in the reverse of
the order in which the search found them.
-/
import GoSurvey.Digraph.ShortestPath

namespace GoSurvey.Digraph

variable {α : Type} [DecidableEq α]

/-- A node that a search has found: the number of shortest paths to it and its predecessors. -/
structure Found (α : Type) where
  node : α
  paths : Float
  predecessors : List α

/-- A value for every node, zero where none is given. -/
abbrev Weights (α : Type) := List (α × Float)

/-- The value of a node. -/
def Weights.get (w : Weights α) (v : α) : Float := (w.lookup v).getD 0

/-- Adds to the value of a node. -/
def Weights.add (w : Weights α) (v : α) (x : Float) : Weights α :=
  match w with
  | [] => [(v, 0 + x)]
  | (u, y) :: rest => if u = v then (u, y + x) :: rest else (u, y) :: Weights.add rest v x

/-- The nodes of the levels after the first, `paths` holding the counts for the level before. -/
def foundFrom (g : Digraph α) (previous : List α) (paths : Weights α) :
    List (List α) → List (Found α)
  | [] => []
  | level :: rest =>
    let found := level.map fun v =>
      let up := g.predecessorsIn previous v
      ({ node := v, paths := up.foldl (fun sum u => sum + paths.get u) 0, predecessors := up } :
        Found α)
    found ++ foundFrom g level (found.map fun f => (f.node, f.paths)) rest

/-- The nodes that a search from a source finds after the source, in order. -/
def found (g : Digraph α) (source : α) : List (Found α) :=
  g.foundFrom [source] [(source, 1)] ((g.levels source).drop 1)

/-- Passes the share of a node on to its predecessors. -/
def passOn (counts : Weights α) (shares : Weights α) (f : Found α) : Weights α :=
  let coefficient := (1 + shares.get f.node) / f.paths
  f.predecessors.foldl (fun w u => w.add u (counts.get u * coefficient)) shares

/-- What one source contributes to the nodes it finds. -/
def contributions (g : Digraph α) (source : α) : Weights α :=
  let found := g.found source
  let counts : Weights α := (source, 1) :: found.map fun f => (f.node, f.paths)
  let shares := found.reverse.foldl (passOn counts) []
  found.map fun f => (f.node, shares.get f.node)

/-- The factor that relates a sum of shares to the number of pairs of other nodes. -/
def betweennessScale (n : Nat) : Float :=
  if n ≤ 2 then 1 else 1 / Nat.toFloat ((n - 1) * (n - 2))

/-- The betweenness of every node, in node order. -/
def betweenness (g : Digraph α) : Weights α :=
  let perSource := g.nodes.map g.contributions
  let scale := betweennessScale g.nodes.length
  g.nodes.map fun v =>
    (v, perSource.foldl (fun sum shares => sum + shares.get v) 0 * scale)

end GoSurvey.Digraph
