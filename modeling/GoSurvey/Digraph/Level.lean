/-
Breadth-first search by levels. Level `k` of a node holds the nodes at
distance `k` from it, in the order in which the search comes upon them:
by the order of the level before, and then by the order of successors.

Distances, shortest paths, reachability and the counts of shortest paths
are all read off this one list of levels.
-/
import GoSurvey.Digraph.Basic

namespace GoSurvey.Digraph

variable {α : Type} [DecidableEq α]

/-- The nodes that a level leads to and that have not been seen, in the order found. -/
def nextLevel (g : Digraph α) (seen level : List α) : List α :=
  ((level.flatMap g.successors).filter fun v => !seen.contains v).eraseDups

/-- The levels from a given one on, up to a number of them. -/
def levelsFrom (g : Digraph α) : (fuel : Nat) → (seen level : List α) → List (List α)
  | 0, _, _ => []
  | fuel + 1, seen, level =>
    if level.isEmpty then []
    else
      let next := g.nextLevel seen level
      level :: levelsFrom g fuel (seen ++ next) next

/-- The levels of a node. No two levels share a node, so there are no more levels than nodes. -/
def levels (g : Digraph α) (u : α) : List (List α) :=
  g.levelsFrom (g.adjacency.length + 1) [u] [u]

/-- The nodes at a distance from 1 up to a bound. -/
def within (g : Digraph α) (u : α) (bound : Nat) : List α :=
  (((g.levels u).drop 1).take bound).flatten

/-- The distance from the node whose levels these are. -/
def distance? (levels : List (List α)) (v : α) : Option Nat :=
  levels.findIdx? (·.contains v)

end GoSurvey.Digraph
