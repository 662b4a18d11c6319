/-
All shortest paths between two nodes. A shortest path enters each level
of its start once, so the paths are found backwards from their end:
through the predecessors one level up, in the order of that level.

`shortestPaths` lists them all; `firstShortestPaths` lists as many as are
asked for and looks no further, which matters because their number can
grow exponentially. The second is the first cut off
(`firstShortestPaths_eq_take`).
-/
import GoSurvey.Digraph.Level

namespace GoSurvey.Digraph

variable {α : Type} [DecidableEq α]

/-- The nodes of a level with an edge to a node. -/
def predecessorsIn (g : Digraph α) (level : List α) (v : α) : List α :=
  level.filter fun u => (g.successors u).contains v

/-- The ways up through levels, the nearest first, to each of which `path` is added. The paths are
those from the last of the levels to the head of `path`. -/
def pathsUp (g : Digraph α) : (levels : List (List α)) → (v : α) → (path : List α) → List (List α)
  | [], v, path => [v :: path]
  | level :: above, v, path =>
    (g.predecessorsIn level v).flatMap fun u => pathsUp g above u (v :: path)

/-- The first few of the lists that a function gives for the members of a list. -/
def takeFlatMap {β γ : Type} (f : Nat → β → List γ) : (limit : Nat) → List β → List γ
  | _, [] => []
  | 0, _ :: _ => []
  | limit + 1, b :: rest =>
    let found := f (limit + 1) b
    found ++ takeFlatMap f (limit + 1 - found.length) rest

/-- The first `limit` paths of `pathsUp`. -/
def firstPathsUp (g : Digraph α) :
    (levels : List (List α)) → (limit : Nat) → (v : α) → (path : List α) → List (List α)
  | [], limit, v, path => [v :: path].take limit
  | level :: above, limit, v, path =>
    takeFlatMap (fun n u => firstPathsUp g above n u (v :: path)) limit (g.predecessorsIn level v)

/-- The levels above a node, the nearest first, if the node is in one of them. -/
def levelsAbove? (g : Digraph α) (u v : α) : Option (List (List α)) :=
  let levels := g.levels u
  (distance? levels v).map fun k => (levels.take k).reverse

/-- All shortest paths from one node to another. -/
def shortestPaths (g : Digraph α) (u v : α) : List (List α) :=
  match g.levelsAbove? u v with
  | none => []
  | some above => g.pathsUp above v []

/-- The first shortest paths from one node to another. -/
def firstShortestPaths (g : Digraph α) (limit : Nat) (u v : α) : List (List α) :=
  match g.levelsAbove? u v with
  | none => []
  | some above => g.firstPathsUp above limit v []

theorem takeFlatMap_eq_take {β γ : Type} (f : β → List γ) (limit : Nat) (bs : List β) :
    takeFlatMap (fun n b => (f b).take n) limit bs = (bs.flatMap f).take limit := by
  induction bs generalizing limit with
  | nil => simp [takeFlatMap]
  | cons b rest ih =>
    cases limit with
    | zero => simp [takeFlatMap]
    | succ n =>
      simp only [takeFlatMap, ih, List.flatMap_cons, List.take_append, List.length_take]
      congr 2
      omega

theorem firstPathsUp_eq_take (g : Digraph α) (levels : List (List α)) (limit : Nat) (v : α)
    (path : List α) :
    g.firstPathsUp levels limit v path = (g.pathsUp levels v path).take limit := by
  induction levels generalizing limit v path with
  | nil => rfl
  | cons level above ih =>
    simp only [firstPathsUp, pathsUp, ih]
    exact takeFlatMap_eq_take _ _ _

/-- Cutting the search short gives the paths that a full search would give first. -/
theorem firstShortestPaths_eq_take (g : Digraph α) (limit : Nat) (u v : α) :
    g.firstShortestPaths limit u v = (g.shortestPaths u v).take limit := by
  simp only [firstShortestPaths, shortestPaths]
  split
  · simp
  · exact firstPathsUp_eq_take g _ limit v []

end GoSurvey.Digraph
