/-
What the graph of functions is asked for: degrees and betweenness,
orphans, cycles and busy files, the ids behind a name, paths, and what a
function reaches.
-/
import GoSurvey.CallGraph.FunctionGraph
import GoSurvey.Digraph.Betweenness
import GoSurvey.Digraph.Cycle

namespace GoSurvey

open Text

/-- How strongly a function is tied into the graph. -/
structure FunctionMetrics where
  id : Text
  /-- The number of functions that call it. -/
  inDegree : Nat
  /-- The number of functions it calls. -/
  outDegree : Nat
  betweenness : Float

/-- The conspicuous parts of a graph. -/
structure PatternReport where
  orphans : List Text
  cycles : List (List Text)
  hubFiles : List Text
  deriving DecidableEq, Repr

/-- The first `n` members; for a negative `n`, all but the last `-n`. -/
def firstOf {α : Type} (n : Int) (xs : List α) : List α :=
  if 0 ≤ n then xs.take n.toNat else xs.take (xs.length - n.natAbs)

namespace FunctionGraph

/-- The metrics of every function, in node order. -/
def metrics (g : FunctionGraph) : List FunctionMetrics :=
  let d := g.digraph
  d.betweenness.map fun (id, value) => ⟨id, d.inDegree id, d.outDegree id, value⟩

/-- The order from the busiest function down: by betweenness, then by degree, then by id. -/
def busierThan (a b : FunctionMetrics) : Bool :=
  if b.betweenness < a.betweenness then true
  else if a.betweenness < b.betweenness then false
  else
    let total (m : FunctionMetrics) : Nat := m.inDegree + m.outDegree
    decide (total b < total a) || (total a == total b && le a.id b.id)

/-- The metrics of the busiest functions. -/
def busiest (g : FunctionGraph) (count : Int) : List FunctionMetrics :=
  firstOf count (g.metrics.mergeSort busierThan)

/-- Texts in order. -/
def sorted (ts : List Text) : List Text := ts.mergeSort le

/-- The functions that neither call nor are called. -/
def orphans (g : FunctionGraph) : List Text := sorted g.digraph.isolated

/-- The order of lists of texts by their first difference. -/
def listLe (a b : List Text) : Bool := !decide (b < a)

/-- The sets of functions that call each other in a circle. -/
def cycles (g : FunctionGraph) : List (List Text) :=
  (g.digraph.cycles.map sorted).mergeSort listLe

/-- The files of the ends of all edges. -/
def edgeEndFiles (g : FunctionGraph) : List Text :=
  let fileOf (id : Text) : Text := ((g.node? id).map (·.file)).getD []
  g.digraph.edges.flatMap fun (u, v) => [fileOf u, fileOf v]

/-- The files with edges, those with most ends of edges first. -/
def hubFiles (g : FunctionGraph) : List Text :=
  let ends := g.edgeEndFiles
  (ends.eraseDups.map fun file => (ends.count file, file)).mergeSort
    (fun (m, a) (n, b) => decide (n < m) || (m == n && le a b)) |>.map (·.2)

/-- The first orphans, cycles and busy files. -/
def patterns (g : FunctionGraph) (count : Int) : PatternReport :=
  ⟨firstOf count g.orphans, firstOf count g.cycles, firstOf count g.hubFiles⟩

/-- The ids that a name stands for: itself if it is an id, else those of all functions with this
name or qualified name. -/
def idsOf (g : FunctionGraph) (name : Text) : List Text :=
  if g.nodes.any (·.id == name) then [name]
  else sorted ((g.nodes.filter fun n => n.name == name || n.qualified == name).map (·.id))

/-- The first shortest paths between two functions; `none` if a negative number of them is asked
for. -/
def paths? (g : FunctionGraph) (source target : Text) (count : Int) : Option (List (List Text)) :=
  if g.nodes.any (·.id == source) && g.nodes.any (·.id == target) then
    if count < 0 then none else some (g.digraph.firstShortestPaths count.toNat source target)
  else some []

/-- The functions that a function reaches by at most `depth` calls, itself left out. -/
def reachable (g : FunctionGraph) (id : Text) (depth : Int) : List Text :=
  if g.nodes.any (·.id == id) then sorted (g.digraph.within id depth.toNat) else []

/-- The first paths between all functions that two names stand for, the shortest first. -/
def pathsBetween? (g : FunctionGraph) (source target : Text) (count : Int) :
    Option (List (List Text)) := do
  let found ← (g.idsOf source).mapM fun u => (g.idsOf target).mapM fun v => g.paths? u v count
  some (firstOf count (found.flatten.flatten.mergeSort fun p q => decide (p.length ≤ q.length)))

/-- The functions that those of a name reach by at most `depth` calls. -/
def reachableFrom (g : FunctionGraph) (name : Text) (depth : Int) : List Text :=
  sorted ((g.idsOf name).flatMap fun id => g.reachable id depth).eraseDups

end FunctionGraph
end GoSurvey
