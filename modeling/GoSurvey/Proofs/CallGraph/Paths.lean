/-
What is answered when paths between functions are asked for.

Between two functions the answer lists shortest paths only, each once, and
as many as there are or as are asked for (`paths?_exact`).

Between two names it is made of the answers for all pairs of functions that
the names stand for. Each of these is cut off before all are sorted by
length and cut off again, and still the result is the beginning of what
sorting everything would give (`pathsBetween?_exact`): the paths of one
pair have one length, so a path that is cut off in its pair has as many
before it as are asked for, wherever the pair ends up.
-/
import GoSurvey.Project.Calls
import GoSurvey.Proofs.CallGraph.Report
import GoSurvey.Proofs.Digraph.ShortestPath
import GoSurvey.Proofs.List.StableSort

namespace GoSurvey

open Text

theorem firstOf_natCast {α : Type} (n : Nat) (xs : List α) : firstOf n xs = xs.take n := by
  unfold firstOf
  rw [if_pos (Int.natCast_nonneg n), Int.toNat_natCast]

/-- If a function has a result for every member of a list, it gives the list of them. -/
theorem mapM_eq_some_map {α β : Type} {f : α → Option β} {result : α → β} {as : List α}
    (h : ∀ a ∈ as, f a = some (result a)) : as.mapM f = some (as.map result) := by
  rw [CallGraph.mapM_eq_some_iff, List.map_map]
  exact List.map_congr_left h

namespace FunctionGraph

variable {g : FunctionGraph} {id name : Text}

theorem any_id_iff : g.nodes.any (·.id == id) = true ↔ id ∈ g.digraph.nodes := by
  rw [IsGraphOf.nodes_eq, List.any_eq_true, List.mem_map]
  simp only [beq_iff_eq]

/-- A name stands for functions of the graph. -/
theorem mem_nodes_of_mem_idsOf (h : id ∈ g.idsOf name) : id ∈ g.digraph.nodes := by
  unfold idsOf at h
  split at h
  · next hname => exact List.mem_singleton.1 h ▸ any_id_iff.1 hname
  · rw [(sorted_perm _).mem_iff] at h
    obtain ⟨n, hn, rfl⟩ := List.mem_map.1 h
    rw [IsGraphOf.nodes_eq]
    exact List.mem_map_of_mem (List.mem_of_mem_filter hn)

-- ============================================== between two functions

/-- The paths between two functions are the first of the shortest paths. -/
theorem paths?_natCast (g : FunctionGraph) (source target : Text) (count : Nat) :
    g.paths? source target count =
      if source ∈ g.digraph.nodes ∧ target ∈ g.digraph.nodes then
        some ((g.digraph.shortestPaths source target).take count)
      else some [] := by
  unfold paths?
  simp only [Bool.and_eq_true, any_id_iff]
  rw [if_neg (Int.not_lt.2 (Int.natCast_nonneg count)), Int.toNat_natCast,
    Digraph.firstShortestPaths_eq_take]

/-- Of two functions, as many shortest paths are answered as there are or as are asked for, none
of them twice. There is no answer if none is asked for, if one of the two is not in the graph, or
if the second cannot be reached from the first. -/
theorem paths?_exact (g : FunctionGraph) (source target : Text) (count : Nat) :
    ∃ paths, g.paths? source target count = some paths ∧
      (∀ p ∈ paths, g.digraph.IsShortest source target p) ∧ paths.Nodup ∧
      {p | g.digraph.IsShortest source target p}.Finite ∧
      paths.length = min count {p | g.digraph.IsShortest source target p}.ncard ∧
      (paths = [] ↔ count = 0 ∨ source ∉ g.digraph.nodes ∨ target ∉ g.digraph.nodes ∨
        ¬g.digraph.Reaches source target) := by
  rw [paths?_natCast]
  by_cases hends : source ∈ g.digraph.nodes ∧ target ∈ g.digraph.nodes
  · obtain ⟨hsource, htarget⟩ := hends
    obtain ⟨hfinite, hcard⟩ := Digraph.ncard_isShortest (u := source) htarget
    refine ⟨_, if_pos ⟨hsource, htarget⟩, fun p hp => ?_, ?_, hfinite, ?_, ?_⟩
    · exact (Digraph.mem_shortestPaths_iff htarget).1 (List.mem_of_mem_take hp)
    · exact (Digraph.shortestPaths_nodup _ _ _).sublist (List.take_sublist _ _)
    · rw [hcard, List.length_take]
    · rw [List.take_eq_nil_iff, Digraph.shortestPaths_eq_nil_iff hsource htarget]
      simp only [hsource, htarget, not_true_eq_false, false_or]
  · have hnone : {p | g.digraph.IsShortest source target p} = ∅ :=
      Set.eq_empty_of_forall_notMem fun p hp =>
        hends ⟨hp.toIsWalk.first_mem, hp.toIsWalk.last_mem⟩
    refine ⟨[], if_neg hends, fun p hp => absurd hp List.not_mem_nil, List.nodup_nil, ?_, ?_, ?_⟩
    · rw [hnone]
      exact Set.finite_empty
    · rw [hnone, Set.ncard_empty, Nat.min_zero]
      rfl
    · rw [not_and_or] at hends
      exact iff_of_true rfl (.inr (hends.elim .inl fun h => .inr (.inl h)))

/-- A file with two methods of one name. From the first, two ways lead to `save`; from the second a
single step does, and one leads back. -/
def twoGets : Text :=
  "package a\n\nfunc (A) Get() \x7b\n\tleft()\n\tright()\n\x7d\n\n"
    ++ "func (B) Get() \x7b\n\tsave()\n\x7d\n\nfunc left() \x7b\n\tsave()\n\x7d\n\n"
    ++ "func right() \x7b\n\tsave()\n\x7d\n\nfunc save() \x7b\n\tb.Get()\n\x7d\n"

def getOfA : Text := "m.go::A.Get"

def getOfB : Text := "m.go::B.Get"

def leftWay : Text := "m.go::left"

def rightWay : Text := "m.go::right"

def saveEnd : Text := "m.go::save"

/-- The graph of the functions of that file. -/
def twoGetsGraph : FunctionGraph :=
  ⟨[⟨getOfA, "Get", "A.Get", "m.go", 3, "a", [(leftWay, 4), (rightWay, 5)]⟩,
    ⟨getOfB, "Get", "B.Get", "m.go", 8, "a", [(saveEnd, 9)]⟩,
    ⟨leftWay, "left", "left", "m.go", 12, "a", [(saveEnd, 13)]⟩,
    ⟨rightWay, "right", "right", "m.go", 16, "a", [(saveEnd, 17)]⟩,
    ⟨saveEnd, "save", "save", "m.go", 20, "a", [(getOfB, 21)]⟩]⟩

/-- There are two shortest paths from the first method to the end, and none back. -/
theorem paths?_twoGets :
    {p | twoGetsGraph.digraph.IsShortest getOfA saveEnd p}.ncard = 2 ∧
      twoGetsGraph.paths? getOfA saveEnd 1 = some [[getOfA, leftWay, saveEnd]] ∧
      ¬twoGetsGraph.digraph.Reaches saveEnd getOfA := by
  obtain ⟨paths, hpaths, -, -, -, hlength, -⟩ := paths?_exact twoGetsGraph getOfA saveEnd 5
  obtain ⟨back, hback, -, -, -, -, hnone⟩ := paths?_exact twoGetsGraph saveEnd getOfA 5
  have htwo : (twoGetsGraph.paths? getOfA saveEnd (5 : Nat)).map (·.length) = some 2 := by
    decide +kernel
  have hempty : twoGetsGraph.paths? saveEnd getOfA (5 : Nat) = some [] := by decide +kernel
  have hnodes : saveEnd ∈ twoGetsGraph.digraph.nodes ∧ getOfA ∈ twoGetsGraph.digraph.nodes := by
    decide +kernel
  rw [hpaths] at htwo
  rw [hback] at hempty
  refine ⟨?_, by decide +kernel, ?_⟩
  · have hmin := hlength.symm.trans (Option.some_inj.1 htwo)
    omega
  · simpa [hnodes] using hnone.1 (Option.some_inj.1 hempty)

-- =================================================== between two names

/-- All shortest paths of all pairs of functions that two names stand for, pair by pair. -/
def pathsOfPairs (g : FunctionGraph) (source target : Text) : List (List Text) :=
  (g.idsOf source).flatMap fun u => (g.idsOf target).flatMap fun v => g.digraph.shortestPaths u v

theorem pathsOfPairs_eq (g : FunctionGraph) (source target : Text) :
    g.pathsOfPairs source target = ((g.idsOf source).product (g.idsOf target)).flatMap
      fun pair => g.digraph.shortestPaths pair.1 pair.2 := by
  unfold pathsOfPairs List.product
  simp only [List.flatMap_assoc, List.flatMap_map]

/-- Each pair is cut off before the paths of all pairs are sorted and cut off. -/
theorem pathsBetween?_natCast (g : FunctionGraph) (source target : Text) (count : Nat) :
    g.pathsBetween? source target count = some
      (((((g.idsOf source).product (g.idsOf target)).flatMap fun pair =>
        (g.digraph.shortestPaths pair.1 pair.2).take count).mergeSort
          (keyLe List.length)).take count) := by
  have hpaths : ∀ u ∈ g.idsOf source, ∀ v ∈ g.idsOf target,
      g.paths? u v count = some ((g.digraph.shortestPaths u v).take count) := by
    intro u hu v hv
    rw [paths?_natCast, if_pos ⟨mem_nodes_of_mem_idsOf hu, mem_nodes_of_mem_idsOf hv⟩]
  have hall : (g.idsOf source).mapM (fun u => (g.idsOf target).mapM fun v => g.paths? u v count)
      = some ((g.idsOf source).map fun u => (g.idsOf target).map fun v =>
        (g.digraph.shortestPaths u v).take count) :=
    mapM_eq_some_map fun u hu => mapM_eq_some_map (hpaths u hu)
  unfold pathsBetween?
  rw [hall]
  show some (firstOf _ (List.mergeSort _ (keyLe List.length))) = _
  rw [firstOf_natCast, List.flatten_flatten, List.map_map, ← List.flatMap_def]
  unfold List.product
  simp only [List.flatMap_assoc, List.flatMap_map, Function.comp_def, ← List.flatMap_def]

/-- What is answered for two names are the first of all shortest paths of all pairs, sorted by
length with those of the same length as they were; all of these are listed once for each pair. If
one more is asked for, one more is answered, if there is one, behind the others. -/
theorem pathsBetween?_exact (g : FunctionGraph) (source target : Text) :
    ∃ all, StablySorted List.length (g.pathsOfPairs source target) all ∧
      (∀ u ∈ g.idsOf source, ∀ v ∈ g.idsOf target, (g.digraph.shortestPaths u v).Nodup ∧
        ∀ p, p ∈ g.digraph.shortestPaths u v ↔ g.digraph.IsShortest u v p) ∧
      (∀ count : Nat, g.pathsBetween? source target count = some (all.take count)) ∧
      (∀ count : Nat, ∃ paths more, g.pathsBetween? source target count = some paths ∧
        g.pathsBetween? source target (count + 1 : Nat) = some more ∧ paths <+: more) ∧
      ∀ (p : Project) (count : Nat), p.functionGraph = .ok g →
        p.paths source target count = .ok (all.take count) := by
  have hlengths : ∀ pair ∈ (g.idsOf source).product (g.idsOf target),
      ∀ p ∈ g.digraph.shortestPaths pair.1 pair.2, ∀ q ∈ g.digraph.shortestPaths pair.1 pair.2,
        p.length = q.length := by
    intro pair hpair p hp q hq
    have htarget := mem_nodes_of_mem_idsOf (List.pair_mem_product.1 hpair).2
    exact Digraph.length_eq_of_mem_shortestPaths htarget hp hq
  have hanswer : ∀ count : Nat, g.pathsBetween? source target count = some
      (((g.pathsOfPairs source target).mergeSort (keyLe List.length)).take count) := by
    intro count
    rw [pathsBetween?_natCast, take_mergeSort_flatMap hlengths, pathsOfPairs_eq]
  refine ⟨_, stablySorted_mergeSort _ _, fun u _ v hv => ⟨Digraph.shortestPaths_nodup _ u v,
    fun p => Digraph.mem_shortestPaths_iff (mem_nodes_of_mem_idsOf hv)⟩, hanswer, fun count => ?_,
    fun p count hp => ?_⟩
  · exact ⟨_, _, hanswer count, hanswer (count + 1), List.take_prefix_take_left (Nat.le_succ count)⟩
  · unfold Project.paths
    rw [hp]
    dsimp only [bind, Except.bind]
    rw [hanswer]

/-- A project of the file with the two methods. -/
def twoGetsProject : Project := ⟨⟨.dir [("m.go", .file twoGets)], []⟩, { root := "/" }⟩

theorem functionGraph_twoGets : twoGetsProject.functionGraph = .ok twoGetsGraph := by
  decide +kernel

/-- The path from the second method is shorter and comes first, and only one of the two from the
first is left. -/
theorem pathsBetween?_twoGets : ∃ all,
    StablySorted List.length (twoGetsGraph.pathsOfPairs "Get" "save") all ∧
      twoGetsProject.paths "Get" "save" 2 = .ok (all.take 2) ∧
      all.take 2 = [[getOfB, saveEnd], [getOfA, leftWay, saveEnd]] := by
  obtain ⟨all, hall, -, hanswer, -, hproject⟩ := pathsBetween?_exact twoGetsGraph "Get" "save"
  refine ⟨all, hall, hproject twoGetsProject 2 functionGraph_twoGets, ?_⟩
  have hpaths : twoGetsGraph.pathsOfPairs "Get" "save"
      = [[getOfA, leftWay, saveEnd], [getOfA, rightWay, saveEnd], [getOfB, saveEnd]] := by
    unfold pathsOfPairs idsOf
    rw [sorted_eq]
    decide +kernel
  have hsorted : StablySorted List.length (twoGetsGraph.pathsOfPairs "Get" "save")
      [[getOfB, saveEnd], [getOfA, leftWay, saveEnd], [getOfA, rightWay, saveEnd]] := by
    rw [hpaths]
    refine ⟨by decide, fun n => ?_⟩
    by_cases htwo : 2 = n
    · subst htwo
      decide +kernel
    by_cases hthree : 3 = n
    · subst hthree
      decide +kernel
    · simp [htwo, hthree]
  rw [hall.unique hsorted, List.take_succ_cons, List.take_succ_cons, List.take_zero]

end FunctionGraph
end GoSurvey
