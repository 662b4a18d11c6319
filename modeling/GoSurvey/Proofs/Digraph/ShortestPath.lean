/-
The paths that are found upwards through the levels are the shortest
paths, all of them and each once.

The induction is on the distance. The predecessors of a node one level up
are the nodes that a shortest path may come from, since a node at distance
`n` with an edge to one at distance `n + 1` is on a shortest path to it
and no other node is (`mem_pathsUp_iff`). Paths that come from different
predecessors differ there, so none is found twice (`pathsUp_nodup`).
-/
import GoSurvey.Digraph.ShortestPath
import GoSurvey.Proofs.Digraph.Walk
import Mathlib.Data.List.Nodup
import Mathlib.Data.Set.Card

namespace GoSurvey.Digraph

variable {α : Type} [DecidableEq α] {g : Digraph α} {u v w : α} {p path : List α} {n : Nat}

-- =========================================================== distances

/-- The distance that is found in the levels is the distance. -/
theorem distance?_eq_some_iff : distance? (g.levels u) v = some n ↔ g.IsDistance n u v := by
  have hfound : ∀ {k}, distance? (g.levels u) v = some k → g.IsDistance k u v := by
    intro k hk
    obtain ⟨hlt, hmem, -⟩ := List.findIdx?_eq_some_iff_getElem.1 hk
    exact mem_level_iff.1 ⟨_, List.getElem?_eq_getElem hlt, List.contains_iff_mem.1 hmem⟩
  refine ⟨hfound, fun h => ?_⟩
  cases hk : distance? (g.levels u) v with
  | some k => rw [(hfound hk).unique h]
  | none =>
      obtain ⟨level, hlevel, hv⟩ := mem_level_iff.2 h
      have hnot := List.findIdx?_eq_none_iff.1 hk level (List.mem_of_getElem? hlevel)
      rw [List.contains_iff_mem.2 hv] at hnot
      cases hnot

theorem distance?_eq_none_iff : distance? (g.levels u) v = none ↔ ¬g.Reaches u v := by
  rw [Option.eq_none_iff_forall_ne_some]
  constructor
  · rintro h ⟨m, hm⟩
    obtain ⟨n, -, hn⟩ := exists_isDistance hm
    exact h n (distance?_eq_some_iff.2 hn)
  · exact fun h n hn => h ⟨n, (distance?_eq_some_iff.1 hn).steps⟩

/-- The levels above a node are those at smaller distances. -/
theorem levelsAbove?_of_isDistance (h : g.IsDistance n u v) :
    g.levelsAbove? u v = some ((g.levels u).take n).reverse := by
  unfold levelsAbove?
  dsimp only
  rw [distance?_eq_some_iff.2 h]
  rfl

theorem levelsAbove?_eq_none_iff : g.levelsAbove? u v = none ↔ ¬g.Reaches u v := by
  unfold levelsAbove?
  rw [Option.map_eq_none_iff, distance?_eq_none_iff]

/-- Above a node is a level of the nodes that are nearer by one step. -/
theorem exists_levelAbove (h : g.IsDistance (n + 1) u v) :
    ∃ level, (g.levels u)[n]? = some level ∧ ∀ w, w ∈ level ↔ g.IsDistance n u w := by
  obtain ⟨w, hw, -⟩ := h.exists_before
  obtain ⟨level, hlevel, -⟩ := mem_level_iff.2 hw
  refine ⟨level, hlevel, fun x => ?_⟩
  rw [← mem_level_iff, hlevel]
  simp

/-- The last node before the end of a shortest way has no shorter way to it. -/
theorem IsDistance.before (h : g.IsDistance (n + 1) u v) (hw : g.Steps n u w)
    (hstep : v ∈ g.successors w) : g.IsDistance n u w :=
  ⟨hw, fun m hm hshort => h.least (m + 1) (Nat.succ_lt_succ hm) ⟨w, hshort, hstep⟩⟩

-- ========================================================== the way up

theorem mem_predecessorsIn {level : List α} :
    u ∈ g.predecessorsIn level v ↔ u ∈ level ∧ v ∈ g.successors u := by
  unfold predecessorsIn
  rw [List.mem_filter, List.contains_iff_mem]

/-- What is found ends with what has been found before. -/
theorem suffix_of_mem_pathsUp {levels : List (List α)} (h : p ∈ g.pathsUp levels v path) :
    (v :: path) <:+ p := by
  induction levels generalizing v path with
  | nil => exact List.mem_singleton.1 h ▸ List.suffix_rfl
  | cons level above ih =>
      obtain ⟨u, -, hp⟩ := List.mem_flatMap.1 h
      exact (List.suffix_cons u (v :: path)).trans (ih hp)

/-- No path is found twice. -/
theorem pathsUp_nodup {levels : List (List α)} (h : ∀ level ∈ levels, level.Nodup) :
    (g.pathsUp levels v path).Nodup := by
  induction levels generalizing v path with
  | nil => exact List.nodup_singleton _
  | cons level above ih =>
      refine List.nodup_flatMap.2 ⟨fun u _ => ih fun l hl => h l (List.mem_cons_of_mem level hl),
        ((h level List.mem_cons_self).filter _).imp fun {u w} hne p hu hw => hne ?_⟩
      -- A path tells by its end which predecessor it comes from.
      have hsuffix := List.suffix_of_suffix_length_le (suffix_of_mem_pathsUp hu)
        (suffix_of_mem_pathsUp hw) (Nat.le_refl _)
      exact (List.cons.inj (hsuffix.eq_of_length rfl)).1

/-- The paths that are found are the walks of as many steps as the distance, each before what has
been found before. -/
theorem mem_pathsUp_iff (hv : v ∈ g.nodes) (h : g.IsDistance n u v) :
    p ∈ g.pathsUp ((g.levels u).take n).reverse v path ↔
      ∃ q, g.IsWalk u v q ∧ q.length = n + 1 ∧ p = q ++ path := by
  induction n generalizing v path with
  | zero =>
      obtain rfl : u = v := h.steps
      rw [List.take_zero, List.reverse_nil, pathsUp, List.mem_singleton]
      constructor
      · rintro rfl
        exact ⟨[u], isWalk_singleton_iff.2 ⟨rfl, rfl, hv⟩, rfl, rfl⟩
      · rintro ⟨q, hq, hlength, rfl⟩
        obtain ⟨w, rfl⟩ := List.length_eq_one_iff.1 hlength
        obtain ⟨rfl, -, -⟩ := isWalk_singleton_iff.1 hq
        rfl
  | succ n ih =>
      obtain ⟨level, hlevel, hmem⟩ := exists_levelAbove h
      rw [List.take_add_one, hlevel, Option.toList_some, List.reverse_append,
        List.reverse_singleton, List.singleton_append, pathsUp, List.mem_flatMap]
      constructor
      · rintro ⟨w, hw, hp⟩
        obtain ⟨hw, hstep⟩ := mem_predecessorsIn.1 hw
        obtain ⟨q, hq, hlength, rfl⟩ :=
          (ih (mem_nodes_of_mem_successors hstep) ((hmem w).1 hw)).1 hp
        refine ⟨q ++ [v], (isWalk_concat_iff hq.ne_nil).2 ⟨rfl, hv, w, hq, hstep⟩, ?_, ?_⟩
        · rw [List.length_append, hlength]
          rfl
        · rw [List.append_assoc, List.singleton_append]
      · rintro ⟨p, hp, hlength, rfl⟩
        obtain ⟨q, x, rfl⟩ : ∃ q x, p = q ++ [x] :=
          ⟨_, _, (List.dropLast_append_getLast hp.ne_nil).symm⟩
        rw [List.length_append, List.length_singleton, Nat.add_right_cancel_iff] at hlength
        obtain ⟨rfl, -, w, hw, hstep⟩ :=
          (isWalk_concat_iff (List.ne_nil_of_length_eq_add_one hlength)).1 hp
        have hdistance := h.before (exists_isWalk_iff.1 ⟨q, hw, hlength⟩).2.2 hstep
        refine ⟨w, mem_predecessorsIn.2 ⟨(hmem w).2 hdistance, hstep⟩,
          (ih (mem_nodes_of_mem_successors hstep) hdistance).2 ⟨q, hw, hlength, ?_⟩⟩
        rw [List.append_assoc, List.singleton_append]

-- ====================================================== shortest paths

theorem shortestPaths_eq_nil_of_not_reaches (h : ¬g.Reaches u v) : g.shortestPaths u v = [] := by
  unfold shortestPaths
  rw [levelsAbove?_eq_none_iff.2 h]

theorem shortestPaths_of_isDistance (h : g.IsDistance n u v) :
    g.shortestPaths u v = g.pathsUp ((g.levels u).take n).reverse v [] := by
  unfold shortestPaths
  rw [levelsAbove?_of_isDistance h]

/-- The paths that are listed are the shortest paths. -/
theorem mem_shortestPaths_iff (hv : v ∈ g.nodes) :
    p ∈ g.shortestPaths u v ↔ g.IsShortest u v p := by
  by_cases hreach : g.Reaches u v
  · obtain ⟨m, hm⟩ := hreach
    obtain ⟨n, -, hn⟩ := exists_isDistance hm
    rw [shortestPaths_of_isDistance hn, mem_pathsUp_iff hv hn, isShortest_iff hn]
    simp
  · rw [shortestPaths_eq_nil_of_not_reaches hreach]
    refine iff_of_false List.not_mem_nil fun hp => hreach ?_
    exact (exists_walk_iff.1 ⟨p, hp.toIsWalk⟩).2.2

/-- None is listed twice. -/
theorem shortestPaths_nodup (g : Digraph α) (u v : α) : (g.shortestPaths u v).Nodup := by
  unfold shortestPaths levelsAbove?
  dsimp only
  cases distance? (g.levels u) v with
  | none => exact List.nodup_nil
  | some n =>
      refine pathsUp_nodup fun level hlevel => ?_
      exact nodup_of_mem_levels (List.mem_of_mem_take (List.mem_reverse.1 hlevel))

theorem setOf_isShortest (hv : v ∈ g.nodes) :
    {p | g.IsShortest u v p} = ((g.shortestPaths u v).toFinset : Set (List α)) := by
  ext p
  show g.IsShortest u v p ↔ _
  rw [← mem_shortestPaths_iff hv]
  simp

/-- There are as many shortest paths as are listed. -/
theorem ncard_isShortest (hv : v ∈ g.nodes) : {p | g.IsShortest u v p}.Finite ∧
    {p | g.IsShortest u v p}.ncard = (g.shortestPaths u v).length := by
  rw [setOf_isShortest hv]
  refine ⟨Finset.finite_toSet _, ?_⟩
  rw [Set.ncard_coe_finset, List.toFinset_card_of_nodup (shortestPaths_nodup g u v)]

/-- Some are listed exactly if the end can be reached. -/
theorem shortestPaths_eq_nil_iff (hu : u ∈ g.nodes) (hv : v ∈ g.nodes) :
    g.shortestPaths u v = [] ↔ ¬g.Reaches u v := by
  refine ⟨?_, shortestPaths_eq_nil_of_not_reaches⟩
  rintro hnil ⟨m, hm⟩
  obtain ⟨n, -, hn⟩ := exists_isDistance hm
  obtain ⟨p, hp, hlength⟩ := exists_isWalk_iff.2 ⟨hu, hv, hn.steps⟩
  have hmem := (mem_shortestPaths_iff hv).2 ((isShortest_iff hn).2 ⟨hp, hlength⟩)
  rw [hnil] at hmem
  exact List.not_mem_nil hmem

/-- All shortest paths between two nodes have the same length. -/
theorem length_eq_of_mem_shortestPaths (hv : v ∈ g.nodes) {q : List α}
    (hp : p ∈ g.shortestPaths u v) (hq : q ∈ g.shortestPaths u v) : p.length = q.length := by
  have hp := (mem_shortestPaths_iff hv).1 hp
  have hq := (mem_shortestPaths_iff hv).1 hq
  exact Nat.le_antisymm (hp.least q hq.toIsWalk) (hq.least p hp.toIsWalk)

end GoSurvey.Digraph
