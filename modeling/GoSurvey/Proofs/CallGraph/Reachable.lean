/-
What is answered when the functions are asked for that a name reaches.

A function is at a distance of at most `depth` from another if a walk of at
most as many steps leads to it, however long other walks are; and it is at
a distance of at least one if it is another function. So the search within
a bound finds the ends of the walks that are not longer than the bound
(`Digraph.mem_within_iff_steps`). A function does not count as reached by
itself, but of several that have the name each is found that another one
reaches.
-/
import GoSurvey.Proofs.CallGraph.Paths

namespace GoSurvey

open Text

namespace FunctionGraph

variable {g : FunctionGraph} {id name v : Text} {depth : Int}

theorem mem_reachable (hid : id ∈ g.digraph.nodes) :
    v ∈ g.reachable id depth ↔ v ∈ g.digraph.within id depth.toNat := by
  unfold reachable
  rw [if_pos (any_id_iff.2 hid), (sorted_perm _).mem_iff]

theorem mem_reachableFrom :
    v ∈ g.reachableFrom name depth ↔
      ∃ s ∈ g.idsOf name, v ∈ g.digraph.within s depth.toNat := by
  unfold reachableFrom
  rw [(sorted_perm _).mem_iff, List.mem_eraseDups, List.mem_flatMap]
  exact exists_congr fun s => and_congr_right fun hs => mem_reachable (mem_nodes_of_mem_idsOf hs)

theorem reachableFrom_pairwise_lt : (g.reachableFrom name depth).Pairwise (· < ·) :=
  sorted_pairwise_lt (eraseDups_nodup _)

/-- What a name reaches are, in order and each once, the functions to which at least one and at most
`depth` calls lead from another function of that name. More calls lead to no fewer functions, and
to no more if there are more of them than functions. -/
theorem reachableFrom_exact (g : FunctionGraph) (name : Text) (depth : Int) :
    (g.reachableFrom name depth).Pairwise (· < ·) ∧
      (∀ v, v ∈ g.reachableFrom name depth ↔ ∃ s ∈ g.idsOf name, s ≠ v ∧
        ∃ n : Nat, 1 ≤ n ∧ (n : Int) ≤ depth ∧ g.digraph.Steps n s v) ∧
      (∀ deeper, depth ≤ deeper → g.reachableFrom name depth ⊆ g.reachableFrom name deeper) ∧
      (g.nodes.length ≤ depth →
        g.reachableFrom name depth = g.reachableFrom name g.nodes.length) ∧
      ∀ p : Project, p.functionGraph = .ok g →
        p.reachable name depth = .ok (g.reachableFrom name depth) := by
  have hmem : ∀ depth v, v ∈ g.reachableFrom name depth ↔ ∃ s ∈ g.idsOf name, s ≠ v ∧
      ∃ n : Nat, 1 ≤ n ∧ (n : Int) ≤ depth ∧ g.digraph.Steps n s v := by
    intro depth v
    rw [mem_reachableFrom]
    refine exists_congr fun s => and_congr_right fun _ => Digraph.mem_within_iff_steps.trans ?_
    refine and_congr_right fun _ => exists_congr fun n => and_congr_right fun hn => ?_
    -- For a number that is not zero it does not matter that no bound is negative.
    have hbound : n ≤ depth.toNat ↔ (n : Int) ≤ depth := by omega
    rw [hbound]
  refine ⟨reachableFrom_pairwise_lt, hmem depth, fun deeper hdeeper v hv => ?_, fun hdepth => ?_,
    fun p hp => ?_⟩
  · obtain ⟨s, hs, hne, n, hn, hle, hsteps⟩ := (hmem depth v).1 hv
    exact (hmem deeper v).2 ⟨s, hs, hne, n, hn, Int.le_trans hle hdeeper, hsteps⟩
  · have hlength : g.digraph.adjacency.length = g.nodes.length := List.length_map _
    refine eq_of_pairwise_of_mem_iff (fun _ _ hlt => Std.not_lt.2 (Std.le_of_lt hlt))
      reachableFrom_pairwise_lt reachableFrom_pairwise_lt fun v => ?_
    rw [mem_reachableFrom, mem_reachableFrom, Int.toNat_natCast, ← hlength]
    exact exists_congr fun s => and_congr_right fun _ => Digraph.mem_within_length (by omega)
  · unfold Project.reachable
    rw [hp]
    rfl

/-- The second method is back at itself after two calls and is not found; after three calls it is,
since the first one leads to it. More than three find nothing new. -/
theorem reachableFrom_twoGets :
    twoGetsGraph.reachableFrom "Get" 2 = [leftWay, rightWay, saveEnd] ∧
      twoGetsProject.reachable "Get" 7 = .ok [getOfB, leftWay, rightWay, saveEnd] ∧
      (∃ s ∈ twoGetsGraph.idsOf "Get", s ≠ getOfB ∧
        ∃ n : Nat, 1 ≤ n ∧ (n : Int) ≤ 7 ∧ twoGetsGraph.digraph.Steps n s getOfB) ∧
      twoGetsGraph.reachableFrom "Get" 0 = [] := by
  obtain ⟨-, hmem, -, hconstant, hproject⟩ := reachableFrom_exact twoGetsGraph "Get" 7
  obtain ⟨hnone, htwo, hfive⟩ : twoGetsGraph.reachableFrom "Get" 0 = [] ∧
      twoGetsGraph.reachableFrom "Get" 2 = [leftWay, rightWay, saveEnd] ∧
      twoGetsGraph.reachableFrom "Get" twoGetsGraph.nodes.length
        = [getOfB, leftWay, rightWay, saveEnd] := by
    unfold reachableFrom reachable idsOf
    rw [sorted_eq]
    decide +kernel
  have hseven := (hconstant (by decide)).trans hfive
  refine ⟨htwo, ?_, (hmem getOfB).1 (hseven ▸ List.mem_cons_self), hnone⟩
  rw [hproject twoGetsProject functionGraph_twoGets, hseven]

end FunctionGraph
end GoSurvey
