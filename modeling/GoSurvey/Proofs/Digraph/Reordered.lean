/-
Graphs that list the same nodes and edges in another order. They have the
same walks and so the same distances (`Reordered.isDistance`); degrees are
numbers and do not differ, and everything else that is asked of a graph is
a list of nodes in which only the order differs. Of the cycles each one
may differ in the order of its members, and they may come in another order
altogether; put in order one by one, they are the same (`Reordered.cycles`).
-/
import GoSurvey.Proofs.Digraph.Cycle
import GoSurvey.Proofs.Digraph.Edge

namespace GoSurvey.Digraph

variable {α : Type} [DecidableEq α] {g h : Digraph α}

/-- The same nodes and edges, in another order. -/
structure Reordered (g h : Digraph α) : Prop where
  distinct : g.nodes.Nodup
  nodes : h.nodes.Perm g.nodes
  successors : ∀ u, (h.successors u).Perm (g.successors u)

namespace Reordered

variable (same : Reordered g h) {u v : α}

include same

theorem distinct' : h.nodes.Nodup := same.nodes.nodup_iff.2 same.distinct

theorem edges : h.edges.Perm g.edges := by
  rw [edges_eq same.distinct, edges_eq same.distinct']
  exact same.nodes.flatMap fun u _ => (same.successors u).map _

-- ============================================================= degrees

theorem inDegree (v : α) : h.inDegree v = g.inDegree v := by
  have hcontains : ∀ u, (h.successors u).contains v = (g.successors u).contains v := fun u =>
    (same.successors u).contains_eq
  rw [inDegree_eq same.distinct, inDegree_eq same.distinct']
  simp only [hcontains]
  exact (same.nodes.filter _).length_eq

theorem outDegree (u : α) : h.outDegree u = g.outDegree u := (same.successors u).length_eq

theorem isolated : h.isolated.Perm g.isolated := by
  unfold Digraph.isolated
  simp only [same.inDegree, same.outDegree]
  exact same.nodes.filter _

-- ============================================================== walks

theorem steps {n : Nat} : h.Steps n u v ↔ g.Steps n u v := by
  induction n generalizing v with
  | zero => exact Iff.rfl
  | succ n ih => exact exists_congr fun w => and_congr ih (same.successors w).mem_iff

theorem isDistance {n : Nat} : h.IsDistance n u v ↔ g.IsDistance n u v := by
  constructor
  · exact fun hv => ⟨same.steps.1 hv.steps, fun m hm hm' => hv.least m hm (same.steps.2 hm')⟩
  · exact fun hv => ⟨same.steps.2 hv.steps, fun m hm hm' => hv.least m hm (same.steps.1 hm')⟩

theorem within (u : α) (bound : Nat) : (h.within u bound).Perm (g.within u bound) := by
  refine (List.perm_ext_iff_of_nodup (within_nodup h u bound) (within_nodup g u bound)).2 ?_
  intro v
  rw [mem_within_iff, mem_within_iff]
  simp only [same.isDistance]

-- ============================================================= cycles

theorem mutual_iff : h.Mutual u v ↔ g.Mutual u v :=
  and_congr (exists_congr fun _ => same.steps) (exists_congr fun _ => same.steps)

theorem circleOf (u : α) : (h.circleOf u).Perm (g.circleOf u) := by
  have hcircle : h.inCircle u = g.inCircle u := funext fun v => by
    rw [Bool.eq_iff_iff, inCircle_iff, inCircle_iff, same.mutual_iff]
  rw [circleOf_eq, circleOf_eq, hcircle]
  exact same.nodes.filter _

/-- Put in order, the cycles are the same. -/
theorem cycles {order : List α → List α} (hperm : ∀ c, (order c).Perm c)
    (hcongr : ∀ c c', c.Perm c' → order c = order c') :
    (h.cycles.map order).Perm (g.cycles.map order) := by
  refine map_perm_cycles same.distinct hperm hcongr (cycles_disjoint same.distinct')
    (fun c hc => ?_) fun u hu hlength => ?_
  · obtain ⟨u, hu, rfl, hlength⟩ := mem_cycles_iff.1 hc
    exact ⟨hlength, u, same.nodes.mem_iff.1 hu, (same.circleOf u).symm⟩
  · refine ⟨h.circleOf u, mem_cycles_iff.2 ⟨u, same.nodes.mem_iff.2 hu, rfl, ?_⟩,
      (same.circleOf u).symm⟩
    exact (same.circleOf u).length_eq.symm ▸ hlength

end Reordered
end GoSurvey.Digraph
