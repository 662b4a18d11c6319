/-
Edges and degrees of a graph that lists no node twice. Such a graph is
given by its nodes and their successors (`adjacency_eq`), so an edge is a
node and one of its successors, and a node that no edge leads to or from is
one that is no successor and has none (`mem_isolated_iff`).
-/
import GoSurvey.Proofs.Digraph.Level

namespace GoSurvey.Digraph

variable {α : Type} [DecidableEq α] {g : Digraph α}

/-- A graph with distinct nodes is given by these and their successors. -/
theorem adjacency_eq (hnodes : g.nodes.Nodup) :
    g.adjacency = g.nodes.map fun u => (u, g.successors u) := by
  unfold nodes
  rw [List.map_map]
  refine (List.map_id _).symm.trans (List.map_congr_left fun entry hentry => ?_)
  obtain ⟨u, vs⟩ := entry
  have hlookup : g.adjacency.lookup u = some vs := (lookup_eq_some_iff_mem hnodes).2 hentry
  show (u, vs) = (u, (g.adjacency.lookup u).getD [])
  rw [hlookup]
  rfl

theorem successors_nodup (h : ∀ entry ∈ g.adjacency, entry.2.Nodup) (u : α) :
    (g.successors u).Nodup := by
  unfold successors
  cases hlookup : g.adjacency.lookup u with
  | none => exact List.nodup_nil
  | some vs =>
      obtain ⟨before, after, hentry, -⟩ := List.lookup_eq_some_iff.1 hlookup
      exact h (u, vs) (hentry ▸ List.mem_append_right before List.mem_cons_self)

theorem edges_eq (hnodes : g.nodes.Nodup) :
    g.edges = g.nodes.flatMap fun u => (g.successors u).map fun v => (u, v) := by
  unfold edges
  rw [adjacency_eq hnodes, List.flatMap_map]

theorem mem_edges_iff_mem_successors (hnodes : g.nodes.Nodup) {u v : α} :
    (u, v) ∈ g.edges ↔ v ∈ g.successors u := by
  rw [edges_eq hnodes, List.mem_flatMap]
  constructor
  · rintro ⟨w, -, hedge⟩
    obtain ⟨x, hx, heq⟩ := List.mem_map.1 hedge
    injection heq with hw hv
    exact hw ▸ hv ▸ hx
  · exact fun hv => ⟨u, mem_nodes_of_mem_successors hv, List.mem_map_of_mem hv⟩

theorem inDegree_eq (hnodes : g.nodes.Nodup) (v : α) :
    g.inDegree v = (g.nodes.filter fun u => (g.successors u).contains v).length := by
  unfold inDegree
  rw [adjacency_eq hnodes, List.filter_map, List.length_map]
  rfl

/-- No edge is listed twice if no node lists a successor twice. -/
theorem edges_nodup (hnodes : g.nodes.Nodup) (h : ∀ u, (g.successors u).Nodup) :
    g.edges.Nodup := by
  rw [edges_eq hnodes]
  refine List.nodup_flatMap.2 ⟨fun u _ => (h u).map fun _ _ heq => (Prod.mk.inj heq).2,
    hnodes.imp fun {u u'} hne edge hu hu' => hne ?_⟩
  obtain ⟨v, -, rfl⟩ := List.mem_map.1 hu
  obtain ⟨v', -, heq⟩ := List.mem_map.1 hu'
  exact (Prod.mk.inj heq).1.symm

theorem inDegree_eq_zero_iff (hnodes : g.nodes.Nodup) {v : α} :
    g.inDegree v = 0 ↔ ∀ u, (u, v) ∉ g.edges := by
  rw [inDegree_eq hnodes, List.length_eq_zero_iff, List.filter_eq_nil_iff]
  simp only [mem_edges_iff_mem_successors hnodes, List.contains_iff_mem]
  exact ⟨fun h u hv => h u (mem_nodes_of_mem_successors hv) hv, fun h u _ => h u⟩

theorem outDegree_eq_zero_iff (hnodes : g.nodes.Nodup) {v : α} :
    g.outDegree v = 0 ↔ ∀ u, (v, u) ∉ g.edges := by
  unfold outDegree
  rw [List.length_eq_zero_iff, List.eq_nil_iff_forall_not_mem]
  simp only [mem_edges_iff_mem_successors hnodes]

/-- The isolated nodes are those without an edge. -/
theorem mem_isolated_iff (hnodes : g.nodes.Nodup) {v : α} :
    v ∈ g.isolated ↔ v ∈ g.nodes ∧ ∀ u, (u, v) ∉ g.edges ∧ (v, u) ∉ g.edges := by
  unfold isolated
  rw [List.mem_filter, Bool.and_eq_true, beq_iff_eq, beq_iff_eq, inDegree_eq_zero_iff hnodes,
    outDegree_eq_zero_iff hnodes, ← forall_and]

end GoSurvey.Digraph
