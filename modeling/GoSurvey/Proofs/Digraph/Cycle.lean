/-
Cycles. Nodes that reach each other stand in a circle; this is an
equivalence, for a walk and another one make a walk (`Mutual.trans`), so
the circle of a node is that of every member of it (`circleOf_congr`). The
cycles of a graph are its circles with more than one member
(`mem_cycles_iff`), each given by its first member, so none of them is
given twice (`cycles_nodup`) and no two of them share a node
(`eq_of_mem_cycles`). They are the strongly connected components of more
than one member, in whatever order these are found (`AreComponents.cycles`).
-/
import GoSurvey.Digraph.Cycle
import GoSurvey.Proofs.Digraph.Level

namespace GoSurvey.Digraph

variable {α : Type} [DecidableEq α] {g : Digraph α} {u v w : α} {c c' : List α}

/-- Two nodes that reach each other. -/
def Mutual (g : Digraph α) (u v : α) : Prop := g.Reaches u v ∧ g.Reaches v u

theorem Mutual.refl (g : Digraph α) (u : α) : g.Mutual u u := ⟨.refl g u, .refl g u⟩

theorem Mutual.symm (h : g.Mutual u v) : g.Mutual v u := ⟨h.2, h.1⟩

theorem Mutual.trans (h : g.Mutual u v) (h' : g.Mutual v w) : g.Mutual u w :=
  ⟨h.1.trans h'.1, h'.2.trans h.2⟩

-- ============================================================== circles

/-- The nodes that reach a node and are reached from it, in node order. -/
def circleOf (g : Digraph α) (u : α) : List α := classOf g.closure u (g.levels u).flatten

/-- Whether two nodes reach each other, as the search tells it. -/
def inCircle (g : Digraph α) (u v : α) : Bool :=
  (g.levels u).flatten.contains v && (g.levels v).flatten.contains u

theorem inCircle_iff : g.inCircle u v = true ↔ g.Mutual u v := by
  unfold inCircle Mutual
  rw [Bool.and_eq_true, List.contains_iff_mem, List.contains_iff_mem, mem_flatten_levels,
    mem_flatten_levels]

theorem circleOf_eq (g : Digraph α) (u : α) : g.circleOf u = g.nodes.filter (g.inCircle u) := by
  unfold circleOf classOf closure
  rw [List.filter_map, List.map_map]
  exact List.map_id _

theorem mem_circleOf : v ∈ g.circleOf u ↔ v ∈ g.nodes ∧ g.Mutual u v := by
  rw [circleOf_eq, List.mem_filter, inCircle_iff]

/-- The circle of a node is that of every member. -/
theorem circleOf_congr (h : g.Mutual u v) : g.circleOf u = g.circleOf v := by
  rw [circleOf_eq, circleOf_eq]
  refine List.filter_congr fun w _ => Bool.eq_iff_iff.2 ?_
  rw [inCircle_iff, inCircle_iff]
  exact ⟨h.symm.trans, h.trans⟩

-- =============================================================== cycles

/-- The circle of a node if it is a cycle and the node is its first member. -/
def cycleAt? (g : Digraph α) (u : α) : Option (List α) :=
  if 1 < (g.circleOf u).length && (g.circleOf u).head? = some u then some (g.circleOf u) else none

theorem cycles_eq (g : Digraph α) : g.cycles = g.nodes.filterMap g.cycleAt? := by
  show g.closure.filterMap _ = _
  have hclosure : g.closure = g.nodes.map fun u => (u, (g.levels u).flatten) := rfl
  rw [hclosure, List.filterMap_map]
  rfl

theorem cycleAt?_eq_some_iff :
    g.cycleAt? u = some c ↔ c = g.circleOf u ∧ 1 < c.length ∧ c.head? = some u := by
  unfold cycleAt?
  rw [Option.ite_none_right_eq_some, Bool.and_eq_true, decide_eq_true_iff, decide_eq_true_iff,
    Option.some_inj]
  constructor
  · rintro ⟨h, rfl⟩
    exact ⟨rfl, h⟩
  · rintro ⟨rfl, h⟩
    exact ⟨h, rfl⟩

/-- The cycles are the circles with more than one member. -/
theorem mem_cycles_iff : c ∈ g.cycles ↔ ∃ u ∈ g.nodes, c = g.circleOf u ∧ 1 < c.length := by
  rw [cycles_eq, List.mem_filterMap]
  constructor
  · rintro ⟨u, hu, hc⟩
    obtain ⟨hcircle, hlength, -⟩ := cycleAt?_eq_some_iff.1 hc
    exact ⟨u, hu, hcircle, hlength⟩
  · rintro ⟨u, -, hc, hlength⟩
    obtain ⟨first, rest, hfirst⟩ := List.exists_cons_of_length_pos (Nat.lt_of_succ_lt hlength)
    have hmem : first ∈ g.circleOf u := hc ▸ hfirst ▸ List.mem_cons_self
    obtain ⟨hnode, hmutual⟩ := mem_circleOf.1 hmem
    refine ⟨first, hnode, cycleAt?_eq_some_iff.2 ⟨?_, hlength, ?_⟩⟩
    · rw [hc, circleOf_congr hmutual]
    · rw [hfirst]
      rfl

/-- No two cycles share a node. -/
theorem eq_of_mem_cycles (hc : c ∈ g.cycles) (hc' : c' ∈ g.cycles) (hv : v ∈ c) (hv' : v ∈ c') :
    c = c' := by
  obtain ⟨u, -, rfl, -⟩ := mem_cycles_iff.1 hc
  obtain ⟨u', -, rfl, -⟩ := mem_cycles_iff.1 hc'
  exact circleOf_congr ((mem_circleOf.1 hv).2.trans (mem_circleOf.1 hv').2.symm)

/-- No cycle is given twice. -/
theorem cycles_nodup (h : g.nodes.Nodup) : g.cycles.Nodup := by
  rw [cycles_eq]
  refine h.filterMap fun u u' c hc hc' => ?_
  obtain ⟨-, -, hfirst⟩ := cycleAt?_eq_some_iff.1 hc
  obtain ⟨-, -, hfirst'⟩ := cycleAt?_eq_some_iff.1 hc'
  exact Option.some_inj.1 (hfirst.symm.trans hfirst')

theorem cycles_disjoint (h : g.nodes.Nodup) : g.cycles.Pairwise List.Disjoint :=
  (cycles_nodup h).pairwise_of_forall_ne fun _ hc _ hc' hne _ hv hv' =>
    hne (eq_of_mem_cycles hc hc' hv hv')

theorem cycle_nodup (h : g.nodes.Nodup) (hc : c ∈ g.cycles) : c.Nodup := by
  obtain ⟨u, -, rfl, -⟩ := mem_cycles_iff.1 hc
  rw [circleOf_eq]
  exact h.filter _

theorem ne_nil_of_mem_cycles (hc : c ∈ g.cycles) : c ≠ [] := by
  obtain ⟨-, -, -, hlength⟩ := mem_cycles_iff.1 hc
  exact List.ne_nil_of_length_pos (Nat.lt_of_succ_lt hlength)

/-- A node of a cycle and another one of it reach each other. -/
theorem exists_other_of_mem_cycle (h : g.nodes.Nodup) (hc : c ∈ g.cycles) (hv : v ∈ c) :
    ∃ u ∈ c, u ≠ v ∧ g.Mutual u v := by
  have hnodup := cycle_nodup h hc
  obtain ⟨w, -, rfl, hlength⟩ := mem_cycles_iff.1 hc
  obtain ⟨u, hu, hne⟩ : ∃ u ∈ g.circleOf w, u ≠ v := by
    by_contra hall
    push Not at hall
    have hsubset : g.circleOf w ⊆ [v] := fun u hu => List.mem_singleton.2 (hall u hu)
    exact absurd (List.subperm_of_subset hnodup hsubset).length_le (Nat.not_le.2 hlength)
  exact ⟨u, hu, hne, (mem_circleOf.1 hu).2.symm.trans (mem_circleOf.1 hv).2⟩

/-- Two nodes are in one cycle exactly if they reach each other. -/
theorem exists_cycle_iff (hne : u ≠ v) : (∃ c ∈ g.cycles, u ∈ c ∧ v ∈ c) ↔ g.Mutual u v := by
  constructor
  · rintro ⟨c, hc, hu, hv⟩
    obtain ⟨w, -, rfl, -⟩ := mem_cycles_iff.1 hc
    exact (mem_circleOf.1 hu).2.symm.trans (mem_circleOf.1 hv).2
  · intro h
    have hu : u ∈ g.circleOf u := mem_circleOf.2 ⟨h.1.mem_nodes hne, .refl g u⟩
    have hv : v ∈ g.circleOf u := mem_circleOf.2 ⟨h.2.mem_nodes hne.symm, h⟩
    refine ⟨g.circleOf u, mem_cycles_iff.2 ⟨u, h.1.mem_nodes hne, rfl, ?_⟩, hu, hv⟩
    have hboth : [u, v] ⊆ g.circleOf u := by
      rintro w hw
      rcases List.mem_cons.1 hw with rfl | hw
      · exact hu
      · exact List.mem_singleton.1 hw ▸ hv
    have hnodup : [u, v].Nodup := by simpa using hne
    exact (List.subperm_of_subset hnodup hboth).length_le

/-- Lists without a common member that are the circles of more than one node, up to order, are the
cycles once each of them is put in order. -/
theorem map_perm_cycles (h : g.nodes.Nodup) {cs : List (List α)} {order : List α → List α}
    (horder : ∀ c, (order c).Perm c) (hcongr : ∀ c c', c.Perm c' → order c = order c')
    (hdisjoint : cs.Pairwise List.Disjoint)
    (hcs : ∀ c ∈ cs, 1 < c.length ∧ ∃ u ∈ g.nodes, (g.circleOf u).Perm c)
    (hcircle : ∀ u ∈ g.nodes, 1 < (g.circleOf u).length → ∃ c ∈ cs, (g.circleOf u).Perm c) :
    (cs.map order).Perm (g.cycles.map order) := by
  have hnodup : (cs.map order).Nodup := nodup_map_of_disjoint horder hdisjoint fun c hc =>
    List.ne_nil_of_length_pos (Nat.lt_of_succ_lt (hcs c hc).1)
  have hnodup' : (g.cycles.map order).Nodup :=
    nodup_map_of_disjoint horder (cycles_disjoint h) fun _ => ne_nil_of_mem_cycles
  refine (List.perm_ext_iff_of_nodup hnodup hnodup').2 fun c => ?_
  rw [List.mem_map, List.mem_map]
  constructor
  · rintro ⟨members, hmembers, rfl⟩
    obtain ⟨hlength, u, hu, hperm⟩ := hcs members hmembers
    exact ⟨g.circleOf u, mem_cycles_iff.2 ⟨u, hu, rfl, hperm.length_eq ▸ hlength⟩,
      hcongr _ _ hperm⟩
  · rintro ⟨members, hmembers, rfl⟩
    obtain ⟨u, hu, rfl, hlength⟩ := mem_cycles_iff.1 hmembers
    obtain ⟨c, hc, hperm⟩ := hcircle u hu hlength
    exact ⟨c, hc, hcongr _ _ hperm.symm⟩

-- =========================================================== components

/-- The strongly connected components of a graph, in some order and each in some order. -/
structure AreComponents (g : Digraph α) (cs : List (List α)) : Prop where
  mem : ∀ v, (∃ c ∈ cs, v ∈ c) ↔ v ∈ g.nodes
  nodup : ∀ c ∈ cs, c.Nodup
  disjoint : cs.Pairwise List.Disjoint
  together : ∀ c ∈ cs, ∀ u ∈ c, ∀ v ∈ g.nodes, v ∈ c ↔ g.Mutual u v

namespace AreComponents

variable {cs : List (List α)}

/-- A component is the circle of each of its members. -/
theorem circleOf (h : g.AreComponents cs) (hnodes : g.nodes.Nodup) (hc : c ∈ cs) (hu : u ∈ c) :
    (g.circleOf u).Perm c := by
  refine (List.perm_ext_iff_of_nodup (circleOf_eq g u ▸ hnodes.filter _) (h.nodup c hc)).2 ?_
  intro v
  rw [mem_circleOf]
  constructor
  · exact fun hv => (h.together c hc u hu v hv.1).2 hv.2
  · intro hv
    have hnode := (h.mem v).1 ⟨c, hc, hv⟩
    exact ⟨hnode, (h.together c hc u hu v hnode).1 hv⟩

/-- However the components are come upon, those of more than one member, put in order one by one,
are the cycles. -/
theorem cycles (h : g.AreComponents cs) (hnodes : g.nodes.Nodup) {order : List α → List α}
    (horder : ∀ c, (order c).Perm c) (hcongr : ∀ c c', c.Perm c' → order c = order c') :
    ((cs.filter fun c => decide (1 < c.length)).map order).Perm (g.cycles.map order) := by
  refine map_perm_cycles hnodes horder hcongr (h.disjoint.filter _) (fun c hc => ?_)
    fun u hu hlength => ?_
  · obtain ⟨hc, hlength⟩ := List.mem_filter.1 hc
    have hlength := of_decide_eq_true hlength
    obtain ⟨u, hu⟩ := List.exists_mem_of_length_pos (Nat.lt_of_succ_lt hlength)
    exact ⟨hlength, u, (h.mem u).1 ⟨c, hc, hu⟩, h.circleOf hnodes hc hu⟩
  · obtain ⟨c, hc, huc⟩ := (h.mem u).2 hu
    have hcircle := h.circleOf hnodes hc huc
    exact ⟨c, List.mem_filter.2 ⟨hc, decide_eq_true (hcircle.length_eq ▸ hlength)⟩, hcircle⟩

end AreComponents
end GoSurvey.Digraph
