/-
Levels and distances. The levels of a node are found by a search; what they
mean is said here by walks. Level `k` of a node holds exactly the nodes at
distance `k`, those with a walk of `k` edges to them and no shorter one
(`mem_level_iff`).

The induction is on the levels. When the search has come to a level, it
has seen the nodes that can be reached in as many steps or fewer, and the
level is made of those that cannot be reached in fewer (`Searched`). The
number of levels that the search may go through is enough, whatever the
graph: on the way to a node there is one node at each smaller distance,
all of these have successors, and only as many nodes are in the graph
(`IsDistance.le_length`).

So what the search finds in all depends on the edges alone and not on the
order in which they are listed.
-/
import GoSurvey.Digraph.Level
import GoSurvey.Proofs.List.Perm
import Mathlib.Data.List.Perm.Basic

namespace GoSurvey.Digraph

variable {α : Type} [DecidableEq α] {g : Digraph α} {u v w : α} {m n : Nat}

-- ============================================================== walks

/-- There is a walk of `n` edges from one node to another. -/
def Steps (g : Digraph α) : Nat → α → α → Prop
  | 0, u, v => u = v
  | n + 1, u, v => ∃ w, Steps g n u w ∧ v ∈ g.successors w

theorem steps_add : g.Steps (m + n) u v ↔ ∃ w, g.Steps m u w ∧ g.Steps n w v := by
  induction n generalizing v with
  | zero =>
      constructor
      · exact fun h => ⟨v, h, rfl⟩
      · rintro ⟨w, h, rfl⟩
        exact h
  | succ n ih =>
      constructor
      · rintro ⟨x, hx, hv⟩
        obtain ⟨w, hw, hx⟩ := ih.1 hx
        exact ⟨w, hw, x, hx, hv⟩
      · rintro ⟨w, hw, x, hx, hv⟩
        exact ⟨x, ih.2 ⟨w, hw, hx⟩, hv⟩

/-- A node with successors is a node of the graph. -/
theorem mem_nodes_of_mem_successors (h : v ∈ g.successors u) : u ∈ g.nodes := by
  unfold successors at h
  cases hlookup : g.adjacency.lookup u with
  | none => rw [hlookup] at h; exact absurd h List.not_mem_nil
  | some vs =>
      by_contra hnode
      have hnone : g.adjacency.lookup u = none := List.lookup_eq_none_iff.2 fun entry hentry =>
        bne_iff_ne.2 fun heq => hnode (heq ▸ List.mem_map_of_mem hentry)
      rw [hlookup] at hnone
      cases hnone

/-- One node can be reached from another. -/
def Reaches (g : Digraph α) (u v : α) : Prop := ∃ n, g.Steps n u v

theorem Reaches.refl (g : Digraph α) (u : α) : g.Reaches u u := ⟨0, rfl⟩

theorem Reaches.trans (h : g.Reaches u v) (h' : g.Reaches v w) : g.Reaches u w := by
  obtain ⟨m, hm⟩ := h
  obtain ⟨n, hn⟩ := h'
  exact ⟨m + n, steps_add.2 ⟨v, hm, hn⟩⟩

/-- A node from which another one can be reached is a node of the graph. -/
theorem Reaches.mem_nodes (h : g.Reaches u v) (hne : u ≠ v) : u ∈ g.nodes := by
  obtain ⟨n, hn⟩ := h
  obtain ⟨m, rfl⟩ : ∃ m, n = 1 + m := by
    cases n with
    | zero => exact absurd hn hne
    | succ m => exact ⟨m, Nat.add_comm m 1⟩
  obtain ⟨w, ⟨x, rfl, hstep⟩, -⟩ := steps_add.1 hn
  exact mem_nodes_of_mem_successors hstep

-- =========================================================== distances

/-- A node can be reached in so many steps and not in fewer. -/
structure IsDistance (g : Digraph α) (n : Nat) (u v : α) : Prop where
  steps : g.Steps n u v
  least : ∀ m < n, ¬g.Steps m u v

namespace IsDistance

theorem unique (h : g.IsDistance m u v) (h' : g.IsDistance n u v) : m = n := by
  rcases Nat.lt_trichotomy m n with hlt | heq | hgt
  · exact absurd h.steps (h'.least m hlt)
  · exact heq
  · exact absurd h'.steps (h.least n hgt)

/-- On the way to a node is one at each smaller distance. -/
theorem exists_before (h : g.IsDistance (m + n) u v) :
    ∃ w, g.IsDistance m u w ∧ g.Steps n w v := by
  obtain ⟨w, hw, hv⟩ := steps_add.1 h.steps
  refine ⟨w, ⟨hw, fun k hk hshort => ?_⟩, hv⟩
  exact h.least (k + n) (Nat.add_lt_add_right hk n) (steps_add.2 ⟨w, hshort, hv⟩)

/-- No distance is greater than the number of nodes. -/
theorem le_length (h : g.IsDistance n u v) : n ≤ g.adjacency.length := by
  have hbefore : ∀ m < n, ∃ w, g.IsDistance m u w ∧ w ∈ g.nodes := by
    intro m hm
    obtain ⟨k, rfl⟩ : ∃ k, n = (m + 1) + k := ⟨n - (m + 1), by omega⟩
    obtain ⟨x, hx, -⟩ := h.exists_before
    obtain ⟨w, hw, y, hy, hx⟩ := hx.exists_before
    subst hy
    exact ⟨w, hw, mem_nodes_of_mem_successors hx⟩
  have : Nonempty α := ⟨u⟩
  choose! way hway hnode using hbefore
  have hnodup : ((List.range n).map way).Nodup := by
    refine (List.nodup_map_iff_inj_on List.nodup_range).2 fun i hi j hj heq => ?_
    have hwayi := hway i (List.mem_range.1 hi)
    rw [heq] at hwayi
    exact hwayi.unique (hway j (List.mem_range.1 hj))
  have hsubset : (List.range n).map way ⊆ g.nodes := by
    intro w hw
    obtain ⟨m, hm, rfl⟩ := List.mem_map.1 hw
    exact hnode m (List.mem_range.1 hm)
  have hle := (List.subperm_of_subset hnodup hsubset).length_le
  rwa [List.length_map, List.length_range, nodes, List.length_map] at hle

end IsDistance

theorem exists_isDistance (h : g.Steps n u v) : ∃ m ≤ n, g.IsDistance m u v := by
  induction n using Nat.strongRecOn with
  | ind n ih =>
      by_cases hshorter : ∃ m < n, g.Steps m u v
      · obtain ⟨m, hm, hsteps⟩ := hshorter
        obtain ⟨k, hk, hdistance⟩ := ih m hm hsteps
        exact ⟨k, Nat.le_trans hk (Nat.le_of_lt hm), hdistance⟩
      · exact ⟨n, Nat.le_refl n, h, fun m hm hsteps => hshorter ⟨m, hm, hsteps⟩⟩

-- ============================================================ the search

/-- Where a search stands that has come to a level. -/
structure Searched (g : Digraph α) (u : α) (n : Nat) (seen level : List α) : Prop where
  seen : ∀ v, v ∈ seen ↔ ∃ m ≤ n, g.Steps m u v
  level : ∀ v, v ∈ level ↔ g.IsDistance n u v

theorem searched_start (g : Digraph α) (u : α) : g.Searched u 0 [u] [u] where
  seen v := by
    rw [List.mem_singleton]
    constructor
    · rintro rfl
      exact ⟨0, Nat.le_refl 0, rfl⟩
    · rintro ⟨m, hm, hsteps⟩
      obtain rfl := Nat.le_zero.1 hm
      exact hsteps.symm
  level v := by
    rw [List.mem_singleton]
    constructor
    · rintro rfl
      exact ⟨rfl, fun m hm => absurd hm (Nat.not_lt_zero m)⟩
    · exact fun h => h.steps.symm

theorem mem_nextLevel {seen level : List α} :
    v ∈ g.nextLevel seen level ↔ (∃ w ∈ level, v ∈ g.successors w) ∧ v ∉ seen := by
  unfold nextLevel
  rw [List.mem_eraseDups, List.mem_filter, List.mem_flatMap, Bool.not_eq_true',
    List.contains_eq_mem, decide_eq_false_iff_not]

/-- The search goes on by one level. -/
theorem Searched.next {seen level : List α} (h : g.Searched u n seen level) :
    g.Searched u (n + 1) (seen ++ g.nextLevel seen level) (g.nextLevel seen level) := by
  have hnext : ∀ v, v ∈ g.nextLevel seen level ↔ g.IsDistance (n + 1) u v := by
    intro v
    rw [mem_nextLevel, h.seen]
    constructor
    · rintro ⟨⟨w, hw, hv⟩, hunseen⟩
      refine ⟨⟨w, ((h.level w).1 hw).steps, hv⟩, fun m hm hsteps => ?_⟩
      exact hunseen ⟨m, Nat.le_of_lt_succ hm, hsteps⟩
    · intro hv
      obtain ⟨w, hw, x, hx, hsuccessor⟩ := hv.exists_before
      subst hx
      refine ⟨⟨w, (h.level w).2 hw, hsuccessor⟩, ?_⟩
      rintro ⟨m, hm, hsteps⟩
      exact hv.least m (Nat.lt_succ_of_le hm) hsteps
  refine ⟨fun v => ?_, hnext⟩
  rw [List.mem_append, h.seen, hnext]
  constructor
  · rintro (⟨m, hm, hsteps⟩ | hv)
    · exact ⟨m, Nat.le_succ_of_le hm, hsteps⟩
    · exact ⟨n + 1, Nat.le_refl _, hv.steps⟩
  · rintro ⟨m, hm, hsteps⟩
    obtain ⟨k, hk, hdistance⟩ := exists_isDistance hsteps
    by_cases hlast : k = n + 1
    · exact .inr (hlast ▸ hdistance)
    · exact .inl ⟨k, by omega, hdistance.steps⟩

/-- Each level of a search holds the nodes at one distance, as far as the search goes. -/
theorem mem_levelsFrom {fuel k : Nat} {seen level : List α} (h : g.Searched u n seen level)
    (hk : k < fuel) : (∃ found, (g.levelsFrom fuel seen level)[k]? = some found ∧ v ∈ found) ↔
      g.IsDistance (n + k) u v := by
  induction fuel generalizing n k seen level with
  | zero => exact absurd hk (Nat.not_lt_zero k)
  | succ fuel ih =>
      rw [levelsFrom]
      split
      · next hempty =>
        rw [List.getElem?_nil]
        constructor
        · rintro ⟨found, hfound, -⟩
          cases hfound
        · intro hv
          obtain ⟨w, hw, -⟩ := hv.exists_before
          rw [← h.level, List.isEmpty_iff.1 hempty] at hw
          exact absurd hw List.not_mem_nil
      · cases k with
        | zero =>
            rw [Nat.add_zero, ← h.level]
            constructor
            · rintro ⟨found, hfound, hv⟩
              injection hfound with hfound
              exact hfound ▸ hv
            · exact fun hv => ⟨level, rfl, hv⟩
        | succ k =>
            have hindex : n + (k + 1) = n + 1 + k := by omega
            rw [List.getElem?_cons_succ, hindex]
            exact ih h.next (Nat.lt_of_succ_lt_succ hk)

theorem length_levelsFrom_le (fuel : Nat) (seen level : List α) :
    (g.levelsFrom fuel seen level).length ≤ fuel := by
  induction fuel generalizing seen level with
  | zero => exact Nat.le_refl 0
  | succ fuel ih =>
      rw [levelsFrom]
      split
      · exact Nat.zero_le _
      · exact Nat.succ_le_succ (ih _ _)

theorem nodup_of_mem_levelsFrom {fuel : Nat} {seen level found : List α} (hlevel : level.Nodup)
    (h : found ∈ g.levelsFrom fuel seen level) : found.Nodup := by
  induction fuel generalizing seen level with
  | zero => exact absurd h List.not_mem_nil
  | succ fuel ih =>
      rw [levelsFrom] at h
      split at h
      · exact absurd h List.not_mem_nil
      · rcases List.mem_cons.1 h with rfl | h
        · exact hlevel
        · exact ih (eraseDups_nodup _) h

-- ============================================================ the levels

/-- Level `k` of a node holds the nodes at distance `k` from it. -/
theorem mem_level_iff {k : Nat} :
    (∃ level, (g.levels u)[k]? = some level ∧ v ∈ level) ↔ g.IsDistance k u v := by
  by_cases hk : k < g.adjacency.length + 1
  · have h := mem_levelsFrom (v := v) (searched_start g u) hk
    rwa [Nat.zero_add] at h
  · constructor
    · rintro ⟨level, hlevel, -⟩
      have hlt := (List.getElem?_eq_some_iff.1 hlevel).1
      have hle := length_levelsFrom_le (g := g) (g.adjacency.length + 1) [u] [u]
      exact absurd (Nat.lt_of_lt_of_le hlt hle) hk
    · exact fun hv => absurd (Nat.lt_succ_of_le hv.le_length) hk

/-- The levels hold what can be reached. -/
theorem mem_flatten_levels : v ∈ (g.levels u).flatten ↔ g.Reaches u v := by
  rw [List.mem_flatten]
  constructor
  · rintro ⟨level, hlevel, hv⟩
    obtain ⟨k, hk⟩ := List.mem_iff_getElem?.1 hlevel
    exact ⟨k, (mem_level_iff.1 ⟨level, hk, hv⟩).steps⟩
  · rintro ⟨n, hsteps⟩
    obtain ⟨k, -, hk⟩ := exists_isDistance hsteps
    obtain ⟨level, hlevel, hv⟩ := mem_level_iff.2 hk
    exact ⟨level, List.mem_iff_getElem?.2 ⟨k, hlevel⟩, hv⟩

theorem levels_pairwise (g : Digraph α) (u : α) : (g.levels u).Pairwise List.Disjoint := by
  refine List.pairwise_iff_getElem.2 fun i j hi hj hij v hvi hvj => ?_
  have hdi := mem_level_iff.1 ⟨_, List.getElem?_eq_getElem hi, hvi⟩
  have hdj := mem_level_iff.1 ⟨_, List.getElem?_eq_getElem hj, hvj⟩
  exact Nat.ne_of_lt hij (hdi.unique hdj)

theorem nodup_of_mem_levels {level : List α} (h : level ∈ g.levels u) : level.Nodup :=
  nodup_of_mem_levelsFrom (List.nodup_singleton u) h

/-- Within a bound are the nodes at a distance from 1 up to the bound. -/
theorem mem_within_iff {bound : Nat} :
    v ∈ g.within u bound ↔ ∃ k, 1 ≤ k ∧ k ≤ bound ∧ g.IsDistance k u v := by
  unfold within
  rw [List.mem_flatten]
  simp only [List.mem_iff_getElem?, List.getElem?_take, List.getElem?_drop]
  constructor
  · rintro ⟨level, ⟨i, hi⟩, j, hv⟩
    split at hi
    · next hbound =>
      refine ⟨1 + i, Nat.le_add_right 1 i, by omega, mem_level_iff.1 ⟨level, hi, ?_⟩⟩
      exact List.mem_iff_getElem?.2 ⟨j, hv⟩
    · cases hi
  · rintro ⟨k, hk, hbound, hdistance⟩
    obtain ⟨i, rfl⟩ : ∃ i, k = 1 + i := ⟨k - 1, by omega⟩
    obtain ⟨level, hlevel, hv⟩ := mem_level_iff.2 hdistance
    refine ⟨level, ⟨i, ?_⟩, List.mem_iff_getElem?.1 hv⟩
    rw [if_pos (by omega : i < bound)]
    exact hlevel

/-- Within a bound are the other nodes to which walks of no more steps lead. -/
theorem mem_within_iff_steps {bound : Nat} :
    v ∈ g.within u bound ↔ u ≠ v ∧ ∃ n, 1 ≤ n ∧ n ≤ bound ∧ g.Steps n u v := by
  rw [mem_within_iff]
  constructor
  · rintro ⟨n, hpos, hle, hn⟩
    exact ⟨fun heq => hn.least 0 hpos heq, n, hpos, hle, hn.steps⟩
  · rintro ⟨hne, n, -, hle, hsteps⟩
    obtain ⟨m, hm, hdistance⟩ := exists_isDistance hsteps
    have hpos : m ≠ 0 := by
      rintro rfl
      exact hne hdistance.steps
    exact ⟨m, Nat.one_le_iff_ne_zero.2 hpos, Nat.le_trans hm hle, hdistance⟩

/-- A bound above the number of nodes finds nothing more. -/
theorem mem_within_length {bound : Nat} (h : g.adjacency.length ≤ bound) :
    v ∈ g.within u bound ↔ v ∈ g.within u g.adjacency.length := by
  rw [mem_within_iff, mem_within_iff]
  constructor
  · rintro ⟨n, hpos, -, hn⟩
    exact ⟨n, hpos, hn.le_length, hn⟩
  · rintro ⟨n, hpos, hle, hn⟩
    exact ⟨n, hpos, Nat.le_trans hle h, hn⟩

theorem within_nodup (g : Digraph α) (u : α) (bound : Nat) : (g.within u bound).Nodup := by
  have hsublist : (((g.levels u).drop 1).take bound).Sublist (g.levels u) :=
    (List.take_sublist _ _).trans (List.drop_sublist _ _)
  refine List.nodup_flatten.2 ⟨fun level hlevel => ?_, (levels_pairwise g u).sublist hsublist⟩
  exact nodup_of_mem_levels (hsublist.mem hlevel)

end GoSurvey.Digraph
