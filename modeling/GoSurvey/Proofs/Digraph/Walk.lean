/-
Walks as the lists of the nodes that they pass. A walk of `n + 1` nodes is
one of `n` steps (`exists_isWalk_iff`), so the shortest walks between two
nodes are those that have one node more than the distance
(`isShortest_iff`).

Walks grow and shrink at their end, which is how a search comes upon them
(`isWalk_concat_iff`).
-/
import GoSurvey.Proofs.Digraph.Level
import Mathlib.Data.List.Chain

namespace GoSurvey.Digraph

variable {α : Type} [DecidableEq α] {g : Digraph α} {u v w : α} {p q : List α} {n : Nat}

/-- A walk along the edges of a graph from one node to another, as the list of its nodes. -/
structure IsWalk (g : Digraph α) (u v : α) (p : List α) : Prop where
  nodes : ∀ w ∈ p, w ∈ g.nodes
  first : p.head? = some u
  last : p.getLast? = some v
  edges : p.IsChain fun a b => b ∈ g.successors a

/-- A walk than which no other has fewer nodes. -/
structure IsShortest (g : Digraph α) (u v : α) (p : List α) : Prop extends IsWalk g u v p where
  least : ∀ q, g.IsWalk u v q → p.length ≤ q.length

namespace IsWalk

theorem ne_nil (h : g.IsWalk u v p) : p ≠ [] := by
  rintro rfl
  cases h.first

theorem first_mem (h : g.IsWalk u v p) : u ∈ g.nodes := h.nodes u (List.mem_of_mem_head? h.first)

theorem last_mem (h : g.IsWalk u v p) : v ∈ g.nodes := h.nodes v (List.mem_of_mem_getLast? h.last)

end IsWalk

theorem isWalk_singleton_iff : g.IsWalk u v [w] ↔ w = u ∧ w = v ∧ w ∈ g.nodes := by
  constructor
  · intro h
    exact ⟨Option.some_inj.1 h.first, Option.some_inj.1 h.last, h.nodes w List.mem_cons_self⟩
  · rintro ⟨rfl, rfl, hw⟩
    exact ⟨fun x hx => List.mem_singleton.1 hx ▸ hw, rfl, rfl, .singleton w⟩

/-- A walk of more than one node is a shorter one and a step. -/
theorem isWalk_concat_iff (hp : p ≠ []) :
    g.IsWalk u v (p ++ [w]) ↔ w = v ∧ v ∈ g.nodes ∧ ∃ x, g.IsWalk u x p ∧ v ∈ g.successors x := by
  obtain ⟨before, x, rfl⟩ : ∃ before x, p = before ++ [x] :=
    ⟨_, _, (List.dropLast_append_getLast hp).symm⟩
  have hhead : (before ++ [x] ++ [w]).head? = (before ++ [x]).head? := by cases before <;> rfl
  constructor
  · intro h
    have hw : w = v := by
      have hlast := h.last
      rw [List.getLast?_concat] at hlast
      exact Option.some_inj.1 hlast
    subst hw
    have hedges := h.edges
    rw [List.append_assoc, List.singleton_append, List.isChain_append_cons_cons] at hedges
    refine ⟨rfl, h.last_mem, x, ⟨fun y hy => h.nodes y (List.mem_append_left _ hy),
      hhead ▸ h.first, List.getLast?_concat, hedges.1⟩, hedges.2.1⟩
  · rintro ⟨rfl, hw, y, hy, hstep⟩
    have hyx : x = y := by
      have hlast := hy.last
      rw [List.getLast?_concat] at hlast
      exact Option.some_inj.1 hlast
    subst hyx
    refine ⟨fun z hz => ?_, hhead ▸ hy.first, List.getLast?_concat, ?_⟩
    · rcases List.mem_append.1 hz with hz | hz
      · exact hy.nodes z hz
      · exact List.mem_singleton.1 hz ▸ hw
    · rw [List.append_assoc, List.singleton_append, List.isChain_append_cons_cons]
      exact ⟨hy.edges, hstep, .singleton w⟩

-- =================================================== walks and distances

/-- Walks of so many nodes are there where so many steps lead. -/
theorem exists_isWalk_iff :
    (∃ p, g.IsWalk u v p ∧ p.length = n + 1) ↔ u ∈ g.nodes ∧ v ∈ g.nodes ∧ g.Steps n u v := by
  induction n generalizing v with
  | zero =>
      constructor
      · rintro ⟨p, hp, hlength⟩
        obtain ⟨w, rfl⟩ := List.length_eq_one_iff.1 hlength
        obtain ⟨rfl, rfl, hw⟩ := isWalk_singleton_iff.1 hp
        exact ⟨hw, hw, rfl⟩
      · rintro ⟨hu, -, rfl⟩
        exact ⟨[u], isWalk_singleton_iff.2 ⟨rfl, rfl, hu⟩, rfl⟩
  | succ n ih =>
      constructor
      · rintro ⟨p, hp, hlength⟩
        obtain ⟨q, w, rfl⟩ : ∃ q w, p = q ++ [w] :=
          ⟨_, _, (List.dropLast_append_getLast hp.ne_nil).symm⟩
        rw [List.length_append, List.length_singleton, Nat.add_right_cancel_iff] at hlength
        have hq : q ≠ [] := List.ne_nil_of_length_eq_add_one hlength
        obtain ⟨-, hv, x, hx, hstep⟩ := (isWalk_concat_iff hq).1 hp
        obtain ⟨hu, -, hsteps⟩ := ih.1 ⟨q, hx, hlength⟩
        exact ⟨hu, hv, x, hsteps, hstep⟩
      · rintro ⟨hu, hv, x, hsteps, hstep⟩
        obtain ⟨q, hq, hlength⟩ := ih.2 ⟨hu, mem_nodes_of_mem_successors hstep, hsteps⟩
        refine ⟨q ++ [v], (isWalk_concat_iff hq.ne_nil).2 ⟨rfl, hv, x, hq, hstep⟩, ?_⟩
        rw [List.length_append, hlength]
        rfl

theorem IsWalk.exists_steps (h : g.IsWalk u v p) : ∃ n, p.length = n + 1 ∧ g.Steps n u v := by
  obtain ⟨n, hn⟩ := Nat.exists_eq_add_one_of_ne_zero fun h0 =>
    h.ne_nil (List.length_eq_zero_iff.1 h0)
  exact ⟨n, hn, (exists_isWalk_iff.1 ⟨p, h, hn⟩).2.2⟩

/-- There is a walk between nodes of which one can be reached from the other. -/
theorem exists_walk_iff : (∃ p, g.IsWalk u v p) ↔ u ∈ g.nodes ∧ v ∈ g.nodes ∧ g.Reaches u v := by
  constructor
  · rintro ⟨p, hp⟩
    obtain ⟨n, -, hsteps⟩ := hp.exists_steps
    exact ⟨hp.first_mem, hp.last_mem, n, hsteps⟩
  · rintro ⟨hu, hv, n, hsteps⟩
    obtain ⟨p, hp, -⟩ := exists_isWalk_iff.2 ⟨hu, hv, hsteps⟩
    exact ⟨p, hp⟩

/-- The shortest walks have one node more than the distance. -/
theorem isShortest_iff (h : g.IsDistance n u v) :
    g.IsShortest u v p ↔ g.IsWalk u v p ∧ p.length = n + 1 := by
  constructor
  · intro hp
    refine ⟨hp.toIsWalk, ?_⟩
    obtain ⟨q, hq, hlength⟩ := exists_isWalk_iff.2 ⟨hp.first_mem, hp.last_mem, h.steps⟩
    obtain ⟨m, hm, hsteps⟩ := hp.toIsWalk.exists_steps
    have hle := hp.least q hq
    have hge : n ≤ m := Nat.le_of_not_lt fun hlt => h.least m hlt hsteps
    omega
  · rintro ⟨hp, hlength⟩
    refine ⟨hp, fun q hq => ?_⟩
    obtain ⟨m, hm, hsteps⟩ := hq.exists_steps
    have hge : n ≤ m := Nat.le_of_not_lt fun hlt => h.least m hlt hsteps
    omega

end GoSurvey.Digraph
