/-
What the report on a graph tells: cycles, orphans and busy files.

Cycles are sorted one by one and then among each other, which makes of
disjoint circles lists in strict order; in which order the circles are come
upon does not show (`sorted_components`). A cycle has a second member, so
a function in a cycle calls and is called by another one, which an orphan
does not, nor a function that calls nothing but itself.

Each edge counts for the file of either end, and twice for a file that it
does not leave (`count_edgeEndFiles`). There are no more busy files than
functions, as there are no more orphans and cycles, so a report that has
room for as many as there are functions leaves nothing out (`Tells`), and a
smaller one is the beginning of it.
-/
import GoSurvey.Proofs.CallGraph.Reachable

namespace GoSurvey.FunctionGraph

open Text

variable {g : FunctionGraph} {c : List Text} {u v file : Text}

-- ============================================================== cycles

/-- In a graph that has a node for every id, the nodes are distinct. -/
theorem WellFormed.nodes_nodup (h : g.WellFormed) : g.digraph.nodes.Nodup :=
  IsGraphOf.nodes_eq g ▸ h.ids

theorem mem_cycles : c ∈ g.cycles ↔ ∃ members ∈ g.digraph.cycles, sorted members = c := by
  unfold cycles
  rw [(List.mergeSort_perm _ _).mem_iff, List.mem_map]

theorem exists_mem_cycles {p : List Text → Prop} (hp : ∀ members, p (sorted members) ↔ p members) :
    (∃ c ∈ g.cycles, p c) ↔ ∃ members ∈ g.digraph.cycles, p members := by
  simp only [mem_cycles]
  constructor
  · rintro ⟨-, ⟨members, hmembers, rfl⟩, hc⟩
    exact ⟨members, hmembers, (hp members).1 hc⟩
  · rintro ⟨members, hmembers, hc⟩
    exact ⟨_, ⟨members, hmembers, rfl⟩, (hp members).2 hc⟩

theorem cycles_disjoint (h : g.WellFormed) : g.cycles.Pairwise List.Disjoint := by
  unfold cycles
  rw [(List.mergeSort_perm _ _).pairwise_iff fun hdisjoint => hdisjoint.symm, List.pairwise_map]
  refine (Digraph.cycles_disjoint h.nodes_nodup).imp fun {c c'} hdisjoint v hv hv' => ?_
  exact hdisjoint ((sorted_perm c).mem_iff.1 hv) ((sorted_perm c').mem_iff.1 hv')

theorem cycles_pairwise_lt (h : g.WellFormed) : g.cycles.Pairwise (· < ·) :=
  mergeSort_listLe_pairwise_lt (nodup_map_of_disjoint sorted_perm
    (Digraph.cycles_disjoint h.nodes_nodup) fun _ => Digraph.ne_nil_of_mem_cycles)

/-- From the strongly connected components, in whatever order, the same cycles are made. -/
theorem sorted_components (h : g.WellFormed) {components : List (List Text)}
    (hcomponents : g.digraph.AreComponents components) :
    ((components.filter fun c => decide (1 < c.length)).map sorted).mergeSort listLe = g.cycles :=
  mergeSort_listLe_eq_of_perm
    (hcomponents.cycles h.nodes_nodup sorted_perm fun _ _ => sorted_eq_of_perm)

-- ============================================================= orphans

theorem mem_orphans (h : g.WellFormed) : v ∈ g.orphans ↔
    v ∈ g.digraph.nodes ∧ ∀ u, (u, v) ∉ g.digraph.edges ∧ (v, u) ∉ g.digraph.edges := by
  unfold orphans
  rw [(sorted_perm _).mem_iff, Digraph.mem_isolated_iff h.nodes_nodup]

/-- A function that calls no other one is in no cycle. -/
theorem not_mem_cycle (h : g.WellFormed) (hv : ∀ u, (v, u) ∈ g.digraph.edges → u = v)
    (hc : c ∈ g.cycles) : v ∉ c := by
  intro hmem
  obtain ⟨members, hmembers, rfl⟩ := mem_cycles.1 hc
  obtain ⟨u, -, hne, -, n, hsteps⟩ := Digraph.exists_other_of_mem_cycle h.nodes_nodup hmembers
    ((sorted_perm members).mem_iff.1 hmem)
  -- Every walk from there stays there.
  have hstay : ∀ n w, g.digraph.Steps n v w → w = v := by
    intro n
    induction n with
    | zero => exact fun w hw => hw.symm
    | succ n ih =>
        rintro w ⟨x, hx, hstep⟩
        rw [ih x hx] at hstep
        exact hv w ((Digraph.mem_edges_iff_mem_successors h.nodes_nodup).2 hstep)
  exact hne (hstay n u hsteps)

-- ========================================================== busy files

/-- The functions of a file. -/
def idsIn (g : FunctionGraph) (file : Text) : List Text :=
  (g.nodes.filter (·.file == file)).map (·.id)

/-- The number of ends that edges have in a file. -/
def endsIn (g : FunctionGraph) (file : Text) : Nat :=
  g.digraph.edges.countP (fun edge => (g.idsIn file).contains edge.1)
    + g.digraph.edges.countP (fun edge => (g.idsIn file).contains edge.2)

/-- The file of a function, as it is looked up. -/
def fileOf (g : FunctionGraph) (id : Text) : Text := ((g.node? id).map (·.file)).getD []

theorem fileOf_eq_iff (h : g.WellFormed) (hu : u ∈ g.nodes.map (·.id)) :
    g.fileOf u = file ↔ u ∈ g.idsIn file := by
  obtain ⟨n, hn, rfl⟩ := List.mem_map.1 hu
  have hnode : g.node? n.id = some n := (find?_key_eq_some_iff h.ids).2 ⟨hn, rfl⟩
  have hfile : g.fileOf n.id = n.file := by
    unfold fileOf
    rw [hnode]
    rfl
  rw [hfile]
  unfold idsIn
  rw [List.mem_map]
  constructor
  · exact fun heq => ⟨n, List.mem_filter.2 ⟨hn, beq_iff_eq.2 heq⟩, rfl⟩
  · rintro ⟨m, hm, hid⟩
    obtain ⟨hm, hmfile⟩ := List.mem_filter.1 hm
    rw [← List.inj_on_of_nodup_map h.ids hm hn hid]
    exact beq_iff_eq.1 hmfile

/-- Of the ends of edges, so many have a file as edges begin there and as edges end there. -/
theorem count_ends (edges : List (Text × Text)) (fileOf : Text → Text) (file : Text) :
    (edges.flatMap fun (u, v) => [fileOf u, fileOf v]).count file
      = edges.countP (fun edge => fileOf edge.1 == file)
        + edges.countP (fun edge => fileOf edge.2 == file) := by
  induction edges with
  | nil => rfl
  | cons edge edges ih =>
      rw [List.flatMap_cons, List.count_append, ih, List.countP_cons, List.countP_cons,
        List.count_cons, List.count_cons, List.count_nil]
      omega

theorem count_edgeEndFiles (h : g.WellFormed) : g.edgeEndFiles.count file = g.endsIn file := by
  have hends : ∀ edge ∈ g.digraph.edges,
      edge.1 ∈ g.nodes.map (·.id) ∧ edge.2 ∈ g.nodes.map (·.id) := fun edge => h.ends edge.1 edge.2
  have hfile : ∀ u, u ∈ g.nodes.map (·.id) →
      ((g.fileOf u == file) = true ↔ (g.idsIn file).contains u = true) := by
    intro u hu
    rw [beq_iff_eq, List.contains_iff_mem]
    exact fileOf_eq_iff h hu
  refine (count_ends g.digraph.edges g.fileOf file).trans (congrArg₂ _ ?_ ?_)
  · exact List.countP_congr fun edge hedge => hfile _ (hends edge hedge).1
  · exact List.countP_congr fun edge hedge => hfile _ (hends edge hedge).2

theorem mem_edgeEndFiles (h : g.WellFormed) : file ∈ g.edgeEndFiles ↔
    ∃ u v, (u, v) ∈ g.digraph.edges ∧ (u ∈ g.idsIn file ∨ v ∈ g.idsIn file) := by
  rw [← List.count_pos_iff, count_edgeEndFiles h]
  unfold endsIn
  rw [Nat.add_pos_iff_pos_or_pos, List.countP_pos_iff, List.countP_pos_iff]
  simp only [List.contains_iff_mem, Prod.exists, and_or_left, exists_or]

/-- Each of the files stands with its number of ends. -/
theorem exists_pairs (ends : List Text) : ∃ pairs : List (Nat × Text),
    busiestFirst ends = pairs.map (·.2) ∧ pairs.Pairwise (fun x y => isBusier x y = true) ∧
      pairs.Perm (ends.eraseDups.map fun file => (ends.count file, file)) :=
  ⟨_, rfl, List.pairwise_mergeSort isBusier_trans isBusier_total _, List.mergeSort_perm _ _⟩

theorem busiestFirst_perm (ends : List Text) : (busiestFirst ends).Perm ends.eraseDups := by
  obtain ⟨pairs, hfiles, -, hperm⟩ := exists_pairs ends
  have hmap := hperm.map (·.2)
  rw [List.map_map] at hmap
  exact hfiles ▸ (hmap.trans (List.Perm.of_eq (List.map_id _)))

theorem mem_hubFiles (h : g.WellFormed) : file ∈ g.hubFiles ↔
    ∃ u v, (u, v) ∈ g.digraph.edges ∧ (u ∈ g.idsIn file ∨ v ∈ g.idsIn file) := by
  rw [hubFiles_eq, (busiestFirst_perm _).mem_iff, List.mem_eraseDups, mem_edgeEndFiles h]

/-- Files with more ends come first, and of those with the same number the ones that are first by
name. -/
theorem hubFiles_pairwise (h : g.WellFormed) : g.hubFiles.Pairwise fun a b =>
    g.endsIn b < g.endsIn a ∨ g.endsIn a = g.endsIn b ∧ a < b := by
  rw [hubFiles_eq]
  have hne : (busiestFirst g.edgeEndFiles).Nodup :=
    (busiestFirst_perm _).nodup_iff.2 (eraseDups_nodup _)
  obtain ⟨pairs, hfiles, hordered, hperm⟩ := exists_pairs g.edgeEndFiles
  have hcount : ∀ x ∈ pairs, x.1 = g.endsIn x.2 := by
    intro x hx
    obtain ⟨file, -, rfl⟩ := List.mem_map.1 (hperm.mem_iff.1 hx)
    exact count_edgeEndFiles h
  rw [hfiles] at hne ⊢
  rw [List.Nodup, List.pairwise_map] at hne
  refine List.pairwise_map.2 ((hordered.and hne).imp_of_mem fun {x y} hx hy hxy => ?_)
  rw [← hcount x hx, ← hcount y hy]
  refine (isBusier_iff.1 hxy.1).imp_right fun hsame => ⟨hsame.1, ?_⟩
  exact lt_of_not_lt_of_ne (le_iff_not_lt.1 hsame.2) hxy.2

-- =========================================================== the report

/-- A report names exactly what there is in a graph. -/
structure Tells (g : FunctionGraph) (r : PatternReport) : Prop where
  /-- Two functions are in one cycle if each reaches the other. -/
  together : ∀ u v, u ≠ v → ((∃ c ∈ r.cycles, u ∈ c ∧ v ∈ c) ↔ g.digraph.Mutual u v)
  disjoint : r.cycles.Pairwise List.Disjoint
  several : ∀ c ∈ r.cycles, 2 ≤ c.length
  ordered : (∀ c ∈ r.cycles, c.Pairwise (· < ·)) ∧ r.cycles.Pairwise (· < ·)
  orphans : ∀ v, v ∈ r.orphans ↔
    v ∈ g.digraph.nodes ∧ ∀ u, (u, v) ∉ g.digraph.edges ∧ (v, u) ∉ g.digraph.edges
  orphansOrdered : r.orphans.Pairwise (· < ·)
  /-- A function that calls itself and no other one is neither an orphan nor in a cycle. -/
  recursive : ∀ v, (v, v) ∈ g.digraph.edges → (∀ u, (v, u) ∈ g.digraph.edges → u = v) →
    v ∉ r.orphans ∧ ∀ c ∈ r.cycles, v ∉ c
  apart : ∀ v ∈ r.orphans, ∀ c ∈ r.cycles, v ∉ c
  hubs : ∀ file, file ∈ r.hubFiles ↔
    ∃ u v, (u, v) ∈ g.digraph.edges ∧ (u ∈ g.idsIn file ∨ v ∈ g.idsIn file)
  hubsOrdered : r.hubFiles.Pairwise fun a b =>
    g.endsIn b < g.endsIn a ∨ g.endsIn a = g.endsIn b ∧ a < b

/-- The whole report, with nothing left out. -/
theorem tells_whole (h : g.WellFormed) : g.Tells ⟨g.orphans, g.cycles, g.hubFiles⟩ where
  together u v hne := by
    rw [exists_mem_cycles fun c => by rw [(sorted_perm c).mem_iff, (sorted_perm c).mem_iff],
      Digraph.exists_cycle_iff hne]
  disjoint := cycles_disjoint h
  several c hc := by
    obtain ⟨members, hmembers, rfl⟩ := mem_cycles.1 hc
    obtain ⟨-, -, -, hlength⟩ := Digraph.mem_cycles_iff.1 hmembers
    exact (sorted_perm members).length_eq ▸ hlength
  ordered := by
    refine ⟨fun c hc => ?_, cycles_pairwise_lt h⟩
    obtain ⟨members, hmembers, rfl⟩ := mem_cycles.1 hc
    exact sorted_pairwise_lt (Digraph.cycle_nodup h.nodes_nodup hmembers)
  orphans _ := mem_orphans h
  orphansOrdered := sorted_pairwise_lt (h.nodes_nodup.filter _)
  recursive v hself hv :=
    ⟨fun horphan => (((mem_orphans h).1 horphan).2 v).1 hself, fun _ => not_mem_cycle h hv⟩
  apart v horphan _ :=
    not_mem_cycle h fun u hedge => absurd hedge (((mem_orphans h).1 horphan).2 u).2
  hubs _ := mem_hubFiles h
  hubsOrdered := hubFiles_pairwise h

-- ============================================================= the room

theorem length_nodes (g : FunctionGraph) : g.digraph.nodes.length = g.nodes.length := by
  rw [IsGraphOf.nodes_eq, List.length_map]

theorem length_orphans_le (g : FunctionGraph) : g.orphans.length ≤ g.nodes.length := by
  unfold orphans
  rw [(sorted_perm _).length_eq, ← length_nodes]
  exact List.length_filter_le _ _

theorem length_cycles_le (g : FunctionGraph) : g.cycles.length ≤ g.nodes.length := by
  unfold cycles
  rw [(List.mergeSort_perm _ _).length_eq, List.length_map, Digraph.cycles_eq, ← length_nodes]
  exact List.length_filterMap_le _ _

/-- Every busy file is that of some function. -/
theorem length_hubFiles_le (h : g.WellFormed) : g.hubFiles.length ≤ g.nodes.length := by
  have hnodup : g.hubFiles.Nodup := (busiestFirst_perm _).nodup_iff.2 (eraseDups_nodup _)
  have hsubset : g.hubFiles ⊆ g.nodes.map (·.file) := by
    intro file hfile
    obtain ⟨u, v, -, hends⟩ := (mem_hubFiles h).1 hfile
    obtain ⟨w, hw⟩ : ∃ w, w ∈ g.idsIn file := hends.elim (fun hu => ⟨u, hu⟩) fun hv => ⟨v, hv⟩
    obtain ⟨n, hn, -⟩ := List.mem_map.1 hw
    obtain ⟨hn, hfile⟩ := List.mem_filter.1 hn
    exact List.mem_map.2 ⟨n, hn, beq_iff_eq.1 hfile⟩
  have hle := (List.subperm_of_subset hnodup hsubset).length_le
  rwa [List.length_map] at hle

theorem patterns_natCast (g : FunctionGraph) (count : Nat) : g.patterns count
    = ⟨g.orphans.take count, g.cycles.take count, g.hubFiles.take count⟩ := by
  unfold patterns
  rw [firstOf_natCast, firstOf_natCast, firstOf_natCast]

/-- A report with room for all functions is the whole report. -/
theorem patterns_whole (h : g.WellFormed) {top : Nat} (htop : g.nodes.length ≤ top) :
    g.patterns top = ⟨g.orphans, g.cycles, g.hubFiles⟩ := by
  rw [patterns_natCast, List.take_of_length_le (Nat.le_trans (length_orphans_le g) htop),
    List.take_of_length_le (Nat.le_trans (length_cycles_le g) htop),
    List.take_of_length_le (Nat.le_trans (length_hubFiles_le h) htop)]

/-- The report on a graph that is built of functions and calls, with room for all functions, tells
exactly what there is, and does not depend on how the strongly connected components are come upon.
With less room, each of its lists is the beginning of the one with more. No edge counts twice. -/
theorem patterns_exact {cg : CallGraph} {g : FunctionGraph} (h : ofCallGraph? cg = some g)
    {top : Nat} (htop : g.nodes.length ≤ top) :
    g.digraph.edges.Nodup ∧ g.Tells (g.patterns top) ∧
      (∀ components, g.digraph.AreComponents components →
        ((components.filter fun c => decide (1 < c.length)).map sorted).mergeSort listLe
          = (g.patterns top).cycles) ∧
      ∀ count : Nat, g.patterns count = ⟨(g.patterns top).orphans.take count,
        (g.patterns top).cycles.take count, (g.patterns top).hubFiles.take count⟩ := by
  have hwell := wellFormed_of_ofCallGraph? h
  rw [patterns_whole hwell htop]
  refine ⟨Digraph.edges_nodup hwell.nodes_nodup fun u => ?_, tells_whole hwell,
    fun _ => sorted_components hwell, fun count => patterns_natCast g count⟩
  refine Digraph.successors_nodup (fun entry hentry => ?_) u
  obtain ⟨n, hn, rfl⟩ := List.mem_map.1 hentry
  exact hwell.callees n hn

/-- Two functions that call each other, of which one calls a third, which calls itself, and one
function by itself. -/
def smallCallGraph : CallGraph where
  functions := [⟨"a", "a.go", 1, "p", [], [], []⟩, ⟨"b", "a.go", 5, "p", [], [], []⟩,
    ⟨"c", "c.go", 1, "p", [], [], []⟩, ⟨"d", "d.go", 1, "p", [], [], []⟩]
  calls := [⟨"a", "a.go", 2, "b", "p", some "a.go", some 5⟩,
    ⟨"b", "a.go", 6, "a", "p", some "a.go", some 1⟩,
    ⟨"b", "a.go", 7, "c", "p", some "c.go", some 1⟩,
    ⟨"c", "c.go", 2, "c", "p", some "c.go", some 1⟩]

/-- The first file has five ends of edges and the second three, of which two are of the call of a
function to itself. -/
theorem patterns_smallCallGraph : ∃ g, ofCallGraph? smallCallGraph = some g ∧
    g.Tells (g.patterns 4) ∧
      g.patterns 4 = ⟨[("d.go::d" : String).toList],
        [[("a.go::a" : String).toList, ("a.go::b" : String).toList]],
        [("a.go" : String).toList, ("c.go" : String).toList]⟩ ∧
      g.endsIn "a.go" = 5 ∧ g.endsIn "c.go" = 3 ∧
      (g.patterns 1).hubFiles = (g.patterns 4).hubFiles.take 1 := by
  have hreport : (ofCallGraph? smallCallGraph).map (fun g => (g.nodes.length, g.patterns 4,
      g.endsIn "a.go", g.endsIn "c.go"))
      = some (4, ⟨[("d.go::d" : String).toList],
        [[("a.go::a" : String).toList, ("a.go::b" : String).toList]],
        [("a.go" : String).toList, ("c.go" : String).toList]⟩, 5, 3) := by
    simp only [patterns, cycles, hubFiles_eq, sorted_eq, busiestFirst_eq]
    decide +kernel
  obtain ⟨g, hg, hreport⟩ := Option.map_eq_some_iff.1 hreport
  obtain ⟨hlength, hwhole, hfirst, hsecond⟩ : _ ∧ _ ∧ _ ∧ _ := by
    simpa only [Prod.mk.injEq] using hreport
  obtain ⟨-, htells, -, hcut⟩ := patterns_exact hg (Nat.le_of_eq hlength)
  exact ⟨g, hg, htells, hwhole, hfirst, hsecond, congrArg PatternReport.hubFiles (hcut 1)⟩

end GoSurvey.FunctionGraph
