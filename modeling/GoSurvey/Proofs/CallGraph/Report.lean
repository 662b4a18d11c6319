/-
What a graph of functions is asked for depends on what the graph contains
and not on how it was built up. Two graphs of the same definitions and
calls list the same labels and the same edges in perhaps another order
(`IsGraphOf.reordered`). A number that is counted is then the same, and a
list that is answered is sorted before it is cut off: names and cycles by
a total order, busy files by the number of their edges and, where this is
the same, by name (`isBusier_antisymm`), so no tie is left to the order of
insertion.
-/
import GoSurvey.CallGraph.Report
import GoSurvey.Proofs.CallGraph.Content
import GoSurvey.Proofs.Digraph.Reordered
import GoSurvey.Proofs.Text.Order

namespace GoSurvey.FunctionGraph

open Text

-- ============================================================== sorting

theorem sorted_perm (ts : List Text) : (sorted ts).Perm ts := List.mergeSort_perm ts le

theorem sorted_eq_of_perm {ts us : List Text} (h : ts.Perm us) : sorted ts = sorted us := by
  have htrans : ∀ a b c : Text, le a b = true → le b c = true → le a c = true :=
    fun _ _ _ => Text.le_trans
  have hantisymm : ∀ a b : Text, le a b = true → le b a = true → a = b :=
    fun _ _ => Text.le_antisymm
  exact mergeSort_eq_of_perm htrans Text.le_total hantisymm h

/-- Names are sorted by insertion as well, where the sorting is to be run inside a proof. -/
theorem sorted_eq : sorted = fun ts => ts.insertionSort fun a b => le a b = true := by
  funext ts
  have htrans : ∀ a b c : Text, le a b = true → le b c = true → le a c = true :=
    fun _ _ _ => Text.le_trans
  exact mergeSort_eq_insertionSort htrans Text.le_total fun _ _ _ _ hab hba =>
    Text.le_antisymm hab hba

theorem listLe_iff {a b : List Text} : listLe a b = true ↔ ¬b < a := by
  unfold listLe
  rw [Bool.not_eq_true', decide_eq_false_iff_not]

theorem listLe_trans (a b c : List Text) (hab : listLe a b = true) (hbc : listLe b c = true) :
    listLe a c = true :=
  listLe_iff.2 (not_lt_trans (listLe_iff.1 hab) (listLe_iff.1 hbc))

theorem listLe_total (a b : List Text) : (listLe a b || listLe b a) = true := by
  rw [Bool.or_eq_true, listLe_iff, listLe_iff]
  exact not_lt_or_not_lt a b

/-- Lists of texts are sorted the same however they are given. -/
theorem mergeSort_listLe_eq_of_perm {ls ms : List (List Text)} (h : ls.Perm ms) :
    ls.mergeSort listLe = ms.mergeSort listLe :=
  mergeSort_eq_of_perm listLe_trans listLe_total
    (fun _ _ hab hba => eq_of_not_lt (listLe_iff.1 hab) (listLe_iff.1 hba)) h

/-- Sorted, texts without repetitions are in strict order. -/
theorem sorted_pairwise_lt {ts : List Text} (h : ts.Nodup) : (sorted ts).Pairwise (· < ·) := by
  have hle : (sorted ts).Pairwise fun a b => le a b = true := mergeSort_pairwise id ts
  have hne : (sorted ts).Nodup := (sorted_perm ts).nodup_iff.2 h
  exact (hle.and hne).imp fun {a b} hab => lt_of_not_lt_of_ne (le_iff_not_lt.1 hab.1) hab.2

/-- So are lists of texts. -/
theorem mergeSort_listLe_pairwise_lt {ls : List (List Text)} (h : ls.Nodup) :
    (ls.mergeSort listLe).Pairwise (· < ·) := by
  have hle := List.pairwise_mergeSort listLe_trans listLe_total ls
  have hne : (ls.mergeSort listLe).Nodup := (List.mergeSort_perm ls listLe).nodup_iff.2 h
  exact (hle.and hne).imp fun {a b} hab => lt_of_not_lt_of_ne (listLe_iff.1 hab.1) hab.2

/-- The order of files with their numbers of edges. -/
def isBusier (x y : Nat × Text) : Bool := decide (y.1 < x.1) || (x.1 == y.1 && le x.2 y.2)

theorem isBusier_iff {x y : Nat × Text} :
    isBusier x y = true ↔ y.1 < x.1 ∨ x.1 = y.1 ∧ le x.2 y.2 = true := by
  unfold isBusier
  rw [Bool.or_eq_true, Bool.and_eq_true, decide_eq_true_iff, beq_iff_eq]

theorem isBusier_trans (x y z : Nat × Text) (hxy : isBusier x y = true)
    (hyz : isBusier y z = true) : isBusier x z = true := by
  rw [isBusier_iff] at hxy hyz ⊢
  rcases hxy with hlt | ⟨heq, hle⟩
  · rcases hyz with hlt' | ⟨heq', -⟩
    · exact .inl (Nat.lt_trans hlt' hlt)
    · exact .inl (heq' ▸ hlt)
  · rcases hyz with hlt' | ⟨heq', hle'⟩
    · exact .inl (heq ▸ hlt')
    · exact .inr ⟨heq.trans heq', Text.le_trans hle hle'⟩

theorem isBusier_total (x y : Nat × Text) : (isBusier x y || isBusier y x) = true := by
  rw [Bool.or_eq_true, isBusier_iff, isBusier_iff]
  rcases Nat.lt_trichotomy x.1 y.1 with hlt | heq | hgt
  · exact .inr (.inl hlt)
  · have htotal := Text.le_total x.2 y.2
    rw [Bool.or_eq_true] at htotal
    exact htotal.imp (fun h => .inr ⟨heq, h⟩) fun h => .inr ⟨heq.symm, h⟩
  · exact .inl (.inl hgt)

theorem isBusier_antisymm (x y : Nat × Text) (hxy : isBusier x y = true)
    (hyx : isBusier y x = true) : x = y := by
  rw [isBusier_iff] at hxy hyx
  rcases hxy with hlt | ⟨heq, hle⟩
  · rcases hyx with hlt' | ⟨heq', -⟩
    · exact absurd hlt (Nat.lt_asymm hlt')
    · exact absurd heq' (Nat.ne_of_lt hlt)
  · rcases hyx with hlt' | ⟨-, hle'⟩
    · exact absurd heq.symm (Nat.ne_of_gt hlt')
    · exact Prod.ext heq (Text.le_antisymm hle hle')

/-- Files from the busiest down, when a file is given once for each end of an edge. -/
def busiestFirst (ends : List Text) : List Text :=
  ((ends.eraseDups.map fun file => (ends.count file, file)).mergeSort isBusier).map (·.2)

theorem busiestFirst_eq_of_perm {ends ends' : List Text} (h : ends'.Perm ends) :
    busiestFirst ends' = busiestFirst ends := by
  have hcount : ∀ file, ends'.count file = ends.count file := fun file => h.count_eq file
  have hfiles : ends'.eraseDups.Perm ends.eraseDups := eraseDups_perm fun file => h.mem_iff
  unfold busiestFirst
  simp only [hcount]
  rw [mergeSort_eq_of_perm isBusier_trans isBusier_total isBusier_antisymm (hfiles.map _)]

theorem busiestFirst_eq : busiestFirst = fun ends =>
    ((ends.eraseDups.map fun file => (ends.count file, file)).insertionSort
      fun x y => isBusier x y = true).map (·.2) := by
  funext ends
  exact congrArg _ (mergeSort_eq_insertionSort isBusier_trans isBusier_total
    fun x _ y _ => isBusier_antisymm x y)

-- ============================================================ questions

section Labels

variable (g : FunctionGraph)

/-- The labels of the nodes. -/
def labels : List Label := g.nodes.map label

theorem hubFiles_eq : g.hubFiles = busiestFirst g.edgeEndFiles := rfl

theorem any_id (id : Text) : g.nodes.any (·.id == id) = g.labels.any (·.id == id) := by
  unfold labels
  rw [List.any_map]
  rfl

/-- The ids behind a name are found in the labels. -/
theorem idsOf_eq (name : Text) : g.idsOf name = if g.labels.any (·.id == name) then [name]
    else sorted ((g.labels.filter fun l => l.name == name || l.qualified == name).map (·.id)) := by
  unfold idsOf
  rw [any_id]
  unfold labels
  rw [List.filter_map, List.map_map]
  rfl

variable {g}

/-- So is the file of an id. -/
theorem file_node?_eq_some_iff (hids : (g.nodes.map (·.id)).Nodup) {id file : Text} :
    (g.node? id).map (·.file) = some file ↔ ∃ l ∈ g.labels, l.id = id ∧ l.file = file := by
  rw [Option.map_eq_some_iff]
  constructor
  · intro h
    obtain ⟨n, hn, rfl⟩ := h
    obtain ⟨hmem, hid⟩ := (find?_key_eq_some_iff hids).1 hn
    exact ⟨label n, List.mem_map_of_mem hmem, hid, rfl⟩
  · intro h
    obtain ⟨l, hl, hid, rfl⟩ := h
    obtain ⟨n, hn, rfl⟩ := List.mem_map.1 hl
    exact ⟨n, (find?_key_eq_some_iff hids).2 ⟨hn, hid⟩, rfl⟩

end Labels

-- ===================================================== graphs of the same

namespace IsGraphOf

variable {definitions : List FunctionNode} {calls : List FunctionCall} {g h : FunctionGraph}

theorem nodes_eq (g : FunctionGraph) : g.digraph.nodes = g.nodes.map (·.id) := by
  unfold digraph Digraph.nodes
  rw [List.map_map]
  rfl

theorem labels_nodup (hg : IsGraphOf definitions calls g) : g.labels.Nodup := by
  refine List.Nodup.of_map Label.id ?_
  unfold FunctionGraph.labels
  rw [← ids_eq_labels]
  exact hg.ids

theorem nodes_nodup (hg : IsGraphOf definitions calls g) : g.digraph.nodes.Nodup :=
  nodes_eq g ▸ hg.ids

/-- A node lists its successors once. -/
theorem successors_nodup (hg : IsGraphOf definitions calls g) (u : Text) :
    (g.digraph.successors u).Nodup := by
  refine Digraph.successors_nodup (fun entry hentry => ?_) u
  obtain ⟨n, hn, rfl⟩ := List.mem_map.1 hentry
  exact hg.callees n hn

theorem mem_successors (hg : IsGraphOf definitions calls g) {u v : Text} :
    v ∈ g.digraph.successors u ↔ ∃ c ∈ calls, edgeOf? definitions c = some (u, v) := by
  rw [← hg.edges, Digraph.mem_edges_iff_mem_successors hg.nodes_nodup]

variable (hg : IsGraphOf definitions calls g) (hh : IsGraphOf definitions calls h)

include hg hh

theorem labels_perm : h.labels.Perm g.labels :=
  (List.perm_ext_iff_of_nodup hh.labels_nodup hg.labels_nodup).2 fun l =>
    (hh.labels l).trans (hg.labels l).symm

/-- Two graphs of the same definitions and calls differ in the order of nodes and edges only. -/
theorem reordered : Digraph.Reordered g.digraph h.digraph where
  distinct := hg.nodes_nodup
  nodes := by
    rw [nodes_eq, nodes_eq, ids_eq_labels, ids_eq_labels]
    exact (hg.labels_perm hh).map _
  successors u := (List.perm_ext_iff_of_nodup (hh.successors_nodup u) (hg.successors_nodup u)).2
    fun _ => hh.mem_successors.trans hg.mem_successors.symm

theorem any_id_eq (id : Text) : h.nodes.any (·.id == id) = g.nodes.any (·.id == id) := by
  rw [any_id, any_id]
  exact (hg.labels_perm hh).any_eq

theorem idsOf_eq (name : Text) : h.idsOf name = g.idsOf name := by
  have hlabels := hg.labels_perm hh
  rw [FunctionGraph.idsOf_eq, FunctionGraph.idsOf_eq, hlabels.any_eq,
    sorted_eq_of_perm ((hlabels.filter _).map _)]

theorem reachable_eq (id : Text) (depth : Int) : h.reachable id depth = g.reachable id depth := by
  unfold reachable
  rw [hg.any_id_eq hh, sorted_eq_of_perm ((hg.reordered hh).within id depth.toNat)]

theorem orphans_eq : h.orphans = g.orphans := sorted_eq_of_perm (hg.reordered hh).isolated

theorem cycles_eq : h.cycles = g.cycles :=
  mergeSort_listLe_eq_of_perm
    ((hg.reordered hh).cycles sorted_perm fun _ _ => sorted_eq_of_perm)

/-- The ends of the edges are in the same files. -/
theorem edgeEndFiles_perm : h.edgeEndFiles.Perm g.edgeEndFiles := by
  have hfile : ∀ id, (h.node? id).map (·.file) = (g.node? id).map (·.file) := by
    intro id
    refine Option.ext fun file => ?_
    rw [file_node?_eq_some_iff hh.ids, file_node?_eq_some_iff hg.ids]
    simp only [(hg.labels_perm hh).mem_iff]
  unfold edgeEndFiles
  simp only [hfile]
  exact (hg.reordered hh).edges.flatMap_right _

theorem patterns_eq (count : Int) : h.patterns count = g.patterns count := by
  unfold patterns
  rw [hg.orphans_eq hh, hg.cycles_eq hh, hubFiles_eq, hubFiles_eq,
    busiestFirst_eq_of_perm (hg.edgeEndFiles_perm hh)]

end IsGraphOf

-- ============================================================ functions

section Functions

variable {functions : List FunctionDef}

/-- The node of a function has its name, and an id that consists of the file and the qualified
name. -/
theorem id_eq_of_ofFunction? {f : FunctionDef} {d : FunctionNode}
    (h : FunctionNode.ofFunction? f = some d) :
    d.name = f.name ∧ d.file = f.file ∧ f.id? = some d.id ∧
      d.id = d.file ++ "::" ++ d.qualified := by
  obtain ⟨qualified, hqualified, h⟩ := Option.bind_eq_some_iff.1 h
  obtain ⟨id, hid, h⟩ := Option.bind_eq_some_iff.1 h
  injection h with h
  subst h
  refine ⟨rfl, rfl, hid, ?_⟩
  unfold FunctionDef.id? at hid
  rw [hqualified] at hid
  injection hid with hid
  exact hid.symm

/-- If functions of one id have the same name and file, their nodes have the same label. -/
theorem label_eq_of_id (hsame : ∀ f ∈ functions, ∀ f' ∈ functions, f.id? = f'.id? →
    f.name = f'.name ∧ f.file = f'.file) :
    ∀ d ∈ functions.filterMap FunctionNode.ofFunction?,
      ∀ e ∈ functions.filterMap FunctionNode.ofFunction?, d.id = e.id → label d = label e := by
  intro d hd e he hid
  obtain ⟨f, hf, hfd⟩ := List.mem_filterMap.1 hd
  obtain ⟨f', hf', hfe⟩ := List.mem_filterMap.1 he
  obtain ⟨hdname, hdfile, hdid, hdtext⟩ := id_eq_of_ofFunction? hfd
  obtain ⟨hename, hefile, heid, hetext⟩ := id_eq_of_ofFunction? hfe
  obtain ⟨hname, hfile⟩ := hsame f hf f' hf' (by rw [hdid, heid, hid])
  have hname : d.name = e.name := hdname.trans (hname.trans hename.symm)
  have hfile : d.file = e.file := hdfile.trans (hfile.trans hefile.symm)
  have hqualified : d.qualified = e.qualified := by
    rw [hdtext, hetext, hfile] at hid
    exact List.append_cancel_left hid
  unfold label
  rw [hid, hname, hqualified, hfile]

/-- From functions that have ids, a graph is built. -/
theorem exists_isGraphOf (calls : List FunctionCall)
    (hid : ∀ f ∈ functions, f.id?.isSome = true)
    (hsame : ∀ f ∈ functions, ∀ f' ∈ functions, f.id? = f'.id? →
      f.name = f'.name ∧ f.file = f'.file) :
    ∃ g, ofCallGraph? ⟨functions, calls⟩ = some g ∧
      IsGraphOf (functions.filterMap FunctionNode.ofFunction?) calls g := by
  obtain ⟨definitions, hmapM, hmap⟩ := CallGraph.exists_definitions hid
  have hdefinitions : functions.filterMap FunctionNode.ofFunction? = definitions := by
    have hall : functions.filterMap FunctionNode.ofFunction?
        = (functions.map FunctionNode.ofFunction?).filterMap id := by
      rw [List.filterMap_map]
      rfl
    rw [hall, hmap, List.filterMap_map]
    exact List.filterMap_some
  have hlabels := label_eq_of_id hsame
  rw [hdefinitions] at hlabels ⊢
  exact ⟨_, Option.bind_eq_some_iff.2 ⟨definitions, hmapM, rfl⟩,
    isGraphOf_build (CallGraph.callees_definitions hmap) hlabels⟩

theorem places_filterMap (hid : ∀ f ∈ functions, f.id?.isSome = true) :
    (functions.filterMap FunctionNode.ofFunction?).map place
      = functions.map fun f => (f.file, f.line) := by
  rw [List.map_filterMap, ← List.filterMap_eq_map]
  refine List.filterMap_congr fun f hf => ?_
  obtain ⟨d, hd⟩ := CallGraph.exists_ofFunction? (hid f hf)
  obtain ⟨-, hfile, hline, -⟩ := CallGraph.of_ofFunction? hd
  rw [hd]
  show some (d.file, d.line) = some (f.file, f.line)
  rw [hfile, hline]

end Functions

-- ======================================================= the main result

/-- The order of functions and calls does not matter: if no two functions begin in the same place,
all have ids, and those of one id have the same name and file, then in every order a graph is built,
it has the same nodes and edges, and patterns, ids behind a name, reachable functions and degrees
are the same. -/
theorem reports_of_perm {functions functions' : List FunctionDef}
    {calls calls' : List FunctionCall}
    (hplaces : (functions.map fun f => (f.file, f.line)).Nodup)
    (hid : ∀ f ∈ functions, f.id?.isSome = true)
    (hsame : ∀ f ∈ functions, ∀ f' ∈ functions, f.id? = f'.id? →
      f.name = f'.name ∧ f.file = f'.file)
    (hfunctions : functions'.Perm functions) (hcalls : calls'.Perm calls) :
    ∃ g g', ofCallGraph? ⟨functions, calls⟩ = some g ∧
      ofCallGraph? ⟨functions', calls'⟩ = some g' ∧
      g'.digraph.nodes.Perm g.digraph.nodes ∧ g'.digraph.edges.Perm g.digraph.edges ∧
      (∀ count, g'.patterns count = g.patterns count) ∧
      (∀ name, g'.idsOf name = g.idsOf name) ∧
      (∀ id depth, g'.reachable id depth = g.reachable id depth) ∧
      ∀ id, g'.digraph.inDegree id = g.digraph.inDegree id ∧
        g'.digraph.outDegree id = g.digraph.outDegree id := by
  have hid' : ∀ f ∈ functions', f.id?.isSome = true := fun f hf => hid f (hfunctions.mem_iff.1 hf)
  have hsame' : ∀ f ∈ functions', ∀ f' ∈ functions', f.id? = f'.id? →
      f.name = f'.name ∧ f.file = f'.file := fun f hf f' hf' =>
    hsame f (hfunctions.mem_iff.1 hf) f' (hfunctions.mem_iff.1 hf')
  obtain ⟨g, hbuilt, hg⟩ := exists_isGraphOf calls hid hsame
  obtain ⟨g', hbuilt', hg'⟩ := exists_isGraphOf calls' hid' hsame'
  have hh : IsGraphOf (functions.filterMap FunctionNode.ofFunction?) calls g' :=
    hg'.of_perm ((places_filterMap hid).symm ▸ hplaces) (hfunctions.filterMap _) hcalls
  have hreordered := hg.reordered hh
  exact ⟨g, g', hbuilt, hbuilt', hreordered.nodes, hreordered.edges, hg.patterns_eq hh,
    hg.idsOf_eq hh, hg.reachable_eq hh, fun id => ⟨hreordered.inDegree id,
      hreordered.outDegree id⟩⟩

/-- Three functions, two of them of one id, which begin in different lines. -/
def twoInits : List FunctionDef :=
  [⟨"init", "a.go", 3, "a", [], [], []⟩, ⟨"init", "a.go", 8, "a", [], [], []⟩,
    ⟨"run", "b.go", 2, "a", [], [], []⟩]

/-- Calls from each of them to one of another name. -/
def initCalls : List FunctionCall :=
  [⟨"init", "a.go", 4, "run", "a", some "b.go", some 2⟩,
    ⟨"init", "a.go", 9, "run", "a", some "b.go", some 2⟩,
    ⟨"run", "b.go", 3, "init", "a", some "a.go", some 8⟩]

/-- The node of the repeated id is at another line if the functions come the other way round, but
the reports are the same; the two ids make a cycle. -/
theorem reports_twoInits : ∃ g g', ofCallGraph? ⟨twoInits, initCalls⟩ = some g ∧
    ofCallGraph? ⟨twoInits.reverse, initCalls.reverse⟩ = some g' ∧
    g.nodes.map (·.line) = [8, 2] ∧ g'.nodes.map (·.line) = [2, 3] ∧
    (g.patterns 10).cycles = [[("a.go::init" : String).toList, ("b.go::run" : String).toList]] ∧
    ∀ count, g'.patterns count = g.patterns count := by
  obtain ⟨g, g', hg, hg', -, -, hpatterns, -⟩ :=
    reports_of_perm (by decide) (by decide) (by decide) twoInits.reverse_perm initCalls.reverse_perm
  have hlines : (ofCallGraph? ⟨twoInits, initCalls⟩).map (·.nodes.map (·.line)) = some [8, 2] := by
    decide
  have hlines' : (ofCallGraph? ⟨twoInits.reverse, initCalls.reverse⟩).map (·.nodes.map (·.line))
      = some [2, 3] := by decide
  have hcycles : (ofCallGraph? ⟨twoInits, initCalls⟩).map (·.patterns 10 |>.cycles)
      = some [[("a.go::init" : String).toList, ("b.go::run" : String).toList]] := by
    unfold patterns cycles
    rw [sorted_eq]
    decide +kernel
  rw [hg] at hlines hcycles
  rw [hg'] at hlines'
  exact ⟨g, g', hg, hg', Option.some_inj.1 hlines, Option.some_inj.1 hlines',
    Option.some_inj.1 hcycles, hpatterns⟩

end GoSurvey.FunctionGraph
