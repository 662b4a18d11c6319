/-
What a graph of functions contains, whatever the order in which functions
and calls were added. A node of a repeated id is one node, with the line
and the package of the function that was added last; but if functions of
one id have the same name and the same file, the rest of the node (`Label`)
is that of any of them. An edge is listed once, however many calls make it.

`IsGraphOf` says this of a graph, and it says it in terms of membership
alone: a graph that is built of functions and calls in one order is a graph
of them in any other (`IsGraphOf.of_perm`), since no two functions begin
in the same place and so each call makes the same edge.
-/
import GoSurvey.Proofs.CallGraph.Edges

namespace GoSurvey.FunctionGraph

open Text

/-- What a node says about its function, apart from the line and the package. -/
structure Label where
  id : Text
  name : Text
  qualified : Text
  file : Text
  deriving DecidableEq

/-- The label of a node. -/
def label (n : FunctionNode) : Label := ⟨n.id, n.name, n.qualified, n.file⟩

-- =============================================================== nodes

section Nodes

variable {node : FunctionNode} {nodes definitions : List FunctionNode} {l : Label}

theorem ids_foldl_addNode_nodup (h : (nodes.map (·.id)).Nodup) :
    ((definitions.foldl (fun nodes d => addNode d nodes) nodes).map (·.id)).Nodup := by
  induction definitions generalizing nodes with
  | nil => exact h
  | cons d definitions ih => exact ih (ids_addNode d nodes ▸ withKey_nodup h)

theorem mem_labels_addNode (h : l ∈ (addNode node nodes).map label) :
    l = label node ∨ l ∈ nodes.map label := by
  induction nodes with
  | nil => exact .inl (List.mem_singleton.1 h)
  | cons first rest ih =>
      rw [addNode] at h
      split at h
      · rcases List.mem_cons.1 h with hnode | hrest
        · exact .inl hnode
        · exact .inr (List.mem_cons_of_mem _ hrest)
      · rcases List.mem_cons.1 h with hfirst | hrest
        · exact .inr (hfirst ▸ List.mem_cons_self)
        · exact (ih hrest).imp_right (List.mem_cons_of_mem _)

/-- A node has the label of one of the definitions. -/
theorem mem_labels_foldl_addNode
    (h : l ∈ (definitions.foldl (fun nodes d => addNode d nodes) nodes).map label) :
    l ∈ nodes.map label ∨ l ∈ definitions.map label := by
  induction definitions generalizing nodes with
  | nil => exact .inl h
  | cons d definitions ih =>
      rcases ih h with hadded | hlater
      · rcases mem_labels_addNode hadded with hd | hnodes
        · exact .inr (hd ▸ List.mem_cons_self)
        · exact .inl hnodes
      · exact .inr (List.mem_cons_of_mem _ hlater)

/-- If definitions of one id have the same label, the labels of the nodes are those of the
definitions. -/
theorem mem_labels_iff (hsame : ∀ d ∈ definitions, ∀ e ∈ definitions, d.id = e.id →
    label d = label e) :
    l ∈ (definitions.foldl (fun nodes d => addNode d nodes) []).map label ↔
      l ∈ definitions.map label := by
  constructor
  · exact fun h => (mem_labels_foldl_addNode h).resolve_left List.not_mem_nil
  · intro h
    obtain ⟨d, hd, rfl⟩ := List.mem_map.1 h
    have hid : d.id ∈ (definitions.foldl (fun nodes d => addNode d nodes) []).map (·.id) :=
      mem_ids_foldl_addNode.2 (.inr (List.mem_map_of_mem hd))
    obtain ⟨n, hn, hnid⟩ := List.mem_map.1 hid
    have hlabel := List.mem_map_of_mem (f := label) hn
    obtain ⟨e, he, hen⟩ := List.mem_map.1
      ((mem_labels_foldl_addNode hlabel).resolve_left List.not_mem_nil)
    have heid : e.id = n.id := congrArg Label.id hen
    rw [hsame d hd e he (hnid.symm.trans heid.symm), hen]
    exact hlabel

end Nodes

-- =============================================================== calls

section Calls

variable {nodes definitions : List FunctionNode}

theorem labels_addEdge (source target : Text) (line : Nat) (nodes : List FunctionNode) :
    (addEdge source target line nodes).map label = nodes.map label := by
  unfold addEdge
  rw [List.map_map]
  refine List.map_congr_left fun n _ => ?_
  show label (if n.id = source then _ else n) = label n
  split <;> rfl

/-- Calls leave the labels as they are. -/
theorem labels_foldl_addCall (calls : List FunctionCall) (nodes : List FunctionNode) :
    (calls.foldl (addCall definitions) nodes).map label = nodes.map label := by
  induction calls generalizing nodes with
  | nil => rfl
  | cons c calls ih =>
      rw [List.foldl_cons, ih]
      unfold addCall
      split
      · exact labels_addEdge _ _ _ nodes
      · rfl

theorem ids_eq_labels (nodes : List FunctionNode) :
    nodes.map (·.id) = (nodes.map label).map (·.id) := by
  rw [List.map_map]
  rfl

/-- No node lists a call twice. -/
theorem callees_foldl_addCall_nodup {calls : List FunctionCall}
    (h : ∀ n ∈ nodes, (n.callees.map (·.1)).Nodup) :
    ∀ n ∈ calls.foldl (addCall definitions) nodes, (n.callees.map (·.1)).Nodup := by
  induction calls generalizing nodes with
  | nil => exact h
  | cons c calls ih =>
      refine ih fun n hn => ?_
      unfold addCall at hn
      split at hn
      · obtain ⟨m, hm, rfl⟩ := List.mem_map.1 hn
        split
        · exact targets_addCallee _ _ _ ▸ withKey_nodup (h m hm)
        · exact h m hm
      · exact h n hn

end Calls

-- ============================================================== lookups

section Lookups

variable {definitions definitions' : List FunctionNode}

theorem definedAt?_eq_some_iff (hplaces : (definitions.map place).Nodup) {file : Text} {line : Nat}
    {d : FunctionNode} :
    definedAt? definitions file line = some d ↔
      d ∈ definitions ∧ d.file = file ∧ d.line = line := by
  constructor
  · intro h
    have hplace := List.find?_some h
    rw [Bool.and_eq_true, beq_iff_eq, beq_iff_eq] at hplace
    exact ⟨List.mem_reverse.1 (List.mem_of_find?_eq_some h), hplace⟩
  · rintro ⟨hd, rfl, rfl⟩
    exact definedAt?_of_mem hplaces hd

variable (hplaces : (definitions.map place).Nodup) (h : definitions'.Perm definitions)

include hplaces h

theorem places_nodup_of_perm : (definitions'.map place).Nodup := (h.map place).nodup_iff.2 hplaces

theorem definedAt?_perm (file : Text) (line : Nat) :
    definedAt? definitions' file line = definedAt? definitions file line := by
  refine Option.ext fun d => ?_
  rw [definedAt?_eq_some_iff hplaces, definedAt?_eq_some_iff (places_nodup_of_perm hplaces h),
    h.mem_iff]

theorem enclosing?_perm (file : Text) (line : Nat) :
    enclosing? definitions' file line = enclosing? definitions file line := by
  refine Option.ext fun d => ?_
  rw [enclosing?_eq_some_iff hplaces, enclosing?_eq_some_iff (places_nodup_of_perm hplaces h)]
  constructor
  · exact fun hd => ⟨h.mem_iff.1 hd.mem, hd.file_eq, hd.line_le,
      fun e he => hd.last e (h.mem_iff.2 he)⟩
  · exact fun hd => ⟨h.mem_iff.2 hd.mem, hd.file_eq, hd.line_le,
      fun e he => hd.last e (h.mem_iff.1 he)⟩

/-- A call makes the same edge in whatever order the definitions come. -/
theorem edgeOf?_perm (c : FunctionCall) : edgeOf? definitions' c = edgeOf? definitions c := by
  unfold edgeOf?
  simp only [enclosing?_perm hplaces h, definedAt?_perm hplaces h]

end Lookups

-- =========================================================== the content

/-- A graph of definitions and calls. -/
structure IsGraphOf (definitions : List FunctionNode) (calls : List FunctionCall)
    (g : FunctionGraph) : Prop where
  /-- Every id has one node. -/
  ids : (g.nodes.map (·.id)).Nodup
  labels : ∀ l, l ∈ g.nodes.map label ↔ l ∈ definitions.map label
  /-- Every call of a node is listed once. -/
  callees : ∀ n ∈ g.nodes, (n.callees.map (·.1)).Nodup
  edges : ∀ u v, (u, v) ∈ g.digraph.edges ↔ ∃ c ∈ calls, edgeOf? definitions c = some (u, v)

/-- The order of definitions and calls does not matter. -/
theorem IsGraphOf.of_perm {definitions definitions' : List FunctionNode}
    {calls calls' : List FunctionCall} {g : FunctionGraph} (hg : IsGraphOf definitions' calls' g)
    (hplaces : (definitions.map place).Nodup) (hd : definitions'.Perm definitions)
    (hc : calls'.Perm calls) : IsGraphOf definitions calls g where
  ids := hg.ids
  labels l := (hg.labels l).trans (hd.map label).mem_iff
  callees := hg.callees
  edges u v := by
    rw [hg.edges]
    simp only [hc.mem_iff, edgeOf?_perm hplaces hd]

-- ============================================================ the graph

section Build

variable {definitions : List FunctionNode} {calls : List FunctionCall} {u : Text}

theorem ids_build : (build definitions calls).nodes.map (·.id)
    = (definitions.foldl (fun nodes d => addNode d nodes) []).map (·.id) := by
  show List.map _ (List.foldl _ _ calls) = _
  rw [ids_eq_labels, labels_foldl_addCall, ← ids_eq_labels]

theorem ids_build_nodup : ((build definitions calls).nodes.map (·.id)).Nodup := by
  rw [ids_build]
  exact ids_foldl_addNode_nodup List.nodup_nil

theorem mem_ids_build :
    u ∈ (build definitions calls).nodes.map (·.id) ↔ u ∈ definitions.map (·.id) := by
  rw [ids_build, mem_ids_foldl_addNode]
  exact or_iff_right List.not_mem_nil

variable (hcallees : ∀ d ∈ definitions, d.callees = [])

include hcallees

theorem callees_build_nodup : ∀ n ∈ (build definitions calls).nodes,
    (n.callees.map (·.1)).Nodup := by
  refine callees_foldl_addCall_nodup fun n hn => ?_
  rw [callees_foldl_addNode hcallees (fun _ h => absurd h List.not_mem_nil) n hn]
  exact List.nodup_nil

/-- The graph that is built of definitions and calls is one of them. -/
theorem isGraphOf_build (hsame : ∀ d ∈ definitions, ∀ e ∈ definitions, d.id = e.id →
    label d = label e) : IsGraphOf definitions calls (build definitions calls) where
  ids := ids_build_nodup
  labels l := by
    unfold build
    rw [labels_foldl_addCall]
    exact mem_labels_iff hsame
  callees := callees_build_nodup hcallees
  edges _ _ := mem_edges_build hcallees

end Build

/-- A graph in which every id has one node, every edge is listed once and leads from one node to
another. -/
structure WellFormed (g : FunctionGraph) : Prop where
  ids : (g.nodes.map (·.id)).Nodup
  callees : ∀ n ∈ g.nodes, (n.callees.map (·.1)).Nodup
  ends : ∀ u v, (u, v) ∈ g.digraph.edges →
    u ∈ g.nodes.map (·.id) ∧ v ∈ g.nodes.map (·.id)

/-- Whatever the functions and calls are, a graph that is built of them is such a graph. -/
theorem wellFormed_of_ofCallGraph? {cg : CallGraph} {g : FunctionGraph}
    (h : ofCallGraph? cg = some g) : g.WellFormed := by
  obtain ⟨definitions, hmapM, hg⟩ := Option.bind_eq_some_iff.1 h
  obtain rfl : build definitions cg.calls = g := Option.some_inj.1 hg
  have hcallees := CallGraph.callees_definitions (CallGraph.mapM_eq_some_iff.1 hmapM)
  refine ⟨ids_build_nodup, callees_build_nodup hcallees, fun u v hedge => ?_⟩
  obtain ⟨c, -, hc⟩ := (mem_edges_build hcallees).1 hedge
  obtain ⟨-, file, line, s, d, -, -, hs, hd, rfl, rfl⟩ := edgeOf?_eq_some_iff.1 hc
  have hs := ((enclosing?_isLast definitions c.file c.line).1 s hs).mem
  have hd := List.mem_reverse.1 (List.mem_of_find?_eq_some hd)
  exact ⟨mem_ids_build.2 (List.mem_map_of_mem hs), mem_ids_build.2 (List.mem_map_of_mem hd)⟩

end GoSurvey.FunctionGraph
