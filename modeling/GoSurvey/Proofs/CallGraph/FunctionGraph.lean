/-
The graph that is built from definitions and resolved calls.

Nodes are added first and edges afterwards, and neither step takes
anything away: the ids of the graph are those of the definitions
(`mem_ids_foldl_addNode`), and its edges are the ends that the calls give
(`mem_edges_build`). Ids may repeat; a node of a repeated id is one node.

What a call is an edge between is looked up in the definitions by file
and line. If no two definitions begin in the same line of a file, the
lookups give what their names promise (`enclosing?_eq_some_iff`,
`definedAt?_of_mem`), whatever the order of the definitions.
-/
import GoSurvey.CallGraph.FunctionGraph
import Mathlib.Data.List.Nodup

namespace GoSurvey.FunctionGraph

open Text

-- ================================================================ keys

/-- Keys and one more, which comes last unless it is one of them already. -/
def withKey (key : Text) : List Text → List Text
  | [] => [key]
  | first :: rest => first :: if first = key then rest else withKey key rest

theorem mem_withKey {key k : Text} {keys : List Text} :
    k ∈ withKey key keys ↔ k = key ∨ k ∈ keys := by
  induction keys with
  | nil => rw [withKey, List.mem_singleton, or_iff_left List.not_mem_nil]
  | cons first rest ih =>
      rw [withKey, List.mem_cons, List.mem_cons]
      split
      · next hsame =>
        rw [hsame]
        exact ⟨.inr, fun h => h.elim .inl id⟩
      · rw [ih]
        exact or_left_comm

theorem withKey_nodup {key : Text} {keys : List Text} (h : keys.Nodup) :
    (withKey key keys).Nodup := by
  induction keys with
  | nil => exact List.nodup_singleton key
  | cons first rest ih =>
      have hparts := List.nodup_cons.1 h
      rw [withKey]
      split
      · exact h
      · next hne =>
        refine List.nodup_cons.2 ⟨?_, ih hparts.2⟩
        rw [mem_withKey, not_or]
        exact ⟨hne, hparts.1⟩

-- =============================================================== nodes

/-- A node that is added brings its id and leaves the others in their places. -/
theorem ids_addNode (node : FunctionNode) (nodes : List FunctionNode) :
    (addNode node nodes).map (·.id) = withKey node.id (nodes.map (·.id)) := by
  induction nodes with
  | nil => rfl
  | cons first rest ih =>
      rw [addNode, List.map_cons, withKey, ← ih]
      split
      · next hsame => exact congrArg (· :: rest.map (·.id)) hsame.symm
      · rfl

theorem mem_ids_addNode {node : FunctionNode} {id : Text} {nodes : List FunctionNode} :
    id ∈ (addNode node nodes).map (·.id) ↔ id = node.id ∨ id ∈ nodes.map (·.id) := by
  rw [ids_addNode, mem_withKey]

/-- A node without calls added to such nodes leaves no calls. -/
theorem callees_addNode {node : FunctionNode} (hnode : node.callees = []) :
    ∀ {nodes : List FunctionNode}, (∀ n ∈ nodes, n.callees = []) →
      ∀ n ∈ addNode node nodes, n.callees = [] := by
  intro nodes
  induction nodes with
  | nil =>
      intro _ n hn
      rw [List.mem_singleton.1 hn]
      exact hnode
  | cons first rest ih =>
      intro hnodes n hn
      rw [addNode] at hn
      split at hn
      · rcases List.mem_cons.1 hn with rfl | hn
        · exact hnodes first List.mem_cons_self
        · exact hnodes n (List.mem_cons_of_mem first hn)
      · rcases List.mem_cons.1 hn with rfl | hn
        · exact hnodes n List.mem_cons_self
        · exact ih (fun m hm => hnodes m (List.mem_cons_of_mem first hm)) n hn

/-- The ids of all definitions are there once they have been added. -/
theorem mem_ids_foldl_addNode {id : Text} : ∀ {definitions nodes : List FunctionNode},
    id ∈ (definitions.foldl (fun nodes d => addNode d nodes) nodes).map (·.id) ↔
      id ∈ nodes.map (·.id) ∨ id ∈ definitions.map (·.id) := by
  intro definitions
  induction definitions with
  | nil =>
      intro nodes
      exact ⟨.inl, fun h => h.resolve_right List.not_mem_nil⟩
  | cons d definitions ih =>
      intro nodes
      rw [List.foldl_cons, ih, mem_ids_addNode, List.map_cons, List.mem_cons, or_assoc]
      exact or_left_comm

theorem callees_foldl_addNode : ∀ {definitions nodes : List FunctionNode},
    (∀ d ∈ definitions, d.callees = []) → (∀ n ∈ nodes, n.callees = []) →
      ∀ n ∈ definitions.foldl (fun nodes d => addNode d nodes) nodes, n.callees = [] := by
  intro definitions
  induction definitions with
  | nil => exact fun _ hnodes => hnodes
  | cons d definitions ih =>
      intro nodes hdefinitions hnodes
      exact ih (fun e he => hdefinitions e (List.mem_cons_of_mem d he))
        (callees_addNode (hdefinitions d List.mem_cons_self) hnodes)

-- =============================================================== edges

/-- An edge leads from a node to what it calls. -/
theorem mem_edges {nodes : List FunctionNode} {u v : Text} :
    (u, v) ∈ (FunctionGraph.mk nodes).digraph.edges ↔
      ∃ n ∈ nodes, n.id = u ∧ v ∈ n.callees.map (·.1) := by
  unfold digraph Digraph.edges
  rw [List.mem_flatMap]
  constructor
  · intro h
    obtain ⟨x, hx, hedge⟩ := h
    obtain ⟨n, hn, rfl⟩ := List.mem_map.1 hx
    obtain ⟨w, hw, heq⟩ := List.mem_map.1 hedge
    injection heq with hu hv
    exact ⟨n, hn, hu, hv ▸ hw⟩
  · intro h
    obtain ⟨n, hn, rfl, hv⟩ := h
    exact ⟨_, List.mem_map_of_mem hn, List.mem_map_of_mem hv⟩

/-- A call that is noted brings its target and leaves the others in their places. -/
theorem targets_addCallee (target : Text) (line : Nat) (callees : List (Text × Nat)) :
    (addCallee target line callees).map (·.1) = withKey target (callees.map (·.1)) := by
  induction callees with
  | nil => rfl
  | cons first rest ih =>
      obtain ⟨id, old⟩ := first
      rw [addCallee, List.map_cons, withKey, ← ih]
      split
      · next hsame => exact congrArg (· :: rest.map (·.1)) hsame.symm
      · rfl

theorem mem_addCallee {target v : Text} {line : Nat} {callees : List (Text × Nat)} :
    v ∈ (addCallee target line callees).map (·.1) ↔ v = target ∨ v ∈ callees.map (·.1) := by
  rw [targets_addCallee, mem_withKey]

theorem ids_addEdge (source target : Text) (line : Nat) (nodes : List FunctionNode) :
    (addEdge source target line nodes).map (·.id) = nodes.map (·.id) := by
  unfold addEdge
  rw [List.map_map]
  refine List.map_congr_left fun n _ => ?_
  show (if n.id = source then _ else n : FunctionNode).id = n.id
  split <;> rfl

/-- An edge that is added from a node that is there is added, and nothing else. -/
theorem mem_edges_addEdge {source target u v : Text} {line : Nat} {nodes : List FunctionNode}
    (hsource : source ∈ nodes.map (·.id)) :
    (u, v) ∈ (FunctionGraph.mk (addEdge source target line nodes)).digraph.edges ↔
      (u, v) ∈ (FunctionGraph.mk nodes).digraph.edges ∨ (source, target) = (u, v) := by
  rw [mem_edges, mem_edges]
  unfold addEdge
  constructor
  · intro h
    obtain ⟨n, hn, rfl, hv⟩ := h
    obtain ⟨m, hm, rfl⟩ := List.mem_map.1 hn
    by_cases hsame : m.id = source
    · simp only [if_pos hsame] at hv ⊢
      rcases mem_addCallee.1 hv with rfl | hv
      · exact .inr (by rw [hsame])
      · exact .inl ⟨m, hm, rfl, hv⟩
    · simp only [if_neg hsame] at hv ⊢
      exact .inl ⟨m, hm, rfl, hv⟩
  · intro h
    rcases h with ⟨m, hm, rfl, hv⟩ | heq
    · refine ⟨_, List.mem_map_of_mem hm, ?_⟩
      by_cases hsame : m.id = source
      · rw [if_pos hsame]
        exact ⟨rfl, mem_addCallee.2 (.inr hv)⟩
      · rw [if_neg hsame]
        exact ⟨rfl, hv⟩
    · injection heq with hu hv
      obtain ⟨m, hm, hsame⟩ := List.mem_map.1 hsource
      refine ⟨_, List.mem_map_of_mem hm, ?_⟩
      rw [if_pos hsame]
      exact ⟨hsame.trans hu, mem_addCallee.2 (.inl hv.symm)⟩

theorem ids_addCall (definitions nodes : List FunctionNode) (c : FunctionCall) :
    (addCall definitions nodes c).map (·.id) = nodes.map (·.id) := by
  unfold addCall
  split
  · exact ids_addEdge _ _ _ _
  · rfl

/-- The edges of the graph are those that calls make. -/
theorem mem_edges_foldl_addCall {definitions : List FunctionNode} {u v : Text} :
    ∀ {calls : List FunctionCall} {nodes : List FunctionNode},
      (∀ c source target, edgeOf? definitions c = some (source, target) →
        source ∈ nodes.map (·.id)) →
      ((u, v) ∈ (FunctionGraph.mk (calls.foldl (addCall definitions) nodes)).digraph.edges ↔
        (u, v) ∈ (FunctionGraph.mk nodes).digraph.edges ∨
          ∃ c ∈ calls, edgeOf? definitions c = some (u, v)) := by
  intro calls
  induction calls with
  | nil =>
      intro nodes _
      exact ⟨.inl, fun h => h.resolve_right fun ⟨c, hc, _⟩ => List.not_mem_nil hc⟩
  | cons c calls ih =>
      intro nodes hsource
      have hstep : (u, v) ∈ (FunctionGraph.mk (addCall definitions nodes c)).digraph.edges ↔
          (u, v) ∈ (FunctionGraph.mk nodes).digraph.edges ∨
            edgeOf? definitions c = some (u, v) := by
        unfold addCall
        cases hedge : edgeOf? definitions c with
        | none => exact ⟨.inl, fun h => h.resolve_right fun h => by cases h⟩
        | some ends =>
            obtain ⟨source, target⟩ := ends
            rw [Option.some_inj]
            exact mem_edges_addEdge (hsource c source target hedge)
      rw [List.foldl_cons, ih ((ids_addCall definitions nodes c).symm ▸ hsource), hstep, or_assoc]
      simp only [List.mem_cons, exists_eq_or_imp]

-- =============================================================== places

/-- The file of a definition and the line in which it begins. -/
def place (d : FunctionNode) : Text × Nat := (d.file, d.line)

variable {definitions : List FunctionNode}

/-- Where no two definitions begin in the same place, a place tells which one it is. -/
theorem eq_of_place (hplaces : (definitions.map place).Nodup) {d e : FunctionNode}
    (hd : d ∈ definitions) (he : e ∈ definitions) (hfile : d.file = e.file)
    (hline : d.line = e.line) : d = e := by
  refine List.inj_on_of_nodup_map hplaces hd he ?_
  unfold place
  rw [hfile, hline]

/-- What is defined at the place of a definition is the definition. -/
theorem definedAt?_of_mem (hplaces : (definitions.map place).Nodup) {d : FunctionNode}
    (hd : d ∈ definitions) : definedAt? definitions d.file d.line = some d := by
  unfold definedAt?
  cases hfound : definitions.reverse.find? fun e => e.file == d.file && e.line == d.line with
  | none =>
      have hnot := List.find?_eq_none.1 hfound d (List.mem_reverse.2 hd)
      rw [beq_self_eq_true, beq_self_eq_true] at hnot
      exact absurd rfl hnot
  | some e =>
      have he : e ∈ definitions := List.mem_reverse.1 (List.mem_of_find?_eq_some hfound)
      have hsame := List.find?_some hfound
      rw [Bool.and_eq_true, beq_iff_eq, beq_iff_eq] at hsame
      rw [eq_of_place hplaces he hd hsame.1 hsame.2]

/-- The last of the definitions of a file that begin in a line or before it. -/
structure IsLast (definitions : List FunctionNode) (file : Text) (line : Nat)
    (d : FunctionNode) : Prop where
  mem : d ∈ definitions
  file_eq : d.file = file
  line_le : d.line ≤ line
  last : ∀ e ∈ definitions, e.file = file → e.line ≤ line → e.line ≤ d.line

/-- Of a definition and others the fold finds one that begins last. -/
theorem exists_latest (b : FunctionNode) (ds : List FunctionNode) :
    ∃ d ∈ b :: ds, ds.foldl later (some b) = some d ∧ ∀ e ∈ b :: ds, e.line ≤ d.line := by
  induction ds generalizing b with
  | nil =>
      refine ⟨b, List.mem_cons_self, rfl, fun e he => ?_⟩
      obtain rfl := List.mem_singleton.1 he
      exact Nat.le_refl _
  | cons d ds ih =>
      have hlater : ∃ b', later (some b) d = some b' ∧ b' ∈ [b, d] ∧ b.line ≤ b'.line ∧
          d.line ≤ b'.line := by
        have hcases : later (some b) d = if startsBefore b d then some d else some b := rfl
        rw [hcases]
        cases hbefore : startsBefore b d with
        | true =>
            refine ⟨d, rfl, List.mem_cons_of_mem b List.mem_cons_self, ?_, Nat.le_refl _⟩
            simp only [startsBefore, Bool.or_eq_true, decide_eq_true_eq, Bool.and_eq_true,
              beq_iff_eq] at hbefore
            omega
        | false =>
            refine ⟨b, rfl, List.mem_cons_self, Nat.le_refl _, ?_⟩
            simp only [startsBefore, Bool.or_eq_false_iff, decide_eq_false_iff_not] at hbefore
            omega
      obtain ⟨b', hb', hmem, hb, hd⟩ := hlater
      obtain ⟨r, hr, hfold, hmax⟩ := ih b'
      have hb'r : b'.line ≤ r.line := hmax b' List.mem_cons_self
      refine ⟨r, ?_, ?_, ?_⟩
      · rcases List.mem_cons.1 hr with rfl | hr
        · exact List.mem_append_left ds hmem
        · exact List.mem_cons_of_mem b (List.mem_cons_of_mem d hr)
      · rw [List.foldl_cons, hb']
        exact hfold
      · intro e he
        rcases List.mem_cons.1 he with rfl | he
        · omega
        · rcases List.mem_cons.1 he with rfl | he
          · omega
          · exact hmax e (List.mem_cons_of_mem b' he)

/-- The search for the enclosing definition finds a last one, if there is any to be found. -/
theorem enclosing?_isLast (definitions : List FunctionNode) (file : Text) (line : Nat) :
    (∀ d, enclosing? definitions file line = some d → IsLast definitions file line d) ∧
      ∀ d ∈ definitions, d.file = file → d.line ≤ line →
        (enclosing? definitions file line).isSome = true := by
  have hmem : ∀ d, d ∈ definitions.filter (fun d => d.file == file && decide (d.line ≤ line)) ↔
      d ∈ definitions ∧ d.file = file ∧ d.line ≤ line := by
    intro d
    rw [List.mem_filter, Bool.and_eq_true, beq_iff_eq, decide_eq_true_eq]
  unfold enclosing?
  dsimp only
  cases habove : definitions.filter fun d => d.file == file && decide (d.line ≤ line) with
  | nil =>
      refine ⟨fun d hd => absurd hd (Option.some_ne_none d).symm, fun d hd hfile hle => ?_⟩
      have hin := (hmem d).2 ⟨hd, hfile, hle⟩
      rw [habove] at hin
      cases hin
  | cons b ds =>
      rw [habove] at hmem
      obtain ⟨r, hr, hfold, hmax⟩ := exists_latest b ds
      have hstart : (b :: ds).foldl later none = some r := hfold
      rw [hstart]
      refine ⟨fun d hd => ?_, fun _ _ _ _ => rfl⟩
      injection hd with hd
      subst hd
      obtain ⟨hmemr, hfile, hle⟩ := (hmem r).1 hr
      exact ⟨hmemr, hfile, hle, fun e he hefile hele => hmax e ((hmem e).2 ⟨he, hefile, hele⟩)⟩

/-- Where no two definitions begin in the same place, the enclosing definition is the last one. -/
theorem enclosing?_eq_some_iff (hplaces : (definitions.map place).Nodup) {file : Text} {line : Nat}
    {d : FunctionNode} :
    enclosing? definitions file line = some d ↔ IsLast definitions file line d := by
  obtain ⟨hlast, hsome⟩ := enclosing?_isLast definitions file line
  refine ⟨hlast d, fun hd => ?_⟩
  obtain ⟨r, hr⟩ := Option.isSome_iff_exists.1 (hsome d hd.mem hd.file_eq hd.line_le)
  have hrlast := hlast r hr
  have hle := hrlast.last d hd.mem hd.file_eq hd.line_le
  have hge := hd.last r hrlast.mem hrlast.file_eq hrlast.line_le
  rw [hr, eq_of_place hplaces hrlast.mem hd.mem (hrlast.file_eq.trans hd.file_eq.symm)
    (Nat.le_antisymm hge hle)]

/-- A call makes an edge if it is made inside a function and resolved, from the definition that
encloses it to the one at the place that it is resolved to. -/
theorem edgeOf?_eq_some_iff {c : FunctionCall} {u v : Text} :
    edgeOf? definitions c = some (u, v) ↔ c.caller ≠ [] ∧
      ∃ file line s d, c.targetFile = some file ∧ c.targetLine = some line ∧
        enclosing? definitions c.file c.line = some s ∧
        definedAt? definitions file line = some d ∧ s.id = u ∧ d.id = v := by
  unfold edgeOf?
  constructor
  · intro h
    obtain ⟨file, hfile, h⟩ := Option.bind_eq_some_iff.1 h
    split at h
    · cases h
    · next hcaller =>
      obtain ⟨line, hline, h⟩ := Option.bind_eq_some_iff.1 h
      obtain ⟨s, hs, h⟩ := Option.bind_eq_some_iff.1 h
      obtain ⟨d, hd, h⟩ := Option.bind_eq_some_iff.1 h
      injection h with h
      injection h with hu hv
      refine ⟨?_, file, line, s, d, hfile, hline, hs, hd, hu, hv⟩
      intro hnil
      rw [hnil] at hcaller
      exact hcaller rfl
  · intro h
    obtain ⟨hcaller, file, line, s, d, hfile, hline, hs, hd, rfl, rfl⟩ := h
    have hcaller : ¬c.caller.isEmpty = true := fun hnil => hcaller (List.isEmpty_iff.1 hnil)
    rw [hfile]
    refine Option.bind_eq_some_iff.2 ⟨file, rfl, ?_⟩
    rw [if_neg hcaller, hline]
    refine Option.bind_eq_some_iff.2 ⟨line, rfl, ?_⟩
    refine Option.bind_eq_some_iff.2 ⟨s, hs, ?_⟩
    exact Option.bind_eq_some_iff.2 ⟨d, hd, rfl⟩

-- ============================================================ the graph

/-- The graph that is built of definitions and calls. -/
def build (definitions : List FunctionNode) (calls : List FunctionCall) : FunctionGraph :=
  ⟨calls.foldl (addCall definitions) (definitions.foldl (fun nodes d => addNode d nodes) [])⟩

/-- Its edges are those that the calls make. -/
theorem mem_edges_build (hcallees : ∀ d ∈ definitions, d.callees = []) {calls : List FunctionCall}
    {u v : Text} : (u, v) ∈ (build definitions calls).digraph.edges ↔
      ∃ c ∈ calls, edgeOf? definitions c = some (u, v) := by
  have hsource : ∀ c source target, edgeOf? definitions c = some (source, target) →
      source ∈ (definitions.foldl (fun nodes d => addNode d nodes) []).map (·.id) := by
    intro c source target hedge
    obtain ⟨-, _, _, s, _, -, -, hs, -, rfl, -⟩ := edgeOf?_eq_some_iff.1 hedge
    have hs := ((enclosing?_isLast definitions c.file c.line).1 s hs).mem
    exact mem_ids_foldl_addNode.2 (.inr (List.mem_map_of_mem hs))
  unfold build
  rw [mem_edges_foldl_addCall hsource]
  refine or_iff_right fun hedge => ?_
  obtain ⟨n, hn, -, hv⟩ := mem_edges.1 hedge
  rw [callees_foldl_addNode hcallees (fun _ h => absurd h List.not_mem_nil) n hn] at hv
  cases hv

end GoSurvey.FunctionGraph
