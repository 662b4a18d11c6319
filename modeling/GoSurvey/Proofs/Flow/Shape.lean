/-
The shape of a data flow: a graph that hangs together, with one node for
each name and part, and one edge for each call of each function that was
traced.

# Invariants of the trace

Each property of the graph is kept by the four ways to change a trace
(`ids_kept`, `names_kept`, `ends_kept`, `reachable_kept`), hence by every
run. The ids are the one that takes an idea: the number at the end of an
id is the number of nodes at the time, so a new id differs from all the
numbered ones before it, and the part at its front tells it from that of
the route and that of the handler (`newId_not_mem`).

# The number of edges

No state of the trace alone tells how many edges there are to be, since
within a function some calls are still to come. A run of some calls adds
those calls and the ones of all functions that it enters
(`Run.edges_length`); at the end none is still to come.
-/
import GoSurvey.Proofs.Flow.Termination

namespace GoSurvey.Flow

open Text

variable {ε : Type} {lib : Library ε}

-- ================================================================== ids

/-- The parts that what is called may play. -/
def callKinds : List NodeKind := [.service, .dto, .repository, .database, .external]

/-- Nothing that is called counts as a route or a handler. -/
theorem kindOf_mem (name context : Text) : kindOf name context ∈ callKinds := by
  unfold kindOf
  cases hrule : kindRules.find? (·.applies (lower name) (lower context)) with
  | none => exact List.mem_cons_self
  | some rule =>
      have hmem : rule ∈ kindRules := List.mem_of_find?_eq_some hrule
      have hall : ∀ rule ∈ kindRules, rule.kind ∈ callKinds := by
        intro rule h
        simp only [kindRules, List.mem_cons, List.not_mem_nil, or_false] at h
        rcases h with rfl | rfl | rfl | rfl <;> decide
      exact hall rule hmem

/-- The id of the node of a call that was made when there were so many nodes. -/
def callId (kind : NodeKind) (name : Text) (count : Nat) : Text :=
  kind.text ++ "-" ++ name ++ "-" ++ ofNat count

/-- What the ids of a route and of a handler begin with. -/
def fixedMarks : List Text := ["route-", "handler-"]

/-- Two characters tell the parts of what is called from the beginnings of the other ids. -/
theorem take_two_ne : ∀ kind ∈ callKinds, ∀ mark ∈ fixedMarks,
    2 ≤ kind.text.length ∧ 2 ≤ mark.length ∧ kind.text.take 2 ≠ mark.take 2 := by
  decide

theorem callId_ne {kind : NodeKind} (hkind : kind ∈ callKinds) {mark : Text}
    (hmark : mark ∈ fixedMarks) (name : Text) (count : Nat) (id : Text) :
    callId kind name count ≠ mark ++ id := by
  intro heq
  obtain ⟨hlong, hlong', hne⟩ := take_two_ne kind hkind mark hmark
  have hstart : (callId kind name count).take 2 = (mark ++ id).take 2 := by rw [heq]
  unfold callId at hstart
  rw [List.append_assoc, List.append_assoc, List.append_assoc,
    List.take_append_of_le_length hlong,
    List.take_append_of_le_length hlong'] at hstart
  exact hne hstart

/-- Ids that end in different numbers differ. -/
theorem callId_inj {kind kind' : NodeKind} {name name' : Text} {count count' : Nat}
    (h : callId kind name count = callId kind' name' count') : count = count' := by
  unfold callId at h
  have hsep : ("-" : Text) = ['-'] := rfl
  rw [List.append_assoc, List.append_assoc _ _ (ofNat count'), hsep] at h
  exact ofNat_inj (append_cons_inj h (hyphen_not_mem_ofNat _) (hyphen_not_mem_ofNat _))

namespace Trace

/-- Every id that a trace has given is that of the route, that of the handler or numbered by the
nodes that were there before. -/
def Numbered (t : Trace) : Prop :=
  ∀ id ∈ t.ids, (∃ mark ∈ fixedMarks, ∃ rest, id = mark ++ rest) ∨
    ∃ kind name, ∃ count < t.nodes.length, id = callId kind name count

/-- The id of a new node is new. -/
theorem newId_not_mem {t : Trace} (ht : t.Numbered) (call : BodyCall) :
    t.newId call (kindOf call.name call.context) ∉ t.ids := by
  intro hmem
  rcases ht _ hmem with ⟨mark, hmark, rest, heq⟩ | ⟨kind, name, count, hcount, heq⟩
  · exact callId_ne (kindOf_mem call.name call.context) hmark call.name t.nodes.length rest heq
  · have hsame : t.nodes.length = count := callId_inj heq
    omega

theorem ids_grow (t : Trace) (source : Text) (n : FlowNode) (call : BodyCall) :
    (t.grow source n call).ids = t.ids ++ [n.id] := List.map_append

/-- No two nodes share an id. -/
theorem ids_kept : Kept lib fun t => t.Numbered ∧ t.ids.Nodup where
  see _ _ ht := ht
  expand _ _ _ ht := ht
  link _ _ ht := ht
  grow {t call node n} _ _ hn ht := by
    obtain ⟨hnumbered, hnodup⟩ := ht
    have hlength : (t.grow node n call).nodes.length = t.nodes.length + 1 :=
      List.length_append
    unfold Numbered
    rw [ids_grow, hlength, hn.id_eq]
    constructor
    · intro id hid
      rcases List.mem_append.1 hid with hid | hid
      · rcases hnumbered id hid with hfixed | ⟨kind, name, count, hcount, heq⟩
        · exact .inl hfixed
        · exact .inr ⟨kind, name, count, by omega, heq⟩
      · rw [List.mem_singleton] at hid
        exact .inr ⟨_, call.name, t.nodes.length, by omega, hid⟩
    · refine List.nodup_append.2 ⟨hnodup, List.nodup_singleton _, ?_⟩
      intro id hid id' hid' heq
      rw [List.mem_singleton] at hid'
      exact newId_not_mem hnumbered call (hid' ▸ heq ▸ hid)

-- ================================================================ names

/-- The parts and names of the nodes. -/
def names (t : Trace) : List (NodeKind × Text) := t.nodes.map fun n => (n.kind, n.name)

/-- No two nodes share both a part and a name. -/
theorem names_kept : Kept lib fun t => t.names.Nodup where
  see _ _ ht := ht
  expand _ _ _ ht := ht
  link _ _ ht := ht
  grow {t call node n} _ hfind hn ht := by
    have hnames : (t.grow node n call).names = t.names ++ [(n.kind, n.name)] := List.map_append
    rw [hnames]
    refine List.nodup_append.2 ⟨ht, List.nodup_singleton _, ?_⟩
    intro name hname name' hname' heq
    rw [List.mem_singleton, hn.kind_eq, hn.name_eq] at hname'
    obtain ⟨n', hn', hsame⟩ := List.mem_map.1 (show name ∈ t.names from hname)
    rw [heq, hname'] at hsame
    injection hsame with hkind hname
    have hdiffers := List.find?_eq_none.1 hfind n' hn'
    rw [hkind, hname, beq_self_eq_true, beq_self_eq_true] at hdiffers
    exact hdiffers rfl

-- ================================================================ edges

/-- A step along an edge. -/
def Step (edges : List FlowEdge) (a b : Text) : Prop :=
  ∃ e ∈ edges, e.source = a ∧ e.target = b

theorem Step.mono {edges edges' : List FlowEdge} (h : edges <+: edges') {a b : Text}
    (hstep : Step edges a b) : Step edges' a b := by
  obtain ⟨e, he, hsource, htarget⟩ := hstep
  exact ⟨e, h.subset he, hsource, htarget⟩

theorem reachable_mono {edges edges' : List FlowEdge} (h : edges <+: edges') {a b : Text}
    (hab : Relation.ReflTransGen (Step edges) a b) : Relation.ReflTransGen (Step edges') a b :=
  Relation.ReflTransGen.mono (fun _ _ => Step.mono h) a b hab

theorem id_mem_of_findNode? {t : Trace} {name : Text} {kind : NodeKind} {n : FlowNode}
    (h : t.findNode? name kind = some n) : n.id ∈ t.ids :=
  List.mem_map_of_mem (List.mem_of_find?_eq_some h)

/-- Every edge joins two nodes. -/
theorem ends_kept : Kept lib fun t => ∀ e ∈ t.edges, e.source ∈ t.ids ∧ e.target ∈ t.ids where
  see _ _ ht := ht
  expand _ _ _ ht := ht
  link hnode hfind ht := by
    intro e he
    rcases List.mem_append.1 he with he | he
    · exact ht e he
    · rw [List.mem_singleton.1 he]
      exact ⟨hnode, id_mem_of_findNode? hfind⟩
  grow {t call node n} hnode _ _ ht := by
    have hids := Extends.grow t node n call
    intro e he
    rcases List.mem_append.1 he with he | he
    · exact ⟨hids.mem_ids (ht e he).1, hids.mem_ids (ht e he).2⟩
    · rw [List.mem_singleton.1 he]
      exact ⟨hids.mem_ids hnode, id_mem_ids_grow _ _ _ _⟩

/-- Every node can be reached from the first. -/
theorem reachable_kept (first : Text) :
    Kept lib fun t => ∀ id ∈ t.ids, Relation.ReflTransGen (Step t.edges) first id where
  see _ _ ht := ht
  expand _ _ _ ht := ht
  link _ _ ht := by
    intro id hid
    exact reachable_mono (List.prefix_append _ _) (ht id hid)
  grow {t call node n} hnode _ _ ht := by
    have hedges : t.edges <+: (t.grow node n call).edges := List.prefix_append _ _
    have hold : ∀ id ∈ t.ids,
        Relation.ReflTransGen (Step (t.grow node n call).edges) first id :=
      fun id hid => reachable_mono hedges (ht id hid)
    intro id hid
    rw [ids_grow] at hid
    rcases List.mem_append.1 hid with hid | hid
    · exact hold id hid
    · rw [List.mem_singleton.1 hid]
      have hlast : Step (t.grow node n call).edges node n.id :=
        ⟨_, List.mem_append_right _ (List.mem_singleton_self _), rfl, rfl⟩
      exact (hold node hnode).tail hlast

/-- The calls in all functions that have been traced. -/
def callCount (t : Trace) : Nat := (t.expansions.map fun e => (bodyCalls e.source.body).length).sum

/-- The calls that a job is to go through. -/
def Job.pending : Job → List BodyCall
  | function _ _ _ => []
  | calls cs _ => cs

/-- A run adds an edge for each of its calls and for each call of the functions that it traces. -/
theorem Run.edges_length {job : Job} {t t' : Trace} (h : Run lib job t t') :
    t'.edges.length + t.callCount = t.edges.length + t'.callCount + job.pending.length := by
  have hlink : ∀ (t : Trace) (node : Text) (n : FlowNode) (call : BodyCall),
      (t.link node n call).edges.length = t.edges.length + 1 := by
    intro t node n call
    exact List.length_append
  have hgrow : ∀ (t : Trace) (node : Text) (n : FlowNode) (call : BodyCall),
      (t.grow node n call).edges.length = t.edges.length + 1 := by
    intro t node n call
    exact List.length_append
  induction h with
  | seen => rfl
  | missing => rfl
  | @found t t' file name node source _ _ _ ih =>
      have hcount : ((t.see ⟨file, leafName name⟩).expand
          ⟨node, ⟨file, leafName name⟩, source⟩).callCount
            = t.callCount + (bodyCalls source.body).length := by
        unfold callCount expand
        rw [List.map_append, List.sum_append, List.map_singleton, List.sum_singleton]
        rfl
      rw [hcount] at ih
      have hedges : ((t.see ⟨file, leafName name⟩).expand
          ⟨node, ⟨file, leafName name⟩, source⟩).edges = t.edges := rfl
      rw [hedges] at ih
      simp only [Job.pending, List.length_nil] at ih ⊢
      omega
  | done => rfl
  | @known t t' call cs node n _ _ ih =>
      have hcount : (t.link node n call).callCount = t.callCount := rfl
      rw [hcount, hlink] at ih
      simp only [Job.pending, List.length_cons] at ih ⊢
      omega
  | @leaf t t' call cs node n _ _ _ _ ih =>
      have hcount : (t.grow node n call).callCount = t.callCount := rfl
      rw [hcount, hgrow] at ih
      simp only [Job.pending, List.length_cons] at ih ⊢
      omega
  | @branch t t₁ t' call cs node n _ _ _ _ _ ihinner ihrest =>
      have hcount : (t.grow node n call).callCount = t.callCount := rfl
      rw [hcount, hgrow] at ihinner
      simp only [Job.pending, List.length_cons, List.length_nil] at ihinner ihrest ⊢
      omega

-- ==================================================== what was looked for

/-- What is found is what the function that was looked for consists of. -/
theorem bodyOf_kept :
    Kept lib fun t => ∀ e ∈ t.expansions, e.node ∈ t.ids ∧ bodyOf? lib e.visit = some e.source where
  see _ _ ht := ht
  expand hnode _ hbody ht := by
    intro e he
    rcases List.mem_append.1 he with he | he
    · exact ht e he
    · rw [List.mem_singleton.1 he]
      exact ⟨hnode, hbody⟩
  link _ _ ht := ht
  grow {t call node n} _ _ _ ht := by
    intro e he
    exact ⟨(Extends.grow t node n call).mem_ids (ht e he).1, (ht e he).2⟩

/-- What is looked for and is there is found. -/
theorem expanded_kept :
    Kept lib fun t => ∀ v ∈ t.visits, ∀ source, bodyOf? lib v = some source →
      ∃ e ∈ t.expansions, e.visit = v where
  see _ hbody ht := by
    intro v hv source hsource
    rcases List.mem_cons.1 hv with rfl | hv
    · rw [hbody] at hsource
      cases hsource
    · exact ht v hv source hsource
  expand _ _ _ ht := by
    intro v hv source hsource
    rcases List.mem_cons.1 hv with rfl | hv
    · exact ⟨_, List.mem_append_right _ (List.mem_singleton_self _), rfl⟩
    · obtain ⟨e, he, heq⟩ := ht v hv source hsource
      exact ⟨e, List.mem_append_left _ he, heq⟩
  link _ _ ht := ht
  grow _ _ _ ht := ht

theorem Run.hasSeen {file name node : Text} {t t' : Trace}
    (h : Run lib (.function file name node) t t') :
    t'.hasSeen ⟨file, leafName name⟩ = true := by
  cases h with
  | seen hseen => exact hseen
  | missing => exact hasSeen_see _ _
  | found _ _ hcalls =>
      refine hcalls.toExtends.hasSeen ?_
      exact (Extends.expand _ _).hasSeen (hasSeen_see _ _)

/-- A run looks for the function of every node that it adds, where there is a file to look
into. -/
theorem Run.hasSeen_of_mem {job : Job} {t t' : Trace} (h : Run lib job t t') :
    ∀ n ∈ t'.nodes, n ∈ t.nodes ∨ isTraceable n = false ∨
      t'.hasSeen ⟨n.file, leafName n.name⟩ = true := by
  induction h with
  | seen => exact fun n hn => .inl hn
  | missing => exact fun n hn => .inl hn
  | found _ _ _ ih => exact ih
  | done => exact fun n hn => .inl hn
  | known _ _ ih => exact ih
  | leaf _ _ hstop _ ih =>
      intro n hn
      rcases ih n hn with hn | hn
      · rcases List.mem_append.1 hn with hn | hn
        · exact .inl hn
        · rw [List.mem_singleton.1 hn]
          exact .inr (.inl hstop)
      · exact .inr hn
  | branch _ _ _ hinner hrest ihinner ihrest =>
      intro n hn
      rcases ihrest n hn with hn | hn
      · rcases ihinner n hn with hn | hn | hn
        · rcases List.mem_append.1 hn with hn | hn
          · exact .inl hn
          · rw [List.mem_singleton.1 hn]
            exact .inr (.inr (hrest.toExtends.hasSeen hinner.hasSeen))
        · exact .inr (.inl hn)
        · exact .inr (.inr (hrest.toExtends.hasSeen hn))
      · exact .inr hn

-- ======================================================= the data flow

/-- A trace that has come to its end: it has traced the functions of all its nodes that are there,
each once, and has one edge for each of their calls and one for the request. -/
structure Complete (lib : Library ε) (t : Trace) : Prop where
  once : (t.expansions.map (·.visit.key)).Nodup
  found : ∀ e ∈ t.expansions, e.node ∈ t.ids ∧ bodyOf? lib e.visit = some e.source
  /-- The function of a node has been looked for and, if it is there, traced. -/
  searched : ∀ n ∈ t.nodes, n.kind ≠ .route → isTraceable n = true →
    ∃ v ∈ t.visits, v.key = Visit.key ⟨n.file, leafName n.name⟩ ∧
      ∀ source, bodyOf? lib v = some source → ∃ e ∈ t.expansions, e.visit = v
  edges_length : t.edges.length = 1 + t.callCount

end Trace

/-- A data flow that hangs together: it begins with the request that its route passes to a handler,
and from there its edges lead to nodes that are told apart both by their ids and by what they
are. -/
structure WellFormed (flow : DataFlow) (handler : FlowNode) : Prop where
  nodes_start : [routeNode flow.route, handler] <+: flow.nodes
  edges_start : [⟨(routeNode flow.route).id, handler.id, "HTTP Request", none⟩] <+: flow.edges
  handler_kind : handler.kind = .handler
  ids_nodup : (flow.nodes.map (·.id)).Nodup
  names_nodup : (flow.nodes.map fun n => (n.kind, n.name)).Nodup
  ends_mem : ∀ e ∈ flow.edges,
    e.source ∈ flow.nodes.map (·.id) ∧ e.target ∈ flow.nodes.map (·.id)
  reachable : ∀ id ∈ flow.nodes.map (·.id),
    Relation.ReflTransGen (Trace.Step flow.edges) (routeNode flow.route).id id

/-- The node of a handler has the id, the part and the name that its route gives it. -/
theorem findHandler_eq_ok {r : Route} {handler : FlowNode} (h : findHandler lib r = .ok handler) :
    handler.id = "handler-" ++ r.handler ∧ handler.kind = .handler ∧ handler.name = r.handler := by
  unfold findHandler at h
  dsimp only at h
  split at h
  · injection h with h
    exact h ▸ ⟨rfl, rfl, rfl⟩
  · split at h
    · injection h with h
      exact h ▸ ⟨rfl, rfl, rfl⟩
    · obtain ⟨found, -, h⟩ := bind_eq_ok h
      cases found with
      | some source =>
          injection h with h
          exact h ▸ ⟨rfl, rfl, rfl⟩
      | none =>
          injection h with h
          exact h ▸ ⟨rfl, rfl, rfl⟩

namespace Trace

variable {r : Route} {handler : FlowNode} {t : Trace}

theorem numbered_start (hid : handler.id = "handler-" ++ r.handler) :
    (start r handler).Numbered := by
  intro id hmem
  refine .inl ?_
  rcases List.mem_pair.1 hmem with rfl | rfl
  · exact ⟨"route-", List.mem_cons_self, r.id, rfl⟩
  · exact ⟨"handler-", List.mem_cons_of_mem _ List.mem_cons_self, r.handler, hid⟩

/-- The graph that a search from a handler leaves is well formed. -/
theorem Run.wellFormed (hhandler : findHandler lib r = .ok handler)
    (h : Run lib (.function handler.file handler.name handler.id) (start r handler) t) :
    WellFormed ⟨r, t.nodes, t.edges⟩ handler := by
  obtain ⟨hid, hkind, -⟩ := findHandler_eq_ok hhandler
  have hnode : handler.id ∈ (start r handler).ids := List.mem_cons_of_mem _ List.mem_cons_self
  have hextends := h.toExtends
  have hids : (start r handler).ids.Nodup := by
    have hne : (routeNode r).id ≠ handler.id := by
      intro heq
      rw [hid] at heq
      injection heq with hchar
      exact absurd hchar (by decide)
    exact List.pairwise_pair.2 hne
  have hnames : (start r handler).names.Nodup := by
    refine List.pairwise_pair.2 fun heq => ?_
    injection heq with hkinds
    rw [hkind] at hkinds
    cases hkinds
  have hends : ∀ e ∈ (start r handler).edges,
      e.source ∈ (start r handler).ids ∧ e.target ∈ (start r handler).ids := by
    intro e he
    rw [List.mem_singleton.1 he]
    exact ⟨List.mem_cons_self, hnode⟩
  have hreach : ∀ id ∈ (start r handler).ids,
      Relation.ReflTransGen (Step (start r handler).edges) (routeNode r).id id := by
    intro id hmem
    rcases List.mem_pair.1 hmem with rfl | rfl
    · exact .refl
    · exact .single ⟨_, List.mem_cons_self, rfl, rfl⟩
  exact
    { nodes_start := hextends.nodes
      edges_start := hextends.edges
      handler_kind := hkind
      ids_nodup := (h.preserves ids_kept hnode ⟨numbered_start hid, hids⟩).2
      names_nodup := h.preserves names_kept hnode hnames
      ends_mem := h.preserves ends_kept hnode hends
      reachable := h.preserves (reachable_kept _) hnode hreach }

/-- A search from a handler leaves nothing to be traced. -/
theorem Run.complete
    (h : Run lib (.function handler.file handler.name handler.id) (start r handler) t) :
    Complete lib t := by
  have hnode : handler.id ∈ (start r handler).ids := List.mem_cons_of_mem _ List.mem_cons_self
  have hkeys : (t.visits.map Visit.key).Nodup :=
    h.preserves visits_nodup_kept hnode List.nodup_nil
  have hsub : (t.expansions.map (·.visit)).reverse.Sublist t.visits :=
    h.preserves expansions_sublist_kept hnode (List.Sublist.refl _)
  have hexpanded := h.preserves expanded_kept hnode fun v hv => absurd hv List.not_mem_nil
  refine ⟨?_, ?_, ?_, ?_⟩
  · have hreverse := (hsub.map Visit.key).nodup hkeys
    rw [List.map_reverse, List.nodup_reverse, List.map_map] at hreverse
    exact hreverse
  · exact h.preserves bodyOf_kept hnode fun e he => absurd he List.not_mem_nil
  · intro n hn hroute hfile
    have hseen : t.hasSeen ⟨n.file, leafName n.name⟩ = true := by
      rcases h.hasSeen_of_mem n hn with hn | hn | hn
      · rcases List.mem_pair.1 hn with rfl | rfl
        · exact absurd rfl hroute
        · exact h.hasSeen
      · rw [hfile] at hn
        cases hn
      · exact hn
    obtain ⟨v, hv, hkey⟩ := List.any_eq_true.1 hseen
    exact ⟨v, hv, beq_iff_eq.1 hkey, hexpanded v hv⟩
  · have hlength := h.edges_length
    have hcount : (start r handler).callCount = 0 := rfl
    have hedges : (start r handler).edges.length = 1 := rfl
    have hpending : (Job.function handler.file handler.name handler.id).pending.length = 0 := rfl
    omega

end Trace

open Trace in
/-- A route of a project has a handler, a search that starts there, and with it a flow. -/
theorem exists_traceRoute {p : Project} {fs : List (Text × Text)} (hfs : p.sources = .ok fs)
    (r : Route) :
    ∃ handler t, findHandler p.library r = .ok handler ∧ traceFrom p.library r handler = .ok t ∧
      p.traceRoute r = .ok ⟨r, t.nodes, t.edges⟩ ∧
      Run p.library (.function handler.file handler.name handler.id) (start r handler) t := by
  have hfiles : p.library.files = .ok fs := hfs
  obtain ⟨handler, hhandler⟩ := exists_findHandler hfiles r
  obtain ⟨t, hrun, hfollow⟩ := exists_run hfiles r handler
  have htrace : traceFrom p.library r handler = .ok t := hfollow _ (Nat.le_refl _)
  have hrest : (do
      let t ← traceFrom p.library r handler
      .ok ⟨r, t.nodes, t.edges⟩ : Except Failure DataFlow) = .ok ⟨r, t.nodes, t.edges⟩ := by
    rw [htrace]
    rfl
  refine ⟨handler, t, hhandler, htrace, ?_, hrun⟩
  unfold Project.traceRoute Flow.trace
  rw [hhandler]
  exact hrest

open Trace in
/-- The data flow of a route of a project is well formed, and it is the graph of a complete trace:
every function that is there has been traced once, and there is one edge for each call in one of
them and one for the request. -/
theorem traceRoute_wellFormed {p : Project} {fs : List (Text × Text)} (hfs : p.sources = .ok fs)
    (r : Route) :
    ∃ handler t, findHandler p.library r = .ok handler ∧ traceFrom p.library r handler = .ok t ∧
      p.traceRoute r = .ok ⟨r, t.nodes, t.edges⟩ ∧
      (∀ id, p.findRoute? id = .ok (some r) → p.trace id = .ok ⟨r, t.nodes, t.edges⟩) ∧
      WellFormed ⟨r, t.nodes, t.edges⟩ handler ∧ Complete p.library t := by
  obtain ⟨handler, t, hhandler, htrace, hroute, hrun⟩ := exists_traceRoute hfs r
  refine ⟨handler, t, hhandler, htrace, hroute, ?_, hrun.wellFormed hhandler, hrun.complete⟩
  intro id hid
  unfold Project.trace
  rw [hid]
  exact hroute

theorem traceRoute_wellFormed_loop :
    ∃ handler t, loopProject.traceRoute loopRoute = .ok ⟨loopRoute, t.nodes, t.edges⟩ ∧
      WellFormed ⟨loopRoute, t.nodes, t.edges⟩ handler ∧
      Trace.Complete loopProject.library t := by
  have hfs : loopProject.sources = .ok [("main.go", loopText)] := by decide +kernel
  obtain ⟨handler, t, -, -, htrace, -, hwell, hcomplete⟩ := traceRoute_wellFormed hfs loopRoute
  exact ⟨handler, t, htrace, hwell, hcomplete⟩

end GoSurvey.Flow
