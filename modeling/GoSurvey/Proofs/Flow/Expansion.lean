/-
Whose calls a flow shows. The node of a function is made by one search,
and the body of its function is read by another one, later, in the file of
the node and by the last part of its name. Both come to the same function
for the node of a call, since that was searched by the same part of the name
(`isFunctionNode_of_callNode`), and so no node is followed into a function
that it was not made of. A run keeps to that, because it only ever looks for
the function of a node it has (`Run.readFor`).

The handler is searched by its whole name. The two searches part where that
name has a dot in it, and then the calls of some other function may be shown
as those of the handler (`expansions_stand_iff`). The handler of a
registration is named without its qualifier, but only if there is a letter
of ASCII or an underscore in it (`handlerName_dotted`).
-/
import GoSurvey.Proofs.Flow.Shape
import GoSurvey.Proofs.Project.Independence

namespace GoSurvey.Route

open Text Pattern

variable {expression : Text}

/-- Where no name is found in a handler expression, there is nothing that a name begins with. -/
theorem findAll_handlerToken_eq_nil (h : handlerToken.findAll expression = []) :
    ∀ c ∈ expression, c.isAlpha = false ∧ c ≠ '_' := by
  intro c hc
  obtain ⟨w, rest, rfl⟩ := List.append_of_mem hc
  rw [← Bool.not_eq_true, ← not_or]
  intro hbegins
  let s : State := ⟨(Cursor.start (w ++ c :: rest)).advance w, []⟩
  have hrest : s.cursor.rest = c :: rest := List.drop_left
  have hahead : [c] <+: s.cursor.rest := ⟨rest, hrest.symm⟩
  have hclass : (c.isAlpha || c == '_') = true := by rw [Bool.or_eq_true, beq_iff_eq]; exact hbegins
  have hread : s.advance [c] ∈ readings handlerToken s := by
    refine mem_readings_seq.2 ⟨s.advance [c], mem_readings_one.2 ⟨c, hahead, hclass, rfl⟩, ?_⟩
    exact mem_readings_run.2 ⟨[], List.nil_prefix, fun d hd => absurd hd List.not_mem_nil, rfl⟩
  obtain ⟨m, hm⟩ := Option.isSome_iff_exists.1 (isSome_matchAt hread)
  have hfree : ∀ m' ∈ handlerToken.findAll (w ++ c :: rest),
      ¬(m'.start < w.length ∧ w.length < m'.stop) := by
    rw [h]
    exact fun m' hm' => absurd hm' List.not_mem_nil
  have hmem := mem_findAll_of_matchAt (List.prefix_append w _) hm hfree
  rw [h] at hmem
  cases hmem

/-- The name of a handler has a dot in it only if there is no letter of ASCII and no underscore. -/
theorem handlerName_dotted (h : '.' ∈ handlerName expression) :
    ∀ c ∈ handlerName expression, c.isAlpha = false ∧ c ≠ '_' := by
  unfold handlerName at h ⊢
  cases hlast : (handlerToken.findAll expression).getLast? with
  | some m =>
      rw [hlast] at h
      exact absurd h (not_mem_lastPiece '.' _)
  | none =>
      intro c hc
      exact findAll_handlerToken_eq_nil (List.getLast?_eq_none_iff.1 hlast) c
        (List.mem_of_mem_filter hc)

/-- The handler of a route of some files is named by the expression in its registration. -/
theorem exists_handlerName_of_routesOf {files : List (Text × Text)} {r : Route}
    (h : r ∈ routesOf files) : ∃ expression, r.handler = handlerName expression := by
  obtain ⟨file, content, m, -, hm⟩ := Project.exists_ofMatch?_of_routesOf h
  obtain ⟨expression, -, rfl⟩ := Option.map_eq_some_iff.1 hm
  exact ⟨expression, rfl⟩

end GoSurvey.Route

namespace GoSurvey.Flow

open Text

variable {ε : Type} {lib : Library ε} {fs : List (Text × Text)} {r : Route} {n handler : FlowNode}
  {s : FunctionSource}

-- ====================================================== the two searches

/-- A library that reads of a file what its searches see of it, or nothing. -/
structure Steady (lib : Library ε) (fs : List (Text × Text)) : Prop where
  files : lib.files = .ok fs
  read : ∀ {file content found : Text}, (file, content) ∈ fs → lib.read file = some found →
    found = content

/-- A node made of a function that the project is found to have. -/
def IsFunctionNode (lib : Library ε) (n : FlowNode) (s : FunctionSource) : Prop :=
  ∃ call kind id content detail, lib.function? (leafName call.name) = .ok (some s) ∧
    n = functionNode call kind id s content detail

/-- A node stands where a function does. -/
def Stands (n : FlowNode) (s : FunctionSource) : Prop := n.file = s.file ∧ n.line = some s.line

theorem IsFunctionNode.stands (h : IsFunctionNode lib n s) : Stands n s := by
  obtain ⟨call, kind, id, content, detail, -, rfl⟩ := h
  exact ⟨rfl, rfl⟩

theorem handlerNode_stands (r : Route) (s : FunctionSource) : Stands (handlerNode r s) s :=
  ⟨rfl, rfl⟩

namespace Steady

variable (h : Steady lib fs) {leaf : Text}

include h

/-- What is read of a file is found there by a search. -/
theorem findFunction?_eq {file content : Text} (hmem : (file, content) ∈ fs)
    (hs : Trace.bodyOf? lib ⟨file, leaf⟩ = some s) : findFunction? content leaf file = some s := by
  obtain ⟨found, hfound, hs⟩ := Option.bind_eq_some_iff.1 hs
  obtain rfl := h.read hmem hfound
  exact hs

/-- In the file of a function that a search finds, no other one is read by its name. -/
theorem eq_of_function? {found : FunctionSource} (hfound : lib.function? leaf = .ok (some found))
    (hs : Trace.bodyOf? lib ⟨found.file, leaf⟩ = some s) : found = s := by
  obtain ⟨fs', file, content, hfs, hmem, hf⟩ := Library.exists_file_of_findSome? hfound
  obtain rfl := Except.ok.inj (h.files.symm.trans hfs)
  rw [findFunction?_file hf] at hs
  exact Option.some.inj (hf.symm.trans (h.findFunction?_eq hmem hs))

/-- If a search finds no function of a name, none is read in any of the files. -/
theorem bodyOf?_of_function? {file : Text} (hnone : lib.function? leaf = .ok none)
    (hfile : file ∈ fs.map (·.1)) : Trace.bodyOf? lib ⟨file, leaf⟩ = none := by
  obtain ⟨⟨file, content⟩, hmem, rfl⟩ := List.mem_map.1 hfile
  unfold Library.function? at hnone
  rw [Library.findSome?_of_files h.files] at hnone
  injection hnone with hnone
  have hhere : findFunction? content leaf file = none := List.findSome?_eq_none_iff.1 hnone _ hmem
  cases hs : Trace.bodyOf? lib ⟨file, leaf⟩ with
  | none => rfl
  | some s =>
      rw [h.findFunction?_eq hmem hs] at hhere
      cases hhere

/-- A node made for a call is followed into the function that it was made of, and into none if it
was made of something else. -/
theorem isFunctionNode_of_callNode {call : BodyCall} {kind : NodeKind} {id : Text}
    (hnode : callNode lib call kind id = .ok n) (hgo : Trace.isTraceable n = true)
    (hs : Trace.bodyOf? lib ⟨n.file, leafName n.name⟩ = some s) : IsFunctionNode lib n s := by
  have hexternal : n ≠ externalNode call kind id := by
    rintro rfl
    simp [Trace.isTraceable, externalNode] at hgo
  have hunknown : n ≠ unknownNode call kind id := by
    rintro rfl
    simp [Trace.isTraceable, unknownNode] at hgo
  unfold callNode at hnode
  split at hnode
  · injection hnode with hnode
    exact absurd hnode.symm hexternal
  · obtain ⟨found, hfound, hnode⟩ := bind_eq_ok hnode
    cases found with
    | some source =>
        obtain ⟨shown, -, rfl⟩ := map_eq_ok hnode
        obtain rfl := h.eq_of_function? hfound hs
        exact ⟨call, kind, id, shown.1, shown.2, hfound, rfl⟩
    | none =>
        obtain ⟨struct, hstruct, rfl⟩ := map_eq_ok hnode
        cases struct with
        | some st =>
            obtain ⟨fs', hfs, hfile⟩ := structFor?_file hstruct
            obtain rfl := Except.ok.inj (h.files.symm.trans hfs)
            have hnone := h.bodyOf?_of_function? hfound hfile
            have hsome : Trace.bodyOf? lib ⟨st.file, leafName call.name⟩ = some s := hs
            rw [hnone] at hsome
            cases hsome
        | none =>
            simp only [otherNode] at hexternal hunknown
            split at hexternal
            · exact absurd rfl hexternal
            · next hdot => exact absurd (if_neg hdot) hunknown

/-- A function that is read by the whole name of a handler, in the file of its node, is what the
node was made of. -/
theorem eq_handlerNode (hhandler : findHandler lib r = .ok handler)
    (hs : Trace.bodyOf? lib ⟨handler.file, r.handler⟩ = some s) : handler = handlerNode r s := by
  unfold findHandler at hhandler
  dsimp only at hhandler
  -- Where nothing was found in the file of the registration, nothing is read there.
  have hstub : (lib.read r.file).bind (findFunction? · r.handler r.file) = none →
      ∀ line, stubHandler r line ≠ handler := by
    rintro hnone line rfl
    have hsome : (lib.read r.file).bind (findFunction? · r.handler r.file) = some s := hs
    rw [hnone] at hsome
    cases hsome
  split at hhandler
  · next source hsource =>
    injection hhandler with hhandler
    subst hhandler
    obtain ⟨content, -, hfound⟩ := Option.bind_eq_some_iff.1 hsource
    have hs : Trace.bodyOf? lib ⟨source.file, r.handler⟩ = some s := hs
    rw [findFunction?_file hfound] at hs
    obtain rfl : source = s := Option.some.inj (hsource.symm.trans hs)
    rfl
  · next hnone =>
    split at hhandler
    · injection hhandler with hhandler
      exact absurd hhandler (hstub hnone _)
    · obtain ⟨found, hfound, hhandler⟩ := bind_eq_ok hhandler
      cases found with
      | some source =>
          injection hhandler with hhandler
          subst hhandler
          obtain rfl := h.eq_of_function? hfound hs
          rfl
      | none =>
          injection hhandler with hhandler
          exact absurd hhandler (hstub hnone _)

end Steady

-- =============================================================== the run

namespace Trace

/-- Where a node comes from that a function is looked for: it is the handler, or it was made for a
call and can be looked into. -/
def Origin (lib : Library ε) (handler n : FlowNode) : Prop :=
  n = handler ∨ isTraceable n = true ∧ ∃ call kind id, callNode lib call kind id = .ok n

/-- A visit is one of the file of a node of a trace, by the last part of the name of the node. -/
def VisitOf (lib : Library ε) (handler : FlowNode) (t : Trace) (id : Text) (v : Visit) : Prop :=
  ∃ n ∈ t.nodes, n.id = id ∧ v = ⟨n.file, leafName n.name⟩ ∧ Origin lib handler n

theorem VisitOf.mono {t t' : Trace} (ht : Extends t t') {id : Text} {v : Visit}
    (h : VisitOf lib handler t id v) : VisitOf lib handler t' id v := by
  obtain ⟨n, hn, hrest⟩ := h
  exact ⟨n, ht.nodes.subset hn, hrest⟩

/-- A job looks for no function but that of its node. -/
def Job.Fits (lib : Library ε) (handler : FlowNode) (t : Trace) : Job → Prop
  | function file name node => VisitOf lib handler t node ⟨file, leafName name⟩
  | calls _ _ => True

/-- A run reads no function but those of its nodes. -/
theorem Run.visitOf {job : Job} {t t' : Trace} (h : Run lib job t t')
    (hjob : job.Fits lib handler t)
    (ht : ∀ e ∈ t.expansions, VisitOf lib handler t e.node e.visit) :
    ∀ e ∈ t'.expansions, VisitOf lib handler t' e.node e.visit := by
  -- Not by `Run.preserves`: a change to a trace does not tell the file and the name of its node.
  induction h with
  | seen => exact ht
  | missing => exact ht
  | found _ _ _ ih =>
      refine ih trivial fun e he => ?_
      rcases List.mem_append.1 he with he | he
      · exact ht e he
      · rw [List.mem_singleton.1 he]
        exact hjob
  | done => exact ht
  | known _ _ ih => exact ih trivial ht
  | leaf _ _ _ _ ih => exact ih trivial fun e he => (ht e he).mono (.grow _ _ _ _)
  | @branch t t₁ t' call cs node n _ hnew hgo _ _ ihinner ihrest =>
      have hnode : VisitOf lib handler (t.grow node n call) n.id ⟨n.file, leafName n.name⟩ :=
        ⟨n, List.mem_append_right _ (List.mem_singleton_self n), rfl, rfl,
          .inr ⟨hgo, call, _, _, hnew⟩⟩
      exact ihrest trivial (ihinner hnode fun e he => (ht e he).mono (.grow _ _ _ _))

/-- A function that is there and has not been looked for is read first. -/
theorem Run.mem_expansions {file name node : Text} {t t' : Trace}
    (h : Run lib (.function file name node) t t') (hseen : t.hasSeen ⟨file, leafName name⟩ = false)
    (hs : bodyOf? lib ⟨file, leafName name⟩ = some s) :
    ⟨node, ⟨file, leafName name⟩, s⟩ ∈ t'.expansions := by
  cases h with
  | seen hseen' => rw [hseen] at hseen'; cases hseen'
  | missing _ hnone => rw [hs] at hnone; cases hnone
  | found _ hbody hcalls =>
      obtain rfl := Option.some.inj (hs.symm.trans hbody)
      exact hcalls.toExtends.expansions.subset
        (List.mem_append_right _ (List.mem_singleton_self _))

/-- A function is read for a node: in its file, by the last part of its name. -/
structure IsReadFor (lib : Library ε) (e : Expansion) (n : FlowNode) : Prop where
  node : n.id = e.node
  visit : e.visit = ⟨n.file, leafName n.name⟩
  source : bodyOf? lib e.visit = some e.source

variable {t : Trace}

/-- Every function that a search from a handler reads is what the node it is read for was made of,
except that of a handler with a dot in its name. -/
theorem Run.readFor (h : Steady lib fs) (hhandler : findHandler lib r = .ok handler)
    (hrun : Run lib (.function handler.file handler.name handler.id) (start r handler) t) :
    ∀ e ∈ t.expansions, ∃ n ∈ t.nodes, IsReadFor lib e n ∧
      (n = handlerNode r e.source ∨ IsFunctionNode lib n e.source ∨
        n = handler ∧ '.' ∈ r.handler) := by
  have hstart : VisitOf lib handler (start r handler) handler.id
      ⟨handler.file, leafName handler.name⟩ :=
    ⟨handler, List.mem_cons_of_mem _ List.mem_cons_self, rfl, rfl, .inl rfl⟩
  have hnode : handler.id ∈ (start r handler).ids := List.mem_cons_of_mem _ List.mem_cons_self
  have hbodies := hrun.preserves bodyOf_kept hnode fun e he => absurd he List.not_mem_nil
  intro e he
  obtain ⟨n, hn, hid, hvisit, horigin⟩ :=
    hrun.visitOf hstart (fun e he => absurd he List.not_mem_nil) e he
  have hsource := (hbodies e he).2
  refine ⟨n, hn, ⟨hid, hvisit, hsource⟩, ?_⟩
  rw [hvisit] at hsource
  rcases horigin with rfl | ⟨hgo, call, kind, id, hcall⟩
  · by_cases hdot : '.' ∈ r.handler
    · exact .inr (.inr ⟨rfl, hdot⟩)
    · rw [(findHandler_eq_ok hhandler).2.2, leafName, lastPiece_of_not_mem hdot] at hsource
      exact .inl (h.eq_handlerNode hhandler hsource)
  · exact .inr (.inl (h.isFunctionNode_of_callNode hcall hgo hsource))

/-- The nodes of a search from a handler stand where the functions do that are read for them,
exactly if the handler does, should its name have a dot in it. -/
theorem Run.stands_iff (h : Steady lib fs) (hhandler : findHandler lib r = .ok handler)
    (hrun : Run lib (.function handler.file handler.name handler.id) (start r handler) t) :
    (∀ e ∈ t.expansions, ∀ n ∈ t.nodes, n.id = e.node → Stands n e.source) ↔
      ('.' ∈ r.handler → ∀ s, bodyOf? lib ⟨handler.file, leafName r.handler⟩ = some s →
        handler.line = some s.line) := by
  have hname := (findHandler_eq_ok hhandler).2.2
  constructor
  · intro hall _ s hs
    have hnode : handler ∈ t.nodes :=
      hrun.toExtends.nodes.subset (List.mem_cons_of_mem _ List.mem_cons_self)
    rw [← hname] at hs
    exact (hall _ (hrun.mem_expansions rfl hs) handler hnode rfl).2
  · intro hline e he n hn hid
    obtain ⟨n', hn', hread, horigin⟩ := hrun.readFor h hhandler e he
    have hids := (hrun.wellFormed hhandler).ids_nodup
    obtain rfl := List.inj_on_of_nodup_map hids hn hn' (hid.trans hread.node.symm)
    rcases horigin with heq | hfunction | ⟨rfl, hdot⟩
    · rw [heq]
      exact handlerNode_stands r e.source
    · exact hfunction.stands
    · have hsource := hread.source
      rw [hread.visit, hname] at hsource
      obtain ⟨content, -, hfound⟩ := Option.bind_eq_some_iff.1 hsource
      exact ⟨(findFunction?_file hfound).symm, hline hdot _ hsource⟩

end Trace

-- ======================================================= the main result

/-- What is read of a source file is its text. -/
theorem steady_library {p : Project} {fs : List SourceFile} (hp : p.disk.WellFormed)
    (hfs : p.files = .ok fs) : Steady p.library (fs.map fun f => (f.relative, f.content)) where
  files := Project.sources_eq hfs
  read := by
    intro file content found hmem hread
    obtain ⟨ignored, hall⟩ := Project.isSourceFile_of_files hp hfs
    obtain ⟨f, hf, heq⟩ := List.mem_map.1 hmem
    injection heq with hfile hcontent
    subst hfile
    subst hcontent
    rw [Project.library_read (hall f hf) hp] at hread
    exact (Option.some.inj (Option.ite_none_right_eq_some.1 hread).2).symm

open Trace in
/-- Every function that is traced for a route is read for a node, and that node is one that was made
of this very function, of the handler or of a call, unless it is the handler and its name has a dot
in it. So the nodes all stand where their functions do, exactly if the handler does should its name
have a dot in it. A registration gives a handler such a name only where there is no letter of ASCII
and no underscore in it. -/
theorem expansions_stand_iff {p : Project} {fs : List SourceFile} (hp : p.disk.WellFormed)
    (hfs : p.files = .ok fs) (r : Route) :
    ∃ handler t, findHandler p.library r = .ok handler ∧ traceFrom p.library r handler = .ok t ∧
      p.traceRoute r = .ok ⟨r, t.nodes, t.edges⟩ ∧
      (∀ e ∈ t.expansions, ∃ n ∈ t.nodes, IsReadFor p.library e n ∧
        (n = handlerNode r e.source ∨ IsFunctionNode p.library n e.source ∨
          n = handler ∧ '.' ∈ r.handler)) ∧
      ((∀ e ∈ t.expansions, ∀ n ∈ t.nodes, n.id = e.node → Stands n e.source) ↔
        ('.' ∈ r.handler → ∀ s, bodyOf? p.library ⟨handler.file, leafName r.handler⟩ = some s →
          handler.line = some s.line)) ∧
      ∀ id, p.findRoute? id = .ok (some r) → '.' ∈ r.handler →
        ∀ c ∈ r.handler, c.isAlpha = false ∧ c ≠ '_' := by
  have hsteady := steady_library hp hfs
  obtain ⟨handler, t, hhandler, htrace, hroute, hrun⟩ :=
    exists_traceRoute (Project.sources_eq hfs) r
  refine ⟨handler, t, hhandler, htrace, hroute, hrun.readFor hsteady hhandler,
    hrun.stands_iff hsteady hhandler, fun id hid hdot => ?_⟩
  obtain ⟨_, -, hmem⟩ := Project.mem_routesOf_of_findRoute? hid
  obtain ⟨expression, heq⟩ := Route.exists_handlerName_of_routesOf hmem
  rw [heq] at hdot ⊢
  exact Route.handlerName_dotted hdot

/-- A file with a route whose handler is in another package, and a function of the same name. -/
def foreignFile : Text :=
  "package p\n\nfunc f() \x7b\n\tr.Get(\"/a\", ж.Я)\n\x7d\n\nfunc Я() \x7b\n\tload()\n\x7d\n"

/-- The route of that file. -/
def foreignRoute : Route where
  id := "get-a-ж-Я-main-go-4"
  method := "GET"
  path := "/a"
  handler := "ж.Я"
  file := "main.go"
  line := 4
  snippet := "r.Get(\"/a\", ж.Я) \x7d"

/-- A project of that file. -/
def foreignProject : Project := ⟨⟨.dir [("main.go", .file foreignFile)], []⟩, { root := "/" }⟩

theorem files_foreignProject :
    foreignProject.files = .ok [⟨["main.go"], foreignFile⟩] := by
  decide +kernel

theorem findRoute?_foreignRoute :
    foreignProject.findRoute? foreignRoute.id = .ok (some foreignRoute) := by
  have hroute : (Route.routesOf [("main.go", foreignFile)]).find? (·.id == foreignRoute.id)
      = some foreignRoute := by decide +kernel
  unfold Project.findRoute? Project.routes
  rw [Project.sources_eq files_foreignProject]
  exact congrArg Except.ok hroute

/-- The handler is not found and is shown at its registration; the calls that are shown as its own
are those of the function of the same name, three lines below. -/
theorem expansions_stand_foreignRoute :
    foreignProject.findRoute? foreignRoute.id = .ok (some foreignRoute) ∧
    ∃ handler t, findHandler foreignProject.library foreignRoute = .ok handler ∧
      traceFrom foreignProject.library foreignRoute handler = .ok t ∧ handler.line = some 4 ∧
      ¬∀ e ∈ t.expansions, ∀ n ∈ t.nodes, n.id = e.node → Stands n e.source := by
  have hp : foreignProject.disk.WellFormed :=
    ⟨FileTree.wellFormed_single (by decide) (.file _), by decide⟩
  obtain ⟨handler, t, hhandler, htrace, -, -, hiff, -⟩ :=
    expansions_stand_iff hp files_foreignProject foreignRoute
  have hstub : findHandler foreignProject.library foreignRoute
      = .ok (stubHandler foreignRoute none) := by decide +kernel
  obtain rfl := Except.ok.inj (hstub.symm.trans hhandler)
  have hbody : (Trace.bodyOf? foreignProject.library ⟨"main.go", leafName foreignRoute.handler⟩).map
      (·.line) = some 7 := by decide +kernel
  obtain ⟨s, hs, hline⟩ := Option.map_eq_some_iff.1 hbody
  refine ⟨findRoute?_foreignRoute, _, t, hhandler, htrace, rfl, fun hall => ?_⟩
  have hsame : some 4 = some s.line := hiff.1 hall (by decide) s hs
  rw [hline] at hsame
  exact absurd hsame (by decide)

end GoSurvey.Flow
