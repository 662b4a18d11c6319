/-
What a trace looks into. Two libraries with the same files may differ in
what they read at other paths; a trace of a route that is registered in one
of the files does not notice (`trace_congr`), for it reads the file of the
route and the files of nodes, and a node that is followed is in one of the
files.

If none of the files can be read, nothing is followed: what is found of the
route and its handler comes from searching the files, and no call is seen
(`trace_unread`).
-/
import GoSurvey.Proofs.Flow.CallNode

namespace GoSurvey.Flow

variable {ε : Type} {lib lib' : Library ε} {fs : List (Text × Text)}

/-- Two libraries that have the same files and read the same at their paths. -/
structure Agree (lib lib' : Library ε) (fs : List (Text × Text)) : Prop where
  files : lib.files = .ok fs
  files' : lib'.files = .ok fs
  read : ∀ file ∈ fs.map (·.1), lib.read file = lib'.read file

namespace Agree

variable (h : Agree lib lib' fs)

include h

-- ============================================================= searching

theorem findSome? {α : Type} (f : Text → Text → Option α) :
    lib.findSome? f = lib'.findSome? f := by
  unfold Library.findSome?
  rw [h.files, h.files']

theorem function? : lib.function? = lib'.function? := by
  funext name
  exact h.findSome? _

theorem struct? : lib.struct? = lib'.struct? := by
  funext name
  exact h.findSome? _

/-- The node of a call is found by searching the files. -/
theorem callNode (call : BodyCall) (kind : NodeKind) (id : Text) :
    Flow.callNode lib call kind id = Flow.callNode lib' call kind id := by
  unfold Flow.callNode foundContent structOf? structFor?
  rw [h.function?, h.struct?]

theorem findHandler {r : Route} (hr : r.file ∈ fs.map (·.1)) :
    Flow.findHandler lib r = Flow.findHandler lib' r := by
  unfold Flow.findHandler
  rw [h.function?, h.read r.file hr]

-- ============================================================= following

theorem bodyOf? {v : Visit} (hv : v.file ∈ fs.map (·.1)) :
    Trace.bodyOf? lib v = Trace.bodyOf? lib' v := by
  unfold Trace.bodyOf?
  rw [h.read v.file hv]

/-- What is followed is in one of the files, so the search goes the same way. -/
theorem follow (fuel : Nat) : ∀ (t : Trace) (file name source : Text), file ∈ fs.map (·.1) →
    Trace.follow lib fuel t file name source = Trace.follow lib' fuel t file name source := by
  induction fuel with
  | zero => exact fun _ _ _ _ _ => rfl
  | succ fuel ih =>
      have hcall : ∀ source t call,
          Trace.followCall lib (Trace.follow lib fuel) source t call
            = Trace.followCall lib' (Trace.follow lib' fuel) source t call := by
        intro source t call
        unfold Trace.followCall
        dsimp only
        split
        · rfl
        · rw [← h.callNode]
          cases hnode : Flow.callNode lib call (kindOf call.name call.context)
              (t.newId call (kindOf call.name call.context)) with
          | error e => rfl
          | ok node =>
              show (if Trace.isTraceable node then _ else _)
                = if Trace.isTraceable node then _ else _
              split
              · next hgo =>
                obtain ⟨fs', hfs', hfile⟩ := (callNode_nodeOfCall hnode).file_mem hgo
                rw [h.files] at hfs'
                injection hfs' with hfs'
                exact ih _ _ _ _ (hfs' ▸ hfile)
              · rfl
      intro t file name source hfile
      have hcalls : ∀ source, Trace.followCall lib (Trace.follow lib fuel) source
          = Trace.followCall lib' (Trace.follow lib' fuel) source := fun source =>
        funext fun t => funext fun call => hcall source t call
      rw [Trace.follow, Trace.follow, h.bodyOf? hfile]
      simp only [hcalls]

/-- The depth that a trace is given does not differ either. -/
theorem depthBound {file : Text} (hfile : file ∈ fs.map (·.1)) :
    Trace.depthBound lib file = Trace.depthBound lib' file := by
  have hread : ∀ f ∈ file :: fs.map (·.1), lib.read f = lib'.read f := by
    intro f hf
    rcases List.mem_cons.1 hf with rfl | hf
    · exact h.read f hfile
    · exact h.read f hf
  have hparts : (file :: fs.map (·.1)).map (fun f => Trace.partCount ((lib.read f).getD []))
      = (file :: fs.map (·.1)).map fun f => Trace.partCount ((lib'.read f).getD []) :=
    List.map_congr_left fun f hf => by rw [hread f hf]
  unfold Trace.depthBound Trace.readableFiles
  rw [h.files, h.files']
  dsimp only
  rw [hparts]

end Agree

/-- The handler of a route in one of the files is in one of the files. -/
theorem findHandler_file (hfs : lib.files = .ok fs) {r : Route} (hr : r.file ∈ fs.map (·.1))
    {handler : FlowNode} (h : findHandler lib r = .ok handler) : handler.file ∈ fs.map (·.1) := by
  unfold findHandler at h
  dsimp only at h
  split at h
  · next source hsource =>
    obtain ⟨content, -, hfound⟩ := Option.bind_eq_some_iff.1 hsource
    injection h with h
    subst h
    show source.file ∈ fs.map (·.1)
    rw [findFunction?_file hfound]
    exact hr
  · split at h
    · injection h with h
      exact h ▸ hr
    · obtain ⟨found, hfound, h⟩ := bind_eq_ok h
      cases found with
      | some source =>
          injection h with h
          obtain ⟨fs', hfs', hfile⟩ := Library.function?_file hfound
          rw [hfs] at hfs'
          injection hfs' with hfs'
          exact h ▸ hfs' ▸ hfile
      | none =>
          injection h with h
          exact h ▸ hr

/-- A trace of a route in one of the files looks into the files only. -/
theorem trace_congr (h : Agree lib lib' fs) {r : Route} (hr : r.file ∈ fs.map (·.1)) :
    trace lib r = trace lib' r := by
  unfold trace
  rw [← h.findHandler hr]
  cases hhandler : findHandler lib r with
  | error e => rfl
  | ok handler =>
      have hfile := findHandler_file h.files hr hhandler
      have hfollow : traceFrom lib r handler = traceFrom lib' r handler := by
        unfold traceFrom
        rw [h.depthBound hfile]
        exact h.follow _ _ _ _ _ hfile
      show (traceFrom lib r handler >>= _) = (traceFrom lib' r handler >>= _)
      rw [hfollow]

/-- If no file can be read, a flow ends with the handler. -/
theorem trace_unread (hfs : lib.files = .ok fs)
    (hread : ∀ file ∈ fs.map (·.1), lib.read file = none) {r : Route} (hr : r.file ∈ fs.map (·.1)) :
    ∃ handler, trace lib r = .ok ⟨r, [routeNode r, handler],
      [⟨(routeNode r).id, handler.id, "HTTP Request", none⟩]⟩ := by
  obtain ⟨handler, hhandler⟩ := exists_findHandler hfs r
  have hfile := findHandler_file hfs hr hhandler
  have hbody : Trace.bodyOf? lib ⟨handler.file, leafName handler.name⟩ = none := by
    unfold Trace.bodyOf?
    rw [hread handler.file hfile]
    rfl
  have hfollow : traceFrom lib r handler
      = .ok ((Trace.start r handler).see ⟨handler.file, leafName handler.name⟩) := by
    unfold traceFrom Trace.depthBound
    rw [Trace.follow, hbody]
    rfl
  have hrest : (do let t ← traceFrom lib r handler; .ok ⟨r, t.nodes, t.edges⟩ : Except ε DataFlow)
      = .ok ⟨r, [routeNode r, handler],
        [⟨(routeNode r).id, handler.id, "HTTP Request", none⟩]⟩ := by
    rw [hfollow]
    rfl
  refine ⟨handler, ?_⟩
  unfold trace
  rw [hhandler]
  exact hrest

end GoSurvey.Flow
