/-
From the texts of the files to the edges of the graph.

Between a call and its edge stand four steps, and each is undone by the
next only if nothing is confused on the way. A call is resolved to a
function whose name is the last part of what is called
(`target?_name`); of the function only the place is kept, and from the
place the definition is found again, since functions of distinct files or
lines have distinct places (`places_nodup`); and the definition that
encloses the call is the last one of its file. Hence the edges are those
that the calls ought to make (`mem_edges_iff`).
-/
import GoSurvey.Proofs.CallGraph.Extract
import GoSurvey.Proofs.CallGraph.FunctionGraph
import GoSurvey.Proofs.CallGraph.Resolution

namespace GoSurvey.CallGraph

open Text FunctionGraph

-- ========================================================== resolution

/-- The edge that a call makes once it is resolved leads to what is defined at the place of the
function that it reaches. -/
theorem edgeOf?_resolveCall {functions : List FunctionDef} {definitions : List FunctionNode}
    {c : FunctionCall} (hc : c.targetFile = none) {u v : Text} :
    edgeOf? definitions (resolveCall functions c) = some (u, v) ↔ c.caller ≠ [] ∧
      ∃ t s d, target? functions c = some t ∧ enclosing? definitions c.file c.line = some s ∧
        definedAt? definitions t.file t.line = some d ∧ s.id = u ∧ d.id = v := by
  rw [edgeOf?_eq_some_iff]
  unfold resolveCall
  cases htarget : target? functions c with
  | none =>
      dsimp only
      constructor
      · intro h
        obtain ⟨-, file, _, _, _, hfile, -⟩ := h
        rw [hc] at hfile
        cases hfile
      · intro h
        obtain ⟨-, t, _, _, ht, -⟩ := h
        cases ht
  | some t =>
      dsimp only
      constructor
      · intro h
        obtain ⟨hcaller, file, line, s, d, hfile, hline, hs, hd, hu, hv⟩ := h
        injection hfile with hfile
        injection hline with hline
        subst hfile
        subst hline
        exact ⟨hcaller, t, s, d, rfl, hs, hd, hu, hv⟩
      · intro h
        obtain ⟨hcaller, t', s, d, ht, hs, hd, hu, hv⟩ := h
        injection ht with ht
        subst ht
        exact ⟨hcaller, t.file, t.line, s, d, rfl, rfl, hs, hd, hu, hv⟩

-- ========================================================= definitions

/-- The node of a function has the id and the place of the function, and as yet no calls. -/
theorem of_ofFunction? {f : FunctionDef} {d : FunctionNode}
    (h : FunctionNode.ofFunction? f = some d) :
    f.id? = some d.id ∧ d.file = f.file ∧ d.line = f.line ∧ d.callees = [] := by
  obtain ⟨qualified, -, h⟩ := Option.bind_eq_some_iff.1 h
  obtain ⟨id, hid, h⟩ := Option.bind_eq_some_iff.1 h
  injection h with h
  subst h
  exact ⟨hid, rfl, rfl, rfl⟩

theorem exists_ofFunction? {f : FunctionDef} (h : f.id?.isSome = true) :
    ∃ d, FunctionNode.ofFunction? f = some d := by
  obtain ⟨id, hid⟩ := Option.isSome_iff_exists.1 h
  obtain ⟨qualified, hqualified, -⟩ := Option.map_eq_some_iff.1 hid
  have hid' : (do let id ← f.id?; some (⟨id, f.name, qualified, f.file, f.line, f.package, []⟩ :
      FunctionNode)) = some ⟨id, f.name, qualified, f.file, f.line, f.package, []⟩ :=
    Option.bind_eq_some_iff.2 ⟨id, hid, rfl⟩
  exact ⟨_, Option.bind_eq_some_iff.2 ⟨qualified, hqualified, hid'⟩⟩

/-- A list of results is one result for each member, in the same order. -/
theorem mapM_eq_some_iff {α β : Type} {f : α → Option β} {as : List α} {bs : List β} :
    as.mapM f = some bs ↔ as.map f = bs.map some := by
  induction as generalizing bs with
  | nil => cases bs <;> simp
  | cons a as ih =>
      rw [List.mapM_cons]
      cases bs with
      | nil => cases hfa : f a <;> cases hfas : as.mapM f <;> simp
      | cons b bs =>
          rw [List.map_cons, List.map_cons, List.cons.injEq, ← ih]
          cases hfa : f a <;> cases hfas : as.mapM f <;> simp

/-- If every function has an id, each has a definition, in the same order. -/
theorem exists_definitions {functions : List FunctionDef}
    (hid : ∀ f ∈ functions, f.id?.isSome = true) :
      ∃ definitions, functions.mapM FunctionNode.ofFunction? = some definitions ∧
        functions.map FunctionNode.ofFunction? = definitions.map some := by
  simp only [mapM_eq_some_iff, and_self]
  induction functions with
  | nil => exact ⟨[], rfl⟩
  | cons f functions ih =>
      obtain ⟨d, hd⟩ := exists_ofFunction? (hid f List.mem_cons_self)
      obtain ⟨definitions, heq⟩ := ih fun g hg => hid g (List.mem_cons_of_mem f hg)
      exact ⟨d :: definitions, by rw [List.map_cons, List.map_cons, hd, heq]⟩

section Definitions

variable {functions : List FunctionDef} {definitions : List FunctionNode}
  (hmap : functions.map FunctionNode.ofFunction? = definitions.map some)

include hmap

/-- A function is among the definitions as its node. -/
theorem exists_definition {f : FunctionDef} (hf : f ∈ functions) :
    ∃ d ∈ definitions, FunctionNode.ofFunction? f = some d := by
  have hmem : FunctionNode.ofFunction? f ∈ definitions.map some := hmap ▸ List.mem_map_of_mem hf
  obtain ⟨d, hd, heq⟩ := List.mem_map.1 hmem
  exact ⟨d, hd, heq.symm⟩

theorem exists_function_of_definition {d : FunctionNode} (hd : d ∈ definitions) :
    ∃ f ∈ functions, FunctionNode.ofFunction? f = some d := by
  have hmem : some d ∈ functions.map FunctionNode.ofFunction? := hmap ▸ List.mem_map_of_mem hd
  obtain ⟨f, hf, heq⟩ := List.mem_map.1 hmem
  exact ⟨f, hf, heq⟩

theorem callees_definitions : ∀ d ∈ definitions, d.callees = [] := by
  intro d hd
  obtain ⟨f, -, hfd⟩ := exists_function_of_definition hmap hd
  exact (of_ofFunction? hfd).2.2.2

/-- The definitions begin where the functions do. -/
theorem places_eq : definitions.map place = functions.map fun f => (f.file, f.line) := by
  induction functions generalizing definitions with
  | nil =>
      rw [List.map_nil] at hmap
      rw [List.map_eq_nil_iff.1 hmap.symm]
      rfl
  | cons f functions ih =>
      cases definitions with
      | nil => cases hmap
      | cons d definitions =>
          rw [List.map_cons, List.map_cons] at hmap
          injection hmap with hd hrest
          obtain ⟨-, hfile, hline, -⟩ := of_ofFunction? hd
          rw [List.map_cons, List.map_cons, ih hrest, ← hfile, ← hline]
          rfl

/-- The last definition is that of the enclosing function. -/
theorem isLast_iff {file : Text} {line : Nat} {f : FunctionDef} {d : FunctionNode}
    (hf : f ∈ functions) (hd : d ∈ definitions) (hfd : FunctionNode.ofFunction? f = some d) :
    IsLast definitions file line d ↔ IsEnclosing functions file line f := by
  obtain ⟨-, hfile, hline, -⟩ := of_ofFunction? hfd
  constructor
  · intro h
    obtain ⟨-, hfile', hle, hlast⟩ := h
    refine ⟨hf, hfile ▸ hfile', hline ▸ hle, fun g hg hgfile hgle => ?_⟩
    obtain ⟨e, he, hge⟩ := exists_definition hmap hg
    obtain ⟨-, hefile, heline, -⟩ := of_ofFunction? hge
    rw [← hline, ← heline]
    exact hlast e he (hefile.trans hgfile) (heline ▸ hgle)
  · intro h
    obtain ⟨-, hfile', hle, hlast⟩ := h
    refine ⟨hd, hfile.trans hfile', hline ▸ hle, fun e he hefile hele => ?_⟩
    obtain ⟨g, hg, hge⟩ := exists_function_of_definition hmap he
    obtain ⟨-, hefile', heline, -⟩ := of_ofFunction? hge
    rw [hline, heline]
    exact hlast g hg (hefile' ▸ hefile) (heline ▸ hele)

variable (hplaces : (definitions.map place).Nodup)

include hplaces

/-- At the place of a function its own node is found. -/
theorem definedAt?_place {f : FunctionDef} (hf : f ∈ functions) :
    definedAt? definitions f.file f.line = FunctionNode.ofFunction? f := by
  obtain ⟨d, hd, hfd⟩ := exists_definition hmap hf
  obtain ⟨-, hfile, hline, -⟩ := of_ofFunction? hfd
  rw [hfd, ← hfile, ← hline]
  exact definedAt?_of_mem hplaces hd

/-- The enclosing definition has the id of the enclosing function. -/
theorem exists_enclosing_iff {file u : Text} {line : Nat} :
    (∃ s, enclosing? definitions file line = some s ∧ s.id = u) ↔
      ∃ f, IsEnclosing functions file line f ∧ f.id? = some u := by
  constructor
  · intro h
    obtain ⟨s, hs, rfl⟩ := h
    have hlast := (enclosing?_eq_some_iff hplaces).1 hs
    obtain ⟨f, hf, hfs⟩ := exists_function_of_definition hmap hlast.mem
    exact ⟨f, (isLast_iff hmap hf hlast.mem hfs).1 hlast, (of_ofFunction? hfs).1⟩
  · intro h
    obtain ⟨f, hf, hu⟩ := h
    obtain ⟨s, hs, hfs⟩ := exists_definition hmap hf.mem
    have hlast := (isLast_iff hmap hf.mem hs hfs).2 hf
    rw [(of_ofFunction? hfs).1] at hu
    injection hu with hu
    exact ⟨s, (enclosing?_eq_some_iff hplaces).2 hlast, hu⟩

/-- The edge of a call leads from the function that encloses it to the one that it reaches. -/
theorem edgeOf?_iff {c : FunctionCall} (hc : c.targetFile = none)
    (hnames : ∀ f ∈ functions, '.' ∉ f.name) {u v : Text} :
    edgeOf? definitions (resolveCall functions c) = some (u, v) ↔ c.caller ≠ [] ∧
      ∃ t s, target? functions c = some t ∧ t.id? = some v ∧
        IsEnclosing functions c.file c.line s ∧ s.id? = some u := by
  rw [edgeOf?_resolveCall hc]
  refine and_congr_right fun _ => ?_
  constructor
  · intro h
    obtain ⟨t, s, d, ht, hs, hd, hu, rfl⟩ := h
    obtain ⟨f, hf, hfu⟩ := (exists_enclosing_iff hmap hplaces).1 ⟨s, hs, hu⟩
    rw [definedAt?_place hmap hplaces (target?_name hnames ht).1] at hd
    exact ⟨t, f, ht, (of_ofFunction? hd).1, hf, hfu⟩
  · intro h
    obtain ⟨t, f, ht, hv, hf, hu⟩ := h
    obtain ⟨s, hs, hsu⟩ := (exists_enclosing_iff hmap hplaces).2 ⟨f, hf, hu⟩
    have hmem := (target?_name hnames ht).1
    obtain ⟨d, -, htd⟩ := exists_definition hmap hmem
    rw [(of_ofFunction? htd).1] at hv
    injection hv with hv
    exact ⟨t, s, d, ht, hs, (definedAt?_place hmap hplaces hmem).trans htd, hsu, hv⟩

end Definitions

-- =============================================================== files

/-- The functions of some files, given as path and content. -/
def functionsOf (fs : List (Text × Text)) : List FunctionDef :=
  fs.flatMap fun (file, content) => (ofFile content file).functions

/-- The calls in some files, none of them resolved. -/
def callsOf (fs : List (Text × Text)) : List FunctionCall :=
  fs.flatMap fun (file, content) => (ofFile content file).calls

/-- The graph of some files has their functions, and their calls resolved. -/
theorem ofGraphs_ofFile (fs : List (Text × Text)) :
    ofGraphs (fs.map fun (file, content) => ofFile content file)
      = ⟨functionsOf fs, (callsOf fs).map (resolveCall (functionsOf fs))⟩ := by
  unfold ofGraphs resolve functionsOf callsOf
  dsimp only
  rw [List.flatMap_map, List.flatMap_map]

theorem dot_not_mem_functionsOf {fs : List (Text × Text)} :
    ∀ f ∈ functionsOf fs, '.' ∉ f.name := by
  intro f hf
  obtain ⟨⟨file, content⟩, -, hf⟩ := List.mem_flatMap.1 hf
  exact dot_not_mem_name hf

theorem targetFile_callsOf {fs : List (Text × Text)} :
    ∀ c ∈ callsOf fs, c.targetFile = none := by
  intro c hc
  obtain ⟨⟨file, content⟩, -, hc⟩ := List.mem_flatMap.1 hc
  exact (callsFrom_spec hc).2.1

/-- In files of distinct paths no two functions have the same place. -/
theorem places_nodup {fs : List (Text × Text)} (hfiles : (fs.map (·.1)).Nodup) :
    ((functionsOf fs).map fun f => (f.file, f.line)).Nodup := by
  unfold functionsOf
  rw [List.map_flatMap, List.nodup_flatMap]
  constructor
  · rintro ⟨file, content⟩ -
    have hlines := functionsIn_pairwise content file (Declaration.packageName content)
    refine List.pairwise_map.2 (hlines.imp fun hlt heq => ?_)
    injection heq with _ hline
    omega
  · refine (List.pairwise_map.1 hfiles).imp fun {x y} hne => ?_
    intro place hx hy
    obtain ⟨f, hf, rfl⟩ := List.mem_map.1 hx
    obtain ⟨g, hg, heq⟩ := List.mem_map.1 hy
    injection heq with hfile
    have hfx := (exists_readAt hf).1
    have hgy := (exists_readAt hg).1
    exact hne (hfx.symm.trans (hfile.symm.trans hgy))

/-- There is an edge from one id to another exactly if some call inside a function reaches a
function of the second id, and the function of the first id encloses it. The function that a call
reaches has the name that is called, less its qualifiers, and it is the one that is found again by
its place. -/
theorem mem_edges_iff {fs : List (Text × Text)} (hfiles : (fs.map (·.1)).Nodup)
    (hid : ∀ f ∈ functionsOf fs, f.id?.isSome = true) :
    ∃ definitions g, (functionsOf fs).mapM FunctionNode.ofFunction? = some definitions ∧
      ofCallGraph? (ofGraphs (fs.map fun (file, content) => ofFile content file)) = some g ∧
      (∀ c ∈ callsOf fs, ∀ t, target? (functionsOf fs) c = some t →
        t.name = lastPiece '.' c.called ∧ ∃ d, FunctionNode.ofFunction? t = some d ∧
          definedAt? definitions t.file t.line = some d) ∧
      ∀ u v, (u, v) ∈ g.digraph.edges ↔ ∃ c ∈ callsOf fs, c.caller ≠ [] ∧
        ∃ t s, target? (functionsOf fs) c = some t ∧ t.id? = some v ∧
          IsEnclosing (functionsOf fs) c.file c.line s ∧ s.id? = some u := by
  obtain ⟨definitions, hmapM, hmap⟩ := exists_definitions hid
  have hplaces : (definitions.map place).Nodup := places_eq hmap ▸ places_nodup hfiles
  let resolved := (callsOf fs).map (resolveCall (functionsOf fs))
  have hgraph : ofCallGraph? (ofGraphs (fs.map fun (file, content) => ofFile content file))
      = some (build definitions resolved) := by
    rw [ofGraphs_ofFile]
    exact Option.bind_eq_some_iff.2 ⟨definitions, hmapM, rfl⟩
  refine ⟨definitions, _, hmapM, hgraph, ?_, ?_⟩
  · intro c _ t ht
    obtain ⟨hmem, hname⟩ := target?_name dot_not_mem_functionsOf ht
    obtain ⟨d, -, htd⟩ := exists_definition hmap hmem
    exact ⟨hname, d, htd, (definedAt?_place hmap hplaces hmem).trans htd⟩
  · intro u v
    rw [mem_edges_build (callees_definitions hmap)]
    constructor
    · intro h
      obtain ⟨_, hresolved, hedge⟩ := h
      obtain ⟨c, hc, rfl⟩ := List.mem_map.1 hresolved
      exact ⟨c, hc, (edgeOf?_iff hmap hplaces (targetFile_callsOf c hc)
        dot_not_mem_functionsOf).1 hedge⟩
    · intro h
      obtain ⟨c, hc, hends⟩ := h
      exact ⟨_, List.mem_map_of_mem hc, (edgeOf?_iff hmap hplaces (targetFile_callsOf c hc)
        dot_not_mem_functionsOf).2 hends⟩

/-- Two files, of which the first calls a function of the second. -/
def pairOfFiles : List (Text × Text) :=
  [("run.go", "package a\n\nfunc Run() \x7b\n\thelp()\n\x7d\n"),
   ("help.go", "package a\n\nfunc help() \x7b\n\x7d\n")]

theorem mem_edges_pairOfFiles :
    ∃ g, ofCallGraph? (ofGraphs (pairOfFiles.map fun (file, content) => ofFile content file))
        = some g ∧
      ("run.go::Run".toList, "help.go::help".toList) ∈ g.digraph.edges := by
  have hfiles : (pairOfFiles.map (·.1)).Nodup := by decide +kernel
  have hid : ∀ f ∈ functionsOf pairOfFiles, f.id?.isSome = true := by decide +kernel
  obtain ⟨_, g, -, hg, -, hedges⟩ := mem_edges_iff hfiles hid
  let c : FunctionCall := ⟨"Run", "run.go", 4, "help", "a", none, none⟩
  let source : FunctionDef := ⟨"Run", "run.go", 3, "a", [], [], []⟩
  let target : FunctionDef := ⟨"help", "help.go", 3, "a", [], [], []⟩
  have hc : c ∈ callsOf pairOfFiles := by decide +kernel
  have htarget : target? (functionsOf pairOfFiles) c = some target := by decide +kernel
  have hsource : source ∈ functionsOf pairOfFiles := by decide +kernel
  have hlast : ∀ f ∈ functionsOf pairOfFiles, f.file = c.file → f.line ≤ c.line →
      f.line ≤ source.line := by decide +kernel
  have hencloses : IsEnclosing (functionsOf pairOfFiles) c.file c.line source :=
    ⟨hsource, rfl, by decide, hlast⟩
  exact ⟨g, hg, (hedges _ _).2 ⟨c, hc, by decide, target, source, htarget, rfl, hencloses, rfl⟩⟩

end GoSurvey.CallGraph
