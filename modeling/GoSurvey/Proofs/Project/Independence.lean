/-
What the files that are left out can do to a result: nothing, with one
exception. The analyses of a project are computed from its source files
(`SameSources` relates two projects that have the same of them), and so is
a flow as long as the root as it is given leads to a directory.

The exception is the flow. The walk and the relative paths take the root
resolved, where nothing has to be at a `..`; the trace opens files below
the root as it is given, and there a directory that is left out has to be
on the way to be gone back from. Where it is not, no file of the project
is read, and every flow ends with its handler.
-/
import GoSurvey.Project.Calls
import GoSurvey.Project.Routes
import GoSurvey.Project.Totals
import GoSurvey.Proofs.Flow.Agreement
import GoSurvey.Proofs.Project.Files
import GoSurvey.Proofs.Route.Identity

namespace GoSurvey.Project

open Text GoSurvey.Path FileTree GoSurvey.Flow

variable {p q : Project} {fs : List SourceFile} {r : Route}

-- =========================================================== the files

/-- What a trace is given to search. -/
theorem sources_eq (h : p.files = .ok fs) :
    p.sources = .ok (fs.map fun f => (f.relative, f.content)) := by
  unfold sources
  rw [h]
  rfl

theorem mem_paths_iff {file : Text} :
    file ∈ (fs.map fun f => (f.relative, f.content)).map (·.1) ↔ ∃ f ∈ fs, f.relative = file := by
  rw [List.map_map, List.mem_map]
  rfl

theorem exists_filesUnless (h : p.files = .ok fs) :
    ∃ ignored, p.filesUnless p.config.keepsDir ignored = fs := by
  unfold files at h
  rw [filesKeeping_eq] at h
  cases hrules : p.ignoreRules with
  | error e => rw [hrules] at h; cases h
  | ok rules =>
      rw [hrules] at h
      injection h with h
      exact ⟨Ignore.ignores rules, h⟩

theorem isSourceFile_of_files (hp : p.disk.WellFormed) (h : p.files = .ok fs) :
    ∃ ignored, ∀ f ∈ fs, p.IsSourceFile p.config.keepsDir ignored f := by
  obtain ⟨ignored, rfl⟩ := exists_filesUnless h
  exact ⟨ignored, fun f => (mem_filesUnless_iff hp).1⟩

/-- No two files of a project have the same relative path. -/
theorem nodup_relative (hp : p.disk.WellFormed) (h : p.files = .ok fs) :
    (fs.map (·.relative)).Nodup := by
  obtain ⟨ignored, rfl⟩ := exists_filesUnless h
  refine List.pairwise_map.2 ((filesUnless_pairwise hp).imp_of_mem fun hf hg hlt hsame => ?_)
  obtain rfl := ((mem_filesUnless_iff hp).1 hf).eq_of_relative hp ((mem_filesUnless_iff hp).1 hg)
    hsame
  exact List.lt_irrefl _ hlt

section Root

variable {keep ignored : Text → Bool} {f : SourceFile} (hf : p.IsSourceFile keep ignored f)

include hf

/-- A source file is found from the place that the root comes to. -/
theorem at?_root : (p.disk.tree.at? (p.disk.resolve p.rootPath)).bind (·.at? f.path)
    = some (file f.content) := by
  rw [← at?_append]
  exact hf.found

/-- Below a root that leads anywhere a source file is read, and below one that does not none is. -/
theorem library_read (hp : p.disk.WellFormed) :
    p.library.read f.relative = if p.disk.exists? p.rootPath then some f.content else none := by
  show (p.disk.read (p.rootPath.append (ofText f.relative))).toOption = _
  rw [Disk.toOption_read, hf.ofText_relative hp, Disk.find?_append _ (hf.isName hp)]
  unfold Disk.exists?
  cases hroot : p.disk.find? p.rootPath with
  | none => rfl
  | some t =>
      have hfound := at?_root hf
      rw [Disk.at?_of_find? hroot] at hfound
      exact congrArg (·.bind content?) hfound

/-- The root of a file that is found is there, be it given without a way back. -/
theorem exists?_rootPath (hp : p.disk.WellFormed) (hback : parentMark ∉ p.rootPath.parts) :
    p.disk.exists? p.rootPath = true := by
  have hfound := at?_root hf
  rw [← Disk.find?_eq_at? hp.cwd hback] at hfound
  unfold Disk.exists?
  cases hroot : p.disk.find? p.rootPath with
  | none => rw [hroot] at hfound; cases hfound
  | some t => rfl

end Root

-- ========================================================== the routes

/-- A route of some files is that of a registration in one of them. -/
theorem exists_ofMatch?_of_routesOf {files : List (Text × Text)} (h : r ∈ Route.routesOf files) :
    ∃ file content m, (file, content) ∈ files ∧
      Route.ofMatch? content (lines content) file m = some r := by
  have hmem := (Route.firstRegistrations_sublist [] _).mem h
  obtain ⟨⟨file, content⟩, hfile, hr⟩ := List.mem_flatMap.1 hmem
  obtain ⟨m, -, hm⟩ := List.mem_filterMap.1 hr
  exact ⟨file, content, m, hfile, hm⟩

theorem file_mem_of_routesOf {files : List (Text × Text)} (h : r ∈ Route.routesOf files) :
    r.file ∈ files.map (·.1) := by
  obtain ⟨file, content, m, hfile, hm⟩ := exists_ofMatch?_of_routesOf h
  obtain ⟨expression, -, rfl⟩ := Option.map_eq_some_iff.1 hm
  exact List.mem_map_of_mem hfile

/-- The route that an id finds is one of the source files. -/
theorem mem_routesOf_of_findRoute? {id : Text} (hr : p.findRoute? id = .ok (some r)) :
    ∃ fs, p.files = .ok fs ∧ r ∈ Route.routesOf (fs.map fun f => (f.relative, f.content)) := by
  unfold findRoute? routes at hr
  cases hfs : p.files with
  | error e =>
      unfold sources at hr
      rw [hfs] at hr
      cases hr
  | ok fs =>
      rw [sources_eq hfs] at hr
      injection hr with hr
      exact ⟨fs, rfl, List.mem_of_find?_eq_some hr⟩

theorem exists_files_of_findRoute? {id : Text} (hr : p.findRoute? id = .ok (some r)) :
    ∃ fs, p.files = .ok fs ∧ r.file ∈ (fs.map fun f => (f.relative, f.content)).map (·.1) := by
  obtain ⟨fs, hfs, hmem⟩ := mem_routesOf_of_findRoute? hr
  exact ⟨fs, hfs, file_mem_of_routesOf hmem⟩

section Found

variable {id : Text}

/-- With an id, the flow is traced from the route that the id finds. -/
theorem trace_of_findRoute? (hr : p.findRoute? id = .ok (some r)) :
    p.trace id = Flow.trace p.library r := by
  unfold trace
  rw [hr]
  rfl

theorem trace_of_not_found (hr : p.findRoute? id = .ok none) :
    p.trace id = .error (.routeNotFound id) := by
  unfold trace
  rw [hr]
  rfl

theorem trace_of_failure {e : Failure} (hr : p.findRoute? id = .error e) :
    p.trace id = .error e := by
  unfold trace
  rw [hr]
  rfl

/-- A flow is traced for a route of the project. -/
theorem findRoute?_of_trace {flow : DataFlow} (h : p.trace id = .ok flow) :
    ∃ r, p.findRoute? id = .ok (some r) := by
  cases hr : p.findRoute? id with
  | error e => rw [trace_of_failure hr] at h; cases h
  | ok found =>
      cases found with
      | none => rw [trace_of_not_found hr] at h; cases h
      | some r => exact ⟨r, rfl⟩

end Found

/-- If the root as it is given leads nowhere, every flow ends with its handler. -/
theorem trace_of_root_closed (hp : p.disk.WellFormed) (hroot : p.disk.exists? p.rootPath = false)
    {id : Text} {flow : DataFlow} (h : p.trace id = .ok flow) :
    ∃ handler, flow.nodes = [routeNode flow.route, handler] ∧
      flow.edges = [⟨(routeNode flow.route).id, handler.id, "HTTP Request", none⟩] := by
  obtain ⟨r, hr⟩ := findRoute?_of_trace h
  obtain ⟨fs, hfs, hfile⟩ := exists_files_of_findRoute? hr
  obtain ⟨ignored, hall⟩ := isSourceFile_of_files hp hfs
  have hread : ∀ file ∈ (fs.map fun f => (f.relative, f.content)).map (·.1),
      p.library.read file = none := by
    intro file hfile
    obtain ⟨f, hf, rfl⟩ := mem_paths_iff.1 hfile
    refine (library_read (hall f hf) hp).trans ?_
    rw [hroot]
    rfl
  have hsearched : p.library.files = .ok (fs.map fun f => (f.relative, f.content)) := sources_eq hfs
  obtain ⟨handler, htrace⟩ := trace_unread hsearched hread hfile
  rw [trace_of_findRoute? hr, htrace] at h
  injection h with h
  subst h
  exact ⟨handler, rfl, rfl⟩

-- ========================================================= two projects

/-- Two projects with the same settings and the same source files, whatever else is on the
disks. -/
structure SameSources (p q : Project) : Prop where
  wellFormed : p.disk.WellFormed
  wellFormed' : q.disk.WellFormed
  config : q.config = p.config
  cwd : q.disk.cwd = p.disk.cwd
  files : q.files = p.files

namespace SameSources

variable (h : SameSources p q)

include h

theorem sources : q.sources = p.sources := by
  unfold Project.sources
  rw [h.files]

theorem rootPath : q.rootPath = p.rootPath := by
  unfold Project.rootPath
  rw [h.config]

theorem rootNames : q.rootNames = p.rootNames := rootNames_eq h.config h.cwd

theorem structures : q.structures = p.structures := by
  unfold Project.structures
  rw [h.sources]

theorem symbol? : q.symbol? = p.symbol? := by
  funext name
  unfold Project.symbol? absolute
  rw [h.files, h.rootNames]

theorem callGraph : q.callGraph = p.callGraph := by
  unfold Project.callGraph
  rw [h.sources]

theorem functionGraph : q.functionGraph = p.functionGraph := by
  unfold Project.functionGraph
  rw [h.callGraph]

theorem routes : q.routes = p.routes := by
  unfold Project.routes
  rw [h.sources]

/-- The source files are read alike, if the root leads somewhere on both disks or on neither. -/
theorem agree (hfs : p.files = .ok fs)
    (hroot : q.disk.exists? p.rootPath = p.disk.exists? p.rootPath) :
    Agree p.library q.library (fs.map fun f => (f.relative, f.content)) where
  files := sources_eq hfs
  files' := sources_eq (h.files.trans hfs)
  read := by
    intro file hfile
    obtain ⟨ignored, hall⟩ := isSourceFile_of_files h.wellFormed hfs
    obtain ⟨ignored', hall'⟩ := isSourceFile_of_files h.wellFormed' (h.files.trans hfs)
    obtain ⟨f, hf, rfl⟩ := mem_paths_iff.1 hfile
    have hp := library_read (hall f hf) h.wellFormed
    have hq := library_read (hall' f hf) h.wellFormed'
    rw [h.rootPath, hroot] at hq
    exact hp.trans hq.symm

/-- A root that is given without a way back leads somewhere on both disks, if there is a source
file at all. -/
theorem exists?_eq (hfs : p.files = .ok fs) {f : SourceFile} (hf : f ∈ fs)
    (hback : parentMark ∉ p.rootPath.parts) :
    q.disk.exists? p.rootPath = p.disk.exists? p.rootPath := by
  obtain ⟨ignored, hall⟩ := isSourceFile_of_files h.wellFormed hfs
  obtain ⟨ignored', hall'⟩ := isSourceFile_of_files h.wellFormed' (h.files.trans hfs)
  have hq := exists?_rootPath (hall' f hf) h.wellFormed' (h.rootPath ▸ hback)
  rw [h.rootPath] at hq
  exact hq.trans (exists?_rootPath (hall f hf) h.wellFormed hback).symm

/-- A flow is the same on both disks, if the root leads somewhere on both or on neither; to a root
that is given without a way back this applies always. -/
theorem trace (hroot : parentMark ∈ p.rootPath.parts →
    q.disk.exists? p.rootPath = p.disk.exists? p.rootPath) (id : Text) :
    q.trace id = p.trace id := by
  have hfind : q.findRoute? id = p.findRoute? id := by
    unfold Project.findRoute?
    rw [h.routes]
  cases hr : p.findRoute? id with
  | error e => rw [trace_of_failure hr, trace_of_failure (hfind.trans hr)]
  | ok found =>
      cases found with
      | none => rw [trace_of_not_found hr, trace_of_not_found (hfind.trans hr)]
      | some r =>
          rw [trace_of_findRoute? hr, trace_of_findRoute? (hfind.trans hr)]
          obtain ⟨fs, hfs, hfile⟩ := exists_files_of_findRoute? hr
          obtain ⟨f, hf, -⟩ := mem_paths_iff.1 hfile
          have hroot : q.disk.exists? p.rootPath = p.disk.exists? p.rootPath := by
            by_cases hback : parentMark ∈ p.rootPath.parts
            · exact hroot hback
            · exact h.exists?_eq hfs hf hback
          exact (trace_congr (h.agree hfs hroot) hfile).symm

end SameSources

-- ======================================================= the main result

/-- What is left out has no influence: two projects with the same settings and the same source
files have the same structures, totals, repeated symbols, mentions, definitions, calls, patterns,
paths, reachable functions and routes. The flows are the same as well, unless the root is given
with a way back and leads somewhere on one disk and nowhere on the other; where it leads nowhere,
a flow ends with its handler. -/
theorem results_of_sameSources (h : SameSources p q) :
    q.analysis = p.analysis ∧ q.duplicates = p.duplicates ∧
    (∀ name, q.usages name = p.usages name) ∧
    (∀ file name, (around q.disk file (some q.config)).symbol? name
      = (around p.disk file (some p.config)).symbol? name) ∧
    q.callGraph = p.callGraph ∧ (∀ count, q.patterns count = p.patterns count) ∧
    (∀ source target count, q.paths source target count = p.paths source target count) ∧
    (∀ name depth, q.reachable name depth = p.reachable name depth) ∧
    q.routes = p.routes ∧
    ((parentMark ∈ p.rootPath.parts →
        q.disk.exists? p.rootPath = p.disk.exists? p.rootPath) →
      ∀ id, q.trace id = p.trace id) ∧
    (p.disk.exists? p.rootPath = false → ∀ id flow, p.trace id = .ok flow →
      ∃ handler, flow.nodes = [routeNode flow.route, handler] ∧
        flow.edges = [⟨(routeNode flow.route).id, handler.id, "HTTP Request", none⟩]) := by
  refine ⟨?_, ?_, fun name => ?_, fun file name => ?_, h.callGraph, fun count => ?_,
    fun source target count => ?_, fun name depth => ?_, h.routes, h.trace,
    fun hroot id flow => trace_of_root_closed h.wellFormed hroot⟩
  · unfold analysis
    rw [h.structures]
  · unfold duplicates
    rw [h.structures]
  · unfold usages
    rw [h.sources]
  · exact congrFun h.symbol? name
  · unfold patterns
    rw [h.functionGraph]
  · unfold paths
    rw [h.functionGraph]
  · unfold reachable
    rw [h.functionGraph]

/-- A file with a route whose handler calls a function. -/
def handledFile : Text :=
  "package main\n\nfunc f() \x7b\n\tr.Get(\"/a\", Show)\n\x7d\n\nfunc Show() \x7b\n\tload()\n\x7d\n"

/-- The route of that file. -/
def showRoute : Route where
  id := "get-a-Show-main-go-4"
  method := "GET"
  path := "/a"
  handler := "Show"
  file := "main.go"
  line := 4
  snippet := "r.Get(\"/a\", Show) \x7d"

/-- A project of that file, with the root given by way of a directory of vendored code. -/
def rootedByVendor (others : List (Text × FileTree)) : Project :=
  ⟨⟨.dir [("p", .dir (("main.go", .file handledFile) :: others))], ["p"]⟩, { root := "vendor/.." }⟩

def withVendor : Project := rootedByVendor [("vendor", .dir [("x.go", .file "package x")])]

def withoutVendor : Project := rootedByVendor []

theorem files_withVendor : withVendor.files = .ok [⟨["main.go"], handledFile⟩] := by
  rw [files_eq rfl, filesUnless_eq rfl (by decide)]
  decide +kernel

theorem files_withoutVendor : withoutVendor.files = .ok [⟨["main.go"], handledFile⟩] := by
  decide +kernel

/-- The vendored code is not among the source files. -/
theorem sameSources_vendor : SameSources withVendor withoutVendor where
  wellFormed := by
    refine ⟨wellFormed_single (by decide) (.dir (by decide) (by decide) ?_), by decide⟩
    simp only [List.forall_mem_cons]
    exact ⟨.file _, wellFormed_single (by decide) (.file _), nofun⟩
  wellFormed' :=
    ⟨wellFormed_single (by decide) (wellFormed_single (by decide) (.file _)), by decide⟩
  config := rfl
  cwd := rfl
  files := files_withoutVendor.trans files_withVendor.symm

/-- Where the file is the only one, the route is found with its id. -/
theorem findRoute?_showRoute (hp : p.files = .ok [⟨["main.go"], handledFile⟩]) :
    p.findRoute? showRoute.id = .ok (some showRoute) := by
  have hroute : (Route.routesOf [("main.go", handledFile)]).find? (·.id == showRoute.id)
      = some showRoute := by decide +kernel
  unfold findRoute? routes
  rw [sources_eq hp]
  exact congrArg Except.ok hroute

/-- With the vendored code on the disk, the call in the handler is seen. -/
theorem trace_withVendor :
    (withVendor.trace showRoute.id).map (·.nodes.length) = .ok 3 := by
  have hagree : Agree withVendor.library ⟨.ok [("main.go", handledFile)], fun _ => handledFile⟩
      [("main.go", handledFile)] := ⟨sources_eq files_withVendor, rfl, by decide +kernel⟩
  rw [trace_of_findRoute? (findRoute?_showRoute files_withVendor), trace_congr hagree (by decide)]
  decide +kernel

/-- The vendored code is not analysed, but whether it is there is seen from the flow of the
route. -/
theorem trace_withoutVendor :
    withoutVendor.routes = withVendor.routes ∧
    (withVendor.trace showRoute.id).map (·.nodes.length) = .ok 3 ∧
    (withoutVendor.trace showRoute.id).map (·.nodes.length) = .ok 2 := by
  obtain ⟨-, -, -, -, -, -, -, -, hroutes, -⟩ := results_of_sameSources sameSources_vendor
  exact ⟨hroutes, trace_withVendor, by decide +kernel⟩

end GoSurvey.Project
