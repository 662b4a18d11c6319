/-
The operations that ask the graph of the functions of a project: the
analyses, and the tools, endpoints and commands that show them. Each of
them makes something of whatever graph there is
(`everyOperation_of_ofGraph`), so what is true of the making of the graph is
true of all of them at once. The graph is there unless a function of some
source file has a receiver that holds no type; one such function takes
every operation down with it (`graph_answered_iff`).
-/
import GoSurvey.Cli.Run
import GoSurvey.Proofs.CallGraph.Paths
import GoSurvey.Proofs.CallGraph.Receiver
import GoSurvey.Proofs.Flow.CallNode
import GoSurvey.Report.Endpoint

namespace GoSurvey

open Text CallGraph FunctionDef

-- ================================================ operations on a graph

namespace FunctionGraph

/-- A function with results for all members of a list gives the list of them, and no other does. -/
theorem isSome_mapM_iff {α β : Type} {f : α → Option β} {as : List α} :
    (as.mapM f).isSome = true ↔ ∀ a ∈ as, (f a).isSome = true := by
  induction as with
  | nil => exact iff_of_true rfl fun a ha => absurd ha List.not_mem_nil
  | cons a as ih =>
      rw [List.mapM_cons, List.forall_mem_cons, ← ih]
      cases f a <;> cases as.mapM f <;> simp

/-- Paths are found, be there any or none, if their number is not negative. -/
theorem exists_pathsBetween? {count : Int} (hcount : 0 ≤ count) (g : FunctionGraph)
    (source target : Text) : ∃ paths, g.pathsBetween? source target count = some paths := by
  obtain ⟨n, rfl⟩ := Int.eq_ofNat_of_zero_le hcount
  exact ⟨_, pathsBetween?_natCast g source target n⟩

end FunctionGraph

namespace Project

/-- Something holds of everything that asks the graph of the functions of a project. -/
structure EveryOperation (p : Project) (holds : ∀ {α : Type}, Except Failure α → Prop) :
    Prop where
  graph : holds p.functionGraph
  patterns : ∀ count, holds (p.patterns count)
  busiest : ∀ count, holds (p.busiest count)
  paths : ∀ source target count, 0 ≤ count → holds (p.paths source target count)
  reachable : ∀ name depth, holds (p.reachable name depth)
  tools : ∀ path, Tool.projectAt p.disk path = p → holds (Tool.callPatterns p.disk path) ∧
    (∀ source target, holds (Tool.callPath p.disk source target path)) ∧
    ∀ name depth, holds (Tool.reachable p.disk name path depth)
  endpoints : ∀ s : Endpoint.Service, s.project = p → (∀ count, holds (s.patterns count)) ∧
    (∀ count, holds (s.metrics count)) ∧ (∀ source target, holds (s.paths source target)) ∧
    ∀ name depth, holds (s.reachable name depth)
  commands : ∀ s : Cli.Scope, s.project p.disk = p →
    (∀ count, holds (Cli.run p.disk (.patterns count s))) ∧
    (∀ count, holds (Cli.run p.disk (.bottlenecks count s))) ∧
    (∀ source target, holds (Cli.run p.disk (.callPath source target s))) ∧
    ∀ name depth, holds (Cli.run p.disk (.reachable name depth s))

/-- An operation makes something of the graph of the functions, whatever the graph is. -/
def OfGraph (p : Project) {α : Type} (op : Except Failure α) : Prop :=
  ∃ next : FunctionGraph → α, op = p.functionGraph.map next

section Operations

variable {p : Project} {α β : Type}

theorem ofGraph_functionGraph : OfGraph p p.functionGraph :=
  ⟨id, by cases p.functionGraph <;> rfl⟩

/-- What is made of the result of an operation is made of the graph. -/
theorem OfGraph.bind {op : Except Failure α} (h : OfGraph p op) {f : α → Except Failure β}
    (hf : ∀ a, ∃ b, f a = .ok b) : OfGraph p (op >>= f) := by
  obtain ⟨next, rfl⟩ := h
  choose result hresult using hf
  refine ⟨fun g => result (next g), ?_⟩
  cases p.functionGraph with
  | error e => rfl
  | ok g => exact hresult (next g)

theorem OfGraph.map {op : Except Failure α} (h : OfGraph p op) (f : α → β) :
    OfGraph p (op.map f) := by
  obtain ⟨next, rfl⟩ := h
  exact ⟨fun g => f (next g), by cases p.functionGraph <;> rfl⟩

theorem ofGraph_paths (source target : Text) {count : Int} (hcount : 0 ≤ count) :
    OfGraph p (p.paths source target count) := by
  refine ofGraph_functionGraph.bind fun g => ?_
  obtain ⟨found, hfound⟩ := g.exists_pathsBetween? hcount source target
  rw [hfound]
  exact ⟨found, rfl⟩

theorem ofGraph_reachable (name : Text) (depth : Int) : OfGraph p (p.reachable name depth) :=
  ofGraph_functionGraph.map _

end Operations

/-- What holds of all that is made of the graph holds of every operation. -/
theorem everyOperation_of_ofGraph {p : Project} {holds : ∀ {α : Type}, Except Failure α → Prop}
    (h : ∀ {α : Type} {op : Except Failure α}, OfGraph p op → holds op) :
    EveryOperation p @holds := by
  have hcount : 0 ≤ Tool.pathCount := by decide
  exact {
    graph := h ofGraph_functionGraph
    patterns := fun count => h (ofGraph_functionGraph.map _)
    busiest := fun count => h (ofGraph_functionGraph.map _)
    paths := fun source target count hcount => h (ofGraph_paths source target hcount)
    reachable := fun name depth => h (ofGraph_reachable name depth)
    tools := by
      intro path hp
      unfold Tool.callPatterns Tool.callPath Tool.reachable
      rw [hp]
      refine ⟨h (ofGraph_functionGraph.bind fun g => ⟨_, rfl⟩), fun source target => h ?_,
        fun name depth => h ?_⟩
      · refine (ofGraph_paths source target hcount).bind fun paths => ?_
        split <;> exact ⟨_, rfl⟩
      · refine (ofGraph_reachable name depth).bind fun ids => ?_
        split <;> exact ⟨_, rfl⟩
    endpoints := by
      rintro s rfl
      exact ⟨fun count => h ((ofGraph_functionGraph.map _).map _),
        fun count => h ((ofGraph_functionGraph.map _).map _),
        fun source target => h ((ofGraph_paths source target hcount).map _),
        fun name depth => h ((ofGraph_reachable name depth).map _)⟩
    commands := by
      intro s hp
      unfold Cli.run
      dsimp only
      rw [hp]
      refine ⟨fun count => h ((ofGraph_functionGraph.map _).bind fun r => ⟨_, rfl⟩),
        fun count => h ((ofGraph_functionGraph.map _).bind fun ms => ⟨_, rfl⟩),
        fun source target => h ?_, fun name depth => h ?_⟩
      · refine (ofGraph_paths source target hcount).bind fun paths => ?_
        split
        · exact ⟨_, rfl⟩
        · split <;> exact ⟨_, rfl⟩
      · refine (ofGraph_reachable name depth).bind fun ids => ?_
        split
        · exact ⟨_, rfl⟩
        · split <;> exact ⟨_, rfl⟩ }

-- ============================================================ the graph

/-- Every function of the source files has a receiver that holds a type, or none at all. -/
def ReceiversHoldTypes (fs : List (Text × Text)) : Prop :=
  ∀ f ∈ functionsOf fs, ¬HoldsNoType f.receiver

theorem id?_isSome_iff {fs : List (Text × Text)} {f : FunctionDef} (hf : f ∈ functionsOf fs) :
    f.id?.isSome = true ↔ ¬HoldsNoType f.receiver := by
  obtain ⟨⟨file, content⟩, -, hf⟩ := List.mem_flatMap.1 hf
  rw [← (id?_eq_none_of_functionsIn hf).2.2, Option.isSome_iff_ne_none]

theorem isSome_ofFunction? (f : FunctionDef) :
    (FunctionNode.ofFunction? f).isSome = true ↔ f.id?.isSome = true := by
  refine ⟨fun h => ?_, fun h => Option.isSome_iff_exists.2 (exists_ofFunction? h)⟩
  obtain ⟨d, hd⟩ := Option.isSome_iff_exists.1 h
  exact Option.isSome_iff_exists.2 ⟨d.id, (of_ofFunction? hd).1⟩

/-- The graph of the functions of some files is there exactly if all their receivers hold types. -/
theorem isSome_ofCallGraph?_iff (fs : List (Text × Text)) :
    (FunctionGraph.ofCallGraph? (CallGraph.ofGraphs
        (fs.map fun (file, content) => CallGraph.ofFile content file))).isSome = true
      ↔ ReceiversHoldTypes fs := by
  have hnodes : ((functionsOf fs).mapM FunctionNode.ofFunction?).isSome = true
      ↔ ReceiversHoldTypes fs := by
    rw [FunctionGraph.isSome_mapM_iff]
    exact forall₂_congr fun f hf => (isSome_ofFunction? f).trans (id?_isSome_iff hf)
  rw [← hnodes, ofGraphs_ofFile]
  unfold FunctionGraph.ofCallGraph?
  cases (functionsOf fs).mapM FunctionNode.ofFunction? <;> simp

/-- The graph of a project whose source files are known. -/
theorem functionGraph_of_sources {p : Project} {fs : List (Text × Text)}
    (hfs : p.sources = .ok fs) :
    (ReceiversHoldTypes fs → ∃ g, p.functionGraph = .ok g) ∧
      (¬ReceiversHoldTypes fs → p.functionGraph = .error .emptyReceiver) := by
  have hcalls : p.callGraph = .ok (CallGraph.ofGraphs
      (fs.map fun (file, content) => CallGraph.ofFile content file)) := by
    unfold Project.callGraph
    rw [hfs]
    rfl
  rw [← isSome_ofCallGraph?_iff]
  unfold functionGraph
  rw [hcalls]
  cases hgraph : FunctionGraph.ofCallGraph? (CallGraph.ofGraphs
      (fs.map fun (file, content) => CallGraph.ofFile content file)) with
  | none =>
      refine ⟨fun h => absurd h Bool.false_ne_true, fun _ => ?_⟩
      dsimp only [bind, Except.bind]
      rw [hgraph]
  | some g =>
      refine ⟨fun _ => ⟨g, ?_⟩, fun h => absurd rfl h⟩
      dsimp only [bind, Except.bind]
      rw [hgraph]

end Project
end GoSurvey
