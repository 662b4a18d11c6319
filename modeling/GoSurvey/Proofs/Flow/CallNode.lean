/-
What the nodes of calls look like, and that every call has one. A trace
asks no more of a node than its id, its part, its name and, if it is to
be followed, a file of the library, so `NodeOfCall` is all that the
facts about traces use of the several ways in which a node comes about.

A library whose files are known answers every search; hence no call is
without a node (`exists_callNode`).
-/
import GoSurvey.Flow.Trace

namespace GoSurvey.Flow

open Text

variable {ε : Type} {lib : Library ε}

-- ========================================================== found in files

/-- A function that is found is in the file it is looked for in. -/
theorem findFunction?_file {content name file : Text} {s : FunctionSource}
    (h : findFunction? content name file = some s) : s.file = file := by
  unfold findFunction? at h
  obtain ⟨m, -, rfl⟩ := Option.map_eq_some_iff.1 h
  dsimp only
  split <;> rfl

theorem findStruct?_file {content name file : Text} {s : StructSource}
    (h : findStruct? content name file = some s) : s.file = file := by
  unfold findStruct? at h
  obtain ⟨m, -, rfl⟩ := Option.map_eq_some_iff.1 h
  rfl

/-- What a computation that goes on gives, its continuation gives for some value. -/
theorem bind_eq_ok {α β : Type} {x : Except ε α} {f : α → Except ε β} {b : β}
    (h : (x >>= f) = .ok b) : ∃ a, x = .ok a ∧ f a = .ok b := by
  cases x with
  | error e => cases h
  | ok a => exact ⟨a, rfl, h⟩

theorem map_eq_ok {α β : Type} {x : Except ε α} {f : α → β} {b : β}
    (h : x.map f = .ok b) : ∃ a, x = .ok a ∧ f a = b := by
  cases x with
  | error e => cases h
  | ok a => exact ⟨a, rfl, by injection h⟩

/-- A computation that goes on comes to a result if both of its parts do. -/
theorem exists_bind_ok {α β : Type} {x : Except ε α} {f : α → Except ε β}
    (hx : ∃ a, x = .ok a) (hf : ∀ a, ∃ b, f a = .ok b) : ∃ b, (x >>= f) = .ok b := by
  obtain ⟨a, rfl⟩ := hx
  exact hf a

theorem exists_map_ok {α β : Type} {x : Except ε α} {f : α → β}
    (hx : ∃ a, x = .ok a) : ∃ b, x.map f = .ok b := by
  obtain ⟨a, rfl⟩ := hx
  exact ⟨f a, rfl⟩

namespace Library

variable {α : Type} {fs : List (Text × Text)}

/-- In a library whose files are known every search comes to a result. -/
theorem findSome?_of_files (hfs : lib.files = .ok fs) (f : Text → Text → Option α) :
    lib.findSome? f = .ok (fs.findSome? fun (file, content) => f content file) := by
  unfold findSome?
  rw [hfs]
  rfl

/-- What a search finds, it finds in one of the files. -/
theorem exists_file_of_findSome? {f : Text → Text → Option α} {a : α}
    (h : lib.findSome? f = .ok (some a)) :
    ∃ fs file content, lib.files = .ok fs ∧ (file, content) ∈ fs
      ∧ f content file = some a := by
  unfold findSome? at h
  cases hfs : lib.files with
  | error e => rw [hfs] at h; cases h
  | ok fs =>
      rw [hfs] at h
      injection h with h
      obtain ⟨⟨file, content⟩, hmem, hf⟩ := List.exists_of_findSome?_eq_some h
      exact ⟨fs, file, content, rfl, hmem, hf⟩

theorem function?_file {name : Text} {s : FunctionSource}
    (h : lib.function? name = .ok (some s)) :
    ∃ fs, lib.files = .ok fs ∧ s.file ∈ fs.map (·.1) := by
  obtain ⟨fs, file, content, hfs, hmem, hf⟩ := exists_file_of_findSome? h
  refine ⟨fs, hfs, ?_⟩
  rw [findFunction?_file hf]
  exact List.mem_map_of_mem hmem

theorem struct?_file {name : Text} {s : StructSource}
    (h : lib.struct? name = .ok (some s)) :
    ∃ fs, lib.files = .ok fs ∧ s.file ∈ fs.map (·.1) := by
  obtain ⟨fs, file, content, hfs, hmem, hf⟩ := exists_file_of_findSome? h
  refine ⟨fs, hfs, ?_⟩
  rw [findStruct?_file hf]
  exact List.mem_map_of_mem hmem

end Library

-- =========================================================== nodes of calls

/-- What is known of the node of a call, however it was found. -/
structure NodeOfCall (lib : Library ε) (call : BodyCall) (kind : NodeKind) (id : Text)
    (n : FlowNode) : Prop where
  id_eq : n.id = id
  kind_eq : n.kind = kind
  name_eq : n.name = call.name
  /-- Only files of the library are looked into later. -/
  file_mem : Trace.isTraceable n = true → ∃ fs, lib.files = .ok fs ∧ n.file ∈ fs.map (·.1)

/-- A node that is followed is looked for under the name of its call, in a file of the library. -/
theorem NodeOfCall.followed {fs : List (Text × Text)} (hfs : lib.files = .ok fs)
    {within : Visit → Prop} {call : BodyCall} {kind : NodeKind} {id : Text} {n : FlowNode}
    (hn : NodeOfCall lib call kind id n) (hgo : Trace.isTraceable n = true)
    (h : ∀ file ∈ fs.map (·.1), within ⟨file, leafName call.name⟩) :
    within ⟨n.file, leafName n.name⟩ := by
  obtain ⟨fs', hfs', hfile⟩ := hn.file_mem hgo
  rw [hfs] at hfs'
  injection hfs' with hfs'
  rw [hn.name_eq]
  exact h n.file (hfs' ▸ hfile)

theorem externalNode_nodeOfCall (call : BodyCall) (kind : NodeKind) (id : Text) :
    NodeOfCall lib call kind id (externalNode call kind id) :=
  ⟨rfl, rfl, rfl, fun h => by simp [Trace.isTraceable, externalNode] at h⟩

theorem unknownNode_nodeOfCall (call : BodyCall) (kind : NodeKind) (id : Text) :
    NodeOfCall lib call kind id (unknownNode call kind id) :=
  ⟨rfl, rfl, rfl, fun h => by simp [Trace.isTraceable, unknownNode] at h⟩

theorem structFor?_file {kind : NodeKind} {leaf : Text} {s : StructSource}
    (h : structFor? lib kind leaf = .ok (some s)) :
    ∃ fs, lib.files = .ok fs ∧ s.file ∈ fs.map (·.1) := by
  unfold structFor? at h
  split at h
  · exact Library.struct?_file h
  · cases h

/-- The node of a call has the name of the call and the part and the id that it is given. -/
theorem callNode_nodeOfCall {call : BodyCall} {kind : NodeKind} {id : Text} {n : FlowNode}
    (h : callNode lib call kind id = .ok n) : NodeOfCall lib call kind id n := by
  unfold callNode at h
  split at h
  case isTrue =>
    injection h with h
    exact h ▸ externalNode_nodeOfCall call kind id
  case isFalse =>
    obtain ⟨found, hfound, h⟩ := bind_eq_ok h
    cases found with
    | some source =>
        obtain ⟨shown, -, rfl⟩ := map_eq_ok h
        exact ⟨rfl, rfl, rfl, fun _ => Library.function?_file hfound⟩
    | none =>
        obtain ⟨struct, hstruct, rfl⟩ := map_eq_ok h
        cases struct with
        | some s => exact ⟨rfl, rfl, rfl, fun _ => structFor?_file hstruct⟩
        | none =>
            simp only [otherNode]
            split
            · exact externalNode_nodeOfCall call kind id
            · exact unknownNode_nodeOfCall call kind id

/-- In a library whose files are known there is always something to show of a function. -/
theorem exists_foundContent {fs : List (Text × Text)} (hfs : lib.files = .ok fs) (leaf : Text)
    (kind : NodeKind) (source : FunctionSource) :
    ∃ shown, foundContent lib leaf kind source = .ok shown := by
  have hstruct : ∀ name, ∃ s, lib.struct? name = .ok s := fun name =>
    ⟨_, Library.findSome?_of_files hfs _⟩
  have hchosen : ∃ s, structOf? lib leaf source = .ok s := by
    refine exists_bind_ok (hstruct leaf) fun s => ?_
    cases s with
    | some s => exact ⟨_, rfl⟩
    | none =>
        dsimp only
        split
        · exact hstruct _
        · exact ⟨_, rfl⟩
  cases kind with
  | dto => exact exists_bind_ok hchosen fun s => ⟨_, rfl⟩
  | _ => exact ⟨_, rfl⟩

/-- In a library whose files are known every call has a node. -/
theorem exists_callNode {fs : List (Text × Text)} (hfs : lib.files = .ok fs) (call : BodyCall)
    (kind : NodeKind) (id : Text) : ∃ n, callNode lib call kind id = .ok n := by
  unfold callNode
  split
  case isTrue => exact ⟨_, rfl⟩
  case isFalse =>
    refine exists_bind_ok ⟨_, Library.findSome?_of_files hfs _⟩ fun found => ?_
    cases found with
    | some source => exact exists_map_ok (exists_foundContent hfs _ kind source)
    | none =>
        have hstruct : ∃ s, structFor? lib kind (leafName call.name) = .ok s := by
          unfold structFor?
          split
          · exact ⟨_, Library.findSome?_of_files hfs _⟩
          · exact ⟨_, rfl⟩
        exact exists_map_ok hstruct

/-- In a library whose files are known every route has a handler node. -/
theorem exists_findHandler {fs : List (Text × Text)} (hfs : lib.files = .ok fs) (r : Route) :
    ∃ handler, findHandler lib r = .ok handler := by
  unfold findHandler
  dsimp only
  split
  · exact ⟨_, rfl⟩
  · split
    · exact ⟨_, rfl⟩
    · refine exists_bind_ok ⟨_, Library.findSome?_of_files hfs _⟩ fun found => ?_
      cases found with
      | some source => exact ⟨_, rfl⟩
      | none => exact ⟨_, rfl⟩

end GoSurvey.Flow
