/-
A trace comes to its end, however the functions of a project call one
another. What is looked for is always a name that some function calls, in
a file of the project; there are finitely many of both, and nothing is
looked for twice.

# The measure

The functions that may be looked for are pairs of a readable file and a
name. A name is a part of a readable file, so the pairs can be listed
(`candidates`), and the fuel that the search is given is their number and
one more (`candidates_length`). The search with that fuel is a run
(`follow_run`), and no more fuel would change it.

# The bound

The list of parts is long, and the bound that counts is the number of
names that are really called (`Called`): each visit is of a readable file
and of such a name or the handler's own (`Run.visits_within`), and no two
visits have the same key (`visits_nodup_kept`).
-/
import GoSurvey.Project.Routes
import GoSurvey.Proofs.Flow.Run
import GoSurvey.Proofs.Pattern.Search
import GoSurvey.Proofs.Text.Pieces
import Mathlib.Data.Set.Card

namespace GoSurvey.Flow

open Text Source

variable {ε : Type} {lib : Library ε}

-- ====================================================== parts of a text

/-- The parts of a text, by where they start and how long they are. -/
def parts (t : Text) : List Text :=
  (List.range (t.length + 1)).flatMap fun start =>
    (List.range (t.length + 1)).map fun length => (t.drop start).take length

theorem length_parts (t : Text) : (parts t).length = Trace.partCount t := by
  unfold parts Trace.partCount
  rw [List.length_flatMap]
  simp only [List.length_map, List.length_range, List.map_const', List.sum_replicate_nat]

theorem mem_parts {t u : Text} (h : u <:+: t) : u ∈ parts t := by
  obtain ⟨a, b, rfl⟩ := h
  refine List.mem_flatMap.2 ⟨a.length, List.mem_range.2 ?_, ?_⟩
  · simp only [List.length_append]
    omega
  · refine List.mem_map.2 ⟨u.length, List.mem_range.2 ?_, ?_⟩
    · simp only [List.length_append]
      omega
    · rw [List.append_assoc, List.drop_left, List.take_left]

/-- The body of a function lies in the text it is read from. -/
theorem functionBody_isInfix (t : Text) (start : Nat) : functionBody t start <:+: t := by
  unfold functionBody
  split
  · exact List.nil_infix
  · split
    · exact List.nil_infix
    · refine (trim_isInfix _).trans ?_
      unfold slice
      exact (List.drop_suffix _ _).isInfix.trans (List.take_prefix _ _).isInfix

theorem findFunction?_body {content name file : Text} {s : FunctionSource}
    (h : findFunction? content name file = some s) : s.body <:+: content := by
  unfold findFunction? at h
  obtain ⟨m, -, rfl⟩ := Option.map_eq_some_iff.1 h
  dsimp only
  split <;> exact functionBody_isInfix content m.start

theorem bodyCallsFrom_name {call : BodyCall} : ∀ (ls : List Text) (number : Nat),
    call ∈ bodyCallsFrom number ls → ∃ line ∈ ls, call.name <:+: line := by
  intro ls
  induction ls with
  | nil =>
      intro number h
      cases h
  | cons line rest ih =>
      intro number h
      rw [bodyCallsFrom] at h
      rcases List.mem_append.1 h with h | h
      · obtain ⟨name, hname, rfl⟩ := List.mem_map.1 h
        refine ⟨line, List.mem_cons_self, ?_⟩
        split at hname
        · cases hname
        · obtain ⟨m, hm, rfl⟩ := List.mem_map.1 (List.mem_filter.1 hname).1
          exact Pattern.group_infix_of_mem_findAll 1 hm
      · obtain ⟨line', hmem, hin⟩ := ih (number + 1) h
        exact ⟨line', List.mem_cons_of_mem line hmem, hin⟩

/-- What a function calls is named in its body. -/
theorem leafName_isInfix {body : Text} {call : BodyCall} (h : call ∈ bodyCalls body) :
    leafName call.name <:+: body := by
  obtain ⟨line, hline, hin⟩ := bodyCallsFrom_name _ _ h
  exact ((lastPiece_isInfix '.' call.name).trans hin).trans (infix_of_mem_splitOn hline)

namespace Trace

-- ============================================ functions to be looked for

/-- What a function calls is named in the file that the function is in. -/
theorem leafName_mem_parts {v : Visit} {source : FunctionSource} {call : BodyCall}
    (hbody : bodyOf? lib v = some source) (hcall : call ∈ bodyCalls source.body) :
    leafName call.name ∈ parts ((lib.read v.file).getD []) := by
  obtain ⟨content, hread, hfind⟩ := Option.bind_eq_some_iff.1 hbody
  rw [hread, Option.getD_some]
  exact mem_parts ((leafName_isInfix hcall).trans (findFunction?_body hfind))

/-- The functions that may be looked for, the first of them by the name of the handler. -/
def candidates (lib : Library ε) (files : List Text) (first : Text) : List Visit :=
  files.flatMap fun file =>
    (first :: files.flatMap fun f => parts ((lib.read f).getD [])).map fun leaf => ⟨file, leaf⟩

theorem mem_candidates {files : List Text} {first : Text} {v : Visit} :
    v ∈ candidates lib files first ↔ v.file ∈ files ∧
      (v.leaf = first ∨ ∃ f ∈ files, v.leaf ∈ parts ((lib.read f).getD [])) := by
  unfold candidates
  rw [List.mem_flatMap]
  constructor
  · intro h
    obtain ⟨file, hfile, h⟩ := h
    obtain ⟨leaf, hleaf, rfl⟩ := List.mem_map.1 h
    exact ⟨hfile, (List.mem_cons.1 hleaf).imp_right List.mem_flatMap.1⟩
  · intro h
    obtain ⟨hfile, hleaf⟩ := h
    exact ⟨v.file, hfile, List.mem_map.2
      ⟨v.leaf, List.mem_cons.2 (hleaf.imp_right List.mem_flatMap.2), rfl⟩⟩

theorem candidates_length (lib : Library ε) (file first : Text) :
    (candidates lib (readableFiles lib file) first).length + 1 = depthBound lib file := by
  unfold candidates depthBound
  rw [List.length_flatMap]
  simp only [List.length_map, List.length_cons, List.length_flatMap, length_parts,
    List.map_const', List.sum_replicate_nat]
  rw [List.sum_eq_foldr]

/-- The names that the functions of some files call, without qualifiers. -/
def Called (lib : Library ε) (files : List Text) : Set Text :=
  {leaf | ∃ v source call, v.file ∈ files ∧ bodyOf? lib v = some source ∧
    call ∈ bodyCalls source.body ∧ leafName call.name = leaf}

/-- Only so many names are called. -/
theorem called_finite (lib : Library ε) (files : List Text) : (Called lib files).Finite := by
  refine (files.flatMap fun f => parts ((lib.read f).getD [])).toFinset.finite_toSet.subset ?_
  rintro leaf ⟨v, source, call, hfile, hbody, hcall, rfl⟩
  rw [Finset.mem_coe, List.mem_toFinset, List.mem_flatMap]
  exact ⟨v.file, hfile, leafName_mem_parts hbody hcall⟩

-- ==================================================== what a run visits

/-- What a job looks for first. -/
def Job.Within (fs : List (Text × Text)) (within : Visit → Prop) : Job → Prop
  | function file name _ => within ⟨file, leafName name⟩
  | calls cs _ => ∀ call ∈ cs, ∀ file ∈ fs.map (·.1), within ⟨file, leafName call.name⟩

/-- A run only looks for functions among those that contain what they call. -/
theorem Run.visits_within {fs : List (Text × Text)} (hfs : lib.files = .ok fs)
    {within : Visit → Prop} (hclosed : Closed lib fs within) {job : Job} {t t' : Trace}
    (h : Run lib job t t') (hjob : job.Within fs within) (ht : ∀ v ∈ t.visits, within v) :
    ∀ v ∈ t'.visits, within v := by
  have hsee : ∀ {t : Trace} {v : Visit}, within v → (∀ w ∈ t.visits, within w) →
      ∀ w ∈ (t.see v).visits, within w := by
    intro t v hv ht w hw
    rcases List.mem_cons.1 hw with rfl | hw
    · exact hv
    · exact ht w hw
  induction h with
  | seen => exact ht
  | missing => exact hsee hjob ht
  | found _ hbody _ ih =>
      refine ih (fun call hcall file hfile => ?_) (hsee hjob ht)
      exact hclosed _ _ call file hjob hbody hcall hfile
  | done => exact ht
  | known _ _ ih => exact ih (fun call hcall => hjob call (List.mem_cons_of_mem _ hcall)) ht
  | leaf _ _ _ _ ih => exact ih (fun call hcall => hjob call (List.mem_cons_of_mem _ hcall)) ht
  | branch _ hnew hgo _ _ ihinner ihrest =>
      have hn := callNode_nodeOfCall hnew
      have hfirst := ihinner (hn.followed hfs hgo (hjob _ List.mem_cons_self)) ht
      exact ihrest (fun call hcall => hjob call (List.mem_cons_of_mem _ hcall)) hfirst

/-- A function that has not been looked for has a key of its own. -/
theorem key_not_mem {t : Trace} {v : Visit} (h : t.hasSeen v = false) :
    v.key ∉ t.visits.map Visit.key := by
  intro hmem
  obtain ⟨w, hw, hkey⟩ := List.mem_map.1 hmem
  have hseen : t.hasSeen v = true := List.any_eq_true.2 ⟨w, hw, beq_iff_eq.2 hkey⟩
  rw [h] at hseen
  cases hseen

/-- Nothing is looked for twice. -/
theorem visits_nodup_kept : Kept lib fun t => (t.visits.map Visit.key).Nodup where
  see hseen _ ht := List.nodup_cons.2 ⟨key_not_mem hseen, ht⟩
  expand _ hseen _ ht := List.nodup_cons.2 ⟨key_not_mem hseen, ht⟩
  link _ _ ht := ht
  grow _ _ _ ht := ht

/-- What is found has been looked for, in the same order and once. -/
theorem expansions_sublist_kept :
    Kept lib fun t => (t.expansions.map (·.visit)).reverse.Sublist t.visits where
  see _ _ ht := ht.cons _
  expand {t v source node} _ _ _ ht := by
    have hlast : ((t.see v).expand ⟨node, v, source⟩).expansions.map (·.visit)
        = t.expansions.map (·.visit) ++ [v] := List.map_append
    rw [hlast, List.reverse_append]
    exact ht.cons_cons v
  link _ _ ht := ht
  grow _ _ _ ht := ht

/-- The files and names that a trace can come to, when the handler has a name. -/
def InReach (lib : Library ε) (files : List Text) (first : Text) (v : Visit) : Prop :=
  v.file ∈ files ∧ (v.leaf = first ∨ v.leaf ∈ Called lib files)

theorem inReach_closed {fs : List (Text × Text)} (file first : Text) :
    Closed lib fs (InReach lib (file :: fs.map (·.1)) first) := by
  intro v source call file' hv hbody hcall hfile
  exact ⟨List.mem_cons_of_mem _ hfile, .inr ⟨v, source, call, hv.1, hbody, hcall, rfl⟩⟩

/-- There are as many places to visit as there are files times names, the handler's name
counted. -/
theorem length_le_of_inReach {files : List Text} {first : Text} {vs : List Visit}
    (hnodup : (vs.map Visit.key).Nodup) (hin : ∀ v ∈ vs, InReach lib files first v) :
    vs.length ≤ files.length * ((Called lib files).ncard + 1) := by
  classical
  have hnodup := List.Nodup.of_map _ hnodup
  let names := insert first (called_finite lib files).toFinset
  let pair : Visit → Text × Text := fun v => (v.file, v.leaf)
  have hinj : Function.Injective pair := by
    rintro ⟨file, leaf⟩ ⟨file', leaf'⟩ h
    injection h with hfile hleaf
    subst hfile
    subst hleaf
    rfl
  have hsub : (vs.map pair).toFinset ⊆ files.toFinset ×ˢ names := by
    intro x hx
    obtain ⟨v, hv, rfl⟩ := List.mem_map.1 (List.mem_toFinset.1 hx)
    obtain ⟨hfile, hleaf⟩ := hin v hv
    refine Finset.mem_product.2 ⟨List.mem_toFinset.2 hfile, Finset.mem_insert.2 ?_⟩
    exact hleaf.imp_right (called_finite lib files).mem_toFinset.2
  calc vs.length = (vs.map pair).toFinset.card := by
        rw [List.toFinset_card_of_nodup (hnodup.map hinj), List.length_map]
    _ ≤ files.toFinset.card * names.card := by
        rw [← Finset.card_product]
        exact Finset.card_le_card hsub
    _ ≤ files.length * ((Called lib files).ncard + 1) := by
        refine Nat.mul_le_mul (List.toFinset_card_le files) ?_
        rw [Set.ncard_eq_toFinset_card _ (called_finite lib files)]
        exact Finset.card_insert_le _ _

-- ============================================================ the end

/-- The search that starts at a handler comes to an end with the fuel that it is given, and with
every larger amount. -/
theorem exists_run {fs : List (Text × Text)} (hfs : lib.files = .ok fs) (r : Route)
    (handler : FlowNode) :
    ∃ t, Run lib (.function handler.file handler.name handler.id) (start r handler) t ∧
      ∀ fuel, depthBound lib handler.file ≤ fuel →
        follow lib fuel (start r handler) handler.file handler.name handler.id = .ok t := by
  let files := readableFiles lib handler.file
  have hfiles : files = handler.file :: fs.map (·.1) := by
    unfold files readableFiles
    rw [hfs]
  let all := candidates lib files (leafName handler.name)
  have hclosed : Closed lib fs (· ∈ all) := by
    intro v source call file hv hbody hcall hfile
    have hv := mem_candidates.1 hv
    refine mem_candidates.2 ⟨?_, .inr ⟨v.file, hv.1, leafName_mem_parts hbody hcall⟩⟩
    rw [hfiles]
    exact List.mem_cons_of_mem _ hfile
  have hfirst : (⟨handler.file, leafName handler.name⟩ : Visit) ∈ all := by
    refine mem_candidates.2 ⟨?_, .inl rfl⟩
    rw [hfiles]
    exact List.mem_cons_self
  have hless : unseen all (start r handler) < depthBound lib handler.file := by
    have hle : unseen all (start r handler) ≤ all.length := List.length_filter_le _ _
    have hlength : all.length + 1 = depthBound lib handler.file :=
      candidates_length lib handler.file (leafName handler.name)
    omega
  obtain ⟨t, -, hrun⟩ := follow_run hfs hclosed _ _ _ _ handler.id hfirst hless
  refine ⟨t, hrun, fun fuel hfuel => ?_⟩
  obtain ⟨t', hfollow, hrun'⟩ :=
    follow_run hfs hclosed fuel _ _ _ handler.id hfirst (Nat.lt_of_lt_of_le hless hfuel)
  rw [hfollow, hrun.deterministic hrun']

end Trace

open Trace in
/-- Tracing a route of a project comes to an end, whatever calls whatever. The search is a finite
run that more fuel would not change. It looks for no function twice, only in the file of the
handler and in those that discovery has given, and for no more functions than there are such files
times the names that are called in them, the handler's name counted. The functions that it traces
are among those that it looks for. -/
theorem traceFrom_terminates {p : Project} {fs : List (Text × Text)} (hfs : p.sources = .ok fs)
    (r : Route) :
    ∃ handler t, findHandler p.library r = .ok handler ∧ traceFrom p.library r handler = .ok t ∧
      Run p.library (.function handler.file handler.name handler.id) (start r handler) t ∧
      (∀ fuel, depthBound p.library handler.file ≤ fuel →
        follow p.library fuel (start r handler) handler.file handler.name handler.id = .ok t) ∧
      (t.visits.map Visit.key).Nodup ∧
      (t.expansions.map (·.visit)).reverse.Sublist t.visits ∧
      (∀ v ∈ t.visits, v.file = handler.file ∨ v.file ∈ fs.map (·.1)) ∧
      (Called p.library (handler.file :: fs.map (·.1))).Finite ∧
      t.visits.length
        ≤ (fs.length + 1) * ((Called p.library (handler.file :: fs.map (·.1))).ncard + 1) := by
  have hfiles : p.library.files = .ok fs := hfs
  obtain ⟨handler, hhandler⟩ := exists_findHandler hfiles r
  obtain ⟨t, hrun, hfollow⟩ := exists_run hfiles r handler
  let files := handler.file :: fs.map (·.1)
  have hreach : ∀ v ∈ t.visits, InReach p.library files (leafName handler.name) v := by
    refine hrun.visits_within hfs (inReach_closed _ _) ⟨List.mem_cons_self, .inl rfl⟩ ?_
    exact fun v hv => absurd hv List.not_mem_nil
  have hstart : handler.id ∈ (start r handler).ids := List.mem_cons_of_mem _ List.mem_cons_self
  have hnodup : (t.visits.map Visit.key).Nodup :=
    hrun.preserves visits_nodup_kept hstart List.nodup_nil
  have hfound : (t.expansions.map (·.visit)).reverse.Sublist t.visits :=
    hrun.preserves expansions_sublist_kept hstart (List.Sublist.refl _)
  refine ⟨handler, t, hhandler, hfollow _ (Nat.le_refl _), hrun, hfollow, hnodup, hfound, ?_,
    called_finite _ _, ?_⟩
  · exact fun v hv => List.mem_cons.1 (hreach v hv).1
  · have hle := length_le_of_inReach hnodup hreach
    rwa [List.length_cons, List.length_map] at hle

/-- Two functions that call each other. -/
def loopText : Text :=
  "package main\n\nfunc Ping() \x7b\n\tPong()\n\x7d\n\nfunc Pong() \x7b\n\tPing()\n\x7d\n"

/-- A project of one file with two functions that call each other. -/
def loopProject : Project where
  disk := ⟨.dir [("main.go", .file loopText)], []⟩
  config := { root := "/" }

/-- A route whose handler is one of the two functions. -/
def loopRoute : Route :=
  { id := "get-ping", method := "GET", path := "/ping", handler := "Ping", file := "main.go"
    line := 1 }

theorem traceFrom_terminates_loop :
    ∃ handler t, findHandler loopProject.library loopRoute = .ok handler ∧
      traceFrom loopProject.library loopRoute handler = .ok t ∧
      t.visits.length
        ≤ (1 + 1) * ((Trace.Called loopProject.library [handler.file, "main.go"]).ncard + 1) := by
  have hfs : loopProject.sources = .ok [("main.go", loopText)] := by decide +kernel
  obtain ⟨handler, t, hhandler, htrace, -, -, -, -, -, -, hle⟩ :=
    traceFrom_terminates hfs loopRoute
  exact ⟨handler, t, hhandler, htrace, hle⟩

end GoSurvey.Flow
