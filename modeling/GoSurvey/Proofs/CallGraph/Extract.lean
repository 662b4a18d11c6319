/-
What is known of the functions and calls of one file.

Every function begins at the start of a line, so no two of them begin in
the same line (`functionsIn_pairwise`), and its name, being made of word
characters, has no dot in it. A call belongs to the function of the last
signature line before it (`callsFrom_spec`): that is the invariant of the
pass over the lines, whose state is the name of that function.
-/
import GoSurvey.Proofs.CallGraph.Signature

namespace GoSurvey.CallGraph

open Text Source Pattern

variable {content file package : Text}

-- =========================================================== functions

theorem lineAt_length {w : Text} (hw : w <+: content) :
    lineAt content w.length = w.count newline + 1 := by
  unfold lineAt
  rw [← List.prefix_iff_eq_take.1 hw]

/-- The match that a function is read from, and the text before it. -/
structure ReadAt (content : Text) (f : FunctionDef) (m : Match) (w : Text) : Prop where
  found : m ∈ signature.findAll content
  before : w <+: content
  matches_here : signature.matchAt ((Cursor.start content).advance w) = some m
  start_eq : m.start = w.length
  line_eq : f.line = w.count newline + 1
  name_eq : f.name = m.group 2

/-- A match in a text stands after some part of it. -/
theorem exists_before {m : Match} (hm : m ∈ signature.findAll content) :
    ∃ w, w <+: content ∧ signature.matchAt ((Cursor.start content).advance w) = some m ∧
      m.start = w.length ∧ lineAt content m.start = w.count newline + 1 := by
  obtain ⟨w, hw, hmatch, hstart⟩ := matchAt_of_mem_findAll hm
  refine ⟨w, hw, hmatch, hstart, ?_⟩
  rw [hstart, lineAt_length hw]

theorem exists_readAt {f : FunctionDef} (hf : f ∈ functionsIn content file package) :
    f.file = file ∧ ∃ m w, ReadAt content f m w := by
  obtain ⟨m, hm, rfl⟩ := List.mem_map.1 hf
  obtain ⟨w, hw, hmatch, hstart, hline⟩ := exists_before hm
  exact ⟨rfl, m, w, hm, hw, hmatch, hstart, hline, rfl⟩

theorem exists_function (file package : Text) {m : Match} {w : Text}
    (hm : m ∈ signature.findAll content)
    (hw : w <+: content) (hmatch : signature.matchAt ((Cursor.start content).advance w) = some m)
    (hstart : m.start = w.length) :
    ∃ f ∈ functionsIn content file package, ReadAt content f m w ∧ f.file = file := by
  refine ⟨_, List.mem_map_of_mem hm, ⟨hm, hw, hmatch, hstart, ?_, rfl⟩, rfl⟩
  show lineAt content m.start = _
  rw [hstart, lineAt_length hw]

/-- Signatures that follow one another begin in different lines. -/
theorem line_lt_of_precedes {m m' : Match} (hm : m ∈ signature.findAll content)
    (hm' : m' ∈ signature.findAll content) (h : Precedes m m') :
    lineAt content m.start < lineAt content m'.start := by
  obtain ⟨w, hw, -, hstart, hline⟩ := exists_before hm
  obtain ⟨w', hw', hmatch', hstart', hline'⟩ := exists_before hm'
  have hlt : w.length < w'.length := by
    have hbefore := h.1
    omega
  have hlast : w'.getLast? = some newline := by
    rcases start_of_signature hmatch' with rfl | hlast
    · exact absurd hlt (Nat.not_lt_zero _)
    · exact hlast
  obtain ⟨init, rfl⟩ := List.getLast?_eq_some_iff.1 hlast
  have hle : w.length ≤ init.length := by
    rw [List.length_append, List.length_singleton] at hlt
    omega
  have hinit : w <+: init :=
    List.prefix_of_prefix_length_le hw ((List.prefix_append init [newline]).trans hw') hle
  have hcount := hinit.sublist.count_le newline
  rw [hline, hline', List.count_append, List.count_singleton_self]
  omega

/-- The functions of a file begin in lines that increase. -/
theorem functionsIn_pairwise (content file package : Text) :
    (functionsIn content file package).Pairwise fun f g => f.line < g.line := by
  unfold functionsIn
  rw [List.pairwise_map]
  exact (findAll_pairwise signature content).imp_of_mem fun hm hm' h => line_lt_of_precedes hm hm' h

/-- The name of a function has no dot in it. -/
theorem dot_not_mem_name {f : FunctionDef} (hf : f ∈ functionsIn content file package) :
    '.' ∉ f.name := by
  obtain ⟨-, m, w, hread⟩ := exists_readAt hf
  obtain ⟨-, head, hhead, -⟩ := head_of_signature hread.matches_here
  obtain ⟨-, -, -, -, hword, -, -⟩ := hhead
  rw [hread.name_eq]
  exact fun hmem => absurd (hword _ hmem) (by decide)

-- =============================================================== calls

/-- The name of the function that a line begins, if it is a signature line. -/
def signatureName? (line : Text) : Option Text := (signatureLine.matchStart line).map (·.group 1)

/-- A call is in a line that begins no function, and it belongs to the function of the last line
before that begins one; it is not resolved. -/
theorem callsFrom_spec {c : FunctionCall} : ∀ {ls : List Text} {current : Text} {number : Nat},
    c ∈ callsFrom file package current number ls →
      c.file = file ∧ c.targetFile = none ∧ ∃ i line, ls[i]? = some line ∧ c.line = number + i ∧
        signatureName? line = none ∧
        c.caller = ((ls.take i).filterMap signatureName?).getLastD current := by
  intro ls
  induction ls with
  | nil =>
      intro current number h
      cases h
  | cons first rest ih =>
      intro current number h
      rw [callsFrom] at h
      have hlater : ∀ {current' : Text}, c ∈ callsFrom file package current' (number + 1) rest →
          current' = (signatureName? first).getD current →
          c.file = file ∧ c.targetFile = none ∧ ∃ i line, (first :: rest)[i]? = some line ∧
            c.line = number + i ∧ signatureName? line = none ∧
            c.caller = (((first :: rest).take i).filterMap signatureName?).getLastD current := by
        intro current' hmem hcurrent
        obtain ⟨hfile, htarget, i, line, hget, hnumber, hnone, hcaller⟩ := ih hmem
        refine ⟨hfile, htarget, i + 1, line, hget, by omega, hnone, ?_⟩
        rw [hcaller, List.take_succ_cons, List.filterMap_cons, hcurrent]
        cases signatureName? first with
        | none => rfl
        | some name => rw [List.getLastD_cons]; rfl
      cases hmatch : signatureLine.matchStart first with
      | some m =>
          rw [hmatch] at h
          refine hlater h ?_
          unfold signatureName?
          rw [hmatch]
          rfl
      | none =>
          have hnone : signatureName? first = none := by
            unfold signatureName?
            rw [hmatch]
            rfl
          rw [hmatch] at h
          rcases List.mem_append.1 h with h | h
          · obtain ⟨called, -, rfl⟩ := List.mem_map.1 h
            exact ⟨rfl, rfl, 0, first, rfl, rfl, hnone, rfl⟩
          · exact hlater h (by rw [hnone]; rfl)

-- ============================================================ enclosing

/-- The last of the functions of a file that begin in a line or before it. -/
structure IsEnclosing (functions : List FunctionDef) (file : Text) (line : Nat)
    (f : FunctionDef) : Prop where
  mem : f ∈ functions
  file_eq : f.file = file
  line_le : f.line ≤ line
  last : ∀ g ∈ functions, g.file = file → g.line ≤ line → g.line ≤ f.line

end GoSurvey.CallGraph
