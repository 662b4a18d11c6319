/-
Who makes a call. A call knows the function of the last signature line
before it, and the graph draws the edge from the last function that is
found in the whole text at the line of the call or before it. The two
need not be the same function.

They are the same exactly if the last signature line is taken up by the
search of the whole text, and no function is found after it whose
receiver goes over the end of a line, for that is the one kind of
function that begins in no signature line. Otherwise they agree in no
more than, by chance, the name.
-/
import GoSurvey.Proofs.CallGraph.Extract
import Mathlib.Data.List.Induction

namespace GoSurvey.CallGraph

open Text Source Pattern

variable {content file package : Text}

-- ===================================================== signature lines

/-- The name in the line of a number, if it is a signature line. -/
def signatureAt? (content : Text) : Nat → Option Text
  | 0 => none
  | n + 1 => (lines content)[n]?.bind signatureName?

/-- The last signature line up to a line. -/
structure IsLastSignature (content : Text) (line n : Nat) (name : Text) : Prop where
  line_le : n ≤ line
  name_eq : signatureAt? content n = some name
  last : ∀ k, n < k → k ≤ line → signatureAt? content k = none

/-- The last value that a partial function has on a list is the value at some index, and at no later
index does it have one. -/
theorem exists_last_index {α β : Type} {f : α → Option β} {l : List α} {b : β}
    (h : (l.filterMap f).getLast? = some b) :
    ∃ j < l.length, l[j]?.bind f = some b ∧ ∀ k, j < k → k < l.length → l[k]?.bind f = none := by
  induction l using List.reverseRecOn with
  | nil => cases h
  | append_singleton init a ih =>
      rw [List.filterMap_append, List.getLast?_append] at h
      rw [List.length_append, List.length_singleton]
      have hend : (init ++ [a])[init.length]? = some a := List.getElem?_concat_length
      cases hfa : f a with
      | some b' =>
          rw [List.filterMap_cons_some hfa] at h
          refine ⟨init.length, Nat.lt_succ_self _, ?_, fun k hlt hle => absurd hle (by omega)⟩
          rw [hend]
          exact hfa.trans h
      | none =>
          rw [List.filterMap_cons_none hfa] at h
          obtain ⟨j, hj, hb, hlast⟩ := ih h
          refine ⟨j, Nat.lt_succ_of_lt hj, ?_, fun k hlt hle => ?_⟩
          · rw [List.getElem?_append_left hj]
            exact hb
          · by_cases hk : k < init.length
            · rw [List.getElem?_append_left hk]
              exact hlast k hlt hk
            · have hk : k = init.length := by omega
              rw [hk, hend]
              exact hfa

/-- A call inside a function has the name in the last signature line before it. -/
theorem exists_lastSignature {c : FunctionCall} (hc : c ∈ callsIn content file package)
    (hcaller : c.caller ≠ []) : ∃ n, IsLastSignature content c.line n c.caller := by
  obtain ⟨-, -, i, line, hget, hnumber, hnone, hname⟩ := callsFrom_spec hc
  have hi : i < (lines content).length := (List.getElem?_eq_some_iff.1 hget).1
  have hlength : ((lines content).take i).length = i := List.length_take_of_le (Nat.le_of_lt hi)
  rw [List.getLastD_eq_getLast?] at hname
  have hlast : (((lines content).take i).filterMap signatureName?).getLast? = some c.caller := by
    cases hlast : (((lines content).take i).filterMap signatureName?).getLast? with
    | none =>
        rw [hlast] at hname
        exact absurd hname hcaller
    | some name =>
        rw [hlast] at hname
        rw [hname]
        rfl
  obtain ⟨j, hj, hfound, hlater⟩ := exists_last_index hlast
  rw [hlength] at hj hlater
  rw [List.getElem?_take_of_lt hj] at hfound
  refine ⟨j + 1, by omega, hfound, fun k hlt hle => ?_⟩
  obtain ⟨k, rfl⟩ : ∃ k', k = k' + 1 := ⟨k - 1, by omega⟩
  show (lines content)[k]?.bind signatureName? = none
  by_cases hk : k = i
  · rw [hk, hget]
    exact hnone
  · have hki : k < i := by omega
    rw [← List.getElem?_take_of_lt hki]
    exact hlater k (by omega) hki

-- ================================================= the two readings

/-- The last signature line up to a line is taken up by the search of the whole text, and after it
there begins no function that goes over the end of a line before its name. -/
structure TakenUp (content : Text) (line n : Nat) : Prop where
  /-- A signature begins in the line, and no function before it reaches beyond its start. -/
  found : ∃ w, w <+: content ∧ lineAt content w.length = n ∧
    (signature.matchAt ((Cursor.start content).advance w)).isSome = true ∧
    ∀ m ∈ signature.findAll content, ¬(m.start < w.length ∧ w.length < m.stop)
  /-- Later functions have their receivers in one line. -/
  one_line : ∀ m ∈ signature.findAll content, n < lineAt content m.start →
    lineAt content m.start ≤ line → newline ∉ m.group 1

/-- The line in which a function begins is a signature line with its name, or else the receiver goes
over the end of the line. -/
theorem signatureAt?_of_readAt {f : FunctionDef} {m : Match} {w : Text}
    (hread : ReadAt content f m w) :
    (newline ∉ m.group 1 → signatureAt? content f.line = some f.name) ∧
      ∀ name, signatureAt? content f.line = some name → name = f.name := by
  obtain ⟨line, hline, hsome, hname⟩ := line_of_signature hread.before hread.matches_here
  have hat : signatureAt? content f.line = signatureName? line := by
    rw [hread.line_eq]
    show (lines content)[w.count newline]?.bind signatureName? = _
    rw [hline]
    rfl
  rw [hat, hread.name_eq]
  unfold signatureName?
  constructor
  · intro hreceiver
    obtain ⟨m', hm'⟩ := Option.isSome_iff_exists.1 (hsome hreceiver)
    rw [hm', Option.map_some, (hname m' hm').2]
  · intro name hn
    obtain ⟨m', hm', rfl⟩ := Option.map_eq_some_iff.1 hn
    exact (hname m' hm').2

/-- The function that encloses a line is the one of the last signature line before it exactly if
that line is taken up. -/
theorem enclosing_line_iff (file package : Text) {line n : Nat} {name : Text}
    (hlast : IsLastSignature content line n name) :
    (∃ f, IsEnclosing (functionsIn content file package) file line f ∧ f.line = n) ↔
      TakenUp content line n := by
  constructor
  · intro h
    obtain ⟨f, hf, rfl⟩ := h
    obtain ⟨-, m, w, hread⟩ := exists_readAt hf.mem
    refine ⟨⟨w, hread.before, ?_, ?_, ?_⟩, ?_⟩
    · rw [lineAt_length hread.before, hread.line_eq]
    · rw [hread.matches_here]
      rfl
    · rintro m' hm' ⟨hstart, hstop⟩
      have hm := hread.start_eq
      rcases eq_or_precedes hm' hread.found with rfl | hbefore | hafter
      · omega
      · have hends := hbefore.2
        omega
      · have hbegins := hafter.1
        omega
    · intro m' hm' hlt hle
      obtain ⟨w', hw', hmatch', hstart', hline'⟩ := exists_before hm'
      obtain ⟨g, hg, hread', hfile⟩ :=
        exists_function file package hm' hw' hmatch' hstart'
      rw [hline', ← hread'.line_eq] at hlt hle
      exact absurd (hf.last g hg hfile hle) (Nat.not_le.2 hlt)
  · intro h
    obtain ⟨⟨w, hw, hn, hsome, hfree⟩, hone⟩ := h
    obtain ⟨m, hm⟩ := Option.isSome_iff_exists.1 hsome
    have hfound := mem_findAll_of_matchAt hw hm hfree
    have hstart : m.start = w.length := by
      rw [start_of_matchAt hm]
      exact Nat.zero_add w.length
    obtain ⟨f, hf, hread, hfile⟩ :=
      exists_function file package hfound hw hm hstart
    have hline : f.line = n := by rw [hread.line_eq, ← hn, lineAt_length hw]
    refine ⟨f, ⟨hf, hfile, hline ▸ hlast.line_le, ?_⟩, hline⟩
    intro g hg _ hle
    obtain ⟨-, m', w', hread'⟩ := exists_readAt hg
    by_contra hgt
    have hplace : lineAt content m'.start = g.line := by
      rw [hread'.start_eq, lineAt_length hread'.before, hread'.line_eq]
    have hreceiver : newline ∉ m'.group 1 :=
      hone m' hread'.found (by omega) (by omega)
    have hat := (signatureAt?_of_readAt hread').1 hreceiver
    rw [hlast.last g.line (by omega) hle] at hat
    cases hat

/-- The function that the graph takes to make a call has the name that the call knows exactly if
the last signature line before the call is taken up by the search of the whole text, or if another
function of the same name happens to stand in its place. -/
theorem caller_eq_enclosing_iff {c : FunctionCall} (hc : c ∈ callsIn content file package)
    (hcaller : c.caller ≠ []) :
    ∃ n, IsLastSignature content c.line n c.caller ∧
      ((∃ f, IsEnclosing (functionsIn content file package) file c.line f ∧ f.name = c.caller) ↔
        TakenUp content c.line n ∨
          ∃ f, IsEnclosing (functionsIn content file package) file c.line f ∧ f.line ≠ n ∧
            f.name = c.caller) := by
  obtain ⟨n, hlast⟩ := exists_lastSignature hc hcaller
  refine ⟨n, hlast, ?_, ?_⟩
  · intro h
    obtain ⟨f, hf, hname⟩ := h
    by_cases hline : f.line = n
    · exact .inl ((enclosing_line_iff file package hlast).1 ⟨f, hf, hline⟩)
    · exact .inr ⟨f, hf, hline, hname⟩
  · intro h
    rcases h with htaken | ⟨f, hf, -, hname⟩
    · obtain ⟨f, hf, hline⟩ :=
        (enclosing_line_iff file package hlast).2 htaken
      obtain ⟨-, m, w, hread⟩ := exists_readAt hf.mem
      have hat : signatureAt? content f.line = some c.caller := hline ▸ hlast.name_eq
      exact ⟨f, hf, ((signatureAt?_of_readAt hread).2 c.caller hat).symm⟩
    · exact ⟨f, hf, hname⟩

/-- A function whose list of type parameters has brackets in it, after one without any calls. -/
def genericText : Text :=
  "package p\n\nfunc A() \x7b\n\x7d\n\nfunc Map[T []int](x T) \x7b\n\thelper()\n\x7d\n"

/-- The signature of such a function is not taken up, so its calls are held to be made by the
function before it. -/
theorem caller_ne_enclosing_generic :
    ∃ c ∈ callsIn genericText "m.go" "p", c.caller = "Map" ∧
      (¬∃ f, IsEnclosing (functionsIn genericText "m.go" "p") "m.go" c.line f ∧
        f.name = c.caller) ∧
      ∃ n, IsLastSignature genericText c.line n c.caller ∧ ¬TakenUp genericText c.line n := by
  let c : FunctionCall := ⟨"Map", "m.go", 7, "helper", "p", none, none⟩
  have hc : c ∈ callsIn genericText "m.go" "p" := by decide +kernel
  have hnames : ∀ f ∈ functionsIn genericText "m.go" "p", f.name ≠ c.caller := by decide +kernel
  have hnot : ¬∃ f, IsEnclosing (functionsIn genericText "m.go" "p") "m.go" c.line f ∧
      f.name = c.caller := fun ⟨f, hf, hname⟩ => hnames f hf.mem hname
  obtain ⟨n, hlast, hiff⟩ := caller_eq_enclosing_iff hc (by decide)
  exact ⟨c, hc, rfl, hnot, n, hlast, fun htaken => hnot (hiff.2 (.inl htaken))⟩

end GoSurvey.CallGraph
