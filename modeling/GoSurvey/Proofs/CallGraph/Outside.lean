/-
Calls outside all functions. The pass over the lines learns where a
function begins and never where it ends, so a call that stands below a
function, outside of any, is still held to be made by it. Such a call has
no caller exactly if no signature line stands above it; otherwise its
caller is the function of the last signature line above, and the block of
that function has ended before the call.
-/
import GoSurvey.Proofs.CallGraph.Caller

namespace GoSurvey.CallGraph

open Text Source Pattern

variable {content file package : Text}

/-- A line that begins a function declaration in its first column. -/
def IsFunctionLine (line : Text) : Prop :=
  ((Declaration.keywordLine "func").matchStart line).isSome = true

/-- The number of the last line of the function that begins in the line of an index. -/
def functionEnd (content : Text) (index : Nat) : Nat :=
  (Declaration.functionBlock content (lines content) index).endIndex + 1

/-- The line of a number lies in a function: between a line that begins one and its last line. -/
def InFunction (content : Text) (number : Nat) : Prop :=
  ∃ index line, (lines content)[index]? = some line ∧ IsFunctionLine line ∧
    index + 1 ≤ number ∧ number ≤ functionEnd content index

/-- A signature line begins a function declaration. -/
theorem isFunctionLine_of_signature {line name : Text} (h : signatureName? line = some name) :
    IsFunctionLine line := by
  obtain ⟨m, hm, -⟩ := Option.map_eq_some_iff.1 h
  obtain ⟨receiver, head, hhead, hline⟩ := head_of_signatureLine hm
  obtain @⟨g, part, g', c, hne, hg, -, -, -, -, -⟩ := hhead
  have hline : _ <+: (Cursor.start line).rest := hline
  obtain ⟨hfunc, hrest⟩ := prefix_of_prefix_append hline
  let s : State := ⟨Cursor.start line, []⟩
  -- The blank that follows the keyword makes an edge after it.
  have hedge : ((Cursor.start line).advance funcKeyword).atWordEdge = true := by
    obtain ⟨d, g, rfl⟩ := List.exists_cons_of_ne_nil hne
    have hblank : isBlank d = true := hg d List.mem_cons_self
    have hword : isWord d = false := by
      cases hword : isWord d with
      | false => rfl
      | true => rw [not_isBlank_of_isWord hword] at hblank; cases hblank
    obtain ⟨rest, hrest⟩ := hrest
    unfold Cursor.atWordEdge
    rw [← hrest]
    show (((funcKeyword.getLast?.or none).map isWord).getD false != isWord d) = true
    rw [hword]
    decide
  refine isSome_matchAt (s := s.advance funcKeyword) ?_
  unfold Declaration.keywordLine
  rw [readings_assoc]
  refine mem_readings_seq.2 ⟨s, mem_readings_place.2 ⟨rfl, rfl⟩, ?_⟩
  refine mem_readings_seq.2 ⟨s.advance funcKeyword, mem_readings_lit.2 ⟨hfunc, rfl⟩, ?_⟩
  exact mem_readings_place.2 ⟨hedge, rfl⟩

/-- The name in a signature line is not empty. -/
theorem signatureName?_ne_nil {line name : Text} (h : signatureName? line = some name) :
    name ≠ [] := by
  obtain ⟨m, hm, rfl⟩ := Option.map_eq_some_iff.1 h
  obtain ⟨receiver, head, hhead, -⟩ := head_of_signatureLine hm
  obtain ⟨-, -, -, hname, -, -, -⟩ := hhead
  exact hname

/-- A call has no caller exactly if no signature line stands above it. -/
theorem caller_eq_nil_iff {c : FunctionCall} (hc : c ∈ callsIn content file package) :
    c.caller = [] ↔ ∀ n, n ≤ c.line → signatureAt? content n = none := by
  constructor
  · intro hcaller n hn
    obtain ⟨-, -, i, line, hget, hnumber, hnone, hname⟩ := callsFrom_spec hc
    cases n with
    | zero => rfl
    | succ k =>
        by_contra hsome
        obtain ⟨name, hat⟩ := Option.ne_none_iff_exists'.1 hsome
        obtain ⟨above, habove, hfirst⟩ := Option.bind_eq_some_iff.1 hat
        have hki : k < i := by
          have hne : k ≠ i := by
            rintro rfl
            rw [hget] at habove
            injection habove with habove
            rw [← habove, hnone] at hfirst
            cases hfirst
          omega
        -- The caller is the last of the names above the call, of which there is one.
        have hmem : name ∈ ((lines content).take i).filterMap signatureName? := by
          refine List.mem_filterMap.2 ⟨above, ?_, hfirst⟩
          refine List.mem_of_getElem? (i := k) ?_
          rw [List.getElem?_take_of_lt hki, habove]
        have hne := List.ne_nil_of_mem hmem
        rw [List.getLastD_eq_getLast?, List.getLast?_eq_some_getLast hne, Option.getD_some] at hname
        obtain ⟨last, -, hlast⟩ := List.mem_filterMap.1 (List.getLast_mem hne)
        exact signatureName?_ne_nil hlast (hname ▸ hcaller)
  · intro hnone
    by_contra hcaller
    obtain ⟨n, hlast⟩ := exists_lastSignature hc hcaller
    have hname := hlast.name_eq
    rw [hnone n hlast.line_le] at hname
    cases hname

/-- A call outside all functions has no caller exactly if no signature line stands above it. If it
has one, that is the function of the last signature line above, which ends above the call. -/
theorem caller_outside_iff {c : FunctionCall} (hc : c ∈ callsIn content file package)
    (houtside : ¬InFunction content c.line) :
    (c.caller = [] ↔ ∀ n, n ≤ c.line → signatureAt? content n = none) ∧
      (c.caller ≠ [] → ∃ index, IsLastSignature content c.line (index + 1) c.caller ∧
        functionEnd content index < c.line) := by
  refine ⟨caller_eq_nil_iff hc, fun hcaller => ?_⟩
  obtain ⟨n, hlast⟩ := exists_lastSignature hc hcaller
  cases n with
  | zero => cases hlast.name_eq
  | succ index =>
      refine ⟨index, hlast, Nat.lt_of_not_le fun hle => houtside ?_⟩
      obtain ⟨line, hline, hname⟩ := Option.bind_eq_some_iff.1 hlast.name_eq
      exact ⟨index, line, hline, isFunctionLine_of_signature hname, hlast.line_le, hle⟩

/-- A variable that is given its value by a call, below a function. -/
def valueBelowText : Text := "package p\n\nfunc A() \x7b\n\x7d\n\nvar r = NewRepo()\n"

/-- The call is outside all functions and is held to be made by the function above it. -/
theorem caller_outside_valueBelow :
    ∃ c ∈ callsIn valueBelowText "m.go" "p", c.line = 6 ∧ c.caller = "A" ∧
      Declaration.functionBlock valueBelowText (lines valueBelowText) 2
        = ⟨"func A() \x7b\n\x7d", 3⟩ ∧
      ¬InFunction valueBelowText c.line ∧
      ∃ index, IsLastSignature valueBelowText c.line (index + 1) c.caller ∧
        functionEnd valueBelowText index < c.line := by
  let c : FunctionCall := ⟨"A", "m.go", 6, "NewRepo", "p", none, none⟩
  have hc : c ∈ callsIn valueBelowText "m.go" "p" := by decide +kernel
  have hlines : ∀ index < (lines valueBelowText).length, ∀ line ∈ (lines valueBelowText)[index]?,
      ((Declaration.keywordLine "func").matchStart line).isSome = true →
        ¬(index + 1 ≤ 6 ∧ 6 ≤ functionEnd valueBelowText index) := by decide +kernel
  have houtside : ¬InFunction valueBelowText c.line := by
    rintro ⟨index, line, hline, hfunction, hbounds⟩
    exact hlines index (List.getElem?_eq_some_iff.1 hline).1 line hline hfunction hbounds
  exact ⟨c, hc, rfl, rfl, by decide +kernel, houtside,
    (caller_outside_iff hc houtside).2 (by decide)⟩

end GoSurvey.CallGraph
