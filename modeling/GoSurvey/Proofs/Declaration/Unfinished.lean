/-
Functions whose bodies are not closed. The search for a body takes only
groups that are closed, so it finds none, and the block of such a
function is its line alone (`functionBlock_unfinished`). The lines of
the body are then read like any others of the file, and the first of
them that begins with a keyword is a construct at package level.
-/
import GoSurvey.Proofs.Declaration.Pass
import GoSurvey.Proofs.Source.Body

namespace GoSurvey.Declaration

open Text Source

variable {content : Text} {index p : Nat} {tokens : List Token}

/-- The line of a function is followed by a brace that opens its body and is never closed. -/
def Unfinished (content : Text) (index : Nat) : Prop :=
  ∃ tokens p, Tokens (content.drop (textBefore (Text.lines content) index).length) tokens ∧
    UnfinishedBody content (textBefore (Text.lines content) index).length
      (codeFrom (textBefore (Text.lines content) index).length tokens) p

/-- The block of the function is its line, whatever stands before the brace and behind it. -/
theorem functionBlockAt_unfinished (h : Unfinished content index) :
    functionBlockAt content (Text.lines content) (textBefore (Text.lines content) index).length
      index = ⟨(Text.lines content)[index]?.getD [], index⟩ := by
  obtain ⟨tokens, p, htokens, hbody⟩ := h
  unfold functionBlockAt
  rw [findBodyOpen?_unfinished htokens hbody]

/-- Where the pass comes to such a function it takes its line alone. -/
theorem Extended.IsReadFrom.last_eq {x : Extended} {line : Text}
    (hread : x.IsReadFrom content line .function) (h : Unfinished content x.first) :
    x.last = x.first := by
  have hend := congrArg Block.endIndex (functionBlockAt_unfinished h)
  exact (congrArg (·.2) hread.read).symm.trans hend

-- ======================================================= the lines below

/-- Lines that begin nothing are passed over. -/
theorem constructsFrom_plain {next : Nat} (hle : index ≤ next)
    (hplain : ∀ k line, index ≤ k → k < next → (Text.lines content)[k]? = some line →
      classify? (trim line) = none) :
    constructsFrom content (Text.lines content) 0 ((Text.lines content).drop index) index
        (textBefore (Text.lines content) index).length
      = constructsFrom content (Text.lines content) 0 ((Text.lines content).drop next) next
          (textBefore (Text.lines content) next).length := by
  induction next, hle using Nat.le_induction with
  | base => rfl
  | succ next hle ih =>
      rw [ih fun k line hk hlt => hplain k line hk (Nat.lt_succ_of_lt hlt)]
      rcases Nat.lt_or_ge next (Text.lines content).length with hlt | hge
      · have hline := List.getElem?_eq_getElem hlt
        have hnone := hplain next _ hle (Nat.lt_succ_self next) hline
        rw [List.drop_eq_getElem_cons hlt, constructsFrom, hnone, length_textBefore_succ hline]
      · rw [List.drop_eq_nil_of_le hge, List.drop_eq_nil_of_le (Nat.le_succ_of_le hge),
          constructsFrom, constructsFrom]

/-- The first line that begins a construct, from the one on where the pass goes on, is one of the
constructs of the pass. -/
theorem exists_first {next : Nat} {line : Text} {construct : Construct} (hle : index ≤ next)
    (hplain : ∀ k line, index ≤ k → k < next → (Text.lines content)[k]? = some line →
      classify? (trim line) = none)
    (hline : (Text.lines content)[next]? = some line)
    (hbegins : classify? (trim line) = some construct) :
    ∃ y ∈ constructsFrom content (Text.lines content) 0 ((Text.lines content).drop index) index
        (textBefore (Text.lines content) index).length,
      y.first = next ∧ y.IsReadFrom content line construct := by
  obtain ⟨hlt, rfl⟩ := List.getElem?_eq_some_iff.1 hline
  rw [constructsFrom_plain hle hplain, List.drop_eq_getElem_cons hlt, constructsFrom, hbegins]
  exact ⟨_, List.mem_cons_self, rfl, hline, hbegins, rfl⟩

-- ======================================================= the main result

/-- The block of a function whose body is never closed is the line of the function. It is the block
up to the last line only if that line is the last one. Where the pass comes to such a function, it
takes that line alone, and what the file declares below is what the lines below declare by
themselves; the first of them that begins a construct is taken for one of the file. -/
theorem functionBlock_unfinished (hindex : index < (Text.lines content).length)
    (hbody : Unfinished content index) :
    functionBlock content (Text.lines content) index = ⟨(Text.lines content)[index], index⟩ ∧
    (functionBlock content (Text.lines content) index
        = ⟨joinLines ((Text.lines content).drop index), (Text.lines content).length - 1⟩ ↔
      index + 1 = (Text.lines content).length) ∧
    ∀ x ∈ constructsOf content, x.first = index →
      ∀ line, x.IsReadFrom content line .function →
        (∃ above, (∀ d ∈ above, d.line ≤ index) ∧ (∀ d ∈ x.found, d.line = index + 1) ∧
          declarations content = above ++ x.found ++
            declarationsFrom content (Text.lines content) 0
              ((Text.lines content).drop (index + 1)) (index + 1)
              (textBefore (Text.lines content) (index + 1)).length) ∧
        ∀ next below construct, index < next → (Text.lines content)[next]? = some below →
          classify? (trim below) = some construct →
          (∀ k between, index < k → k < next → (Text.lines content)[k]? = some between →
            classify? (trim between) = none) →
          ∃ y ∈ constructsOf content, y.first = next ∧ y.IsReadFrom content below construct := by
  have hblock : functionBlock content (Text.lines content) index
      = ⟨(Text.lines content)[index], index⟩ := by
    rw [functionBlock_eq hindex, functionBlockAt_unfinished hbody,
      List.getElem?_eq_getElem hindex]
    rfl
  refine ⟨hblock, ?_, ?_⟩
  · rw [hblock]
    constructor
    · intro hsame
      injection hsame with _ hlast
      omega
    · intro hlast
      have hone : (Text.lines content).drop (index + 1) = [] :=
        List.drop_eq_nil_of_le (Nat.le_of_eq hlast.symm)
      rw [List.drop_eq_getElem_cons hindex, hone, ← hlast]
      rfl
  · rintro x hx rfl line hread
    have hlast := hread.last_eq hbody
    refine ⟨?_, fun next below construct hlt hbelow hbegins hplain => ?_⟩
    · obtain ⟨above, habove, hdeclared⟩ := exists_declarations_above hx
      rw [hlast] at hdeclared
      refine ⟨above, habove, fun d hd => ?_, hdeclared⟩
      have hbounds := (constructsOf_wellPlaced hx).bounds d hd
      omega
    · obtain ⟨above, -, hsplit⟩ := exists_above hx
      rw [hlast] at hsplit
      obtain ⟨y, hy, hfirst, hyread⟩ := exists_first hlt hplain hbelow hbegins
      refine ⟨y, ?_, hfirst, hyread⟩
      rw [hsplit]
      exact List.mem_append_right _ (List.mem_cons_of_mem _ hy)

/-- A function that is still being written, with a variable in its body. -/
def unfinishedFile : Text := "package p\n\nfunc F() \x7b\n\tvar x = 1\n"

theorem unfinished_unfinishedFile : Unfinished unfinishedFile 2 := by
  refine ⟨_, 20, tokens_bare (by decide), ?_⟩
  let code : List (Nat × Char) :=
    codeFrom 11 (("func F() \x7b\n\tvar x = 1\n" : Text).map Token.code)
  refine ⟨code.take 9, code.drop 10, by decide, by decide, ?_, fun p' q hgroup => ?_, ?_⟩
  · rw [← opensType_iff_keywordBefore]
    decide
  · have hmem := (mem_groups_iff (p := 0)).2 hgroup
    cases (show groupsFrom braces 0 0 (code.take 9) = [] by decide) ▸ hmem
  · have hopen : ∀ n < (code.drop 10).length + 1,
        0 < depthAfter braces 1 ((code.drop 10).take n) := by decide
    intro init hinit
    rw [List.prefix_iff_eq_take.1 hinit]
    exact hopen init.length (Nat.lt_succ_of_le hinit.length_le)

/-- The function has its first line only, and the variable in its body is read as one of the
package. -/
theorem functionBlock_unfinishedFile :
    2 < (Text.lines unfinishedFile).length ∧ Unfinished unfinishedFile 2 ∧
      functionBlock unfinishedFile (Text.lines unfinishedFile) 2 = ⟨"func F() \x7b", 2⟩ ∧
      (∃ y ∈ constructsOf unfinishedFile, y.first = 3 ∧
        y.IsReadFrom unfinishedFile "\tvar x = 1" .packageVars) ∧
      (structureOf unfinishedFile []).packageVars.map (·.name) = ["x"] := by
  have hindex : 2 < (Text.lines unfinishedFile).length := by decide
  have hplain : ∀ k line, 0 ≤ k → k < 2 → (Text.lines unfinishedFile)[k]? = some line →
      classify? (trim line) = none := by
    intro k line _ hk hline
    have hnone : ∀ k < 2, ((Text.lines unfinishedFile)[k]?.map fun line => classify? (trim line))
        = some none := by decide +kernel
    have hline := hline ▸ hnone k hk
    exact Option.some.inj hline
  obtain ⟨x, hx, hfirst, hread⟩ := exists_first (Nat.zero_le 2) hplain
    (show (Text.lines unfinishedFile)[2]? = some ("func F() \x7b" : Text) by decide)
    (show classify? (trim "func F() \x7b") = some .function by decide +kernel)
  obtain ⟨hblock, -, hpass⟩ := functionBlock_unfinished hindex unfinished_unfinishedFile
  obtain ⟨-, hbelow⟩ := hpass x hx hfirst _ hread
  refine ⟨hindex, unfinished_unfinishedFile, hblock, ?_, by decide +kernel⟩
  refine hbelow 3 _ _ (by decide) (by decide) (by decide +kernel) fun k between hk hlt => ?_
  exact absurd hlt (by omega)

end GoSurvey.Declaration
