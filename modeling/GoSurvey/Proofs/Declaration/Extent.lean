/-
How far constructs extend. A construct that begins in a line of the file
ends in that line or a later one of the file, whichever of the three ways
its end is found: by feeding lines (`blockEnd_bounds`), in the whole
content (`functionBlockAt_extent`), or as the end of a group
(`groupSpecs_extent`). What a group declares stands in its lines, one
spec below the other.
-/
import GoSurvey.Declaration.Structure
import GoSurvey.Proofs.Source.Matching
import GoSurvey.Proofs.Source.Position

namespace GoSurvey.Source

open Text

variable {d : Delimiters}

-- ======================================================= fed by lines

theorem closedAt_bounds {firstOnly : Bool} {lines : List Text} {index last : Nat}
    {s : DelimiterScan} (h : blockEndFrom d firstOnly lines index s = .closedAt last) :
    index ≤ last ∧ last < index + lines.length := by
  induction lines generalizing firstOnly index s with
  | nil =>
      rw [blockEndFrom] at h
      split at h <;> cases h
  | cons line rest ih =>
      simp only [blockEndFrom] at h
      rw [List.length_cons]
      split at h
      · cases h
      · split at h
        · injection h with h
          omega
        · have hlater := ih h
          omega

theorem extractBlock?_extent {sameLine : Bool} {lines : List Text} {index : Nat} {b : Block}
    (h : extractBlock? d sameLine lines index = some b) :
    index ≤ b.endIndex ∧ b.endIndex < lines.length := by
  obtain ⟨line, hline, rfl⟩ := Option.map_eq_some_iff.1 h
  have hlt : index < lines.length := (List.getElem?_eq_some_iff.1 hline).1
  split
  · next last hclosed =>
    have hbounds := closedAt_bounds hclosed
    rw [List.length_drop] at hbounds
    dsimp only
    omega
  · dsimp only
    omega
  · exact ⟨Nat.le_refl _, hlt⟩

theorem exists_extractBlock? (sameLine : Bool) {lines : List Text} {index : Nat}
    (hindex : index < lines.length) : ∃ b, extractBlock? d sameLine lines index = some b := by
  unfold extractBlock?
  rw [List.getElem?_eq_getElem hindex]
  exact ⟨_, rfl⟩

/-- The text of a block begins with the line at which the block starts. -/
theorem extractBlock?_begins {lines : List Text} {index : Nat} {line : Text} {b : Block}
    (hline : lines[index]? = some line) (h : extractBlock? d true lines index = some b) :
    ∃ more, b.content = line ++ more ∧ ∀ c ∈ more.head?, c = newline := by
  have hextent := extractBlock?_extent h
  obtain ⟨first, hfirst, rfl⟩ := Option.map_eq_some_iff.1 h
  obtain rfl : line = first := Option.some.inj (hline.symm.trans hfirst)
  split at hextent
  · exact linesText_begins hline hextent.1
  · dsimp only at hextent ⊢
    rw [← linesText_to_end]
    exact linesText_begins hline hextent.1
  · exact ⟨[], (List.append_nil line).symm, fun c hc => by cases hc⟩

theorem blockEnd_eq {lines : List Text} {index : Nat} {b : Block}
    (hb : extractBlock? d true lines index = some b) : blockEnd d lines index = b.endIndex := by
  unfold blockEnd
  rw [hb]
  rfl

theorem blockEnd_bounds (d : Delimiters) {lines : List Text} {index : Nat}
    (hindex : index < lines.length) :
    index ≤ blockEnd d lines index ∧ blockEnd d lines index < lines.length := by
  obtain ⟨b, hb⟩ := exists_extractBlock? (d := d) true hindex
  rw [blockEnd_eq hb]
  exact extractBlock?_extent hb

-- ================================================== in the whole text

/-- What is found first is an opener. -/
theorem opener_of_findMatching? (hne : d.opener ≠ d.closer) {text : Text} {start p q : Nat}
    (h : findMatching? d text start = some (p, q)) : text[p]? = some d.opener := by
  obtain ⟨tokens, htokens⟩ := exists_tokens (text.drop start)
  rw [findMatching?_eq_countFrom htokens] at h
  obtain ⟨hopener, -⟩ := (countFrom_eq_some_iff hne (codeFrom_pairwise start tokens).1).1 h
  obtain ⟨-, rest, -, hle, -, hplace⟩ := exists_from_place htokens hopener.mem
  rw [List.drop_drop, Nat.add_sub_cancel' hle] at hplace
  rw [← List.head?_drop]
  generalize text.drop p = after at hplace
  cases hplace with
  | cons => rfl

/-- What opens the body of a function is an opener with its closer, and it does not stand before
the place from which it was looked for. -/
theorem of_findBodyOpenFrom {text : Text} {start fuel position opener : Nat}
    (h : findBodyOpenFrom text start fuel position = some opener) :
    position ≤ opener ∧ ∃ closer, findMatching? braces text opener = some (opener, closer) := by
  induction fuel generalizing position with
  | zero => cases h
  | succ fuel ih =>
      rw [findBodyOpenFrom] at h
      cases hfound : findMatching? braces text position with
      | none =>
          rw [hfound] at h
          cases h
      | some span =>
          obtain ⟨p, q⟩ := span
          have hbounds := findMatching?_bounds braces_ne hfound
          rw [hfound] at h
          dsimp only at h
          split at h
          · obtain ⟨hle, hcloser⟩ := ih h
            exact ⟨by omega, hcloser⟩
          · injection h with h
            subst h
            exact ⟨hbounds.1, q, findMatching?_from_opener braces_ne hfound⟩

theorem le_of_findBodyOpenFrom {text : Text} {start fuel position opener : Nat}
    (h : findBodyOpenFrom text start fuel position = some opener) : position ≤ opener :=
  (of_findBodyOpenFrom h).1

/-- The body of a function opens with a brace. -/
theorem brace_of_findBodyOpenFrom {text : Text} {start fuel position opener : Nat}
    (h : findBodyOpenFrom text start fuel position = some opener) : text[opener]? = some '{' := by
  obtain ⟨-, closer, hcloser⟩ := of_findBodyOpenFrom h
  exact opener_of_findMatching? braces_ne hcloser

end GoSurvey.Source

namespace GoSurvey.Declaration

open Text Source

/-- A block that begins in a line has the lines up to its last one, which the file has. -/
structure HasExtent (lines : List Text) (index : Nat) (b : Block) : Prop where
  le : index ≤ b.endIndex
  lt : b.endIndex < lines.length
  content : b.content = linesText lines index b.endIndex

theorem functionBlock_eq {content : Text} {index : Nat}
    (hindex : index < (Text.lines content).length) :
    functionBlock content (Text.lines content) index
      = functionBlockAt content (Text.lines content)
          (textBefore (Text.lines content) index).length index := by
  unfold functionBlock
  rw [lineOffsets_getElem? hindex]
  rfl

theorem functionBlockAt_extent {content : Text} {index : Nat}
    (hindex : index < (Text.lines content).length) :
    HasExtent (Text.lines content) index
      (functionBlockAt content (Text.lines content) (textBefore (Text.lines content) index).length
        index) := by
  have hline : (Text.lines content)[index]? = some (Text.lines content)[index] :=
    List.getElem?_eq_getElem hindex
  have hsingle : HasExtent (Text.lines content) index
      ⟨(Text.lines content)[index]?.getD [], index⟩ := by
    refine ⟨Nat.le_refl _, hindex, ?_⟩
    rw [linesText_self hline, hline]
    rfl
  unfold functionBlockAt
  dsimp only
  split
  · exact hsingle
  · next opener hopener =>
    split
    · exact hsingle
    · split
      · refine ⟨by dsimp only; omega, by dsimp only; omega, ?_⟩
        exact (linesText_to_end _ _).symm
      · next opener' closer hfound =>
        have hle := le_of_findBodyOpenFrom hopener
        have hbounds := findMatching?_bounds braces_ne hfound
        have hlast := lineAt_le_length content closer
        refine ⟨le_lineAt hindex (by omega), ?_, rfl⟩
        have hpos : 0 < (Text.lines content).length := Nat.zero_lt_of_lt hindex
        dsimp only
        omega

-- ============================================================= groups

/-- The lines of specs increase and lie between two lines. -/
structure InLines (specs : List Spec) (first last : Nat) : Prop where
  bounds : ∀ s ∈ specs, first ≤ s.line ∧ s.line ≤ last
  order : specs.Pairwise fun s t => s.line ≤ t.line

theorem inLines_nil (first last : Nat) : InLines [] first last :=
  ⟨fun _ h => absurd h List.not_mem_nil, .nil⟩

theorem InLines.cons {specs : List Spec} {spec : Spec} {first last : Nat}
    (hspec : spec.line = first) (hle : first ≤ last) (h : InLines specs (first + 1) last) :
    InLines (spec :: specs) first last := by
  refine ⟨fun s hs => ?_, List.pairwise_cons.2 ⟨fun s hs => ?_, h.order⟩⟩
  · rcases List.mem_cons.1 hs with rfl | hs
    · omega
    · have hbounds := h.bounds s hs
      omega
  · have hbounds := h.bounds s hs
    omega

theorem InLines.from_next {specs : List Spec} {first last : Nat}
    (h : InLines specs (first + 1) last) : InLines specs first last :=
  ⟨fun s hs => ⟨Nat.le_of_succ_le (h.bounds s hs).1, (h.bounds s hs).2⟩, h.order⟩

theorem specsFrom_inLines (lines : List Text) (last skip index : Nat) (rest : List Text) :
    InLines (specsFrom lines last skip rest index) (index + 1) (index + rest.length) := by
  induction rest generalizing skip index with
  | nil =>
      rw [specsFrom]
      exact inLines_nil _ _
  | cons raw rest ih =>
      have hlength : index + (raw :: rest).length = index + 1 + rest.length := by
        rw [List.length_cons]
        omega
      rw [hlength]
      cases skip with
      | succ skip => exact (ih skip _).from_next
      | zero =>
          simp only [specsFrom]
          split
          · exact inLines_nil _ _
          · split
            · exact (ih 0 _).from_next
            · split
              · exact .cons rfl (by omega) (ih _ _)
              · exact .cons rfl (by omega) (ih 0 _)

theorem inlineSpecs_inLines (number : Nat) (first : Text) :
    InLines (inlineSpecs number first) number number := by
  have hline : ∀ s ∈ inlineSpecs number first, s.line = number := by
    intro s hs
    obtain ⟨part, -, rfl⟩ := List.mem_map.1 hs
    rfl
  refine ⟨fun s hs => ?_, List.pairwise_of_forall_mem_list fun s hs t ht => ?_⟩
  · have hs := hline s hs
    omega
  · have hs := hline s hs
    have ht := hline t ht
    omega

/-- A group ends in its first line or a later one of the file, and its specs stand in its lines. -/
theorem groupSpecs_extent (keyword : Text) {lines : List Text} {index : Nat}
    (hindex : index < lines.length) :
    index ≤ (groupSpecs keyword lines index).2 ∧
      (groupSpecs keyword lines index).2 < lines.length ∧
      InLines (groupSpecs keyword lines index).1 (index + 1)
        ((groupSpecs keyword lines index).2 + 1) := by
  have hbounds := blockEnd_bounds parentheses hindex
  unfold groupSpecs
  dsimp only
  split
  · exact ⟨Nat.le_refl _, hindex, .cons rfl (Nat.le_refl _) (inLines_nil _ _)⟩
  · split
    · dsimp only
      exact ⟨Nat.le_refl _, hindex, inlineSpecs_inLines _ _⟩
    · refine ⟨hbounds.1, hbounds.2, ?_⟩
      have hspecs := (specsFrom_inLines lines (blockEnd parentheses lines index) 0 (index + 1)
        ((lines.take (blockEnd parentheses lines index + 1)).drop (index + 1))).from_next
      rw [List.length_drop, List.length_take_of_le (by omega)] at hspecs
      refine ⟨fun s hs => ?_, hspecs.order⟩
      have hline := hspecs.bounds s hs
      omega

end GoSurvey.Declaration
