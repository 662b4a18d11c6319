/-
Lines as spans of a text. The line of an index goes from one offset to
another, and where it does can be told from the text alone: as many
newlines as the index says stand before it, the last of them directly,
and none stands in it (`IsLineSpan`).

The number of a line is found by counting newlines up to an offset, and
a block is cut out of the list of lines by indices. The spans tie the two
together: the offsets of a span, with that of its newline, are those that
count to its line (`IsLineSpan.lineAt_eq_iff`), and the lines from one to
another are the text from the start of one span to the end of the other
(`IsLineSpan.linesText_eq`). So the block of a function is a piece of the
text that begins and ends with a line.
-/
import GoSurvey.Proofs.Declaration.Extent

namespace GoSurvey.Source

open Text

variable {content : Text} {index start stop : Nat}

/-- The line of an index goes from one offset to another: as many newlines as the index says stand
before it, the last of them directly, none stands in it, and behind it the text ends or a newline
stands. -/
structure IsLineSpan (content : Text) (index start stop : Nat) : Prop where
  le : start ≤ stop
  le_length : stop ≤ content.length
  number : (content.take start).count newline = index
  begins : ∀ k, start = k + 1 → content[k]? = some newline
  inside : newline ∉ slice content start stop
  ends : stop < content.length → content[stop]? = some newline

-- ==================================================== lines have spans

/-- A text is what stands before a line, the line, and what is behind it. -/
theorem exists_around_line {line : Text} (hline : (Text.lines content)[index]? = some line) :
    ∃ more, content = textBefore (Text.lines content) index ++ (line ++ more) ∧
      ∀ c ∈ more.head?, c = newline := by
  have hindex : index < (Text.lines content).length := (List.getElem?_eq_some_iff.1 hline).1
  have hle : index ≤ (Text.lines content).length - 1 := by omega
  obtain ⟨more, hmore, hnewline⟩ := linesText_begins hline hle
  have happend := textBefore_append hindex
  rw [joinLines_lines, ← linesText_to_end, hmore] at happend
  exact ⟨more, happend.symm, hnewline⟩

/-- A line stands behind what is before it. -/
theorem isLineSpan_textBefore {line : Text} (hline : (Text.lines content)[index]? = some line) :
    IsLineSpan content index (textBefore (Text.lines content) index).length
        ((textBefore (Text.lines content) index).length + line.length) ∧
      slice content (textBefore (Text.lines content) index).length
        ((textBefore (Text.lines content) index).length + line.length) = line := by
  have hindex : index < (Text.lines content).length := (List.getElem?_eq_some_iff.1 hline).1
  have hlines : ∀ line ∈ Text.lines content, newline ∉ line := fun _ => not_newline_of_mem_lines
  have hcount := count_textBefore hlines (Nat.le_of_lt hindex)
  have hstart := textBefore_start (Text.lines content) index
  have hplain := hlines line (List.mem_of_getElem? hline)
  obtain ⟨more, hcontent, hmore⟩ := exists_around_line hline
  generalize textBefore (Text.lines content) index = before at hcount hstart hcontent ⊢
  have hslice : slice content before.length (before.length + line.length) = line := by
    rw [hcontent, slice_append]
  refine ⟨⟨Nat.le_add_right _ _, ?_, ?_, fun k hk => ?_, by rwa [hslice], fun hlt => ?_⟩, hslice⟩
  · rw [hcontent, List.length_append, List.length_append]
    omega
  · rw [hcontent, List.take_left, hcount]
  · rcases hstart with hnil | hlast
    · rw [hnil] at hk
      cases hk
    · rw [List.getLast?_eq_getElem?, hk, Nat.add_sub_cancel] at hlast
      rw [hcontent, List.getElem?_append_left (by omega), hlast]
  · rw [hcontent, List.getElem?_append_right (by omega), Nat.add_sub_cancel_left,
      List.getElem?_append_right (Nat.le_refl _), Nat.sub_self, ← List.head?_eq_getElem?]
    cases more with
    | nil =>
        rw [hcontent, List.append_nil, List.length_append] at hlt
        exact absurd hlt (Nat.lt_irrefl _)
    | cons c more => exact congrArg some (hmore c rfl)

-- ================================================= offsets and their lines

/-- Up to an offset of a line, or of its newline, as many newlines stand as before the line. -/
theorem IsLineSpan.count_take (h : IsLineSpan content index start stop) {offset : Nat}
    (hstart : start ≤ offset) (hstop : offset ≤ stop) :
    (content.take offset).count newline = index := by
  have hpart : slice content start offset <+: slice content start stop := by
    unfold slice
    rw [List.drop_take, List.drop_take]
    exact List.take_prefix_take_left (by omega)
  have hnone : (slice content start offset).count newline = 0 :=
    List.count_eq_zero.2 fun hmem => h.inside (hpart.subset hmem)
  have hsplit : content.take offset = content.take start ++ slice content start offset := by
    have htake := List.take_append_drop start (content.take offset)
    rw [List.take_take, Nat.min_eq_left hstart] at htake
    exact htake.symm
  rw [hsplit, List.count_append, hnone, h.number, Nat.add_zero]

/-- A newline among the characters up to an offset counts. -/
theorem count_take_lt {k offset : Nat} (hnewline : content[k]? = some newline) (hlt : k < offset) :
    (content.take k).count newline < (content.take offset).count newline := by
  have hnext : (content.take (k + 1)).count newline = (content.take k).count newline + 1 := by
    rw [List.take_add_one, hnewline, List.count_append]
    rfl
  have hle : (content.take (k + 1)).count newline ≤ (content.take offset).count newline :=
    (List.take_prefix_take_left hlt).sublist.count_le newline
  omega

/-- The offsets that count to a line are those from its start to its end, where its newline is. -/
theorem IsLineSpan.lineAt_eq_iff (h : IsLineSpan content index start stop) {offset : Nat}
    (hoffset : offset ≤ content.length) :
    lineAt content offset = index + 1 ↔ start ≤ offset ∧ offset ≤ stop := by
  unfold lineAt
  rw [Nat.add_right_cancel_iff]
  constructor
  · intro hcount
    constructor
    · apply Nat.le_of_not_lt
      intro hlt
      obtain ⟨k, rfl⟩ : ∃ k, start = k + 1 := ⟨start - 1, by omega⟩
      -- The newline directly before the line does not stand before the offset.
      have hbefore : (content.take k).count newline < (content.take (k + 1)).count newline :=
        count_take_lt (h.begins k rfl) (Nat.lt_succ_self k)
      have hle : (content.take offset).count newline ≤ (content.take k).count newline :=
        (List.take_prefix_take_left (Nat.le_of_lt_succ hlt)).sublist.count_le newline
      have hnumber := h.number
      omega
    · apply Nat.le_of_not_lt
      intro hlt
      have hbehind := count_take_lt (h.ends (by omega)) hlt
      have hend := h.count_take h.le (Nat.le_refl stop)
      omega
  · rintro ⟨hstart, hstop⟩
    exact h.count_take hstart hstop

/-- A line has one span. -/
theorem IsLineSpan.unique (h : IsLineSpan content index start stop) {start' stop' : Nat}
    (h' : IsLineSpan content index start' stop') : start = start' ∧ stop = stop' := by
  have hle := h.le
  have hle' := h'.le
  have hlength := h.le_length
  have hlength' := h'.le_length
  have hstart := (h'.lineAt_eq_iff (by omega)).1
    ((h.lineAt_eq_iff (by omega)).2 ⟨Nat.le_refl start, hle⟩)
  have hstop := (h'.lineAt_eq_iff (by omega)).1
    ((h.lineAt_eq_iff (by omega)).2 ⟨hle, Nat.le_refl stop⟩)
  have hstart' := (h.lineAt_eq_iff (by omega)).1
    ((h'.lineAt_eq_iff (by omega)).2 ⟨Nat.le_refl start', hle'⟩)
  have hstop' := (h.lineAt_eq_iff (by omega)).1
    ((h'.lineAt_eq_iff (by omega)).2 ⟨hle', Nat.le_refl stop'⟩)
  omega

theorem length_lineOffsets (lines : List Text) : (lineOffsets lines).length = lines.length := by
  have hlength : ∀ offset, (lineOffsetsFrom offset lines).length = lines.length := by
    induction lines with
    | nil => exact fun _ => rfl
    | cons line rest ih => exact fun offset => congrArg (· + 1) (ih _)
  exact hlength 0

/-- Lines that the text has are those that have a span, and are what stands in it. -/
theorem lines_getElem?_eq_some_iff {line : Text} :
    (Text.lines content)[index]? = some line ↔
      ∃ start stop, IsLineSpan content index start stop ∧ slice content start stop = line := by
  constructor
  · intro hline
    exact ⟨_, _, isLineSpan_textBefore hline⟩
  · rintro ⟨start, stop, hspan, rfl⟩
    have hindex : index < (Text.lines content).length := by
      have hle := (List.take_prefix start content).sublist.count_le newline
      rw [hspan.number] at hle
      rw [length_lines]
      omega
    have hline := List.getElem?_eq_getElem hindex
    obtain ⟨hspan', hslice⟩ := isLineSpan_textBefore hline
    obtain ⟨rfl, rfl⟩ := hspan.unique hspan'
    rw [hline, hslice]

/-- The offset that is computed for a line is where it starts. -/
theorem IsLineSpan.lineOffsets_eq (h : IsLineSpan content index start stop) :
    (lineOffsets (Text.lines content))[index]? = some start := by
  have hline := lines_getElem?_eq_some_iff.2 ⟨start, stop, h, rfl⟩
  obtain ⟨rfl, -⟩ := h.unique (isLineSpan_textBefore hline).1
  exact lineOffsets_getElem? (List.getElem?_eq_some_iff.1 hline).1

-- ======================================================== runs of lines

/-- The lines from one to another are the text from the start of the first to the end of the
last. -/
theorem IsLineSpan.linesText_eq {first last start' stop' : Nat}
    (hfirst : IsLineSpan content first start stop) (hlast : IsLineSpan content last start' stop')
    (hle : first ≤ last) :
    linesText (Text.lines content) first last = slice content start stop' := by
  have hline := lines_getElem?_eq_some_iff.2 ⟨start, stop, hfirst, rfl⟩
  have hline' := lines_getElem?_eq_some_iff.2 ⟨start', stop', hlast, rfl⟩
  obtain ⟨rfl, -⟩ := hfirst.unique (isLineSpan_textBefore hline).1
  obtain ⟨rfl, hstop⟩ := hlast.unique (isLineSpan_textBefore hline').1
  obtain ⟨more, hcontent, -⟩ := exists_around_line hline'
  have hbefore := textBefore_linesText hle (List.getElem?_eq_some_iff.1 hline').1
  rw [textBefore_succ hline', ← List.append_assoc] at hbefore
  have hrun := List.append_cancel_right hbefore
  have hlength := congrArg List.length hrun
  rw [List.length_append, ← hstop, List.length_append] at hlength
  have hwhole : content = textBefore (Text.lines content) first
      ++ (linesText (Text.lines content) first last ++ more) := by
    rw [← List.append_assoc, ← hrun, List.append_assoc]
    exact hcontent
  have hslice := slice_append (textBefore (Text.lines content) first)
    (linesText (Text.lines content) first last) more
  rw [← hwhole, ← hlength] at hslice
  exact hslice.symm

end GoSurvey.Source

namespace GoSurvey.Declaration

open Text Source

/-- The computed offsets are those at which the lines of a text start, an offset counts to the line
in which it or its newline stands, and so the block of a function goes from the start of its line to
the end of that line or of a later one. -/
theorem functionBlock_lineSpans (content : Text) :
    (lineOffsets (Text.lines content)).length = (Text.lines content).length ∧
    (∀ index line, (Text.lines content)[index]? = some line ↔
      ∃ start stop, IsLineSpan content index start stop ∧ slice content start stop = line) ∧
    (∀ index start stop, IsLineSpan content index start stop →
      (lineOffsets (Text.lines content))[index]? = some start ∧
        lineAt content start = index + 1) ∧
    (∀ offset, offset ≤ content.length →
      (∃ start stop, IsLineSpan content (lineAt content offset - 1) start stop) ∧
        ∀ index start stop, IsLineSpan content index start stop →
          (start ≤ offset ∧ offset ≤ stop ↔ index = lineAt content offset - 1)) ∧
    ∀ index, index < (Text.lines content).length →
      index ≤ (functionBlock content (Text.lines content) index).endIndex ∧
      (functionBlock content (Text.lines content) index).endIndex < (Text.lines content).length ∧
      ∃ start stop start' stop', IsLineSpan content index start stop ∧
        IsLineSpan content (functionBlock content (Text.lines content) index).endIndex start'
          stop' ∧
        (functionBlock content (Text.lines content) index).content = slice content start stop' := by
  refine ⟨length_lineOffsets _, fun index line => lines_getElem?_eq_some_iff, ?_, ?_, ?_⟩
  · intro index start stop hspan
    exact ⟨hspan.lineOffsets_eq, congrArg (· + 1) hspan.number⟩
  · intro offset hoffset
    have hpos : lineAt content offset = lineAt content offset - 1 + 1 := rfl
    have hlt : lineAt content offset - 1 < (Text.lines content).length :=
      lineAt_le_length content offset
    refine ⟨⟨_, _, (isLineSpan_textBefore (List.getElem?_eq_getElem hlt)).1⟩, ?_⟩
    intro index start stop hspan
    rw [← hspan.lineAt_eq_iff hoffset]
    omega
  · intro index hindex
    obtain ⟨hle, hlt, hcontent⟩ := functionBlockAt_extent hindex
    rw [functionBlock_eq hindex]
    have hfirst := (isLineSpan_textBefore (List.getElem?_eq_getElem hindex)).1
    have hlast := (isLineSpan_textBefore (List.getElem?_eq_getElem hlt)).1
    exact ⟨hle, hlt, _, _, _, _, hfirst, hlast, hcontent.trans (hfirst.linesText_eq hlast hle)⟩

/-- A file with one function, which ends with a newline and so with an empty line. -/
def shortFunction : Text := "package p\n\nfunc f() \x7b\n\tg()\n\x7d\n"

theorem isLineSpan_shortFunction : IsLineSpan shortFunction 2 11 21 ∧
    IsLineSpan shortFunction 4 27 28 ∧ IsLineSpan shortFunction 5 29 29 := by
  have hbegins : ∀ {start j : Nat}, start = j + 1 → shortFunction[j]? = some newline →
      ∀ k, start = k + 1 → shortFunction[k]? = some newline := by
    rintro start j rfl hj k hk
    obtain rfl : j = k := by omega
    exact hj
  exact ⟨⟨by decide, by decide, by decide, hbegins rfl (by decide), by decide, fun _ => by decide⟩,
    ⟨by decide, by decide, by decide, hbegins rfl (by decide), by decide, fun _ => by decide⟩,
    ⟨by decide, by decide, by decide, hbegins rfl (by decide), by decide,
      fun h => absurd h (by decide)⟩⟩

/-- The newline behind the line of the function counts to that line, the end of the text to the
empty line, and the block goes from the one line to that of the closing brace. -/
theorem functionBlock_lineSpans_shortFunction :
    (lineOffsets (Text.lines shortFunction))[2]? = some 11 ∧
      21 ≤ shortFunction.length ∧ 2 = lineAt shortFunction 21 - 1 ∧
      29 ≤ shortFunction.length ∧ 5 = lineAt shortFunction 29 - 1 ∧
      2 < (Text.lines shortFunction).length ∧
      (functionBlock shortFunction (Text.lines shortFunction) 2).endIndex = 4 ∧
      (functionBlock shortFunction (Text.lines shortFunction) 2).content
        = slice shortFunction 11 28 := by
  obtain ⟨hfirst, hlast, hempty⟩ := isLineSpan_shortFunction
  have hindex : 2 < (Text.lines shortFunction).length := by decide
  have hnewline : 21 ≤ shortFunction.length := by decide
  have hend : 29 ≤ shortFunction.length := by decide
  have hclosed : (functionBlock shortFunction (Text.lines shortFunction) 2).endIndex = 4 := by
    decide +kernel
  obtain ⟨-, -, hstarts, hoffsets, hblock⟩ := functionBlock_lineSpans shortFunction
  obtain ⟨-, -, start, stop, start', stop', hstart, hstop, hcontent⟩ := hblock 2 hindex
  rw [hclosed] at hstop
  obtain ⟨rfl, -⟩ := hfirst.unique hstart
  obtain ⟨-, rfl⟩ := hlast.unique hstop
  exact ⟨(hstarts 2 11 21 hfirst).1, hnewline,
    ((hoffsets 21 hnewline).2 2 11 21 hfirst).1 ⟨by decide, by decide⟩, hend,
    ((hoffsets 29 hend).2 5 29 29 hempty).1 ⟨by decide, by decide⟩, hindex, hclosed, hcontent⟩

end GoSurvey.Declaration
