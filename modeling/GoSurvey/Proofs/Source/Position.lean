/-
Lines by their indices and offsets. What stands before the line of an
index is `textBefore`, and it ties the three together: its length is the
offset at which the line starts, it holds as many newlines as the index
says, and the text is what is before a line followed by the lines from
there on (`textBefore_append`).
-/
import GoSurvey.Proofs.Text.Pieces
import GoSurvey.Source.Block
import GoSurvey.Source.Position

namespace GoSurvey.Source

open Text

/-- The text before the line of an index. -/
def textBefore (lines : List Text) (index : Nat) : Text :=
  (lines.take index).flatMap (· ++ [newline])

variable {lines : List Text} {index : Nat}

theorem joinLines_cons (line : Text) (hne : lines ≠ []) :
    joinLines (line :: lines) = line ++ newline :: joinLines lines := by
  cases lines with
  | nil => exact absurd rfl hne
  | cons next rest => simp [joinLines, join]

/-- The lines, each with its newline, are their text with one more. -/
theorem flatMap_newline {lines : List Text} (hne : lines ≠ []) :
    lines.flatMap (· ++ [newline]) = joinLines lines ++ [newline] := by
  induction lines with
  | nil => exact absurd rfl hne
  | cons line rest ih =>
      rw [List.flatMap_cons]
      cases rest with
      | nil => simp [joinLines, join]
      | cons next rest =>
          rw [ih (List.cons_ne_nil _ _), joinLines_cons line (List.cons_ne_nil _ _)]
          simp

theorem textBefore_succ {line : Text} (hline : lines[index]? = some line) :
    textBefore lines (index + 1) = textBefore lines index ++ line ++ [newline] := by
  simp [textBefore, List.take_add_one, hline]

theorem length_textBefore_succ {line : Text} (hline : lines[index]? = some line) :
    (textBefore lines (index + 1)).length = (textBefore lines index).length + line.length + 1 := by
  rw [textBefore_succ hline, List.length_append, List.length_append]
  rfl

/-- The first of the lines from one on is that line, and the next ones follow it. -/
theorem of_cons_eq_drop {line : Text} {rest : List Text} (h : line :: rest = lines.drop index) :
    lines[index]? = some line ∧ rest = lines.drop (index + 1) := by
  constructor
  · rw [← List.head?_drop, ← h]
    rfl
  · rw [← List.tail_drop, ← h]
    rfl

theorem textBefore_append (hindex : index < lines.length) :
    textBefore lines index ++ joinLines (lines.drop index) = joinLines lines := by
  induction index generalizing lines with
  | zero => rfl
  | succ index ih =>
      cases lines with
      | nil => cases hindex
      | cons line rest =>
          rw [List.length_cons, Nat.add_lt_add_iff_right] at hindex
          have hne : rest ≠ [] := List.length_pos_iff.1 (by omega)
          rw [joinLines_cons line hne, ← ih hindex]
          simp [textBefore]

theorem count_textBefore (hlines : ∀ line ∈ lines, newline ∉ line) (hindex : index ≤ lines.length) :
    (textBefore lines index).count newline = index := by
  induction index generalizing lines with
  | zero => rfl
  | succ index ih =>
      cases lines with
      | nil => cases hindex
      | cons line rest =>
          have hline := List.count_eq_zero.2 (hlines line List.mem_cons_self)
          have hrest := ih (fun l hl => hlines l (List.mem_cons_of_mem line hl))
            (Nat.le_of_succ_le_succ hindex)
          simp only [textBefore] at hrest
          simp [textBefore, hline, hrest]

theorem lineOffsetsFrom_getElem? (offset : Nat) (hindex : index < lines.length) :
    (lineOffsetsFrom offset lines)[index]? = some (offset + (textBefore lines index).length) := by
  induction lines generalizing offset index with
  | nil => cases hindex
  | cons line rest ih =>
      cases index with
      | zero => rfl
      | succ index =>
          rw [lineOffsetsFrom, List.getElem?_cons_succ,
            ih (offset + line.length + 1) (Nat.lt_of_succ_lt_succ hindex)]
          simp only [textBefore, List.take_succ_cons, List.flatMap_cons, List.length_append,
            List.length_singleton]
          congr 1
          omega

/-- A line starts where the text before it ends. -/
theorem lineOffsets_getElem? (hindex : index < lines.length) :
    (lineOffsets lines)[index]? = some (textBefore lines index).length := by
  unfold lineOffsets
  rw [lineOffsetsFrom_getElem? 0 hindex, Nat.zero_add]

/-- A line begins at the start or after a newline. -/
theorem textBefore_start (lines : List Text) (index : Nat) :
    textBefore lines index = [] ∨ (textBefore lines index).getLast? = some newline := by
  unfold textBefore
  rcases List.eq_nil_or_concat (lines.take index) with hnil | ⟨init, last, hlast⟩
  · exact .inl (by rw [hnil]; rfl)
  · rw [hlast, List.concat_eq_append, List.flatMap_append, List.flatMap_singleton,
      ← List.append_assoc]
    exact .inr List.getLast?_concat

/-- The first lines end where a newline or nothing follows. -/
theorem joinLines_take (lines : List Text) (n : Nat) :
    ∃ rest, joinLines lines = joinLines (lines.take (n + 1)) ++ rest ∧
      ∀ c ∈ rest.head?, c = newline := by
  induction n generalizing lines with
  | zero =>
      cases lines with
      | nil => exact ⟨[], rfl, by simp⟩
      | cons line lines =>
          cases lines with
          | nil => exact ⟨[], (List.append_nil line).symm, by simp⟩
          | cons next rest =>
              refine ⟨_, joinLines_cons line (List.cons_ne_nil next rest), fun c hc => ?_⟩
              exact (Option.some.inj hc).symm
  | succ n ih =>
      cases lines with
      | nil => exact ⟨[], rfl, by simp⟩
      | cons line lines =>
          cases lines with
          | nil => exact ⟨[], (List.append_nil line).symm, by simp⟩
          | cons next lines =>
              obtain ⟨rest, hrest, hhead⟩ := ih (next :: lines)
              refine ⟨rest, ?_, hhead⟩
              rw [List.take_succ_cons, joinLines_cons line (List.cons_ne_nil next lines), hrest,
                List.take_succ_cons, joinLines_cons line (List.cons_ne_nil next _)]
              simp

-- ============================================ the lines of one content

variable {content : Text}

theorem joinLines_lines (content : Text) : joinLines (Text.lines content) = content :=
  join_splitOn newline content

theorem not_newline_of_mem_lines {line : Text} (h : line ∈ Text.lines content) : newline ∉ line :=
  not_mem_of_mem_splitOn h

theorem length_lines (content : Text) :
    (Text.lines content).length = content.count newline + 1 :=
  length_splitOn content

theorem textBefore_begins (hindex : index < (Text.lines content).length) :
    textBefore (Text.lines content) index <+: content := by
  have h := textBefore_append hindex
  rw [joinLines_lines] at h
  exact ⟨_, h⟩

/-- The line of an offset that is not before the start of a line is that line or a later one. -/
theorem le_lineAt {offset : Nat} (hindex : index < (Text.lines content).length)
    (hoffset : (textBefore (Text.lines content) index).length ≤ offset) :
    index ≤ lineAt content offset - 1 := by
  have hprefix : textBefore (Text.lines content) index <+: content.take offset :=
    List.prefix_take_iff.2 ⟨textBefore_begins hindex, hoffset⟩
  have hcount := hprefix.sublist.count_le newline
  rw [count_textBefore (fun _ => not_newline_of_mem_lines) (Nat.le_of_lt hindex)] at hcount
  unfold lineAt
  omega

theorem lineAt_le_length (content : Text) (offset : Nat) :
    lineAt content offset ≤ (Text.lines content).length := by
  have hcount := (List.take_prefix offset content).sublist.count_le newline
  rw [length_lines]
  unfold lineAt
  omega

/-- Two lines of one number begin at the same place. -/
theorem eq_of_count_newline {v w : Text} (hv : v <+: content) (hw : w <+: content)
    (hvstart : v = [] ∨ v.getLast? = some newline) (hwstart : w = [] ∨ w.getLast? = some newline)
    (hcount : v.count newline = w.count newline) : v = w := by
  have hshort : ∀ {a b : Text}, a <+: b → b = [] ∨ b.getLast? = some newline →
      a.count newline = b.count newline → a = b := by
    rintro a b ⟨u, rfl⟩ hstart hcount
    rw [List.count_append, Nat.left_eq_add, List.count_eq_zero] at hcount
    cases hlast : u.getLast? with
    | none => rw [List.getLast?_eq_none_iff.1 hlast, List.append_nil]
    | some c =>
        have hmem := List.mem_of_getLast? hlast
        rcases hstart with hnil | hstart
        · rw [(List.append_eq_nil_iff.1 hnil).2] at hmem
          cases hmem
        · rw [List.getLast?_append, hlast, Option.some_or] at hstart
          obtain rfl := Option.some.inj hstart
          exact absurd hmem hcount
  rcases List.prefix_or_prefix_of_prefix hv hw with h | h
  · exact hshort h hwstart hcount
  · exact (hshort h hvstart hcount.symm).symm

/-- A text is cut out at its place. -/
theorem slice_append (u v w : Text) : slice (u ++ (v ++ w)) u.length (u.length + v.length) = v := by
  unfold slice
  rw [← List.append_assoc, ← List.length_append, List.take_left, List.drop_left]

/-- What stands behind a character is cut out behind it. -/
theorem slice_after_cons (u : Text) (c : Char) (v w : Text) :
    slice (u ++ c :: (v ++ w)) (u.length + 1) (u.length + 1 + v.length) = v := by
  have hsplit : u ++ c :: (v ++ w) = (u ++ [c]) ++ (v ++ w) := by simp
  have hlength : (u ++ [c]).length = u.length + 1 := List.length_append
  rw [hsplit, ← hlength, slice_append]

-- ==================================================== runs of lines

theorem linesText_self {line : Text} (hline : lines[index]? = some line) :
    linesText lines index index = line := by
  have hlt : index < lines.length := (List.getElem?_eq_some_iff.1 hline).1
  have hdrop : (lines.take (index + 1)).drop index = [line] := by
    rw [List.take_add_one, hline, List.drop_append, List.length_take_of_le (Nat.le_of_lt hlt)]
    simp
  unfold linesText
  rw [hdrop]
  rfl

/-- The lines from one on begin with that line, and if there are more a newline follows it. -/
theorem joinLines_take_begins {line : Text} (hline : lines[index]? = some line) (n : Nat) :
    ∃ more, joinLines ((lines.drop index).take (n + 1)) = line ++ more ∧
      ∀ c ∈ more.head?, c = newline := by
  obtain ⟨hlt, rfl⟩ := List.getElem?_eq_some_iff.1 hline
  rw [List.drop_eq_getElem_cons hlt, List.take_succ_cons]
  cases (lines.drop (index + 1)).take n with
  | nil => exact ⟨[], (List.append_nil _).symm, fun c hc => by cases hc⟩
  | cons next rest =>
      refine ⟨newline :: joinLines (next :: rest), joinLines_cons _ (List.cons_ne_nil _ _), ?_⟩
      rintro c ⟨⟩
      rfl

theorem linesText_to_end (lines : List Text) (index : Nat) :
    linesText lines index (lines.length - 1) = joinLines (lines.drop index) := by
  unfold linesText
  rw [List.take_of_length_le (by omega)]

/-- The lines from one index to another are as many lines from the first one on. -/
theorem linesText_eq_take {first last : Nat} (hle : first ≤ last) :
    linesText lines first last = joinLines ((lines.drop first).take (last - first + 1)) := by
  unfold linesText
  rw [List.drop_take]
  congr 2
  omega

/-- Before a line stand the lines up to the one before it, and a newline. -/
theorem textBefore_linesText {first last : Nat} (hle : first ≤ last) (hlt : last < lines.length) :
    textBefore lines (last + 1)
      = textBefore lines first ++ (linesText lines first last ++ [newline]) := by
  have hne : (lines.take (last + 1)).drop first ≠ [] := by
    apply List.ne_nil_of_length_pos
    rw [List.length_drop, List.length_take_of_le hlt]
    omega
  have hfirst : (lines.take (last + 1)).take first = lines.take first := by
    rw [List.take_take, Nat.min_eq_left (by omega)]
  unfold textBefore linesText
  rw [← flatMap_newline hne, ← List.flatMap_append, ← hfirst, List.take_append_drop]

theorem linesText_begins {line : Text} {last : Nat} (hline : lines[index]? = some line)
    (hle : index ≤ last) :
    ∃ more, linesText lines index last = line ++ more ∧ ∀ c ∈ more.head?, c = newline := by
  rw [linesText_eq_take hle]
  exact joinLines_take_begins hline _

end GoSurvey.Source
