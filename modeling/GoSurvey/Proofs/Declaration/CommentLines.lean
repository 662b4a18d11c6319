/-
The comments of a file and the lines they stand in. Comments are found in
a pass over the lines (`commentsFrom_linePass`): a line that begins with
one of the two marks is taken as a comment, a block comment together with
the lines up to the one that closes it, and every other line is passed
over. So the comments stand apart, and a line that begins with a mark is
the line of a comment or lies in a block comment that began above.

The text of a comment is the source between its marks. The line in which
it begins is trimmed before it is looked at, so the blanks at its end are
missing in the text even where the comment goes on in the next line.
-/
import GoSurvey.Declaration.Comment
import GoSurvey.Proofs.Source.LinePass
import GoSurvey.Proofs.Source.Position
import GoSurvey.Proofs.Text.Part
import GoSurvey.Proofs.Text.Squeeze

namespace GoSurvey.Declaration

open Text Source

variable {lines : List Text} {index first last : Nat} {c : Comment} {form : CommentForm}

-- ======================================================== statements

/-- The mark that opens a comment. -/
def markOf : CommentForm → Text
  | .line => lineMark
  | .block => blockMark

/-- What ends a comment. -/
def endMarkOf : CommentForm → Text
  | .line => [newline]
  | .block => blockEndMark

/-- Whether a comment that begins in the line of one index is ended in that of another. A line
comment is ended in its own line, a block comment in a line with the closing mark, which in its own
line has to stand behind the mark that opens it. -/
def EndsIn (lines : List Text) : CommentForm → (first index : Nat) → Prop
  | .line, first, index => index = first
  | .block, first, index => ∃ line, lines[index]? = some line ∧
      blockEndMark <:+: if index = first then (trim line).drop 2 else line

/-- A comment goes from the line that begins with its mark to the first line in which it is ended,
or to the last line of the file. -/
structure Spans (lines : List Text) (c : Comment) (first last : Nat) : Prop where
  number : c.line = first + 1
  opens : ∃ line, lines[first]? = some line ∧ markOf c.form <+: trim line
  le : first ≤ last
  lt : last < lines.length
  goesOn : ∀ k, first ≤ k → k < last → ¬EndsIn lines c.form first k
  ends : EndsIn lines c.form first last ∨ last + 1 = lines.length

/-- The source between the marks of a comment that begins in the line of an index. -/
def IsSource (lines : List Text) (form : CommentForm) (first : Nat) (source : Text) : Prop :=
  ∃ lead behind, (∀ c ∈ lead, isBlank c = true ∧ c ≠ newline) ∧
    joinLines (lines.drop first) = lead ++ (markOf form ++ behind) ∧
    source = before (endMarkOf form) behind

/-- A text without the blanks at the end of its first line. -/
def trimFirstLine (t : Text) : Text :=
  trimEnd (before [newline] t) ++ t.drop (before [newline] t).length

/-- A comment with its lines and with its text. -/
structure IsComment (lines : List Text) (first : Nat) (c : Comment) (last : Nat) : Prop where
  spans : Spans lines c first last
  text : ∃ source, IsSource lines c.form first source ∧ c.text = trim (trimFirstLine source)

/-- The line of an index begins with no mark. -/
def OpensNone (lines : List Text) (index : Nat) : Prop :=
  ∀ line form, lines[index]? = some line → ¬markOf form <+: trim line

-- ============================================================= marks

/-- A line holds a comment and nothing before it; the text is what follows the mark. -/
def IsLineComment (line text : Text) : Prop :=
  ∃ behind, trim line = lineMark ++ behind ∧ text = trim behind

theorem lineComment?_eq_some_iff {line text : Text} :
    lineComment? line = some text ↔ IsLineComment line text := by
  unfold lineComment? IsLineComment
  dsimp only
  split
  · next hmark =>
    obtain ⟨behind, hbehind⟩ := startsWith_iff.1 hmark
    rw [← hbehind, Option.some.injEq]
    constructor
    · rintro rfl
      exact ⟨behind, rfl, rfl⟩
    · rintro ⟨behind', hsame, rfl⟩
      rw [hsame]
      rfl
  · next hmark =>
    refine iff_of_false (fun h => by cases h) ?_
    rintro ⟨behind, hbehind, -⟩
    exact hmark (startsWith_iff.2 ⟨behind, hbehind.symm⟩)

theorem lineComment?_eq_none_iff {line : Text} :
    lineComment? line = none ↔ ¬lineMark <+: trim line := by
  unfold lineComment?
  dsimp only
  rw [← startsWith_iff]
  split
  · next hmark => exact iff_of_false (fun h => by cases h) fun h => h hmark
  · next hmark => exact iff_of_true rfl hmark

theorem length_markOf (form : CommentForm) : (markOf form).length = 2 := by
  cases form <;> rfl

/-- A line begins with one mark. -/
theorem markOf_unique {form' : CommentForm} {t : Text} (h : markOf form <+: t)
    (h' : markOf form' <+: t) : form = form' := by
  have hsame : markOf form = markOf form' := by
    refine (List.prefix_of_prefix_length_le h h' ?_).eq_of_length ?_ <;>
      simp only [length_markOf, Nat.le_refl]
  cases form <;> cases form' <;> first | rfl | exact absurd hsame (by decide)

/-- A comment ends in one line. -/
theorem Spans.unique {first' last' : Nat} (h : Spans lines c first last)
    (h' : Spans lines c first' last') : first = first' ∧ last = last' := by
  have hnumber := h.number.symm.trans h'.number
  obtain rfl := Nat.succ.inj hnumber
  have hnot : ∀ {k l : Nat}, Spans lines c first k → Spans lines c first l → ¬k < l := by
    intro k l hk hl hlt
    rcases hk.ends with hends | hends
    · exact hl.goesOn k hk.le hlt hends
    · have hlast := hl.lt
      omega
  exact ⟨rfl, Nat.le_antisymm (Nat.le_of_not_lt (hnot h' h)) (Nat.le_of_not_lt (hnot h h'))⟩

/-- Only a block comment has more lines than one. -/
theorem Spans.block_of_lt (h : Spans lines c first last) (hlt : first < last) :
    c.form = .block := by
  cases hform : c.form with
  | block => rfl
  | line =>
      have hnot := h.goesOn first (Nat.le_refl first) hlt
      rw [hform] at hnot
      exact absurd rfl hnot

theorem takesLines_isComment : TakesLines (IsComment lines) where
  le h := h.spans.le
  same h h' := h.spans.unique h'.spans

-- ========================================================== the source

theorem joinLines_flatMap (line : Text) (rest : List Text) :
    joinLines (line :: rest) = line ++ rest.flatMap (newline :: ·) :=
  join_around [newline] [] line rest

theorem head?_flatMap (rest : List Text) :
    ∀ c ∈ (rest.flatMap (newline :: ·)).head?, c = newline := by
  cases rest with
  | nil => exact fun c hc => by cases hc
  | cons line rest => exact fun c hc => (Option.some.inj hc).symm

theorem trimEnd_append_blanks (t : Text) {trail : Text} (htrail : ∀ c ∈ trail, isBlank c = true) :
    trimEnd (t ++ trail) = trimEnd t := by
  unfold trimEnd dropEndWhile
  rw [List.reverse_append,
    List.dropWhile_append_of_pos fun c hc => htrail c (List.mem_reverse.1 hc)]

theorem trim_trimEnd (t : Text) : trim (trimEnd t) = trim t := by
  obtain ⟨trail, ht, htrail⟩ := exists_dropEndWhile_eq isBlank t
  have hblanks := trim_append_blanks (trimEnd t) htrail
  unfold trimEnd at hblanks ⊢
  rw [← hblanks, ← ht]

theorem trimFirstLine_append {t tail : Text} (ht : newline ∉ t)
    (htail : ∀ c ∈ tail.head?, c = newline) : trimFirstLine (t ++ tail) = trimEnd t ++ tail := by
  have hline : before [newline] (t ++ tail) = t := by
    rw [before_singleton, takeWhile_append_of_stop, ← before_singleton, before_of_not_mem ht]
    intro c hc
    rw [htail c hc]
    exact bne_self_eq_false newline
  unfold trimFirstLine
  rw [hline, List.drop_left]

/-- A mark is looked for behind the lines in which it is not. -/
theorem before_lines {mark t : Text} {inner : List Text} (hne : mark ≠ []) (hmark : newline ∉ mark)
    (ht : ¬mark <:+: t) (hinner : ∀ line ∈ inner, ¬mark <:+: line) (u : Text) :
    before mark (t ++ (inner ++ [u]).flatMap (newline :: ·))
      = t ++ (inner ++ [before mark u]).flatMap (newline :: ·) := by
  induction inner generalizing t with
  | nil =>
      simp only [List.nil_append, List.flatMap_singleton]
      exact before_next_line hne hmark ht u
  | cons line inner ih =>
      simp only [List.cons_append, List.flatMap_cons]
      rw [before_next_line hne hmark ht,
        ih (hinner line List.mem_cons_self) fun l hl => hinner l (List.mem_cons_of_mem _ hl)]

theorem before_all_lines {mark t : Text} {inner : List Text} (hne : mark ≠ [])
    (hmark : newline ∉ mark) (ht : ¬mark <:+: t) (hinner : ∀ line ∈ inner, ¬mark <:+: line) :
    before mark (t ++ inner.flatMap (newline :: ·)) = t ++ inner.flatMap (newline :: ·) := by
  rcases List.eq_nil_or_concat inner with rfl | ⟨init, last, rfl⟩
  · rw [List.flatMap_nil, List.append_nil]
    exact before_of_not_isInfix ht
  · rw [List.concat_eq_append] at hinner ⊢
    rw [before_lines hne hmark ht (fun l hl => hinner l (List.mem_append_left _ hl)),
      before_of_not_isInfix (hinner last (List.mem_append_right _ List.mem_cons_self))]

/-- What a comment holds of the line in which it begins. The line itself has blanks around it. -/
structure Opened (form : CommentForm) (line opened lead trail : Text) : Prop where
  parts : line = lead ++ (markOf form ++ (opened ++ trail))
  trimmed : trim line = markOf form ++ opened
  lead_blank : ∀ c ∈ lead, isBlank c = true ∧ c ≠ newline
  trail_blank : ∀ c ∈ trail, isBlank c = true
  one_line : newline ∉ opened ++ trail
  visible : trimEnd opened = opened

theorem exists_opened {line : Text} (hnewline : newline ∉ line)
    (hmark : markOf form <+: trim line) :
    ∃ opened lead trail, Opened form line opened lead trail := by
  obtain ⟨opened, hopened⟩ := hmark
  obtain ⟨lead, trail, hparts, hlead, htrail⟩ := exists_trim_eq line
  rw [← hopened, List.append_assoc] at hparts
  have hmem : ∀ {c : Char}, c ∈ lead ∨ c ∈ opened ++ trail → c ≠ newline := by
    rintro c hc rfl
    apply hnewline
    rw [hparts]
    rcases hc with hc | hc
    · exact List.mem_append_left _ hc
    · exact List.mem_append_right _ (List.mem_append_right _ hc)
  refine ⟨opened, lead, trail, hparts, hopened.symm, fun c hc => ⟨hlead c hc, hmem (.inl hc)⟩,
    htrail, fun hc => hmem (.inr hc) rfl, dropEndWhile_eq_self fun c hc => ?_⟩
  refine (trimmed_trim line).last c ?_
  rw [← hopened, List.getLast?_append, Option.mem_def.1 hc]
  rfl

namespace Opened

variable {line opened lead trail : Text}

/-- The source of a comment begins with what its first line holds. -/
theorem isSource (h : Opened form line opened lead trail) {rest : List Text}
    (hrest : line :: rest = lines.drop index) :
    IsSource lines form index
      (before (endMarkOf form) (opened ++ trail ++ rest.flatMap (newline :: ·))) := by
  refine ⟨lead, _, h.lead_blank, ?_, rfl⟩
  rw [← hrest, joinLines_flatMap, h.parts]
  simp only [List.append_assoc]

theorem drop_trim (h : Opened form line opened lead trail) : (trim line).drop 2 = opened := by
  rw [h.trimmed, ← length_markOf form, List.drop_left]

/-- The text of a comment, where its source goes on in other lines as in its first one. -/
theorem trimFirstLine_source (h : Opened form line opened lead trail) {tail : Text}
    (htail : ∀ c ∈ tail.head?, c = newline) :
    trimFirstLine (opened ++ trail ++ tail) = opened ++ tail := by
  rw [trimFirstLine_append h.one_line htail, trimEnd_append_blanks opened h.trail_blank, h.visible]

/-- The closing mark stands in the line of the comment as in what the comment holds of it. -/
theorem infix_iff (h : Opened form line opened lead trail) :
    blockEndMark <:+: opened ++ trail ↔ blockEndMark <:+: opened := by
  refine infix_append_blanks (by decide) ?_ h.trail_blank
  rintro c ⟨⟩
  rfl

end Opened

-- ======================================================= kinds of comments

variable {line : Text} {rest : List Text}

theorem isComment_line (hnewline : newline ∉ line) (hrest : line :: rest = lines.drop index)
    (hmark : markOf .line <+: trim line) :
    IsComment lines index ⟨trim ((trim line).drop 2), index + 1, .line⟩ index := by
  obtain ⟨hline, -⟩ := of_cons_eq_drop hrest
  have hindex : index < lines.length := (List.getElem?_eq_some_iff.1 hline).1
  obtain ⟨opened, lead, trail, h⟩ := exists_opened hnewline hmark
  have hnil : ∀ c ∈ ([] : Text).head?, c = newline := fun c hc => by cases hc
  refine ⟨⟨rfl, ⟨line, hline, hmark⟩, Nat.le_refl _, hindex, fun k hle hlt => by omega, .inl rfl⟩,
    _, h.isSource hrest, ?_⟩
  have hsource : before (endMarkOf .line) (opened ++ trail ++ rest.flatMap (newline :: ·))
      = opened ++ trail ++ [] := by
    unfold endMarkOf
    rw [before_singleton, takeWhile_append_of_stop, ← before_singleton, List.append_nil,
      before_of_not_mem h.one_line]
    intro c hc
    rw [head?_flatMap rest c hc]
    exact bne_self_eq_false newline
  rw [hsource, h.trimFirstLine_source hnil, List.append_nil, h.drop_trim]

/-- A block comment with the closing mark in its own line. -/
theorem isComment_ownLine {inside after : Text} (hnewline : newline ∉ line)
    (hrest : line :: rest = lines.drop index) (hmark : markOf .block <+: trim line)
    (hcut : cut? blockEndMark ((trim line).drop 2) = some (inside, after)) :
    IsComment lines index (blockComment (index + 1) [inside]) index := by
  obtain ⟨hline, -⟩ := of_cons_eq_drop hrest
  have hindex : index < lines.length := (List.getElem?_eq_some_iff.1 hline).1
  obtain ⟨opened, lead, trail, h⟩ := exists_opened hnewline hmark
  have hparts := cut?_eq_some hcut
  rw [h.drop_trim] at hcut hparts
  have hinside : before blockEndMark opened = inside := before_of_cut? hcut
  have hends : blockEndMark <:+: opened := ⟨inside, after, by rw [hparts, List.append_assoc]⟩
  have hnil : ∀ c ∈ ([] : Text).head?, c = newline := fun c hc => by cases hc
  have hplain : newline ∉ inside := by
    intro hmem
    apply h.one_line
    rw [hparts]
    exact List.mem_append_left _ (List.mem_append_left _ hmem)
  refine ⟨⟨rfl, ⟨line, hline, hmark⟩, Nat.le_refl _, hindex, fun k hle hlt => by omega,
    .inl ⟨line, hline, ?_⟩⟩, _, h.isSource hrest, ?_⟩
  · rw [if_pos rfl, h.drop_trim]
    exact hends
  · have hsource : before (endMarkOf .block) (opened ++ trail ++ rest.flatMap (newline :: ·))
        = inside ++ [] := by
      rw [List.append_nil, ← hinside]
      exact (before_append_of_isInfix (h.infix_iff.2 hends) _).trans
        (before_append_of_isInfix hends _)
    rw [hsource, trimFirstLine_append hplain hnil, List.append_nil, trim_trimEnd]
    rfl

/-- A block comment that goes on below its line. What it holds of the lines below is `body`. -/
theorem isComment_below {body : List Text} (hnewline : newline ∉ line)
    (hrest : line :: rest = lines.drop index) (hmark : markOf .block <+: trim line)
    (hopen : ¬blockEndMark <:+: (trim line).drop 2)
    (hbody : ∀ t, ¬blockEndMark <:+: t → before blockEndMark (t ++ rest.flatMap (newline :: ·))
      = t ++ body.flatMap (newline :: ·))
    (hle : index ≤ last) (hlt : last < lines.length)
    (hbelow : ∀ l ∈ rest.take (last - (index + 1)), ¬blockEndMark <:+: l)
    (hends : EndsIn lines .block index last ∨ last + 1 = lines.length) :
    IsComment lines index (blockComment (index + 1) (body.reverse ++ [(trim line).drop 2]))
      last := by
  obtain ⟨hline, hnext⟩ := of_cons_eq_drop hrest
  obtain ⟨opened, lead, trail, h⟩ := exists_opened hnewline hmark
  rw [h.drop_trim] at hopen ⊢
  refine ⟨⟨rfl, ⟨line, hline, hmark⟩, hle, hlt, ?_, hends⟩, _, h.isSource hrest, ?_⟩
  · rintro k hlow hhigh ⟨l, hl, hclosed⟩
    rcases Nat.eq_or_lt_of_le hlow with rfl | hlow
    · obtain rfl := Option.some.inj (hline.symm.trans hl)
      rw [if_pos rfl, h.drop_trim] at hclosed
      exact hopen hclosed
    · rw [if_neg (Nat.ne_of_gt hlow)] at hclosed
      have hthere : (rest.take (last - (index + 1)))[k - (index + 1)]? = some l := by
        rw [List.getElem?_take_of_lt (by omega), hnext, List.getElem?_drop,
          Nat.add_sub_cancel' hlow, hl]
      exact hbelow l (List.mem_of_getElem? hthere) hclosed
  · have hsource : before (endMarkOf .block) (opened ++ trail ++ rest.flatMap (newline :: ·))
        = opened ++ trail ++ body.flatMap (newline :: ·) :=
      hbody _ fun hclosed => hopen (h.infix_iff.1 hclosed)
    rw [hsource, h.trimFirstLine_source (head?_flatMap body), ← joinLines_flatMap]
    unfold blockComment
    rw [List.reverse_append, List.reverse_reverse]
    rfl

/-- A block comment without the closing mark goes on to the last line. -/
theorem isComment_toEnd (hnewline : newline ∉ line) (hrest : line :: rest = lines.drop index)
    (hmark : markOf .block <+: trim line) (hopen : ¬blockEndMark <:+: (trim line).drop 2)
    (hnone : ∀ l ∈ rest, ¬blockEndMark <:+: l) :
    IsComment lines index (blockComment (index + 1) (rest.reverse ++ [(trim line).drop 2]))
      (lines.length - 1) := by
  obtain ⟨hline, -⟩ := of_cons_eq_drop hrest
  have hindex : index < lines.length := (List.getElem?_eq_some_iff.1 hline).1
  refine isComment_below hnewline hrest hmark hopen (fun t ht => ?_) (by omega) (by omega)
    (fun l hl => hnone l (List.mem_of_mem_take hl)) (.inr (by omega))
  exact before_all_lines (by decide) (by decide) ht hnone

/-- A block comment goes on to the first line with the closing mark. -/
theorem isComment_closedBelow {inner after : List Text} {closing : Text} (hnewline : newline ∉ line)
    (hrest : line :: (inner ++ closing :: after) = lines.drop index)
    (hmark : markOf .block <+: trim line) (hopen : ¬blockEndMark <:+: (trim line).drop 2)
    (hnone : ∀ l ∈ inner, ¬blockEndMark <:+: l) (hends : blockEndMark <:+: closing) :
    IsComment lines index (blockComment (index + 1)
      ((inner ++ [before blockEndMark closing]).reverse ++ [(trim line).drop 2]))
      (index + 1 + inner.length) := by
  obtain ⟨-, hnext⟩ := of_cons_eq_drop hrest
  have hlast : lines[index + 1 + inner.length]? = some closing := by
    rw [← List.getElem?_drop, ← hnext, List.getElem?_append_right (Nat.le_refl _), Nat.sub_self,
      List.getElem?_cons_zero]
  refine isComment_below hnewline hrest hmark hopen (fun t ht => ?_) (by omega)
    (List.getElem?_eq_some_iff.1 hlast).1 (fun l hl => ?_) (.inl ⟨closing, hlast, ?_⟩)
  · have hlines := before_lines (by decide) (by decide) ht hnone
      (closing ++ after.flatMap (newline :: ·))
    rw [before_append_of_isInfix hends] at hlines
    rw [← hlines, List.flatMap_append, List.flatMap_append, List.flatMap_cons,
      List.flatMap_singleton, List.cons_append]
  · rw [Nat.add_sub_cancel_left, List.take_left] at hl
    exact hnone l hl
  · rwa [if_neg (by omega)]

-- =========================================================== the pass

/-- In a block comment lines without the closing mark are collected. -/
theorem commentsFrom_inside {inner : List Text} (hinner : ∀ l ∈ inner, ¬blockEndMark <:+: l)
    (rest : List Text) (number start : Nat) (parts : List Text) :
    commentsFrom (inner ++ rest) number (some (start, parts))
      = commentsFrom rest (number + inner.length) (some (start, inner.reverse ++ parts)) := by
  induction inner generalizing number parts with
  | nil => rfl
  | cons line inner ih =>
      have hnone := cut?_eq_none_iff.2 (hinner line List.mem_cons_self)
      rw [List.cons_append, commentsFrom, hnone]
      dsimp only
      rw [ih fun l hl => hinner l (List.mem_cons_of_mem _ hl), List.length_cons,
        List.reverse_cons, List.append_assoc, Nat.add_assoc, Nat.add_comm 1]
      rfl

/-- A block comment that is not closed in its own line is taken with the lines below up to the first
one that closes it, or to the last one. -/
theorem linePass_below (hlines : ∀ line ∈ lines, newline ∉ line)
    (hrest : line :: rest = lines.drop index) (hmark : markOf .block <+: trim line)
    (hopen : ¬blockEndMark <:+: (trim line).drop 2)
    (hlater : ∀ k, LinePass (OpensNone lines) (IsComment lines) lines.length (index + 1 + k)
      (commentsFrom (rest.drop k) (index + 1 + k + 1) none)) :
    LinePass (OpensNone lines) (IsComment lines) lines.length index
      (commentsFrom rest (index + 1 + 1) (some (index + 1, [(trim line).drop 2]))) := by
  obtain ⟨hline, -⟩ := of_cons_eq_drop hrest
  have hindex : index < lines.length := (List.getElem?_eq_some_iff.1 hline).1
  have hnewline := hlines line (List.mem_of_getElem? hline)
  cases hfind : rest.find? (contains blockEndMark ·) with
  | none =>
      have hnone : ∀ l ∈ rest, ¬blockEndMark <:+: l := by
        intro l hl hclosed
        exact List.find?_eq_none.1 hfind l hl (contains_iff.2 hclosed)
      have hinside := commentsFrom_inside hnone [] (index + 1 + 1) (index + 1) [(trim line).drop 2]
      rw [List.append_nil] at hinside
      rw [hinside, commentsFrom]
      exact .take hindex (isComment_toEnd hnewline hrest hmark hopen hnone) (.done (by omega))
  | some closing =>
      obtain ⟨hclosing, inner, after, rfl, hinner⟩ := List.find?_eq_some_iff_append.1 hfind
      have hnone : ∀ l ∈ inner, ¬blockEndMark <:+: l := by
        intro l hl hclosed
        have hnot := hinner l hl
        rw [contains_iff.2 hclosed] at hnot
        cases hnot
      have hends : blockEndMark <:+: closing := contains_iff.1 hclosing
      have hcomment := isComment_closedBelow hnewline hrest hmark hopen hnone hends
      obtain ⟨⟨inside, behind⟩, hcut⟩ :=
        Option.ne_none_iff_exists'.1 fun h => cut?_eq_none_iff.1 h hends
      have hbehind := hlater (inner.length + 1)
      rw [← Nat.add_assoc, List.drop_append, List.drop_of_length_le (Nat.le_succ _),
        Nat.add_sub_cancel_left] at hbehind
      rw [before_of_cut? hcut, List.reverse_append] at hcomment
      rw [commentsFrom_inside hnone, commentsFrom, hcut]
      dsimp only
      rw [Nat.add_right_comm (index + 1) 1]
      exact .take hindex hcomment hbehind

/-- The comments in lines are what the pass over them takes. -/
theorem commentsFrom_linePass (hlines : ∀ line ∈ lines, newline ∉ line)
    (hrest : rest = lines.drop index) :
    LinePass (OpensNone lines) (IsComment lines) lines.length index
      (commentsFrom rest (index + 1) none) := by
  -- A block comment may take any number of lines, so the induction is on how many are left.
  induction hlength : rest.length using Nat.strong_induction_on generalizing rest index with
  | _ n ih =>
      cases rest with
      | nil => exact .done (List.drop_eq_nil_iff.1 hrest.symm)
      | cons line rest =>
          obtain ⟨hline, hnext⟩ := of_cons_eq_drop hrest
          have hindex : index < lines.length := (List.getElem?_eq_some_iff.1 hline).1
          have hnewline := hlines line (List.mem_of_getElem? hline)
          have hlater : ∀ k, LinePass (OpensNone lines) (IsComment lines) lines.length
              (index + 1 + k) (commentsFrom (rest.drop k) (index + 1 + k + 1) none) := by
            intro k
            refine ih (rest.drop k).length ?_ ?_ rfl
            · rw [List.length_cons] at hlength
              rw [List.length_drop]
              omega
            · rw [hnext, List.drop_drop]
          rw [commentsFrom]
          dsimp only
          split
          · next text htext =>
            obtain ⟨behind, hmark, rfl⟩ := lineComment?_eq_some_iff.1 htext
            have hcomment := isComment_line hnewline hrest ⟨behind, hmark.symm⟩
            rw [hmark] at hcomment
            exact .take hindex hcomment (hlater 0)
          · next hnone =>
            split
            · next hstarts =>
              have hmark : markOf .block <+: trim line := startsWith_iff.1 hstarts
              split
              · next inside after hcut =>
                exact .take hindex (isComment_ownLine hnewline hrest hmark hcut) (hlater 0)
              · next hcut =>
                exact linePass_below hlines hrest hmark (cut?_eq_none_iff.1 hcut) hlater
            · next hstarts =>
              refine .skip hindex ?_ (hlater 0)
              intro line' form hline'
              obtain rfl := Option.some.inj (hline.symm.trans hline')
              cases form with
              | line => exact lineComment?_eq_none_iff.1 hnone
              | block => exact fun hmark => hstarts (startsWith_iff.2 hmark)

theorem comments_linePass (content : Text) :
    LinePass (OpensNone (Text.lines content)) (IsComment (Text.lines content))
      (Text.lines content).length 0 (comments content) :=
  commentsFrom_linePass (fun _ => not_newline_of_mem_lines) List.drop_zero.symm

-- ======================================================= the main result

/-- Comments stand in lines one below the other, each from a line that begins with its mark to the
line in which it is ended, and no two of them have a line in common. A line that begins with a mark
is the line of the comment with that mark, or it lies in a block comment that begins above it. The
text of a comment is the source between its marks, without the blanks at the end of its first line,
trimmed. -/
theorem comments_eachLine (content : Text) :
    (comments content).Pairwise (fun c d => c.line < d.line) ∧
    (∀ c ∈ comments content, ∃ first last source, Spans (Text.lines content) c first last ∧
      IsSource (Text.lines content) c.form first source ∧
      c.text = trim (trimFirstLine source)) ∧
    (comments content).Pairwise (fun c d => ∀ first last first' last',
      Spans (Text.lines content) c first last → Spans (Text.lines content) d first' last' →
      last < first') ∧
    ∀ index line form, (Text.lines content)[index]? = some line → markOf form <+: trim line →
      ∃ c ∈ comments content, ∃ first last, Spans (Text.lines content) c first last ∧
        (first = index ∧ c.form = form ∨ first < index ∧ index ≤ last ∧ c.form = .block) ∧
        ∀ d ∈ comments content, ∀ first' last', Spans (Text.lines content) d first' last' →
          first' ≤ index → index ≤ last' → d = c := by
  have hpass := comments_linePass content
  have htaken : ∀ c ∈ comments content,
      ∃ first last, IsComment (Text.lines content) first c last := by
    intro c hc
    obtain ⟨first, last, h, -⟩ := hpass.exists_takes takesLines_isComment c hc
    exact ⟨first, last, h⟩
  have hapart := hpass.pairwise takesLines_isComment
  refine ⟨hapart.imp_of_mem fun {c d} hc hd hlt => ?_, fun c hc => ?_,
    hapart.imp_of_mem fun {c d} hc hd hlt => ?_, fun index line form hline hmark => ?_⟩
  · obtain ⟨first, last, h⟩ := htaken c hc
    obtain ⟨first', last', h'⟩ := htaken d hd
    have hbelow := hlt first last first' last' h h'
    have hle := h.spans.le
    rw [h.spans.number, h'.spans.number]
    omega
  · obtain ⟨first, last, hspans, source, hsource, htext⟩ := htaken c hc
    exact ⟨first, last, source, hspans, hsource, htext⟩
  · intro first last first' last' hspans hspans'
    obtain ⟨k, l, h⟩ := htaken c hc
    obtain ⟨k', l', h'⟩ := htaken d hd
    obtain ⟨rfl, rfl⟩ := h.spans.unique hspans
    obtain ⟨rfl, rfl⟩ := h'.spans.unique hspans'
    exact hlt k l k' l' h h'
  · have hindex : index < (Text.lines content).length := (List.getElem?_eq_some_iff.1 hline).1
    have hopens : ¬OpensNone (Text.lines content) index := fun hnone => hnone line form hline hmark
    obtain ⟨c, ⟨hc, first, last, h, hle, hlast⟩, hone⟩ :=
      hpass.existsUnique_covers takesLines_isComment (Nat.zero_le index) hindex hopens
    refine ⟨c, hc, first, last, h.spans, ?_, fun d hd first' last' hspans hlow hhigh => ?_⟩
    · rcases Nat.eq_or_lt_of_le hle with rfl | hlt
      · obtain ⟨line', hline', hmark'⟩ := h.spans.opens
        obtain rfl := Option.some.inj (hline.symm.trans hline')
        exact .inl ⟨rfl, markOf_unique hmark' hmark⟩
      · exact .inr ⟨hlt, hlast, h.spans.block_of_lt (Nat.lt_of_lt_of_le hlt hlast)⟩
    · obtain ⟨k, l, h'⟩ := htaken d hd
      obtain ⟨rfl, rfl⟩ := h'.spans.unique hspans
      exact hone d hd ⟨k, l, h', hlow, hhigh⟩

/-- A file with comments that end in their own line, below it, and not at all. -/
def commentedFile : Text := "/* a  \n * b */\n  // c\n/* d */ x\n\t/*/ e\n// f\n"

/-- The last line with a mark lies in the comment that is never closed. -/
theorem comments_eachLine_commentedFile :
    comments commentedFile = [⟨"a\n * b", 1, .block⟩, ⟨"c", 3, .line⟩, ⟨"d", 4, .block⟩,
        ⟨"/ e\n// f", 5, .block⟩] ∧
      (Text.lines commentedFile)[5]? = some "// f".toList ∧
      markOf .line <+: trim "// f".toList ∧
      ∃ c ∈ comments commentedFile, ∃ first last, Spans (Text.lines commentedFile) c first last ∧
        (first = 5 ∧ c.form = .line ∨ first < 5 ∧ 5 ≤ last ∧ c.form = .block) ∧
        ∀ d ∈ comments commentedFile, ∀ first' last',
          Spans (Text.lines commentedFile) d first' last' → first' ≤ 5 → 5 ≤ last' → d = c := by
  have hline : (Text.lines commentedFile)[5]? = some "// f".toList := by decide +kernel
  have hmark : markOf .line <+: trim "// f".toList := by decide +kernel
  obtain ⟨-, -, -, hlines⟩ := comments_eachLine commentedFile
  exact ⟨by decide +kernel, hline, hmark, hlines 5 "// f".toList .line hline hmark⟩

/-- A comment with blanks at the end of its first line. -/
def spacedComment : Text := "/* a  \n b */"

/-- The text of a comment is not always the source between its marks, trimmed: the blanks at the end
of its first line are missing. -/
theorem text_spacedComment : ¬∀ c ∈ comments spacedComment, ∀ first source, c.line = first + 1 →
    IsSource (Text.lines spacedComment) c.form first source → c.text = trim source := by
  intro h
  have hc : (⟨"a\n b", 1, .block⟩ : Comment) ∈ comments spacedComment := by decide +kernel
  have hsource : IsSource (Text.lines spacedComment) .block 0 " a  \n b " :=
    ⟨[], " a  \n b */", fun c hc => absurd hc List.not_mem_nil, by decide +kernel,
      by decide +kernel⟩
  exact absurd (h _ hc 0 " a  \n b " rfl hsource) (by decide +kernel)

end GoSurvey.Declaration
