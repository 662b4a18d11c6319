/-
The lines of a group of specs. Below the line that opens it, a group is
read in a pass over its lines (`specsFrom_linePass`): blank lines and line
comments are passed over, and whatever other line the pass comes to
begins a spec, which is taken with the block that its first line opens.
A last line that closes the group is not looked at.

So every line of the group that is neither blank nor a comment belongs to
one spec, as its first line or as a later one. A block that is not closed
may go on behind the group; then its spec is the last one, and the group
ends where it ended before.
-/
import GoSurvey.Proofs.Declaration.CommentLines
import GoSurvey.Proofs.Declaration.Located
import Mathlib.Data.List.Forall2

namespace GoSurvey.Declaration

open Text Source Pattern

variable {lines : List Text} {index first last : Nat} {s : Spec}

-- ====================================================== comments above

/-- The longest run of line comments directly above the line of an index has these texts. -/
def IsRunAbove (lines : List Text) (index : Nat) (texts : List Text) : Prop :=
  ∃ above run, lines.take index = above ++ run ∧ List.Forall₂ IsLineComment run texts ∧
    ∀ line ∈ above.getLast?, ¬lineMark <+: trim line

/-- The comments that are collected upwards are those of a run, above which there is none. -/
theorem exists_trailingComments (upwards : List Text) :
    ∃ run above, upwards = run ++ above ∧
      List.Forall₂ IsLineComment run (trailingComments upwards) ∧
      ∀ line ∈ above.head?, ¬lineMark <+: trim line := by
  induction upwards with
  | nil => exact ⟨[], [], rfl, .nil, fun line hline => by cases hline⟩
  | cons line upwards ih =>
      unfold trailingComments
      split
      · next text htext =>
        obtain ⟨run, above, hsplit, hrun, habove⟩ := ih
        refine ⟨line :: run, above, congrArg (line :: ·) hsplit, ?_, habove⟩
        exact .cons (lineComment?_eq_some_iff.1 htext) hrun
      · next hnone =>
        refine ⟨[], line :: upwards, rfl, .nil, ?_⟩
        rintro line ⟨⟩
        exact lineComment?_eq_none_iff.1 hnone

theorem isRunAbove_leadingComments (lines : List Text) (index : Nat) :
    IsRunAbove lines index (leadingComments lines index) := by
  obtain ⟨run, above, hsplit, hrun, habove⟩ := exists_trailingComments (lines.take index).reverse
  refine ⟨above.reverse, run.reverse, ?_, List.forall₂_reverse_iff.2 hrun, ?_⟩
  · rw [← List.reverse_append, ← hsplit, List.reverse_reverse]
  · rw [List.getLast?_reverse]
    exact habove

-- ============================================================== specs

/-- In a line of a group there is no spec where it is blank or a line comment. -/
def HoldsNoSpec (line : Text) : Prop := trim line = [] ∨ lineMark <+: trim line

/-- In the line of an index there is no spec, so the pass over a group passes over it. -/
def NoSpecAt (lines : List Text) (index : Nat) : Prop :=
  ∃ line, lines[index]? = some line ∧ HoldsNoSpec line

/-- The index of the last line of the spec that begins in the line of an index. -/
def specEnd (lines : List Text) (index : Nat) : Nat :=
  match openDelimiters? (trim (lines[index]?.getD [])) with
  | some d => blockEnd d lines index
  | none => index

/-- A spec with its first and its last line. -/
structure IsSpec (lines : List Text) (first : Nat) (s : Spec) (last : Nat) : Prop where
  number : s.line = first + 1
  stands : ∃ line, lines[first]? = some line ∧ ¬HoldsNoSpec line
  ends : last = specEnd lines first
  text : s.text = trim (linesText lines first last)
  comments : s.comments = leadingComments lines first

/-- Where the pass over a group stops: before a last line that closes the group, or else behind the
last line. -/
def groupStop (lines : List Text) (last : Nat) : Nat :=
  if startsWith ")" (trim (lines[last]?.getD [])) then last else last + 1

theorem specEnd_eq {line : Text} (hline : lines[index]? = some line) :
    specEnd lines index = match openDelimiters? (trim line) with
      | some d => blockEnd d lines index
      | none => index := by
  unfold specEnd
  rw [hline]
  rfl

theorem le_specEnd (hindex : index < lines.length) : index ≤ specEnd lines index := by
  rw [specEnd_eq (List.getElem?_eq_getElem hindex)]
  split
  · exact (blockEnd_bounds _ hindex).1
  · exact Nat.le_refl index

/-- A line that begins a spec begins the one with the block that it opens. -/
theorem isSpec_block {line : Text} {d : Delimiters} (hline : lines[index]? = some line)
    (hspec : ¬HoldsNoSpec line) (hd : openDelimiters? (trim line) = some d) :
    IsSpec lines index ⟨index + 1, trim (linesText lines index (blockEnd d lines index)),
      leadingComments lines index⟩ (blockEnd d lines index) := by
  refine ⟨rfl, ⟨line, hline, hspec⟩, ?_, rfl, rfl⟩
  rw [specEnd_eq hline, hd]

/-- A line that opens no block is a spec by itself. -/
theorem isSpec_line {line : Text} (hline : lines[index]? = some line)
    (hspec : ¬HoldsNoSpec line) (hd : openDelimiters? (trim line) = none) :
    IsSpec lines index ⟨index + 1, trim line, leadingComments lines index⟩ index := by
  refine ⟨rfl, ⟨line, hline, hspec⟩, ?_, ?_, rfl⟩
  · rw [specEnd_eq hline, hd]
  · rw [linesText_self hline]

theorem groupStop_le (lines : List Text) (last : Nat) : groupStop lines last ≤ last + 1 := by
  unfold groupStop
  split
  · exact Nat.le_succ last
  · exact Nat.le_refl _

/-- The pass stops at a last line that closes the group. -/
theorem groupStop_eq {line : Text} (hline : lines[last]? = some line)
    (hcloser : startsWith ")" (trim line) = true) : groupStop lines last = last := by
  unfold groupStop
  rw [hline]
  exact if_pos hcloser

/-- The pass looks at all other lines of the group. -/
theorem lt_groupStop {line : Text} (hline : lines[index]? = some line) (hle : index ≤ last)
    (hopen : ¬(index = last ∧ startsWith ")" (trim line) = true)) :
    index < groupStop lines last := by
  unfold groupStop
  split
  · next hcloser =>
    refine Nat.lt_of_le_of_ne hle ?_
    rintro rfl
    rw [hline] at hcloser
    exact hopen ⟨rfl, hcloser⟩
  · omega

theorem takesLines_isSpec : TakesLines (IsSpec lines) where
  le := by
    intro first s last h
    obtain ⟨line, hline, -⟩ := h.stands
    rw [h.ends]
    exact le_specEnd (List.getElem?_eq_some_iff.1 hline).1
  same := by
    intro s first last first' last' h h'
    have hnumber := h.number.symm.trans h'.number
    obtain rfl := Nat.succ.inj hnumber
    exact ⟨rfl, h.ends.trans h'.ends.symm⟩

theorem IsSpec.unique {s' : Spec} {last' : Nat} (h : IsSpec lines first s last)
    (h' : IsSpec lines first s' last') : s = s' ∧ last = last' := by
  obtain ⟨hnumber, -, rfl, htext, hcomments⟩ := h
  obtain ⟨hnumber', -, rfl, htext', hcomments'⟩ := h'
  cases s
  cases s'
  exact ⟨by simp_all, rfl⟩

theorem IsSpec.not_noSpecAt (h : IsSpec lines first s last) : ¬NoSpecAt lines first := by
  rintro ⟨line, hline, hnone⟩
  obtain ⟨line', hline', hspec⟩ := h.stands
  obtain rfl := Option.some.inj (hline.symm.trans hline')
  exact hspec hnone

/-- A spec begins with what its first line holds. -/
theorem IsSpec.begins (h : IsSpec lines first s last) :
    ∃ line, lines[first]? = some line ∧ ¬HoldsNoSpec line ∧ trim line <+: s.text := by
  obtain ⟨line, hline, hspec⟩ := h.stands
  have hne : trim line ≠ [] := fun hnil => hspec (.inl hnil)
  have hle : first ≤ last := takesLines_isSpec.le h
  obtain ⟨more, hmore, -⟩ := linesText_begins hline hle
  obtain ⟨lead, trail, hparts, hlead, -⟩ := exists_trim_eq line
  have htext : s.text = trim (trim line ++ (trail ++ more)) := by
    rw [h.text, hmore, hparts, List.append_assoc, trim_blanks_append hlead, List.append_assoc,
      ← hparts]
  refine ⟨line, hline, hspec, ?_⟩
  rw [htext]
  exact (trimmed_trim line).prefix_trim hne _

-- =========================================================== the pass

/-- What is read from the lines of a group is what a pass takes that goes on behind the lines which
belong to the spec before. -/
theorem specsFrom_linePass {skip : Nat} {rest : List Text} (hlast : last < lines.length)
    (hrest : rest = (lines.take (last + 1)).drop index) :
    LinePass (NoSpecAt lines) (IsSpec lines) (groupStop lines last) (index + skip)
      (specsFrom lines last skip rest index) := by
  have hlength := congrArg List.length hrest
  rw [List.length_drop, List.length_take_of_le hlast] at hlength
  induction rest generalizing skip index with
  | nil =>
      have hstop := groupStop_le lines last
      rw [List.length_nil] at hlength
      rw [specsFrom]
      exact .done (by omega)
  | cons raw rest ih =>
      obtain ⟨hraw, hnext⟩ := of_cons_eq_drop_take hrest
      have hindex : index < lines.length := (List.getElem?_eq_some_iff.1 hraw).1
      rw [List.length_cons] at hlength
      have hlater : ∀ skip, LinePass (NoSpecAt lines) (IsSpec lines) (groupStop lines last)
          (index + 1 + skip) (specsFrom lines last skip rest (index + 1)) :=
        fun skip => ih hnext (by omega)
      cases skip with
      | succ skip =>
          rw [specsFrom, ← Nat.add_assoc, Nat.add_right_comm]
          exact hlater skip
      | zero =>
          simp only [specsFrom, Bool.and_eq_true, decide_eq_true_eq, Bool.or_eq_true,
            List.isEmpty_iff]
          split
          · next hcloses =>
            obtain ⟨rfl, hcloser⟩ := hcloses
            exact .done (Nat.le_of_eq (groupStop_eq hraw hcloser))
          · next hopen =>
            have hlt : index < groupStop lines last := lt_groupStop hraw (by omega) hopen
            split
            · next hnone =>
              rw [startsWith_iff] at hnone
              exact .skip hlt ⟨raw, hraw, hnone⟩ (hlater 0)
            · next hspec =>
              rw [startsWith_iff] at hspec
              split
              · next d hd =>
                have hbehind := hlater (blockEnd d lines index - index)
                have hle := (blockEnd_bounds d hindex).1
                have hnumber : index + 1 + (blockEnd d lines index - index)
                    = blockEnd d lines index + 1 := by omega
                rw [hnumber] at hbehind
                exact .take hlt (isSpec_block hraw hspec hd) hbehind
              · next hd => exact .take hlt (isSpec_line hraw hspec hd) (hlater 0)

-- ==================================================== lines in their specs

/-- The line of an index is the first one of a spec, or it lies below that one in the block which
that one opens. -/
def Spec.Holds (lines : List Text) (s : Spec) (k : Nat) : Prop :=
  s.line = k + 1 ∨ ∃ first line d b, s.line = first + 1 ∧ first < k ∧ lines[first]? = some line ∧
    openDelimiters? (trim line) = some d ∧ extractBlock? d true lines first = some b ∧
    k ≤ b.endIndex

/-- The lines that a spec is taken with are those that it holds. -/
theorem IsSpec.covers_iff (h : IsSpec lines first s last) {k : Nat} :
    Covers (IsSpec lines) s k ↔ s.Holds lines k := by
  obtain ⟨line, hline, -⟩ := h.stands
  have hnumber := h.number
  have hends := h.ends
  rw [specEnd_eq hline] at hends
  constructor
  · rintro ⟨first', last', h', hle, hk⟩
    obtain ⟨rfl, rfl⟩ := takesLines_isSpec.same h h'
    rcases Nat.eq_or_lt_of_le hle with rfl | hlt
    · exact .inl hnumber
    · cases hd : openDelimiters? (trim line) with
      | none =>
          rw [hd] at hends
          dsimp only at hends
          omega
      | some d =>
          obtain ⟨b, hb⟩ :=
            exists_extractBlock? (d := d) true (List.getElem?_eq_some_iff.1 hline).1
          rw [hd] at hends
          dsimp only at hends
          rw [blockEnd_eq hb] at hends
          exact .inr ⟨first, line, d, b, hnumber, hlt, hline, hd, hb, hends ▸ hk⟩
  · rintro (hfirst | ⟨first', line', d, b, hfirst, hlt, hline', hd, hb, hk⟩)
    · obtain rfl : first = k := by omega
      exact ⟨first, last, h, Nat.le_refl _, takesLines_isSpec.le h⟩
    · obtain rfl : first = first' := by omega
      obtain rfl := Option.some.inj (hline.symm.trans hline')
      rw [hd] at hends
      dsimp only at hends
      rw [blockEnd_eq hb] at hends
      exact ⟨first, last, h, Nat.le_of_lt hlt, hends ▸ hk⟩

-- ======================================================= the main result

/-- What is read from a group of several lines is what the pass over the lines below its first one
takes. -/
theorem groupSpecs_linePass {keyword : Text} {start : Nat} {b : Block}
    (hgroup : ((groupOpen keyword).matchStart (trim (lines[start]?.getD []))).isSome = true)
    (hblock : extractBlock? parentheses true lines start = some b) (hmore : start < b.endIndex) :
    ∃ specs, groupSpecs keyword lines start = (specs, b.endIndex) ∧
      LinePass (NoSpecAt lines) (IsSpec lines) (groupStop lines b.endIndex) (start + 1) specs := by
  have hsingle :
      ¬((groupOpen keyword).matchStart (trim (lines[start]?.getD []))).isNone = true := by
    rw [← Option.not_isSome, hgroup]
    exact Bool.false_ne_true
  have hpass : LinePass (NoSpecAt lines) (IsSpec lines) (groupStop lines b.endIndex)
      (start + 1 + 0) _ := specsFrom_linePass (extractBlock?_extent hblock).2 rfl
  refine ⟨_, ?_, hpass⟩
  unfold groupSpecs
  dsimp only
  rw [if_neg hsingle, blockEnd_eq hblock, if_neg (Nat.ne_of_gt hmore)]

/-- A group of several lines is read in a pass over the lines below its first one, which comes to
its end. The specs that it takes stand in lines of the group, one below the other; every line of the
group that is neither blank nor a comment nor the one that closes it belongs to one of them; and
each begins with what its first line holds, with the comments directly above that line. -/
theorem groupSpecs_eachLine {keyword : Text} {start : Nat} {b : Block}
    (hgroup : ((groupOpen keyword).matchStart (trim (lines[start]?.getD []))).isSome = true)
    (hblock : extractBlock? parentheses true lines start = some b) (hmore : start < b.endIndex) :
    ∃ specs, groupSpecs keyword lines start = (specs, b.endIndex) ∧
      (∀ found, LinePass (NoSpecAt lines) (IsSpec lines) (groupStop lines b.endIndex) (start + 1)
        found ↔ found = specs) ∧
      specs.Pairwise (fun s t => s.line < t.line) ∧
      (∀ s ∈ specs, start + 2 ≤ s.line ∧ s.line ≤ b.endIndex + 1) ∧
      (∀ index line, start < index → index ≤ b.endIndex → lines[index]? = some line →
        ¬HoldsNoSpec line → ¬(index = b.endIndex ∧ startsWith ")" (trim line) = true) →
        ∃! s, s ∈ specs ∧ s.Holds lines index) ∧
      ∀ s ∈ specs, ∃ first line, s.line = first + 1 ∧ lines[first]? = some line ∧
        ¬HoldsNoSpec line ∧ trim line <+: s.text ∧ IsRunAbove lines first s.comments := by
  obtain ⟨specs, hspecs, hpass⟩ := groupSpecs_linePass hgroup hblock hmore
  have hstop : groupStop lines b.endIndex ≤ b.endIndex + 1 := groupStop_le lines b.endIndex
  have htaken := hpass.exists_takes takesLines_isSpec
  have hholds : ∀ s ∈ specs, ∀ k, Covers (IsSpec lines) s k ↔ s.Holds lines k := by
    intro s hs k
    obtain ⟨first, last, htake, -⟩ := htaken s hs
    exact htake.covers_iff
  refine ⟨specs, hspecs, fun found => ⟨fun hfound => ?_, fun hfound => hfound ▸ hpass⟩, ?_, ?_, ?_,
    ?_⟩
  · exact hfound.unique (fun h h' => h.unique h') (fun h => h.not_noSpecAt) hpass
  · refine (hpass.pairwise takesLines_isSpec).imp_of_mem fun {s t} hs ht happart => ?_
    obtain ⟨first, last, htake, -⟩ := htaken s hs
    obtain ⟨first', last', htake', -⟩ := htaken t ht
    have hbelow := happart first last first' last' htake htake'
    have hle := takesLines_isSpec.le htake
    rw [htake.number, htake'.number]
    omega
  · intro s hs
    obtain ⟨first, last, htake, hle, hlt⟩ := htaken s hs
    rw [htake.number]
    omega
  · intro index line hlow hhigh hline hspec hopen
    have hskip : ¬NoSpecAt lines index := by
      rintro ⟨line', hline', hnone⟩
      obtain rfl := Option.some.inj (hline.symm.trans hline')
      exact hspec hnone
    obtain ⟨s, ⟨hs, hcovers⟩, hone⟩ := hpass.existsUnique_covers takesLines_isSpec hlow
      (lt_groupStop hline hhigh hopen) hskip
    refine ⟨s, ⟨hs, (hholds s hs index).1 hcovers⟩, ?_⟩
    rintro t ⟨ht, hthere⟩
    exact hone t ht ((hholds t ht index).2 hthere)
  · intro s hs
    obtain ⟨first, last, htake, -⟩ := htaken s hs
    obtain ⟨line, hline, hspec, hbegins⟩ := htake.begins
    refine ⟨first, line, htake.number, hline, hspec, hbegins, ?_⟩
    rw [htake.comments]
    exact isRunAbove_leadingComments lines first

/-- A group whose first spec goes over three lines, and whose last one opens a brace that is never
closed, below the end of the group either. -/
def wideGroup : List Text :=
  ["var (", "\t// size", "\t// in bytes", "\ta = f(", "\t\t1,", "\t)", "", "\tb = T\x7b", ")",
    "func g() \x7b"]

/-- The line in the parentheses of the first spec belongs to that spec, the line below the group to
the other one, although the group ends above it. -/
theorem groupSpecs_eachLine_wideGroup :
    ((groupOpen "var").matchStart (trim (wideGroup[0]?.getD []))).isSome = true ∧
      extractBlock? parentheses true wideGroup 0 = some ⟨linesText wideGroup 0 8, 8⟩ ∧ 0 < 8 ∧
      ¬HoldsNoSpec "\t\t1," ∧ specEnd wideGroup 7 = 9 ∧
      ∃ specs, groupSpecs "var" wideGroup 0 = (specs, 8) ∧
        specs.map (·.line) = [4, 8] ∧
        specs.map (·.comments) = [["size".toList, "in bytes".toList], []] ∧
        LinePass (NoSpecAt wideGroup) (IsSpec wideGroup) (groupStop wideGroup 8) 1 specs ∧
        ∃! s, s ∈ specs ∧ s.Holds wideGroup 4 := by
  have hgroup : ((groupOpen "var").matchStart (trim (wideGroup[0]?.getD []))).isSome = true := by
    decide +kernel
  have hblock : extractBlock? parentheses true wideGroup 0 = some ⟨linesText wideGroup 0 8, 8⟩ := by
    decide +kernel
  have hspec : ¬HoldsNoSpec "\t\t1," := by
    unfold HoldsNoSpec
    decide +kernel
  obtain ⟨specs, hread, hloop, -, -, hlines, -⟩ := groupSpecs_eachLine hgroup hblock (by decide)
  have hspecs : specs = (groupSpecs "var" wideGroup 0).1 := by rw [hread]
  refine ⟨hgroup, hblock, by decide, hspec, by decide +kernel, specs, hread, ?_, ?_,
    (hloop specs).2 rfl, ?_⟩
  · rw [hspecs]
    decide +kernel
  · rw [hspecs]
    decide +kernel
  · exact hlines 4 "\t\t1," (by decide) (by decide) rfl hspec fun h => absurd h.1 (by decide)

end GoSurvey.Declaration
