/-
Declarations in block comments. The pass over the lines of a file does
not know of block comments: a line of one that begins with a keyword is
read like any other, and a group of specs or of imports takes the lines
of a comment for its own. Those are the only two ways in which something
is declared inside a comment (`declared_in_comment`). So nothing is
where no line of the comment begins with a keyword and no group goes
over the line in which it begins.
-/
import GoSurvey.Proofs.Declaration.Line
import GoSurvey.Proofs.Declaration.Located

namespace GoSurvey.Declaration

open Text Source Pattern

variable {lines : List Text} {index number : Nat}

-- ============================================================ comments

/-- A block comment goes on below its line, up to the first line there that closes it. -/
structure SpansTo (lines : List Text) (c : Comment) (last : Nat) : Prop where
  block : c.form = .block
  below : c.line < last
  opens : ∀ line, lines[c.line - 1]? = some line → ¬blockEndMark <:+: (trim line).drop 2
  between : ∀ number line, c.line < number → number < last → lines[number - 1]? = some line →
    ¬blockEndMark <:+: line
  closes : ∃ line, lines[last - 1]? = some line ∧ blockEndMark <:+: line

/-- A line below the first one of a block comment is a line of the comment. -/
def InComment (lines : List Text) (c : Comment) (number : Nat) : Prop :=
  ∃ last, SpansTo lines c last ∧ c.line < number ∧ number ≤ last

/-- A comment stands in a line that begins with a slash. -/
def CommentLine (lines : List Text) (number : Nat) : Prop :=
  ∃ line, lines[number - 1]? = some line ∧ (trim line).head? = some '/'

/-- Every comment stands in the line of its number; one that is still open has begun above. -/
theorem commentLine_of_mem {rest : List Text} {unclosed : Option (Nat × List Text)}
    (hrest : rest = lines.drop index) (hopen : ∀ u ∈ unclosed, CommentLine lines u.1) :
    ∀ c ∈ commentsFrom rest (index + 1) unclosed, CommentLine lines c.line := by
  induction rest generalizing index unclosed with
  | nil =>
      intro c hc
      cases unclosed with
      | none => cases hc
      | some u =>
          obtain rfl := List.mem_singleton.1 hc
          exact hopen u rfl
  | cons line rest ih =>
      obtain ⟨hline, hnext⟩ := of_cons_eq_drop hrest
      have hlater : ∀ c ∈ commentsFrom rest (index + 1 + 1) none, CommentLine lines c.line :=
        ih hnext fun u hu => by cases hu
      have hhere : (trim line).head? = some '/' → CommentLine lines (index + 1) :=
        fun hslash => ⟨line, hline, hslash⟩
      intro c hc
      cases unclosed with
      | some u =>
          rw [commentsFrom] at hc
          split at hc
          · rcases List.mem_cons.1 hc with rfl | hc
            · exact hopen u rfl
            · exact hlater c hc
          · refine ih hnext ?_ c hc
            rintro v ⟨⟩
            exact hopen u rfl
      | none =>
          rw [commentsFrom] at hc
          dsimp only at hc
          split at hc
          · next hcomment =>
            rcases List.mem_cons.1 hc with rfl | hc
            · exact hhere (head?_of_lineComment? hcomment)
            · exact hlater c hc
          · split at hc
            · next hmark =>
              have hslash := hhere (head?_of_startsWith hmark)
              split at hc
              · rcases List.mem_cons.1 hc with rfl | hc
                · exact hslash
                · exact hlater c hc
              · refine ih hnext ?_ c hc
                rintro v ⟨⟩
                exact hslash
            · exact hlater c hc

theorem commentLine {content file : Text} {c : Comment}
    (hc : c ∈ (structureOf content file).comments) : CommentLine (Text.lines content) c.line :=
  @commentLine_of_mem _ 0 _ none List.drop_zero.symm (fun u hu => by cases hu) c hc

/-- The line of a comment begins nothing. -/
theorem classify?_slash {t : Text} (h : t.head? = some '/') : classify? t = none := by
  have hkeywords : ∀ k ∈ constructKeywords, k.head? ≠ none ∧ k.head? ≠ some '/' := by decide
  apply classify?_eq_none
  rintro k hk ⟨rest, rfl⟩
  obtain ⟨hne, hslash⟩ := hkeywords k hk
  cases k with
  | nil => exact hne rfl
  | cons c k => exact hslash h

-- ============================================================== groups

/-- A line begins a group of specs, or a declaration of imports. -/
def BeginsGroup (construct : Construct) (line : Text) : Prop :=
  construct = .imports ∨
    ∃ keyword ∈ [("type" : Text), "const", "var"],
      ((groupOpen keyword).matchStart (trim line)).isSome = true

/-- Without a parenthesis, what follows a keyword is one spec in the line of the keyword. -/
theorem line_of_groupSpecs {keyword line : Text} (hline : lines[index]? = some line)
    (hnone : ((groupOpen keyword).matchStart (trim line)).isSome = false) :
    ∀ s ∈ (groupSpecs keyword lines index).1, s.line = index + 1 := by
  have hsingle : ((groupOpen keyword).matchStart (trim line)).isNone = true := by
    rw [← Option.not_isSome, hnone]
    rfl
  unfold groupSpecs
  rw [hline]
  dsimp only [Option.getD_some]
  rw [if_pos hsingle]
  intro s hs
  rw [List.mem_singleton.1 hs]

/-- Whatever a construct declares below its first line, it declares as a group. -/
theorem beginsGroup_of_line {content line : Text} {construct : Construct} {x : Extended}
    (hx : x.IsReadFrom content line construct) {d : Declaration} (hd : d ∈ x.found)
    (hline : d.line ≠ x.first + 1) : BeginsGroup construct line := by
  have hspecs : ∀ keyword ∈ [("type" : Text), "const", "var"],
      (∃ s ∈ (groupSpecs keyword (Text.lines content) x.first).1, d.line = s.line) →
        ((groupOpen keyword).matchStart (trim line)).isSome = true := by
    rintro keyword - ⟨s, hs, hsame⟩
    by_contra hnone
    rw [Bool.not_eq_true] at hnone
    exact hline (hsame.trans (line_of_groupSpecs hx.stands hnone s hs))
  have hfound := congrArg Prod.fst hx.read
  dsimp only at hfound
  rw [← hfound] at hd
  cases construct with
  | imports => exact .inl rfl
  | struct =>
      simp only [readConstruct, Option.mem_toList, Option.map_eq_some_iff] at hd
      obtain ⟨e, he, rfl⟩ := hd
      exact absurd (parseStruct?_line he) hline
  | interface =>
      simp only [readConstruct, Option.mem_toList, Option.map_eq_some_iff] at hd
      obtain ⟨e, he, rfl⟩ := hd
      exact absurd (parseInterface?_line he) hline
  | type =>
      obtain ⟨s, hs, hspec⟩ := List.mem_filterMap.1 hd
      exact .inr ⟨"type", by simp, hspecs "type" (by simp) ⟨s, hs, (typeSpec?_line hspec).1⟩⟩
  | constants =>
      obtain ⟨e, he, rfl⟩ := List.mem_map.1 hd
      obtain ⟨s, hs, hspec⟩ := List.mem_filterMap.1 he
      exact .inr ⟨"const", by simp, hspecs "const" (by simp) ⟨s, hs, parseConstant?_line hspec⟩⟩
  | packageVars =>
      obtain ⟨e, he, rfl⟩ := List.mem_map.1 hd
      obtain ⟨s, hs, hspec⟩ := List.mem_flatMap.1 he
      exact .inr ⟨"var", by simp, hspecs "var" (by simp) ⟨s, hs, parseVariables_line hspec⟩⟩
  | function =>
      simp only [readConstruct, Option.mem_toList, Option.map_eq_some_iff] at hd
      obtain ⟨f, hf, rfl⟩ := hd
      exact absurd (parseFunction?_line hf).1 hline

-- ======================================================= in the comment

/-- What is declared in the lines of a block comment below its first has been read from a line of
the comment that begins with a keyword, or it belongs to a group that begins above the comment and
goes on in it. -/
theorem declared_in_comment {content file : Text} {c : Comment} {d : Declaration}
    (hc : c ∈ (structureOf content file).comments)
    (hd : d ∈ (structureOf content file).declared)
    (hin : InComment (Text.lines content) c d.line) :
    ∃ x ∈ constructsOf content, ∃ line construct,
      x.IsReadFrom content line construct ∧ d ∈ x.found ∧
        (InComment (Text.lines content) c (x.first + 1) ∨
          x.first + 1 < c.line ∧ c.line < x.last + 1 ∧ BeginsGroup construct line) := by
  obtain ⟨last, hspan, hfirst, hlast⟩ := hin
  obtain ⟨x, hx, hdx⟩ := exists_construct (mem_declared.1 hd)
  obtain ⟨line, construct, hread⟩ := exists_isReadFrom hx
  obtain ⟨hlow, hhigh⟩ := (constructsOf_wellPlaced hx).bounds d hdx
  refine ⟨x, hx, line, construct, hread, hdx, ?_⟩
  by_cases hinside : c.line < x.first + 1
  · exact .inl ⟨last, hspan, hinside, by omega⟩
  · -- The line of the comment begins with its mark, so no construct begins there.
    have hne : x.first + 1 ≠ c.line := by
      intro hsame
      obtain ⟨line', hline', hslash⟩ := commentLine hc
      rw [← hsame, Nat.add_sub_cancel, hread.stands] at hline'
      obtain rfl := Option.some.inj hline'
      have hnone := classify?_slash hslash
      rw [hread.begins] at hnone
      cases hnone
    exact .inr ⟨by omega, by omega, beginsGroup_of_line hread hdx (by omega)⟩

/-- A file with a function that has been commented out. -/
def commentedOut : Text := "package p\n\n/*\nfunc Old() \x7b\n\x7d\n*/\n"

/-- The comment of that file. -/
def oldComment : Comment := ⟨"func Old() \x7b\n\x7d", 3, .block⟩

/-- The function in the comment, as it is declared. -/
def oldFunction : FunctionDecl where
  name := "Old"
  parameters := []
  returnType := []
  line := 4
  snippet := "func Old() \x7b\n\x7d"
  comments := []
  receiver := []

theorem lines_commentedOut : Text.lines commentedOut =
    ["package p".toList, [], "/*".toList, "func Old() \x7b".toList, "\x7d".toList, "*/".toList,
      []] := by
  decide +kernel

theorem spansTo_oldComment : SpansTo (Text.lines commentedOut) oldComment 6 := by
  rw [lines_commentedOut]
  refine ⟨rfl, by decide, ?_, fun number line hlow hhigh hline => ?_, "*/", rfl, by decide⟩
  · intro line hline
    obtain rfl : "/*".toList = line := Option.some.inj hline
    decide +kernel
  · have hnumber : number = 4 ∨ number = 5 := by
      have hlow : 3 < number := hlow
      omega
    rcases hnumber with rfl | rfl
    · obtain rfl : "func Old() \x7b".toList = line := Option.some.inj hline
      decide +kernel
    · obtain rfl : "\x7d".toList = line := Option.some.inj hline
      decide +kernel

theorem inComment_oldFunction : InComment (Text.lines commentedOut) oldComment oldFunction.line :=
  ⟨6, spansTo_oldComment, by decide, by decide⟩

theorem declared_in_comment_oldFunction :
    oldComment ∈ (structureOf commentedOut "m.go").comments ∧
      .ofFunction oldFunction ∈ (structureOf commentedOut "m.go").declared ∧
      InComment (Text.lines commentedOut) oldComment oldFunction.line ∧
      ∃ x ∈ constructsOf commentedOut, ∃ line construct,
        x.IsReadFrom commentedOut line construct ∧ .ofFunction oldFunction ∈ x.found ∧
          (InComment (Text.lines commentedOut) oldComment (x.first + 1) ∨
            x.first + 1 < 3 ∧ 3 < x.last + 1 ∧ BeginsGroup construct line) := by
  have hc : oldComment ∈ (structureOf commentedOut "m.go").comments := by decide +kernel
  have hd : .ofFunction oldFunction ∈ (structureOf commentedOut "m.go").declared := by
    decide +kernel
  exact ⟨hc, hd, inComment_oldFunction, declared_in_comment hc hd inComment_oldFunction⟩

end GoSurvey.Declaration
