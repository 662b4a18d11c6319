/-
Files with a comment behind one of their lines. The pass goes down the two
files line by line. A line begins the same construct in both, and the
construct ends in the same line and is listed as the same
(`readAt_note`), so the pass skips as many lines in the one as in the
other, and from any line on it lists the same
(`symbolsOf_declarationsFrom`).

What a construct must be like for that is said for each kind
(`Construct.ReadsPast`). Imports, structs and interfaces are listed by
what begins them, and a group by its specs. A function asks for more: where
its body opens depends on all that stands before it, and a comment in its
signature is read along with it (`blockOf_note`).

A line that ends with a backslash is left out throughout. In a quote that
is open there the backslash takes the next character with it: without the
comment that is the newline, which would have ended the quote.
-/
import GoSurvey.Proofs.Declaration.NotedFunction
import GoSurvey.Proofs.Declaration.NotedSpec

namespace GoSurvey.Declaration

open Text Source Pattern

-- ============================================== the content and the comment

/-- A content with the comment behind the line of an index. -/
def withNote (content : Text) (k : Nat) : Text :=
  joinLines ((Text.lines content).modify k (· ++ note))

/-- Before a line and behind it stand the other lines, with newlines between them. -/
theorem joinLines_around (above : List Text) (line : Text) (below : List Text) :
    joinLines (above ++ line :: below)
      = textBefore above above.length ++ (line ++ below.flatMap (newline :: ·)) := by
  unfold textBefore
  rw [List.take_length]
  exact join_around [newline] above line below

variable {content : Text} {pre post : List Text} {line : Text}

/-- Of two contents, the second has the comment behind a line. -/
structure HasNote (content content' : Text) (pre : List Text) (line : Text) (post : List Text) :
    Prop where
  plain : Text.lines content = pre ++ line :: post
  noted : Text.lines content' = pre ++ (line ++ note) :: post

/-- Putting the comment behind a line changes no other line, and makes no line of its own. -/
theorem hasNote_withNote {k : Nat} (hline : (Text.lines content)[k]? = some line) :
    HasNote content (withNote content k) ((Text.lines content).take k) line
      ((Text.lines content).drop (k + 1)) := by
  obtain ⟨hlt, rfl⟩ := List.getElem?_eq_some_iff.1 hline
  have hmodify := List.modify_eq_take_cons_drop (f := (· ++ note)) hlt
  have hplain : ∀ raw ∈ (Text.lines content).modify k (· ++ note), newline ∉ raw := by
    intro raw hraw
    rw [hmodify] at hraw
    have hlines : ∀ raw ∈ Text.lines content, newline ∉ raw := fun _ => not_newline_of_mem_lines
    rcases List.mem_append.1 hraw with hraw | hraw
    · exact hlines raw (List.mem_of_mem_take hraw)
    · rcases List.mem_cons.1 hraw with rfl | hraw
      · rw [List.mem_append, not_or]
        exact ⟨hlines _ (List.getElem_mem hlt), by decide⟩
      · exact hlines raw (List.mem_of_mem_drop hraw)
  refine ⟨?_, ?_⟩
  · rw [← List.drop_eq_getElem_cons hlt, List.take_append_drop]
  · rw [← hmodify]
    exact splitOn_join (by rw [hmodify]; simp) hplain

namespace HasNote

variable {content' : Text}

/-- The text up to the end of a line. -/
def upTo (pre : List Text) (line : Text) : Text := textBefore pre pre.length ++ line

/-- The comment is put into the text where the line ends, so what follows it is a newline. -/
theorem exists_split (h : HasNote content content' pre line post) :
    ∃ b, content = upTo pre line ++ b ∧ content' = upTo pre line ++ (note ++ b) ∧
      ∀ c ∈ b.head?, c = newline := by
  refine ⟨post.flatMap (newline :: ·), ?_, ?_, ?_⟩
  · rw [← joinLines_lines content, h.plain, joinLines_around]
    exact (List.append_assoc _ _ _).symm
  · rw [← joinLines_lines content', h.noted, joinLines_around, upTo]
    simp
  · cases post with
    | nil => simp
    | cons next post =>
        rintro c ⟨⟩
        rfl

theorem length_eq (h : HasNote content content' pre line post) :
    (Text.lines content').length = (Text.lines content).length := by
  rw [h.plain, h.noted]
  simp

/-- A line begins later by the length of the comment if it stands behind it. -/
theorem length_textBefore (h : HasNote content content' pre line post) (index : Nat) :
    (textBefore (Text.lines content') index).length
      = moved (upTo pre line).length (textBefore (Text.lines content) index).length := by
  rw [h.plain, h.noted]
  unfold upTo textBefore
  rw [List.take_length]
  rcases Nat.lt_or_ge pre.length index with hlt | hge
  · obtain ⟨k, rfl⟩ := Nat.exists_eq_add_of_lt hlt
    rw [Nat.add_assoc, List.take_length_add_append, List.take_length_add_append,
      List.take_succ_cons, List.take_succ_cons]
    simp only [List.flatMap_append, List.flatMap_cons, List.length_append, List.length_singleton]
    rw [moved_of_lt (by omega)]
    omega
  · rw [List.take_append_of_le_length hge, List.take_append_of_le_length hge, moved_of_le]
    conv => rhs; rw [← List.take_append_drop index pre]
    simp only [List.flatMap_append, List.length_append]
    omega

/-- A line that does not begin behind the end of the line is that line or one above it. -/
theorem le_of_textBefore (h : HasNote content content' pre line post) {index : Nat}
    (hle : (textBefore (Text.lines content) index).length ≤ (upTo pre line).length) :
    index ≤ pre.length := by
  apply Nat.le_of_not_lt
  intro hlt
  obtain ⟨k, rfl⟩ := Nat.exists_eq_add_of_lt hlt
  rw [h.plain] at hle
  unfold upTo textBefore at hle
  rw [List.take_length, Nat.add_assoc, List.take_length_add_append, List.take_succ_cons] at hle
  simp only [List.flatMap_append, List.flatMap_cons, List.length_append, List.length_singleton]
    at hle
  omega

/-- Up to the end of the line, the text ends as the line does, or with a newline. -/
theorem getLast?_upTo (pre : List Text) (hback : line.getLast? ≠ some backslash) :
    (upTo pre line).getLast? ≠ some backslash := by
  unfold upTo
  rw [List.getLast?_append]
  cases hlast : line.getLast? with
  | some c =>
      rw [hlast] at hback
      exact hback
  | none =>
      rcases textBefore_start pre pre.length with hstart | hstart
      · rw [hstart]
        exact fun h => by cases h
      · rw [hstart]
        decide

end HasNote

-- ============================================================ functions

/-- Lines from one index to another are those that they are without the comment, if the line is not
one of them. -/
theorem linesText_apart {first last : Nat} (h : pre.length < first ∨ last < pre.length)
    (line line' : Text) (post : List Text) :
    linesText (pre ++ line' :: post) first last = linesText (pre ++ line :: post) first last := by
  unfold linesText
  rcases h with h | h
  · obtain ⟨k, rfl⟩ := Nat.exists_eq_add_of_lt h
    rw [List.drop_take, List.drop_take, Nat.add_assoc, List.drop_length_add_append,
      List.drop_length_add_append]
    rfl
  · rw [List.take_append_of_le_length h, List.take_append_of_le_length h]

/-- Lines from one index to another stand around a line among them. -/
theorem exists_linesText_around {first last : Nat} (hfirst : first ≤ pre.length)
    (hlast : pre.length ≤ last) (post : List Text) :
    ∃ p q, (p = [] ∨ p.getLast? = some newline) ∧ (∀ c ∈ q.head?, c = newline) ∧
      textBefore pre first ++ p = textBefore pre pre.length ∧
      ∀ line, linesText (pre ++ line :: post) first last = p ++ (line ++ q) := by
  refine ⟨textBefore (pre.drop first) (pre.drop first).length,
    (post.take (last - pre.length)).flatMap (newline :: ·), textBefore_start _ _, ?_, ?_,
    fun line => ?_⟩
  · cases post.take (last - pre.length) with
    | nil => simp
    | cons next rest =>
        rintro c ⟨⟩
        rfl
  · unfold textBefore
    rw [List.take_length, List.take_length, ← List.flatMap_append, List.take_append_drop]
  · unfold linesText
    obtain ⟨k, rfl⟩ := Nat.exists_eq_add_of_le hlast
    rw [Nat.add_assoc, List.take_length_add_append, List.take_succ_cons,
      List.drop_append_of_le_length hfirst, joinLines_around, Nat.add_sub_cancel_left]

variable {content' : Text}

/-- The block of a function. -/
def blockOf (content : Text) (index : Nat) : Block :=
  functionBlockAt content (Text.lines content) (textBefore (Text.lines content) index).length index

/-- A function is read from its block as it is without the comment. -/
theorem blockOf_note (h : HasNote content content' pre line post)
    (hback : line.getLast? ≠ some backslash) {index : Nat}
    (hindex : index < (Text.lines content).length)
    (hopens : index ≤ pre.length →
      OpensBehind content (textBefore (Text.lines content) index).length (HasNote.upTo pre line) →
      ¬EndsLikeKeyword (HasNote.upTo pre line) ∧
        (pre.length ≤ (blockOf content index).endIndex → SeesNote line)) :
    (blockOf content' index).endIndex = (blockOf content index).endIndex ∧
      signatureLine (blockOf content' index).content
        = signatureLine (blockOf content index).content := by
  obtain ⟨b, hcontent, hcontent', hb⟩ := h.exists_split
  have hbackA := HasNote.getLast?_upTo pre hback
  have hend : (blockOf content' index).endIndex = (blockOf content index).endIndex := by
    have hblock : (functionBlockAt (HasNote.upTo pre line ++ (note ++ b)) (Text.lines content')
        (moved (HasNote.upTo pre line).length (textBefore (Text.lines content) index).length)
        index).endIndex = (functionBlockAt (HasNote.upTo pre line ++ b) (Text.lines content)
        (textBefore (Text.lines content) index).length index).endIndex := by
      refine endIndex_functionBlockAt_note hbackA hb h.length_eq (fun hle hopen => ?_) index
      rw [← hcontent] at hopen
      exact (hopens (h.le_of_textBefore hle) hopen).1
    rw [← hcontent, ← hcontent', ← h.length_textBefore] at hblock
    exact hblock
  refine ⟨hend, ?_⟩
  have hextent : HasExtent _ _ (blockOf content index) := functionBlockAt_extent hindex
  have hextent' : HasExtent _ _ (blockOf content' index) :=
    functionBlockAt_extent (h.length_eq.symm ▸ hindex)
  have hstands := hextent.content
  rw [hextent'.content, hextent.content, hend, h.plain, h.noted]
  rw [h.plain] at hstands
  by_cases hin : index ≤ pre.length ∧ pre.length ≤ (blockOf content index).endIndex
  -- The comment is in the block: before the body it is in the signature, else it is not looked at.
  · obtain ⟨p, q, hp, hq, hbefore, haround⟩ := exists_linesText_around hin.1 hin.2 post
    rw [haround, haround]
    rw [haround, ← List.append_assoc] at hstands
    have hplain : newline ∉ line := by
      have hmem : line ∈ Text.lines content := by
        rw [h.plain]
        simp
      exact not_newline_of_mem_lines hmem
    have htext : textBefore (Text.lines content) index ++ (p ++ line) = HasNote.upTo pre line := by
      rw [← List.append_assoc, HasNote.upTo, ← hbefore, h.plain]
      unfold textBefore
      rw [List.take_append_of_le_length hin.1]
    have hsuffix : p ++ line <:+ HasNote.upTo pre line := htext ▸ List.suffix_append _ _
    refine signatureLine_note hp hplain hq (fun hlast => ?_) fun hbehind => ?_
    · apply hbackA
      rw [← htext, List.getLast?_append, hlast]
      rfl
    · rw [← List.append_assoc] at hbehind
      have hopen := opensBehind_functionBlock hindex hstands hbehind
      rw [htext] at hopen
      obtain ⟨hnot, hsees⟩ := hopens hin.1 hopen
      exact ⟨fun hword => hnot (hword.of_suffix hsuffix), hsees hin.2⟩
  · rw [linesText_apart (by omega)]

-- ============================================================ constructs

/-- The comment behind the line of an index is read past by what reads a construct. Of imports,
structs and interfaces nothing is listed that it could change. The line of a variable must not end
with a brace. In a line of the signature of a function the comment has to be seen as one, and the
line must not end like the keyword of a type. -/
def Construct.ReadsPast (content : Text) (k : Nat) (line : Text) (first last : Nat) :
    Construct → Prop
  | .imports | .struct | .interface => True
  | .type => SpecsReadPast "type" (Text.lines content) first k line
  | .constants => SpecsReadPast "const" (Text.lines content) first k line
  | .packageVars => SpecsReadPast "var" (Text.lines content) first k line ∧
      (first = k → endsWith "\x7b" (trim line) = false)
  | .function => first ≤ k →
      OpensBehind content (textBefore (Text.lines content) first).length
        (textBefore (Text.lines content) k ++ line) →
      ¬EndsLikeKeyword (textBefore (Text.lines content) k ++ line) ∧ (k ≤ last → SeesNote line)

/-- What is read of a construct whose first line has an index. -/
def readAt (content : Text) (index : Nat) (raw : Text) (construct : Construct) :
    List Declaration × Nat :=
  readConstruct content (Text.lines content) index (textBefore (Text.lines content) index).length
    (trim raw) construct

variable {raw raw' file : Text} {index : Nat} {construct : Construct}

/-- Of the lines of an index, the second has the comment exactly if it is that line. -/
theorem HasNote.lineOrNoted (h : HasNote content content' pre line post)
    (hraw : (Text.lines content)[index]? = some raw)
    (hraw' : (Text.lines content')[index]? = some raw') :
    LineOrNoted pre.length index raw raw' ∧ (index = pre.length → raw = line) := by
  rw [h.noted, getElem?_note, ← h.plain] at hraw'
  split at hraw'
  · next hindex =>
    rw [h.plain, hindex, List.getElem?_append_right (Nat.le_refl _), Nat.sub_self] at hraw
    obtain rfl : line = raw := Option.some.inj hraw
    exact ⟨.inr ⟨hindex, (Option.some.inj hraw').symm⟩, fun _ => rfl⟩
  · next hindex =>
    exact ⟨.inl (Option.some.inj (hraw'.symm.trans hraw)), fun h => absurd h hindex⟩

/-- Blocks of braces end in the same line. -/
theorem HasNote.endIndex (h : HasNote content content' pre line post)
    (hback : line.getLast? ≠ some backslash) {b b' : Block}
    (hb : extractBlock? braces true (Text.lines content) index = some b)
    (hb' : extractBlock? braces true (Text.lines content') index = some b') :
    b'.endIndex = b.endIndex := by
  have hsame := @endIndex_note braces line pre post apartFromNote_braces hback true index
  rw [← h.plain, ← h.noted, hb, hb'] at hsame
  exact Option.some.inj hsame

/-- A heading in a line is a heading of the line with the comment. -/
theorem LineOrNoted.heading {keyword name : Text} {k : Nat} (h : LineOrNoted k index raw raw')
    (hname : Heading keyword name (trim raw)) : Heading keyword name (trim raw') := by
  obtain ⟨w, htrim, hw, -⟩ := h.exists_trim
  rw [htrim]
  exact hname.append hw.head

/-- A function is listed by its signature alone. -/
theorem symbolsOf_function {snippet snippet' : Text}
    (h : signatureLine snippet' = signatureLine snippet)
    (file : Text) (number : Nat) (comments comments' : List Text) :
    symbolsOf file ((parseFunction? snippet' number comments').map .ofFunction).toList
      = symbolsOf file ((parseFunction? snippet number comments).map .ofFunction).toList := by
  unfold parseFunction?
  rw [h]
  dsimp only
  cases functionHead.matchStart (signatureLine snippet) with
  | none => rfl
  | some m => rfl

/-- No import is listed. -/
theorem symbolsOf_imports (file : Text) (ds : List ImportDecl) :
    symbolsOf file (ds.map .ofImport) = [] := by
  unfold symbolsOf
  rw [List.filterMap_map, List.filterMap_eq_nil_iff]
  exact fun d _ => rfl

/-- A construct that begins in a line begins there with the comment behind a line, ends where it
ends without, and what it declares is listed as the same. -/
theorem readAt_note (h : HasNote content content' pre line post)
    (hback : line.getLast? ≠ some backslash) (hraw : (Text.lines content)[index]? = some raw)
    (hraw' : (Text.lines content')[index]? = some raw')
    (hbegins : classify? (trim raw) = some construct)
    (hpast : construct.ReadsPast content pre.length line index
      (readAt content index raw construct).2) :
    (readAt content' index raw' construct).2 = (readAt content index raw construct).2 ∧
      symbolsOf file (readAt content' index raw' construct).1
        = symbolsOf file (readAt content index raw construct).1 := by
  obtain ⟨hline, hfirst⟩ := h.lineOrNoted hraw hraw'
  have hindex : index < (Text.lines content).length := (List.getElem?_eq_some_iff.1 hraw).1
  obtain ⟨w, htrim, -, hbrace⟩ := hline.exists_trim
  have hend : ∀ {d : Delimiters}, ApartFromNote d →
      blockEnd d (Text.lines content') index = blockEnd d (Text.lines content) index := by
    intro d hd
    rw [h.plain, h.noted]
    exact blockEnd_note hd hback index
  have hgroup : ∀ {keyword : Text}, construct.keyword? = some keyword →
      SpecsReadPast keyword (Text.lines content) index pre.length line →
      List.Forall₂ SameSpec (groupSpecs keyword (Text.lines content) index).1
          (groupSpecs keyword (Text.lines content') index).1 ∧
        (groupSpecs keyword (Text.lines content') index).2
          = (groupSpecs keyword (Text.lines content) index).2 := by
    intro keyword hkeyword hspecs
    have hplain : ∀ raw ∈ Text.lines content, newline ∉ raw := fun _ => not_newline_of_mem_lines
    rw [h.plain] at hraw hspecs hplain
    rw [h.plain, h.noted]
    exact groupSpecs_note hback hplain (Construct.isKeyword hkeyword) hraw
      (keywordLine_of_classify? hbegins hkeyword) hspecs
  unfold readAt at hpast ⊢
  cases construct with
  | imports =>
      exact ⟨hend apartFromNote_parentheses,
        (symbolsOf_imports file _).trans (symbolsOf_imports file _).symm⟩
  | struct =>
      obtain ⟨name, hname⟩ := heading_of_struct hbegins
      obtain ⟨b, hb, hblock⟩ := exists_block_of_heading hraw hname
      obtain ⟨b', hb', hblock'⟩ := exists_block_of_heading hraw' (hline.heading hname)
      simp only [readConstruct, hb, hb', Option.getD_some]
      rw [symbolsOf_struct hblock, symbolsOf_struct hblock']
      exact ⟨h.endIndex hback hb hb', rfl⟩
  | interface =>
      obtain ⟨name, hname⟩ := heading_of_interface hbegins
      obtain ⟨b, hb, hblock⟩ := exists_block_of_heading hraw hname
      obtain ⟨b', hb', hblock'⟩ := exists_block_of_heading hraw' (hline.heading hname)
      simp only [readConstruct, hb, hb', Option.getD_some]
      rw [symbolsOf_interface hblock, symbolsOf_interface hblock']
      exact ⟨h.endIndex hback hb hb', rfl⟩
  | type =>
      obtain ⟨hspecs, hlast⟩ := hgroup rfl hpast
      have hopens : List.elem '\x7b' (trim raw') = List.elem '\x7b' (trim raw) := by
        rw [htrim, Bool.eq_iff_iff, List.elem_iff, List.elem_iff, List.mem_append]
        exact or_iff_left hbrace
      simp only [readConstruct]
      rw [hlast, hopens, hend apartFromNote_braces, List.filterMap_eq_flatMap_toList,
        List.filterMap_eq_flatMap_toList]
      exact ⟨rfl, symbolsOf_flatMap hspecs SameSpec.symbols_type⟩
  | constants =>
      obtain ⟨hspecs, hlast⟩ := hgroup rfl hpast
      simp only [readConstruct]
      rw [List.map_filterMap, List.map_filterMap, List.filterMap_eq_flatMap_toList,
        List.filterMap_eq_flatMap_toList]
      exact ⟨hlast, symbolsOf_flatMap hspecs SameSpec.symbols_constant⟩
  | packageVars =>
      obtain ⟨hspecs, hlast⟩ := hgroup rfl hpast.1
      have hopens : endsWith "\x7b" (trim raw') = endsWith "\x7b" (trim raw) := by
        rcases hline with rfl | ⟨hhere, rfl⟩
        · rfl
        · have hbrace := hpast.2 hhere
          rw [← hfirst hhere] at hbrace
          have hvar : Construct.packageVars.keyword? = some "var".toList := rfl
          have hne := ne_nil_of_keywordLine (Construct.isKeyword hvar)
            (keywordLine_of_classify? hbegins hvar)
          obtain ⟨-, gap, -, -, -, htrim⟩ := exists_trim_note hne
          rw [hbrace, htrim, ← List.append_assoc]
          exact not_endsWith_note _
      simp only [readConstruct]
      rw [hlast, hopens, hend apartFromNote_braces, List.map_flatMap, List.map_flatMap]
      exact ⟨rfl, symbolsOf_flatMap hspecs SameSpec.symbols_variables⟩
  | function =>
      have hupTo : textBefore (Text.lines content) pre.length ++ line = HasNote.upTo pre line := by
        unfold HasNote.upTo textBefore
        rw [h.plain, List.take_left, List.take_length]
      have hpast : index ≤ pre.length → _ := hpast
      rw [hupTo] at hpast
      obtain ⟨hlast, hsignature⟩ := blockOf_note h hback hindex hpast
      unfold blockOf at hlast hsignature
      simp only [readConstruct]
      exact ⟨hlast, symbolsOf_function hsignature file (index + 1) _ _⟩

-- ============================================================ the pass

theorem exists_cons_of_drop {lines lines' rest : List Text} (hlength : lines'.length = lines.length)
    (hrest : raw :: rest = lines.drop index) :
    ∃ raw', lines'.drop index = raw' :: lines'.drop (index + 1) ∧ lines'[index]? = some raw' := by
  have hlt : index < lines'.length := by
    have hall := congrArg List.length hrest
    rw [List.length_drop, List.length_cons] at hall
    omega
  exact ⟨_, List.drop_eq_getElem_cons hlt, List.getElem?_eq_getElem hlt⟩

/-- From any line on, the pass lists what it lists without the comment. -/
theorem symbolsOf_declarationsFrom (h : HasNote content content' pre line post)
    (hback : line.getLast? ≠ some backslash) {skip : Nat} {rest : List Text}
    (hrest : rest = (Text.lines content).drop index)
    (hpast : ∀ x ∈ constructsFrom content (Text.lines content) skip rest index
        (textBefore (Text.lines content) index).length,
      ∀ raw construct, x.IsReadFrom content raw construct →
        construct.ReadsPast content pre.length line x.first x.last) :
    symbolsOf file (declarationsFrom content' (Text.lines content') skip
        ((Text.lines content').drop index) index (textBefore (Text.lines content') index).length)
      = symbolsOf file (declarationsFrom content (Text.lines content) skip rest index
        (textBefore (Text.lines content) index).length) := by
  -- By induction on the lines that are left of the first file; those of the second are given by
  -- the index. The pass skips as many lines there, as the construct above ended in the same line.
  induction rest generalizing skip index with
  | nil =>
      have hnil : (Text.lines content').drop index = [] := by
        apply List.drop_eq_nil_of_le
        rw [h.length_eq]
        exact List.drop_eq_nil_iff.1 hrest.symm
      rw [hnil, declarationsFrom, declarationsFrom]
  | cons raw rest ih =>
      obtain ⟨hraw, hnext⟩ := of_cons_eq_drop hrest
      obtain ⟨raw', hrest', hraw'⟩ := exists_cons_of_drop h.length_eq hrest
      obtain ⟨w, htrim, hw, -⟩ := (h.lineOrNoted hraw hraw').1.exists_trim
      have hclass : classify? (trim raw') = classify? (trim raw) := htrim ▸ classify?_append hw _
      rw [hrest']
      cases skip with
      | succ skip =>
          rw [constructsFrom, ← length_textBefore_succ hraw] at hpast
          rw [declarationsFrom, declarationsFrom, ← length_textBefore_succ hraw,
            ← length_textBefore_succ hraw']
          exact ih hnext hpast
      | zero =>
          rw [constructsFrom, ← length_textBefore_succ hraw] at hpast
          rw [declarationsFrom, declarationsFrom, ← length_textBefore_succ hraw,
            ← length_textBefore_succ hraw']
          dsimp only at hpast ⊢
          rw [hclass]
          cases hbegins : classify? (trim raw) with
          | none =>
              rw [hbegins] at hpast
              exact ih hnext hpast
          | some construct =>
              rw [hbegins] at hpast
              dsimp only at hpast ⊢
              have hread := hpast _ List.mem_cons_self raw construct ⟨hraw, hbegins, rfl⟩
              obtain ⟨hlast, hfound⟩ :=
                @readAt_note _ _ _ _ _ _ _ file _ _ h hback hraw hraw' hbegins hread
              unfold readAt at hlast hfound
              rw [symbolsOf_append, symbolsOf_append, hlast, hfound]
              congr 1
              exact ih hnext fun x hx => hpast x (List.mem_cons_of_mem _ hx)

/-- A comment behind a line changes nothing of what a file lists, unless the line ends with a
backslash or the comment is not read past. -/
theorem symbols_withNote {content file line : Text} {k : Nat}
    (hline : (Text.lines content)[k]? = some line) (hback : line.getLast? ≠ some backslash)
    (hpast : ∀ x ∈ constructsOf content, ∀ raw construct, x.IsReadFrom content raw construct →
      construct.ReadsPast content k line x.first x.last) :
    (structureOf (withNote content k) file).symbols = (structureOf content file).symbols := by
  have hnote := hasNote_withNote hline
  have hk : ((Text.lines content).take k).length = k :=
    List.length_take_of_le (Nat.le_of_lt (List.getElem?_eq_some_iff.1 hline).1)
  rw [← hk] at hpast
  have hall := @symbolsOf_declarationsFrom _ _ _ _ _ file 0 hnote hback 0 _ rfl hpast
  have hdeclared : symbolsOf file (declarations (withNote content k))
      = symbolsOf file (declarations content) := hall
  rw [symbols_structureOf, symbols_structureOf, hdeclared]

/-- A file with a function and a variable. -/
def limitFile : Text :=
  "package p\n\nfunc Load() error \x7b\n\treturn nil\n\x7d\n\nvar limit = 3\n"

/-- The comment behind the line of the variable changes nothing. -/
theorem symbols_withNote_limitFile :
    (Text.lines limitFile)[6]? = some "var limit = 3".toList ∧
      "var limit = 3".toList.getLast? ≠ some backslash ∧
      withNote limitFile 6 =
      "package p\n\nfunc Load() error \x7b\n\treturn nil\n\x7d\n\nvar limit = 3 // note\n".toList ∧
      (structureOf (withNote limitFile 6) "m.go").symbols
        = (structureOf limitFile "m.go").symbols := by
  have hline : (Text.lines limitFile)[6]? = some "var limit = 3".toList := by decide
  have hback : "var limit = 3".toList.getLast? ≠ some backslash := by decide
  refine ⟨hline, hback, by decide, symbols_withNote hline hback fun x hx raw construct hread => ?_⟩
  have hplaces : (constructsOf limitFile).map (fun x => (x.first, x.last)) = [(2, 4), (6, 6)] := by
    decide +kernel
  have hplace := List.mem_map_of_mem (f := fun x : Extended => (x.first, x.last)) hx
  rw [hplaces] at hplace
  have hstands := hread.stands
  have hbegins := hread.begins
  simp only [List.mem_cons, List.not_mem_nil, or_false, Prod.mk.injEq] at hplace
  rcases hplace with ⟨hfirst, hlast⟩ | ⟨hfirst, hlast⟩
  · rw [hfirst] at hstands
    have hraw : (Text.lines limitFile)[2]? = some "func Load() error \x7b".toList := by decide
    obtain rfl := Option.some.inj (hraw.symm.trans hstands)
    have hkind : classify? (trim "func Load() error \x7b") = some .function := by decide
    obtain rfl := Option.some.inj (hkind.symm.trans hbegins)
    intro _ hopens
    rw [hfirst] at hopens
    have hopen :
        findBodyOpen? limitFile (textBefore (Text.lines limitFile) 2).length = some 29 := by
      decide +kernel
    have hlate := hopens 29 hopen
    exact absurd hlate (by decide)
  · rw [hfirst] at hstands
    obtain rfl := Option.some.inj (hline.symm.trans hstands)
    have hkind : classify? (trim "var limit = 3") = some .packageVars := by decide
    obtain rfl := Option.some.inj (hkind.symm.trans hbegins)
    rw [hfirst, hlast]
    refine ⟨⟨?_, ?_, ?_, ?_⟩, ?_⟩
    · exact fun _ _ _ => by decide
    · exact fun _ _ _ h => absurd rfl h
    · exact fun _ => by decide
    · exact fun _ _ => by decide
    · exact fun _ => by decide

end GoSurvey.Declaration
