/-
Values of groups, looked up by their names. The extractor finds the end of
a group by its parentheses, the lookup by the first line that begins with
one. Where the lookup is still in the group when it comes to the line of
a value, it finds the value, unless the line goes on after the name in a
way that its rule does not know; where the group has been closed for it,
the line defines nothing, and the value is found only if another line
defines its name (`grouped_value_found`).

The two read the same line with different patterns, that of the extractor
all of its code, the rule of the lookup no further than to what follows the
name. So it is shown of the code how it goes on after the name (`Goes`),
and that the rule reads this far (`Continues.occursIn`). Outside of groups
every rule but that of short declarations asks for a keyword at the
beginning of the line (`keywordLine_of_rule`), and the line of a value
begins with a name in its place (`FirstWord.eq_keyword`).
-/
import GoSurvey.Proofs.Declaration.ValueFile
import GoSurvey.Proofs.Declaration.ValueLine
import GoSurvey.Proofs.Symbol.Definition

namespace GoSurvey.Symbol

open Text Source Pattern Declaration

variable {name line : Text}

-- ============================================== lines of definitions

/-- The words with which definitions and groups begin. -/
def lineKeywords : List Text := ["func", "type", "const", "var"]

/-- A line begins with a word that is followed, after blanks, by a character. -/
def KeywordLine (keyword : Text) (c : Char) (line : Text) : Prop :=
  ∃ lead gap rest, line = lead ++ (keyword ++ (gap ++ c :: rest)) ∧
    (∀ c ∈ lead, isBlank c = true) ∧ (∀ c ∈ gap, isBlank c = true) ∧
    (gap ≠ [] ∨ isWord c = false)

/-- What a pattern reads begins with a word character. -/
def BeginsWord (p : Pattern) : Prop :=
  ∀ s s', s' ∈ readings p s → ∃ c rest, s.cursor.rest = c :: rest ∧ isWord c = true

/-- A pattern that reads a word first begins with a word character. -/
theorem beginsWord_word (p : Pattern) : BeginsWord (word ++ p) := by
  intro s s' h
  obtain ⟨m, hm, -⟩ := mem_readings_seq.1 h
  obtain ⟨w, hne, ⟨rest, hrest⟩, hword, -⟩ := mem_readings_run1.1 hm
  obtain ⟨c, w, rfl⟩ := List.exists_cons_of_ne_nil hne
  exact ⟨c, w ++ rest, hrest.symm, hword c List.mem_cons_self⟩

theorem beginsWord_name (hname : isWordText name = true) (p : Pattern) :
    BeginsWord (lit name ++ p) := by
  obtain ⟨hne, hword⟩ := isWordText_iff.1 hname
  intro s s' h
  obtain ⟨m, hm, -⟩ := mem_readings_seq.1 h
  obtain ⟨⟨rest, hrest⟩, -⟩ := mem_readings_lit.1 hm
  obtain ⟨c, w, rfl⟩ := List.exists_cons_of_ne_nil hne
  exact ⟨c, w ++ rest, hrest.symm, hword c List.mem_cons_self⟩

/-- Before a name there may be others, each of them a word as well. -/
theorem beginsWord_names (hname : isWordText name = true) (p : Pattern) :
    BeginsWord (namesWithCommas ++ (lit name ++ p)) := by
  intro s s' h
  obtain ⟨m, hm, hname'⟩ := mem_readings_seq.1 h
  unfold namesWithCommas at hm
  rw [readings] at hm
  cases hlength : s.cursor.rest.length with
  | zero =>
      rw [hlength] at hm
      obtain rfl := List.mem_singleton.1 hm
      exact beginsWord_name hname p m s' hname'
  | succ n =>
      rw [hlength, repeatedReadings] at hm
      rcases List.mem_append.1 hm with hm | hm
      · obtain ⟨m', hm', -⟩ := List.mem_flatMap.1 hm
        have hfirst := (List.mem_filter.1 hm').1
        simp only [readings_assoc] at hfirst
        exact beginsWord_word _ s m' hfirst
      · obtain rfl := List.mem_singleton.1 hm
        exact beginsWord_name hname p m s' hname'

/-- A pattern that begins with the indent of a line is read behind the indent. -/
theorem exists_indent {p : Pattern} {w : Text} {s : State} (hw : w <+: line)
    (hs : s ∈ readings (atStart ++ (blanks ++ p)) ⟨(Cursor.start line).advance w, []⟩) :
    ∃ lead rest m, line = lead ++ rest ∧ (∀ c ∈ lead, isBlank c = true) ∧
      m.cursor.rest = rest ∧ s ∈ readings p m := by
  obtain ⟨s₀, hplace, hs⟩ := mem_readings_seq.1 hs
  obtain ⟨hstart, rfl⟩ := mem_readings_place.1 hplace
  obtain ⟨m, hm, hs⟩ := mem_readings_seq.1 hs
  obtain ⟨lead, hlead, hblank, rfl⟩ := mem_readings_run.1 hm
  have hlength : w.length = 0 := by
    have hoffset : 0 + w.length = 0 := beq_iff_eq.1 hstart
    omega
  obtain rfl := List.length_eq_zero_iff.1 hlength
  obtain ⟨rest, hrest⟩ := hlead
  have hsplit : line = lead ++ rest := hrest.symm
  exact ⟨lead, rest, _, hsplit, hblank, rest_advance hsplit, hs⟩

/-- After the keyword and blanks the line goes on with a word, if the pattern does. -/
theorem keywordLine_of_word {p : Pattern} {keyword lead rest : Text} {m s : State}
    (hline : line = lead ++ rest) (hlead : ∀ c ∈ lead, isBlank c = true)
    (hrest : m.cursor.rest = rest) (hp : BeginsWord p)
    (hs : s ∈ readings (lit keyword ++ (blanks1 ++ p)) m) :
    ∃ c, isWord c = true ∧ KeywordLine keyword c line := by
  obtain ⟨m₁, hkeyword, hs⟩ := mem_readings_seq.1 hs
  obtain ⟨m₂, hgap, hs⟩ := mem_readings_seq.1 hs
  obtain ⟨⟨after, hafter⟩, rfl⟩ := mem_readings_lit.1 hkeyword
  obtain ⟨gap, hne, ⟨after', hafter'⟩, hblank, rfl⟩ := mem_readings_run1.1 hgap
  obtain ⟨c, tail, htail, hc⟩ := hp _ _ hs
  have h₁ : (m.advance keyword).cursor.rest = after := rest_advance hafter.symm
  rw [h₁] at hafter'
  have h₂ : ((m.advance keyword).advance gap).cursor.rest = after' :=
    rest_advance (h₁.trans hafter'.symm)
  rw [h₂] at htail
  refine ⟨c, hc, lead, gap, tail, ?_, hlead, hblank, .inl hne⟩
  rw [hline, ← hrest, ← hafter, ← hafter', htail]

/-- After the keyword the line may go on with a parenthesis at once. -/
theorem keywordLine_of_parenthesis {keyword lead rest : Text} {m m₁ m₂ m₃ : State}
    (hline : line = lead ++ rest) (hlead : ∀ c ∈ lead, isBlank c = true)
    (hrest : m.cursor.rest = rest) (hkeyword : Takes m m₁ keyword) (hgap : m₂ ∈ readings blanks m₁)
    (hopen : m₃ ∈ readings "(" m₂) : KeywordLine keyword '(' line := by
  obtain ⟨gap, hblank, hgap, -⟩ := takes_run hgap
  obtain ⟨hopen, -⟩ := takes_lit hopen
  obtain ⟨tail, htail⟩ := (hkeyword.append (hgap.append hopen)).ahead
  refine ⟨lead, gap, tail, ?_, hlead, hblank, .inr (by decide)⟩
  rw [hline, ← hrest, ← htail]
  simp

/-- A line that opens a group, or starts one, begins with the keyword and a parenthesis. -/
theorem keywordLine_of_group {p : Pattern} {s : State}
    (hs : s ∈ readings (atStart ++ (blanks ++ (groupKeyword ++ (blanks ++ p))))
      ⟨Cursor.start line, []⟩) (hp : ∀ s s', s' ∈ readings p s → ∃ m, m ∈ readings "(" s) :
    ∃ keyword ∈ lineKeywords, KeywordLine keyword '(' line := by
  have hwords : ∀ k ∈ [GroupKeyword.const.text, GroupKeyword.var.text], k ∈ lineKeywords := by
    decide
  obtain ⟨lead, rest, m, hline, hlead, hrest, hs⟩ := exists_indent List.nil_prefix hs
  obtain ⟨m₁, hkeyword, hs⟩ := mem_readings_seq.1 hs
  obtain ⟨m₂, hgap, hs⟩ := mem_readings_seq.1 hs
  obtain ⟨m₃, hopen⟩ := hp _ _ hs
  obtain ⟨m', hm', rfl⟩ := mem_readings_group.1 hkeyword
  obtain ⟨keyword, hmem, ⟨hahead, hcursor⟩, -⟩ := takes_oneOf hm'
  have htaken : Takes m (m'.remember 1 m) keyword := ⟨hahead, hcursor⟩
  exact ⟨keyword, hwords keyword hmem,
    keywordLine_of_parenthesis hline hlead hrest htaken hgap hopen⟩

theorem keywordLine_of_opens {m : Match} (h : groupOpenLine.matchStart line = some m) :
    ∃ keyword ∈ lineKeywords, KeywordLine keyword '(' line := by
  obtain ⟨s, hs, -⟩ := exists_reading_of_matchAt h
  unfold groupOpenLine indent at hs
  simp only [readings_assoc] at hs
  refine keywordLine_of_group hs fun s s' h => ?_
  obtain ⟨m, hm, -⟩ := mem_readings_seq.1 h
  exact ⟨m, hm⟩

theorem keywordLine_of_starts {m : Match} (h : groupStartLine.matchStart line = some m) :
    ∃ keyword ∈ lineKeywords, KeywordLine keyword '(' line := by
  obtain ⟨s, hs, -⟩ := exists_reading_of_matchAt h
  unfold groupStartLine indent at hs
  simp only [readings_assoc] at hs
  exact keywordLine_of_group hs fun s s' h => ⟨s', h⟩

/-- A line that closes a group begins with a parenthesis. -/
theorem exists_of_closes (h : Closes line) :
    ∃ lead rest, line = lead ++ ')' :: rest ∧ ∀ c ∈ lead, isBlank c = true := by
  obtain ⟨m, hm⟩ := Option.isSome_iff_exists.1 h
  obtain ⟨s, hs, -⟩ := exists_reading_of_matchAt hm
  unfold groupCloseLine indent at hs
  simp only [readings_assoc] at hs
  obtain ⟨lead, rest, m, hline, hlead, hrest, hs⟩ := exists_indent List.nil_prefix hs
  obtain ⟨⟨⟨tail, htail⟩, -⟩, -⟩ := takes_lit hs
  exact ⟨lead, tail, by rw [hline, ← hrest, ← htail]; rfl, hlead⟩

/-- A line that a rule outside of groups knows begins with a keyword, or is a short declaration. -/
theorem keywordLine_of_rule {r : NameRule} (hname : isWordText name = true)
    (hr : r ∈ rulesFor name) (hgroup : r.group = none) (h : r.pattern.occursIn line = true) :
    (∃ keyword ∈ lineKeywords, ∃ c, (isWord c = true ∨ c = '(') ∧ KeywordLine keyword c line) ∨
      ":=".toList <:+: line := by
  have hword : ∀ {keyword : Text} {p : Pattern} {w : Text} {s : State}, keyword ∈ lineKeywords →
      BeginsWord p → w <+: line →
      s ∈ readings (atStart ++ (blanks ++ (lit keyword ++ (blanks1 ++ p))))
        ⟨(Cursor.start line).advance w, []⟩ →
      ∃ keyword ∈ lineKeywords, ∃ c, (isWord c = true ∨ c = '(') ∧ KeywordLine keyword c line := by
    intro keyword p w s hkeyword hp hw hs
    obtain ⟨lead, rest, m, hline, hlead, hrest, hs⟩ := exists_indent hw hs
    obtain ⟨c, hc, hkeywordLine⟩ := keywordLine_of_word hline hlead hrest hp hs
    exact ⟨keyword, hkeyword, c, .inl hc, hkeywordLine⟩
  have hparenthesis : ∀ {keyword : Text} {p : Pattern} {w : Text} {s : State},
      keyword ∈ lineKeywords → w <+: line →
      s ∈ readings (atStart ++ (blanks ++ (lit keyword ++ (blanks ++ ("(" ++ p)))))
        ⟨(Cursor.start line).advance w, []⟩ →
      ∃ keyword ∈ lineKeywords, ∃ c, (isWord c = true ∨ c = '(') ∧ KeywordLine keyword c line := by
    intro keyword p w s hkeyword hw hs
    obtain ⟨lead, rest, m, hline, hlead, hrest, hs⟩ := exists_indent hw hs
    obtain ⟨m₁, hlit, hs⟩ := mem_readings_seq.1 hs
    obtain ⟨m₂, hgap, hs⟩ := mem_readings_seq.1 hs
    obtain ⟨m₃, hopen, -⟩ := mem_readings_seq.1 hs
    exact ⟨keyword, hkeyword, '(', .inr rfl,
      keywordLine_of_parenthesis hline hlead hrest (takes_lit hlit).1 hgap hopen⟩
  simp only [rulesFor, definitionRules, List.map_cons, List.map_nil, List.mem_cons,
    List.not_mem_nil, or_false] at hr
  rcases hr with rfl | rfl | rfl | rfl | rfl | rfl | rfl | rfl | rfl | rfl | rfl
  all_goals first
    | exact .inr (((needs_lit _).behind _).infix_of_occursIn h)
    | cases hgroup
  all_goals
    obtain ⟨w, s, hw, hs⟩ := occursIn_iff.1 h
    unfold indent at hs
    simp only [readings_assoc] at hs
    left
  · exact hword (by decide) (beginsWord_name hname _) hw hs
  · exact hparenthesis (by decide) hw hs
  · exact hparenthesis (by decide) hw hs
  · exact hword (by decide) (beginsWord_name hname _) hw hs
  · exact hword (by decide) (beginsWord_name hname _) hw hs
  · exact hword (by decide) (beginsWord_name hname _) hw hs
  · exact hword (by decide) (beginsWord_name hname _) hw hs
  · exact hword (by decide) (beginsWord_names hname _) hw hs

-- ==================================================== lines of values

/-- A line begins with a word, with something after it. -/
structure FirstWord (w after line : Text) : Prop where
  word : isWordText w = true
  edge : ∀ c ∈ after.head?, isWord c = false
  line : ∃ lead, line = lead ++ (w ++ after) ∧ ∀ c ∈ lead, isBlank c = true

theorem isWordText_lineKeyword {keyword : Text} (h : keyword ∈ lineKeywords) :
    isWordText keyword = true := by
  have hall : ∀ k ∈ lineKeywords, isWordText k = true := by decide +kernel
  exact hall keyword h

/-- A line that begins with a word does not begin with another one. -/
theorem FirstWord.eq_keyword {w after keyword : Text} {c : Char} (h : FirstWord w after line)
    (hkeyword : keyword ∈ lineKeywords) (hline : KeywordLine keyword c line) :
    keyword = w ∧ ∃ gap rest, after = gap ++ c :: rest ∧ ∀ c ∈ gap, isBlank c = true := by
  obtain ⟨lead, hlead, hblank⟩ := h.line
  obtain ⟨lead', gap, rest, hsplit, hblank', hgap, hnext⟩ := hline
  obtain ⟨hne, hword⟩ := isWordText_iff.1 h.word
  obtain ⟨hne', hword'⟩ := isWordText_iff.1 (isWordText_lineKeyword hkeyword)
  have hvisible : ∀ {v u : Text}, v ≠ [] → (∀ c ∈ v, isWord c = true) →
      ∀ c ∈ (v ++ u).head?, isBlank c = false := by
    intro v u hv hall
    obtain ⟨d, v, rfl⟩ := List.exists_cons_of_ne_nil hv
    rintro c ⟨⟩
    exact not_isBlank_of_isWord (hall d List.mem_cons_self)
  have hedge : ∀ d ∈ (gap ++ c :: rest).head?, isWord d = false := by
    cases gap with
    | nil =>
        rintro d ⟨⟩
        exact hnext.resolve_left fun h => h rfl
    | cons e gap =>
        rintro d ⟨⟩
        exact not_isWord_of_isBlank (hgap e List.mem_cons_self)
  obtain ⟨-, hrest⟩ := run_inj hblank' hblank (hvisible hne' hword') (hvisible hne hword)
    (hsplit.symm.trans hlead)
  obtain ⟨hsame, hafter⟩ := run_inj hword' hword hedge h.edge hrest
  exact ⟨hsame, gap, rest, hafter.symm, hgap⟩

/-- A line that begins with a word closes no group, since that takes a parenthesis. -/
theorem FirstWord.not_closes {w after : Text} (h : FirstWord w after line) : ¬Closes line := by
  intro hcloses
  obtain ⟨lead, rest, hline, hblank⟩ := exists_of_closes hcloses
  obtain ⟨lead', hline', hblank'⟩ := h.line
  obtain ⟨hne, hword⟩ := isWordText_iff.1 h.word
  obtain ⟨c, w, rfl⟩ := List.exists_cons_of_ne_nil hne
  have hc : isWord c = true := hword c List.mem_cons_self
  obtain ⟨-, hrest⟩ := run_unique (show isBlank ')' = false by decide) (not_isBlank_of_isWord hc)
    hblank hblank' (hline.symm.trans hline')
  injection hrest with hsame
  rw [← hsame] at hc
  exact absurd hc (by decide)

-- ============================================== what follows the name

/-- The code of a line, trimmed. -/
def codeOf (line : Text) : Text := trim (stripLineComment (trim line))

/-- The keyword of a kind of values, as the lookup knows it. -/
def groupOf : ValueKind → GroupKeyword
  | .const => .const
  | .var => .var

/-- What follows the name in the line of a value is what the lookup looks for: a constant with a
type and no value has no comment behind it; a variable is not the last of its names, or its type
begins with a character of a type word, or it has no type and a value. -/
def Shown : ValueKind → (name line : Text) → Prop
  | .const, _, line => ∃ m ∈ constantPattern.matchStart (codeOf line),
    m.group 2 = [] ∨ m.group 3 ≠ [] ∨ trim line = codeOf line
  | .var, name, line => ∃ m ∈ variablePattern.matchStart (codeOf line),
    name ∈ (namesOf (m.group 1)).dropLast ∨ (∃ c ∈ (m.group 2).head?, isTypeWord c = true) ∨
      m.group 2 = [] ∧ m.group 3 ≠ []

/-- What the lookup reads after the name of a value in a group. -/
def tailOf : ValueKind → Pattern
  | .const => choice .atEnd (choice "=" (choice ","
      (choice (typeWord ++ blanks ++ choice "=" .atEnd) "//")))
  | .var => choice "=" (choice "," typeWord)

/-- The pattern of a value in a group. -/
def valuePattern : ValueKind → Text → Pattern
  | .const, name => indent ++ groupStart .const ++ lit name ++ wordEdge ++ blanks ++ tailOf .const
  | .var, name => indent ++ groupStart .var ++ namesWithCommas ++ lit name ++ wordEdge ++ blanks
      ++ tailOf .var

/-- One of the rules for a name is that for the values of a group. -/
theorem exists_valueRule (kind : ValueKind) (name : Text) :
    ∃ r ∈ rulesFor name, r.group = some (groupOf kind) ∧ r.pattern = valuePattern kind name := by
  cases kind with
  | const =>
      refine ⟨⟨.declared .constant, some .const, _⟩, ?_, rfl, rfl⟩
      simp only [rulesFor, definitionRules, List.map_cons, List.mem_cons, List.map_nil]
      exact .inr (.inr (.inr (.inr (.inr (.inr (.inr (.inl rfl)))))))
  | var =>
      refine ⟨⟨.declared .variable, some .var, _⟩, ?_, rfl, rfl⟩
      simp only [rulesFor, definitionRules, List.map_cons, List.mem_cons, List.map_nil]
      exact .inr (.inr (.inr (.inr (.inr (.inr (.inr (.inr (.inr (.inl rfl)))))))))

/-- What follows a name goes on, after blanks, in the way that the rule of its group reads. -/
structure Goes (kind : ValueKind) (gap after : Text) : Prop where
  blank : ∀ c ∈ gap, isBlank c = true
  edge : ∀ c ∈ (gap ++ after).head?, isWord c = false
  next : ∀ c ∈ after.head?, isBlank c = false ∧ c ≠ '('
  tail : ReadsRest (tailOf kind) after

/-- The line of a value that goes on after the name as it should. -/
def Continues (kind : ValueKind) (name line : Text) : Prop :=
  ∃ (lead : Text) (ws : List Text) (gap after : Text),
    line = lead ++ (ws.flatten ++ (name ++ (gap ++ after))) ∧ (∀ c ∈ lead, isBlank c = true) ∧
      (∀ w ∈ ws, IsNameComma w) ∧ (kind = .const → ws = []) ∧ Goes kind gap after

theorem canRead_nameComma {w : Text} (h : IsNameComma w) :
    w ≠ [] ∧ CanRead (word ++ blanks ++ "," ++ blanks) w := by
  obtain ⟨name, lead, gap, hname, hlead, hgap, rfl⟩ := h
  obtain ⟨hne, hword⟩ := isWordText_iff.1 hname
  have hread := ((((canRead_run1 hne hword).append (canRead_run hlead)).append
    (canRead_lit ",".toList)).append (canRead_run hgap))
  simp only [List.append_assoc] at hread
  exact ⟨by simp [hne], hread⟩

/-- A line can be read if what stands before the name can, and what follows it. -/
theorem exists_reading_behind {front tail : Pattern} {pre gap after : Text}
    (hfront : CanRead front pre) (hname : isWordText name = true)
    (hgap : ∀ c ∈ gap, isBlank c = true) (hedge : ∀ c ∈ (gap ++ after).head?, isWord c = false)
    (htail : ReadsRest tail after) :
    ∃ s, s ∈ readings (atStart ++ (front ++ (lit name ++ (wordEdge ++ (blanks ++ tail)))))
      ⟨Cursor.start (pre ++ (name ++ (gap ++ after))), []⟩ := by
  obtain ⟨hne, hword⟩ := isWordText_iff.1 hname
  let s₀ : State := ⟨Cursor.start (pre ++ (name ++ (gap ++ after))), []⟩
  have hrest₀ : s₀.cursor.rest = pre ++ (name ++ (gap ++ after)) := rfl
  obtain ⟨s₁, hs₁, hcursor₁⟩ := hfront s₀ ⟨_, hrest₀.symm⟩
  have hrest₁ : s₁.cursor.rest = name ++ (gap ++ after) := by
    rw [hcursor₁]
    exact rest_advance hrest₀
  have hrest₂ : (s₁.advance name).cursor.rest = gap ++ after := rest_advance hrest₁
  have hplace : (s₁.advance name).cursor.atWordEdge = true := by
    refine (atWordEdge_advance hne hword).2 ?_
    rw [show (s₁.cursor.advance name).rest = gap ++ after from hrest₂]
    exact hedge
  obtain ⟨s₂, hs₂⟩ := ReadsRest.append (canRead_run hgap) htail (s₁.advance name) hrest₂
  refine ⟨s₂, mem_readings_seq.2 ⟨s₀, mem_readings_place.2 ⟨rfl, rfl⟩, ?_⟩⟩
  refine mem_readings_seq.2 ⟨s₁, hs₁, mem_readings_seq.2 ⟨s₁.advance name, ?_, ?_⟩⟩
  · exact mem_readings_lit.2 ⟨⟨_, hrest₁.symm⟩, rfl⟩
  · exact mem_readings_seq.2 ⟨_, mem_readings_place.2 ⟨hplace, rfl⟩, hs₂⟩

/-- The rule of a group knows the line of a value that goes on as it should. -/
theorem Continues.occursIn {kind : ValueKind} (h : Continues kind name line)
    (hname : isWordText name = true) : (valuePattern kind name).occursIn line = true := by
  obtain ⟨lead, ws, gap, after, rfl, hlead, hws, hconst, hgoes⟩ := h
  refine occursIn_iff.2 ⟨[], ?_⟩
  have hstart : CanRead (blanks ++ groupStart (groupOf kind)) (lead ++ []) :=
    (canRead_run hlead).append (canRead_optional_nil _)
  rw [List.append_nil] at hstart
  cases kind with
  | const =>
      obtain rfl := hconst rfl
      obtain ⟨s, hs⟩ := exists_reading_behind hstart hname hgoes.blank hgoes.edge hgoes.tail
      refine ⟨s, List.nil_prefix, ?_⟩
      unfold valuePattern indent
      simp only [readings_append, List.flatMap_assoc] at hs ⊢
      exact hs
  | var =>
      have hnames : CanRead namesWithCommas ws.flatten :=
        canRead_repeated (fun w hw => (canRead_nameComma (hws w hw)).1)
          fun w hw => (canRead_nameComma (hws w hw)).2
      obtain ⟨s, hs⟩ :=
        exists_reading_behind (hstart.append hnames) hname hgoes.blank hgoes.edge hgoes.tail
      refine ⟨s, List.nil_prefix, ?_⟩
      unfold valuePattern indent
      simp only [readings_append, List.flatMap_assoc, List.append_assoc] at hs ⊢
      exact hs

/-- The first word of such a line is not followed by a parenthesis. -/
theorem Continues.firstWord {kind : ValueKind} (h : Continues kind name line)
    (hname : isWordText name = true) : ∃ w after, FirstWord w after line ∧
      ∀ gap rest, (∀ c ∈ gap, isBlank c = true) → after ≠ gap ++ '(' :: rest := by
  obtain ⟨lead, ws, gap, after, rfl, hlead, hws, -, hgoes⟩ := h
  cases ws with
  | nil =>
      refine ⟨name, gap ++ after, ⟨hname, hgoes.edge, lead, rfl, hlead⟩, ?_⟩
      intro gap' rest hgap' hsame
      cases after with
      | nil =>
          rw [List.append_nil] at hsame
          have hmem : '(' ∈ gap := by
            rw [hsame]
            simp
          exact absurd (hgoes.blank '(' hmem) (by decide)
      | cons c after =>
          obtain ⟨hc, hne⟩ := hgoes.next c rfl
          obtain ⟨-, hrest⟩ := run_unique hc (by decide) hgoes.blank hgap' hsame
          injection hrest with hrest
          exact hne hrest
  | cons w ws =>
      obtain ⟨first, lead', gap', hfirst, hlead', hgap', rfl⟩ := hws w List.mem_cons_self
      refine ⟨first, lead' ++ ',' :: (gap' ++ (ws.flatten ++ (name ++ (gap ++ after)))),
        ⟨hfirst, ?_, lead, by simp, hlead⟩, ?_⟩
      · refine not_isWord_head_blanks hlead' ?_
        rintro c ⟨⟩
        decide
      · intro gap'' rest hgap'' hsame
        obtain ⟨-, hrest⟩ := run_unique (by decide) (by decide) hlead' hgap'' hsame
        injection hrest with hrest
        exact absurd hrest (by decide)

-- ==================================================== the line in a group

theorem isSome_rank?_iff {group : Option GroupKeyword} :
    (rank? (rulesFor name) group line).isSome = true ↔ ∃ r ∈ rulesFor name,
      r.applies group ((groupStartLine.matchStart line).map keywordOf) = true ∧
        r.pattern.occursIn line = true := by
  unfold rank?
  rw [List.findIdx?_isSome, List.any_eq_true]
  simp only [Bool.and_eq_true]

/-- In its group, a line that goes on as it should defines the name. -/
theorem Continues.definesIn {kind : ValueKind} (h : Continues kind name line)
    (hname : isWordText name = true) : DefinesIn (some (groupOf kind)) name line := by
  obtain ⟨w, after, hfirst, hnext⟩ := h.firstWord hname
  have hopen : groupOpenLine.matchStart line = none := by
    apply Option.eq_none_iff_forall_ne_some.2
    intro m hm
    obtain ⟨keyword, hmem, hkeyword⟩ := keywordLine_of_opens hm
    obtain ⟨-, gap, rest, hafter, hgap⟩ := hfirst.eq_keyword hmem hkeyword
    exact hnext gap rest hgap hafter
  have hstep : groupStep (some (groupOf kind)) line = .inside := by
    unfold groupStep
    rw [hopen]
    exact if_neg fun hclose => hfirst.not_closes (Bool.and_eq_true_iff.1 hclose).2
  obtain ⟨r, hr, hgroup, hpattern⟩ := exists_valueRule kind name
  refine ⟨hstep, isSome_rank?_iff.2 ⟨r, hr, ?_, ?_⟩⟩
  · unfold NameRule.applies
    rw [hgroup]
    simp
  · rw [hpattern]
    exact h.occursIn hname

/-- Outside of groups, the line of a value defines nothing, unless it is a short declaration or the
name is a keyword. -/
theorem not_definesIn_none {w after : Text} (hname : isWordText name = true)
    (hfirst : FirstWord w after line)
    (hnext : w = name ∨ ∃ gap rest, (∀ c ∈ gap, isBlank c = true) ∧ after = gap ++ ',' :: rest)
    (hkeyword : name ∉ lineKeywords) (hshort : ¬":=".toList <:+: line) :
    ¬DefinesIn none name line := by
  have hnot : ∀ keyword ∈ lineKeywords, ∀ c, (isWord c = true ∨ c = '(') →
      ¬KeywordLine keyword c line := by
    intro keyword hmem c hc hline
    obtain ⟨rfl, gap, rest, hafter, hgap⟩ := hfirst.eq_keyword hmem hline
    rcases hnext with rfl | ⟨gap', rest', hgap', hafter'⟩
    · exact hkeyword hmem
    · have hvisible : isBlank c = false := by
        rcases hc with hc | rfl
        · exact not_isBlank_of_isWord hc
        · decide
      obtain ⟨-, hrest⟩ := run_unique hvisible (by decide) hgap hgap' (hafter.symm.trans hafter')
      injection hrest with hcomma
      rw [hcomma] at hc
      exact absurd hc (by decide)
  rintro ⟨-, hrank⟩
  obtain ⟨r, hr, happlies, hoccurs⟩ := isSome_rank?_iff.1 hrank
  have hstarts : groupStartLine.matchStart line = none := by
    apply Option.eq_none_iff_forall_ne_some.2
    intro m hm
    obtain ⟨keyword, hmem, hkeywordLine⟩ := keywordLine_of_starts hm
    exact hnot keyword hmem '(' (.inr rfl) hkeywordLine
  have hgroup : r.group = none := by
    rw [hstarts] at happlies
    unfold NameRule.applies at happlies
    cases hr : r.group with
    | none => rfl
    | some group =>
        rw [hr] at happlies
        cases happlies
  rcases keywordLine_of_rule hname hr hgroup hoccurs with ⟨keyword, hmem, c, hc, hline⟩ | hshort'
  · exact hnot keyword hmem c hc hline
  · exact hshort hshort'

-- ================================================== as it is reported

/-- A line holds its code, between blanks, and a line comment may stand behind that. -/
theorem exists_code (line : Text) : ∃ lead more, line = lead ++ (codeOf line ++ more) ∧
    (∀ c ∈ lead, isBlank c = true) ∧
    ((∀ c ∈ more, isBlank c = true) ∨ trim line ≠ codeOf line ∧ ∃ gap comment,
      (∀ c ∈ gap, isBlank c = true) ∧ more = gap ++ '/' :: '/' :: comment) := by
  obtain ⟨lead, trail, hsplit, hlead, htrail⟩ := exists_trim_eq line
  by_cases hcode : trim line = codeOf line
  · refine ⟨lead, trail, ?_, hlead, .inl htrail⟩
    rw [← hcode]
    exact hsplit
  · have htrim : trim (trim line) = trim line := (trimmed_trim line).trim_eq
    have hcases := trim_eq_code (trim line)
    rw [htrim] at hcases
    obtain ⟨gap, comment, hgap, hcomment⟩ := hcases.resolve_left hcode
    refine ⟨lead, gap ++ '/' :: '/' :: (comment ++ trail), ?_, hlead,
      .inr ⟨hcode, gap, comment ++ trail, hgap, rfl⟩⟩
    conv => lhs; rw [hsplit, hcomment]
    unfold codeOf
    simp only [List.append_assoc, List.cons_append]

/-- The extractor reads a name from a line of values. -/
def ReadAs : ValueKind → (name line : Text) → Prop
  | .const, name, line => ∃ m ∈ constantPattern.matchStart (codeOf line), m.group 1 = name
  | .var, name, line => ∃ m ∈ variablePattern.matchStart (codeOf line), name ∈ namesOf (m.group 1)

theorem newline_not_mem_codeOf (hline : newline ∉ line) : newline ∉ codeOf line :=
  fun hmem => hline ((trim_isInfix line).subset ((code_isInfix (trim line)).subset hmem))

/-- Where a mark of the language follows, no word goes on. -/
theorem goes_of_mark {kind : ValueKind} {gap after : Text} {c : Char}
    (hgap : ∀ c ∈ gap, isBlank c = true)
    (hc : isWord c = false ∧ isBlank c = false ∧ c ≠ '(')
    (htail : ReadsRest (tailOf kind) (c :: after)) : Goes kind gap (c :: after) := by
  refine ⟨hgap, not_isWord_head_blanks hgap ?_, ?_, htail⟩
  · rintro d ⟨⟩
    exact hc.1
  · rintro d ⟨⟩
    exact hc.2

theorem goes_equals (kind : ValueKind) {gap : Text} (hgap : ∀ c ∈ gap, isBlank c = true)
    (rest : Text) : Goes kind gap ('=' :: rest) := by
  have hequals : ReadsRest "=" ("=".toList ++ rest) := (canRead_lit _).readsRest rest
  refine goes_of_mark hgap (by decide) ?_
  cases kind with
  | const => exact hequals.choice_left.choice_right
  | var => exact hequals.choice_left

theorem goes_comma {gap : Text} (hgap : ∀ c ∈ gap, isBlank c = true) (rest : Text) :
    Goes .var gap (',' :: rest) := by
  have hcomma : ReadsRest "," (",".toList ++ rest) := (canRead_lit _).readsRest rest
  exact goes_of_mark hgap (by decide) hcomma.choice_left.choice_right

theorem goes_comment {gap : Text} (hgap : ∀ c ∈ gap, isBlank c = true) (rest : Text) :
    Goes .const gap ('/' :: '/' :: rest) := by
  have hmark : ReadsRest "//" ("//".toList ++ rest) := (canRead_lit _).readsRest rest
  exact goes_of_mark hgap (by decide)
    hmark.choice_right.choice_right.choice_right.choice_right

theorem goes_end {gap : Text} (hgap : ∀ c ∈ gap, isBlank c = true) : Goes .const gap [] := by
  refine ⟨hgap, ?_, ?_, readsRest_atEnd.choice_left⟩
  · apply not_isWord_head_blanks hgap
    rintro c ⟨⟩
  · rintro c ⟨⟩

/-- The first character of a type word is no blank and no parenthesis. -/
theorem next_of_isTypeWord {c : Char} (hc : isTypeWord c = true) : isBlank c = false ∧ c ≠ '(' := by
  refine ⟨not_isBlank_of_isTypeWord hc, ?_⟩
  rintro rfl
  exact absurd hc (by decide)

/-- A type may follow a constant if an equals sign or nothing comes after the type. -/
theorem goes_typed {lead type gap rest : Text} (hne : lead ≠ [])
    (hlead : ∀ c ∈ lead, isBlank c = true) (htype : type ≠ [])
    (hword : ∀ c ∈ type, isTypeWord c = true) (hgap : ∀ c ∈ gap, isBlank c = true)
    (hrest : ReadsRest (choice "=" .atEnd) rest) :
    Goes .const lead (type ++ (gap ++ rest)) := by
  have hread : ReadsRest (typeWord ++ blanks ++ choice "=" .atEnd) (type ++ (gap ++ rest)) := by
    have hall : ReadsRest (typeWord ++ blanks ++ choice "=" .atEnd) ((type ++ gap) ++ rest) :=
      ReadsRest.append ((canRead_run1 htype hword).append (canRead_run hgap)) hrest
    rw [List.append_assoc] at hall
    exact hall
  obtain ⟨c, type, rfl⟩ := List.exists_cons_of_ne_nil htype
  obtain ⟨d, lead, rfl⟩ := List.exists_cons_of_ne_nil hne
  refine ⟨hlead, ?_, ?_, hread.choice_left.choice_right.choice_right.choice_right⟩
  · rintro e ⟨⟩
    exact not_isWord_of_isBlank (hlead d List.mem_cons_self)
  · rintro e ⟨⟩
    exact next_of_isTypeWord (hword c List.mem_cons_self)

/-- A constant goes on as it should, unless a comment stands behind its type. -/
theorem continues_constant (hline : newline ∉ line) (hread : ReadAs .const name line)
    (hshown : Shown .const name line) : Continues .const name line := by
  obtain ⟨m, hm, rfl⟩ := hread
  obtain ⟨m', hm', hshown⟩ := hshown
  obtain rfl : m = m' := Option.some.inj (hm.symm.trans hm')
  obtain ⟨lead, more, hsplit, hlead, hmore⟩ := exists_code line
  obtain ⟨type, gap', value, hcode, hname, htype, hgap, hvalue⟩ :=
    constant_line hm (newline_not_mem_codeOf hline)
  have hcontinues : ∀ {gap after : Text}, Goes .const gap after →
      type ++ (gap' ++ value) ++ more = gap ++ after → Continues .const (m.group 1) line := by
    intro gap after hgoes htext
    refine ⟨lead, [], gap, after, ?_, hlead, List.forall_mem_nil _, fun _ => rfl, hgoes⟩
    rw [hsplit, hcode, List.append_assoc, htext]
    rfl
  generalize m.group 2 = typeText at *
  generalize m.group 3 = valueText at *
  cases hvalue with
  | @present lead' _ hne hlead' =>
      cases htype with
      | absent =>
          exact hcontinues (goes_equals .const hgap (lead' ++ (valueText ++ more))) (by simp)
      | present hne hlead htype hword =>
          have hequals :
              ReadsRest (choice "=" .atEnd) ("=".toList ++ (lead' ++ valueText ++ more)) :=
            ((canRead_lit _).readsRest _).choice_left
          exact hcontinues (goes_typed hne hlead htype hword hgap hequals) (by simp)
  | absent =>
      cases htype with
      | absent =>
          rcases hmore with hmore | ⟨-, gap, comment, hgap', rfl⟩
          · refine hcontinues (goes_end (List.forall_mem_append.2 ⟨hgap, hmore⟩)) (by simp)
          · exact hcontinues (goes_comment (List.forall_mem_append.2 ⟨hgap, hgap'⟩) comment)
              (by simp)
      | present hne hlead htype hword =>
          have hblank : ∀ c ∈ more, isBlank c = true := by
            refine hmore.resolve_right fun hcomment => ?_
            rcases hshown with hshown | hshown | hshown
            · exact htype hshown
            · exact hshown rfl
            · exact hcomment.1 hshown
          have hend : ReadsRest (choice "=" .atEnd) [] := readsRest_atEnd.choice_right
          exact hcontinues
            (goes_typed hne hlead htype hword (List.forall_mem_append.2 ⟨hgap, hblank⟩) hend)
            (by simp)

/-- A variable goes on as it should if it is not the last of its names, or a type word or a value
follows the names. -/
theorem continues_variable (hline : newline ∉ line) (hread : ReadAs .var name line)
    (hshown : Shown .var name line) : Continues .var name line := by
  obtain ⟨m, hm, hname⟩ := hread
  obtain ⟨m', hm', hshown⟩ := hshown
  obtain rfl : m = m' := Option.some.inj (hm.symm.trans hm')
  obtain ⟨lead, more, hsplit, hlead, -⟩ := exists_code line
  obtain ⟨names, lead', gap, value, hlist, hcode, hedge, hlead', hgap, hvalue⟩ :=
    variables_line hm (newline_not_mem_codeOf hline)
  rw [namesOf_nameList hlist] at hname hshown
  obtain ⟨-, ws, post, hws, hcut, hpost⟩ := hlist.cut hname
  have hcontinues : ∀ {gap' after : Text}, Goes .var gap' after →
      post ++ (lead' ++ (m.group 2 ++ (gap ++ value))) ++ more = gap' ++ after →
        Continues .var name line := by
    intro gap' after hgoes htext
    refine ⟨lead, ws, gap', after, ?_, hlead, hws, fun h => ValueKind.noConfusion h, hgoes⟩
    rw [hsplit, hcode, hcut, ← htext]
    simp only [List.append_assoc]
  rcases hpost with ⟨rfl, hlast⟩ | ⟨gap', rest, hgap', rfl⟩
  · rcases hshown with hshown | ⟨c, hc, hword⟩ | ⟨htype, hne⟩
    · exact absurd hshown hlast
    · obtain ⟨type, htype⟩ := List.head?_eq_some_iff.1 hc
      have hread : ReadsRest typeWord ([c] ++ (type ++ (gap ++ value ++ more))) :=
        (canRead_run1 (List.cons_ne_nil c []) (List.forall_mem_singleton.2 hword)).readsRest _
      rw [htype] at hedge hcontinues
      have hgoes : Goes .var lead' (c :: (type ++ (gap ++ value ++ more))) := by
        refine ⟨hlead', fun d hd => ?_, ?_, hread.choice_right.choice_right⟩
        · apply hedge d
          cases lead' <;> exact hd
        · rintro d ⟨⟩
          exact next_of_isTypeWord hword
      exact hcontinues hgoes (by simp)
    · rw [htype] at hcontinues
      generalize m.group 3 = valueText at *
      cases hvalue with
      | absent => exact absurd rfl hne
      | @present gap' _ hne hgap' =>
          exact hcontinues (goes_equals .var (List.forall_mem_append.2 ⟨hlead', hgap⟩)
            (gap' ++ (valueText ++ more))) (by simp)
  · exact hcontinues (goes_comma hgap'
      (rest ++ (lead' ++ (m.group 2 ++ (gap ++ value))) ++ more)) (by simp)

/-- The line of a value begins with its name, or with another name and a comma. -/
theorem firstWord_of_readAs {kind : ValueKind} (hline : newline ∉ line)
    (hread : ReadAs kind name line) : isWordText name = true ∧ ∃ w after, FirstWord w after line ∧
      (w = name ∨ ∃ gap rest, (∀ c ∈ gap, isBlank c = true) ∧ after = gap ++ ',' :: rest) := by
  obtain ⟨lead, more, hsplit, hlead, hmore⟩ := exists_code line
  have hedge : ∀ c ∈ more.head?, isWord c = false := by
    rcases hmore with hmore | ⟨-, gap, comment, hgap, rfl⟩
    · intro c hc
      exact not_isWord_of_isBlank (hmore c (List.mem_of_head? hc))
    · apply not_isWord_head_blanks hgap
      rintro c ⟨⟩
      decide
  cases kind with
  | const =>
      obtain ⟨m, hm, rfl⟩ := hread
      obtain ⟨type, gap, value, hcode, hname, htype, hgap, hvalue⟩ :=
        constant_line hm (newline_not_mem_codeOf hline)
      refine ⟨hname, m.group 1, type ++ (gap ++ (value ++ more)),
        ⟨hname, ?_, lead, ?_, hlead⟩, .inl rfl⟩
      · generalize m.group 2 = typeText at htype
        generalize m.group 3 = valueText at hvalue
        cases htype with
        | absent =>
            apply not_isWord_head_blanks hgap
            cases hvalue with
            | absent => exact hedge
            | present =>
                rintro c ⟨⟩
                decide
        | @present lead type hne hlead =>
            obtain ⟨d, lead, rfl⟩ := List.exists_cons_of_ne_nil hne
            rintro c ⟨⟩
            exact not_isWord_of_isBlank (hlead d List.mem_cons_self)
      · rw [hsplit, hcode]
        simp only [List.append_assoc]
  | var =>
      obtain ⟨m, hm, hname⟩ := hread
      obtain ⟨names, lead', gap, value, hlist, hcode, hnext, -⟩ :=
        variables_line hm (newline_not_mem_codeOf hline)
      rw [namesOf_nameList hlist] at hname
      obtain ⟨hword, -⟩ := hlist.cut hname
      refine ⟨hword, ?_⟩
      generalize lead' ++ (m.group 2 ++ (gap ++ value)) = tail at hcode hnext
      generalize m.group 1 = list at hlist hcode
      obtain ⟨hfirst, ht⟩ := hlist
      rename_i first t names
      cases ht with
      | nil =>
          obtain rfl := List.mem_singleton.1 hname
          refine ⟨name, tail ++ more, ⟨hfirst, ?_, lead, ?_, hlead⟩, .inl rfl⟩
          · cases tail with
            | nil => exact hedge
            | cons c tail => exact hnext
          · rw [hsplit, hcode]
            simp
      | @cons gap' gap'' next t names hgap' =>
          refine ⟨first, gap' ++ ',' :: (gap'' ++ (next ++ t) ++ tail ++ more),
            ⟨hfirst, ?_, lead, ?_, hlead⟩, .inr ⟨gap', _, hgap', rfl⟩⟩
          · apply not_isWord_head_blanks hgap'
            rintro c ⟨⟩
            decide
          · rw [hsplit, hcode]
            simp

-- =========================================================== the group

/-- A construct of a file is a group of values that goes on after its first line. -/
structure IsValueGroup (content : Text) (kind : ValueKind) (x : Extended) : Prop where
  mem : x ∈ constructsOf content
  opens : ∃ line, x.IsReadFrom content line kind.construct ∧
    ((groupOpen kind.keyword).matchStart (trim line)).isSome = true
  several : x.first < blockEnd parentheses (Text.lines content) x.first

variable {content : Text} {kind : ValueKind} {x : Extended}

/-- A group declares what its specs do, and those stand in the lines after its first. -/
theorem IsValueGroup.reportedNames_eq (h : IsValueGroup content kind x) :
    reportedNames kind x.found
      = (specsFrom (Text.lines content) (blockEnd parentheses (Text.lines content) x.first) 0
          (((Text.lines content).take
            (blockEnd parentheses (Text.lines content) x.first + 1)).drop (x.first + 1))
          (x.first + 1)).flatMap (readNames kind) := by
  obtain ⟨line, hread, hopen⟩ := h.opens
  have hfound : x.found
      = kind.declarations (groupSpecs kind.keyword (Text.lines content) x.first).1 := by
    have hspecs := congrArg Prod.fst hread.read
    rw [← show _ = x.found from hspecs]
    cases kind <;> rfl
  have hnone : ¬((groupOpen kind.keyword).matchStart (trim line)).isNone = true := by
    rw [Option.isNone_iff_eq_none]
    intro hnone
    rw [hnone] at hopen
    cases hopen
  rw [hfound, reportedNames_declarations, if_pos rfl]
  unfold groupSpecs
  rw [hread.stands]
  dsimp only [Option.getD_some]
  rw [if_neg hnone, if_neg (Nat.ne_of_gt h.several)]

/-- The names that the extractor reads off a spec are read from the code of its first line. -/
theorem readAs_of_readNames {s : Spec} {number : Nat} (h : (name, number) ∈ readNames kind s)
    (hcode : trim (stripLineComment s.head) = codeOf line) :
    number = s.line ∧ ReadAs kind name line := by
  cases kind with
  | const =>
      obtain ⟨d, hd, hsame⟩ := Option.map_eq_some_iff.1 (Option.mem_toList.1 h)
      obtain ⟨m, hm, rfl⟩ := Option.map_eq_some_iff.1 hd
      cases hsame
      rw [hcode] at hm
      exact ⟨rfl, m, hm, rfl⟩
  | var =>
      obtain ⟨d, hd, hsame⟩ := List.mem_map.1 h
      unfold parseVariables at hd
      rw [hcode] at hd
      cases hm : variablePattern.matchStart (codeOf line) with
      | none =>
          rw [hm] at hd
          cases hd
      | some m =>
          rw [hm] at hd
          obtain ⟨n, hn, rfl⟩ := List.mem_map.1 hd
          cases hsame
          exact ⟨rfl, m, hm, hn⟩

/-- A value of a group is read from the line of its number, one after the first of the group. -/
theorem IsValueGroup.exists_line (h : IsValueGroup content kind x) {number : Nat}
    (hname : (name, number) ∈ reportedNames kind x.found) :
    ∃ index line, number = index + 1 ∧ x.first < index ∧
      (Text.lines content)[index]? = some line ∧ ReadAs kind name line := by
  rw [h.reportedNames_eq] at hname
  obtain ⟨s, hs, hname⟩ := List.mem_flatMap.1 hname
  obtain ⟨raw, more, hraw, hlt, hne, htext, hmore⟩ := specsFrom_begins rfl s hs
  obtain ⟨trail, hhead, htrail⟩ :=
    firstLine_trim_eq (not_newline_of_mem_lines (List.mem_of_getElem? hraw)) hmore hne
  have hcode : trim (stripLineComment s.head) = codeOf raw := by
    unfold Spec.head codeOf
    rw [htext, hhead]
    exact code_append_blanks htrail (trim raw)
  obtain ⟨hnumber, hread⟩ := readAs_of_readNames hname hcode
  exact ⟨s.line - 1, raw, by omega, by omega, hraw, hread⟩

/-- A value that is reported from a group of several lines is read from the line of its number.
Where the lookup is in the group there, it finds the name if what follows the name is what it looks
for. Where the group has been closed for it, it finds the name only in another line. -/
theorem grouped_value_found {number : Nat} (h : IsValueGroup content kind x)
    (hname : (name, number) ∈ reportedNames kind x.found) :
    ∃ index line, number = index + 1 ∧ x.first < index ∧
      (Text.lines content)[index]? = some line ∧ ReadAs kind name line ∧
      (groupAt (Text.lines content) index = some (groupOf kind) → Shown kind name line →
        (definitionIn? content name).isSome = true) ∧
      (groupAt (Text.lines content) index = none → name ∉ lineKeywords → ¬":=".toList <:+: line →
        ((definitionIn? content name).isSome = true ↔
          ∃ other, other ≠ index ∧ DefinesAt (Text.lines content) name other)) := by
  obtain ⟨index, line, hnumber, hlt, hline, hread⟩ := h.exists_line hname
  have hplain : newline ∉ line := not_newline_of_mem_lines (List.mem_of_getElem? hline)
  obtain ⟨hword, w, after, hfirst, hnext⟩ := firstWord_of_readAs hplain hread
  refine ⟨index, line, hnumber, hlt, hline, hread, fun hgroup hshown => ?_,
    fun hgroup hkeyword hshort => ?_⟩
  · have hcontinues : Continues kind name line := by
      cases kind with
      | const => exact continues_constant hplain hread hshown
      | var => exact continues_variable hplain hread hshown
    apply isSome_definitionIn?_iff.2
    refine ⟨index, line, hline, ?_⟩
    rw [hgroup]
    exact hcontinues.definesIn hword
  · rw [isSome_definitionIn?_iff]
    constructor
    · rintro ⟨other, hother⟩
      refine ⟨other, ?_, hother⟩
      rintro rfl
      obtain ⟨line', hline', hdefines⟩ := hother
      obtain rfl := Option.some.inj (hline.symm.trans hline')
      rw [hgroup] at hdefines
      exact not_definesIn_none hword hfirst hnext hkeyword hshort hdefines
    · rintro ⟨other, -, hother⟩
      exact ⟨other, hother⟩

/-- A group of two variables, of which the first has a value over several lines. -/
def callInGroup : Text := "package p\n\nvar (\n\ta = f(\n\t\t1,\n\t)\n\tb = 2\n)\n"

/-- The construct that the group of that file is. -/
def callGroup : Extended where
  first := 2
  last := 7
  found := [.ofVariable ⟨"a", [], 4, "a = f(", []⟩, .ofVariable ⟨"b", [], 7, "b = 2", []⟩]

theorem isValueGroup_callGroup : IsValueGroup callInGroup .var callGroup where
  mem := by
    have hconstructs : constructsOf callInGroup = [callGroup] := by rfl
    rw [hconstructs]
    exact List.mem_singleton_self callGroup
  opens := ⟨"var (", ⟨by rfl, by rfl, by rfl⟩, by rfl⟩
  several := by decide +kernel

/-- The line with the parenthesis that ends the call closes the group for the lookup, so that the
second variable is not found. -/
theorem grouped_value_found_callGroup :
    IsValueGroup callInGroup .var callGroup ∧
      ("b".toList, 7) ∈ reportedNames .var callGroup.found ∧
      (∃ index line, 7 = index + 1 ∧ 2 < index ∧
        (Text.lines callInGroup)[index]? = some line ∧ ReadAs .var "b" line ∧
        (groupAt (Text.lines callInGroup) index = some (groupOf .var) → Shown .var "b" line →
          (definitionIn? callInGroup "b").isSome = true) ∧
        (groupAt (Text.lines callInGroup) index = none → "b".toList ∉ lineKeywords →
          ¬":=".toList <:+: line → ((definitionIn? callInGroup "b").isSome = true ↔
            ∃ other, other ≠ index ∧ DefinesAt (Text.lines callInGroup) "b" other))) ∧
      groupAt (Text.lines callInGroup) 6 = none ∧ definitionIn? callInGroup "b" = none ∧
      (definitionIn? callInGroup "a").isSome = true := by
  have hname : ("b".toList, 7) ∈ reportedNames .var callGroup.found := by decide +kernel
  exact ⟨isValueGroup_callGroup, hname, grouped_value_found isValueGroup_callGroup hname,
    by decide +kernel, by decide +kernel, by decide +kernel⟩

end GoSurvey.Symbol
