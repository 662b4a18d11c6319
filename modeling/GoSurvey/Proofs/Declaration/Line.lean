/-
What a line begins, and how the pass goes on after it. A line begins a
construct only if it begins with one of five keywords, no two of which
begin with the same character, so the keyword decides
(`classify?_of_keyword`) unless it is `type`.
-/
import GoSurvey.Declaration.Structure
import GoSurvey.Proofs.Declaration.ParameterList
import GoSurvey.Proofs.Pattern.First
import GoSurvey.Proofs.Pattern.Step

namespace GoSurvey.Declaration

open Text Source Pattern

-- ====================================================== kinds of lines

theorem readings_keyword_nil {keyword t : Text} (h : ¬keyword <+: t) :
    readings (atStart ++ lit keyword) ⟨Cursor.start t, []⟩ = [] := by
  refine List.eq_nil_iff_forall_not_mem.2 fun s hs => ?_
  obtain ⟨m, hm, hs⟩ := mem_readings_seq.1 hs
  obtain ⟨-, rfl⟩ := mem_readings_place.1 hm
  exact h (mem_readings_lit.1 hs).1

/-- The keywords that constructs begin with. -/
def constructKeywords : List Text := ["import", "type", "const", "var", "func"]

theorem matchStart_keywordLine {keyword t : Text} (h : ¬keyword <+: t) :
    (keywordLine keyword).matchStart t = none :=
  matchAt_of_nil (readings_seq_nil (readings_keyword_nil h))

theorem matchStart_typeLineOf {keyword t : Text} (h : ¬"type".toList <+: t) :
    (typeLineOf keyword).matchStart t = none :=
  matchAt_of_nil (readings_seq_nil (readings_seq_nil (readings_seq_nil (readings_seq_nil
    (readings_seq_nil (readings_seq_nil (readings_keyword_nil h)))))))

/-- A line that begins with no keyword begins nothing. -/
theorem classify?_eq_none {t : Text} (h : ∀ k ∈ constructKeywords, ¬k <+: t) :
    classify? t = none := by
  have hline : ∀ k ∈ constructKeywords, (keywordLine k).matchStart t = none :=
    fun k hk => matchStart_keywordLine (h k hk)
  have htype : ∀ k, (typeLineOf k).matchStart t = none :=
    fun k => matchStart_typeLineOf (h "type" (by decide))
  simp only [classify?, constructLines, List.find?, htype, hline "import" (by decide),
    hline "type" (by decide), hline "const" (by decide), hline "var" (by decide),
    hline "func" (by decide)]
  rfl

/-- The keywords after which nothing else of the line decides what it begins. -/
def keywordConstructs : List (Text × Construct) :=
  [("import", .imports), ("const", .constants), ("var", .packageVars), ("func", .function)]

/-- A line begins with a keyword where the keyword is its first word. -/
theorem isSome_keywordLine_iff {keyword t : Text} (hne : keyword ≠ [])
    (hword : ∀ c ∈ keyword, isWord c = true) :
    ((keywordLine keyword).matchStart t).isSome = true ↔
      ∃ u, t = keyword ++ u ∧ ∀ c ∈ u.head?, isWord c = false := by
  have hedge : ∀ {u : Text}, t = keyword ++ u →
      (((Cursor.start t).advance keyword).atWordEdge = true ↔ ∀ c ∈ u.head?, isWord c = false) := by
    intro u hu
    have hahead : ((Cursor.start t).advance keyword).rest = u := rest_advance hu
    rw [atWordEdge_advance hne hword, hahead]
  refine isSome_matchAt_iff.trans ⟨?_, ?_⟩
  · rintro ⟨s, hs⟩
    obtain ⟨s₁, hs₁, hplace⟩ := mem_readings_seq.1 hs
    obtain ⟨s₂, hs₂, hlit⟩ := mem_readings_seq.1 hs₁
    obtain ⟨-, rfl⟩ := mem_readings_place.1 hs₂
    obtain ⟨⟨u, hu⟩, rfl⟩ := mem_readings_lit.1 hlit
    exact ⟨u, hu.symm, (hedge hu.symm).1 (mem_readings_place.1 hplace).1⟩
  · rintro ⟨u, hu, hhead⟩
    let s : State := ⟨Cursor.start t, []⟩
    have hplace : s ∈ readings atStart s := mem_readings_place.2 ⟨rfl, rfl⟩
    have hlit : s.advance keyword ∈ readings (lit keyword) s :=
      mem_readings_lit.2 ⟨⟨u, hu.symm⟩, rfl⟩
    refine ⟨s.advance keyword, mem_readings_seq.2 ⟨_, mem_readings_seq.2 ⟨s, hplace, hlit⟩, ?_⟩⟩
    exact mem_readings_place.2 ⟨(hedge hu).2 hhead, rfl⟩

/-- A group opens in a line where a parenthesis is what follows the keyword. -/
theorem isSome_groupOpen_iff {keyword t : Text} :
    ((groupOpen keyword).matchStart t).isSome = true ↔
      ∃ gap more, (∀ c ∈ gap, isBlank c = true) ∧ t = keyword ++ (gap ++ '(' :: more) := by
  refine isSome_matchAt_iff.trans ⟨?_, ?_⟩
  · rintro ⟨s, hs⟩
    unfold groupOpen at hs
    simp only [readings_assoc] at hs
    obtain ⟨s₁, hs₁, hs⟩ := mem_readings_seq.1 hs
    obtain ⟨s₂, hs₂, hs⟩ := mem_readings_seq.1 hs
    obtain ⟨s₃, hs₃, hs⟩ := mem_readings_seq.1 hs
    obtain ⟨-, rfl⟩ := mem_readings_place.1 hs₁
    obtain ⟨hkeyword, rfl⟩ := mem_readings_lit.1 hs₂
    obtain ⟨gap, hrest, hgap, rfl⟩ := mem_readings_run.1 hs₃
    obtain ⟨more, hmore⟩ := prefix_append_of_advance hkeyword
      (prefix_append_of_advance hrest (mem_readings_lit.1 hs).1)
    refine ⟨gap, more, hgap, ?_⟩
    rw [← show keyword ++ (gap ++ "(".toList) ++ more = t from hmore]
    simp
  · rintro ⟨gap, more, hgap, rfl⟩
    let s : State := ⟨Cursor.start (keyword ++ (gap ++ '(' :: more)), []⟩
    have hread : CanRead (lit keyword ++ (blanks ++ "(")) (keyword ++ (gap ++ "(".toList)) :=
      (canRead_lit keyword).append ((canRead_run hgap).append (canRead_lit "("))
    have hahead : keyword ++ (gap ++ "(".toList) <+: s.cursor.rest :=
      ⟨more, by simp [s, Cursor.start]⟩
    obtain ⟨s', hs', -⟩ := hread s hahead
    refine ⟨s', ?_⟩
    unfold groupOpen
    simp only [readings_assoc]
    exact mem_readings_seq.2 ⟨s, mem_readings_place.2 ⟨rfl, rfl⟩, hs'⟩

/-- A keyword is taken off a line with the blanks after it, if there are any. -/
theorem dropMatch_keywordBlanks (keyword : Text) {gap t : Text}
    (hgap : ∀ c ∈ gap, isBlank c = true) (ht : ∀ c ∈ t.head?, isBlank c = false) :
    dropMatch (keywordBlanks keyword) (keyword ++ (gap ++ t))
      = if gap = [] then keyword ++ t else t := by
  let s₀ : State := ⟨Cursor.start (keyword ++ (gap ++ t)), []⟩
  have hrest : (s₀.advance keyword).cursor.rest = gap ++ t := rest_advance rfl
  have hkeyword : First (atStart ++ lit keyword) s₀ (s₀.advance keyword) :=
    first_seq (first_place rfl) (first_lit ⟨_, rfl⟩)
  unfold dropMatch
  split
  · next m hm =>
    by_cases hnil : gap = []
    · -- Without blanks there is nothing to take off.
      subst hnil
      obtain ⟨s, hs, -⟩ := exists_reading_of_matchAt hm
      obtain ⟨s₁, hs₁, hblanks⟩ := mem_readings_seq.1 hs
      obtain ⟨s₂, hs₂, hlit⟩ := mem_readings_seq.1 hs₁
      obtain ⟨-, rfl⟩ := mem_readings_place.1 hs₂
      obtain ⟨-, rfl⟩ := mem_readings_lit.1 hlit
      obtain ⟨w, hne, ⟨more, hmore⟩, hw, -⟩ := mem_readings_run1.1 hblanks
      obtain ⟨c, w, rfl⟩ := List.exists_cons_of_ne_nil hne
      have hhead : t.head? = some c := by
        have hsame : (c :: w) ++ more = [] ++ t := hmore.trans hrest
        rw [← List.nil_append t, ← hsame]
        rfl
      have hblank := hw c List.mem_cons_self
      rw [ht c hhead] at hblank
      cases hblank
    · have hfirst : First (keywordBlanks keyword) s₀ ((s₀.advance keyword).advance gap) :=
        first_seq hkeyword (first_run1 hrest hnil hgap ht)
      have htakes : Takes s₀ ((s₀.advance keyword).advance gap) (keyword ++ gap) :=
        ⟨⟨t, List.append_assoc keyword gap t⟩, Cursor.advance_append _ _ _⟩
      have hstop : m.stop = (keyword ++ gap).length := by
        rw [← Option.some.inj ((matchAt_of_first hfirst).symm.trans hm)]
        unfold Match.stop
        rw [text_ofState htakes]
        exact Nat.zero_add _
      rw [hstop, if_neg hnil, ← List.append_assoc, List.drop_left]
  · next hnone =>
    by_cases hnil : gap = []
    · rw [if_pos hnil, hnil, List.nil_append]
    · have hfirst : First (keywordBlanks keyword) s₀ ((s₀.advance keyword).advance gap) :=
        first_seq hkeyword (first_run1 hrest hnil hgap ht)
      cases (matchAt_of_first hfirst).symm.trans hnone

/-- A keyword that is the first word of a line is taken off it. -/
theorem dropMatch_keywordLine {keyword u : Text} (hne : keyword ≠ [])
    (hword : ∀ c ∈ keyword, isWord c = true) (hu : ∀ c ∈ u.head?, isWord c = false) :
    dropMatch (keywordLine keyword) (keyword ++ u) = u := by
  let s₀ : State := ⟨Cursor.start (keyword ++ u), []⟩
  let s₁ : State := s₀.advance keyword
  have hstart : s₀.cursor.rest = keyword ++ u := rfl
  have hahead : s₁.cursor.rest = u := rest_advance hstart
  have hedge : s₁.cursor.atWordEdge = true :=
    (atWordEdge_advance hne hword).2 fun c hc => hu c (hahead ▸ hc)
  have hfirst : First (keywordLine keyword) s₀ s₁ :=
    first_seq (first_seq (first_place rfl) (first_lit ⟨u, rfl⟩)) (first_place hedge)
  have htext : (Match.ofState (Cursor.start (keyword ++ u)) s₁).text = keyword :=
    text_ofState ⟨⟨u, rfl⟩, rfl⟩
  have hstop : (Match.ofState (Cursor.start (keyword ++ u)) s₁).stop = keyword.length := by
    unfold Match.stop
    rw [htext]
    exact Nat.zero_add _
  have hmatch : (keywordLine keyword).matchStart (keyword ++ u) = _ := matchAt_of_first hfirst
  unfold dropMatch
  rw [hmatch]
  dsimp only
  rw [hstop, List.drop_left]

/-- A line that begins with a keyword and a space begins what the keyword says. -/
theorem classify?_of_keyword {keyword t : Text} {construct : Construct}
    (hkeyword : (keyword, construct) ∈ keywordConstructs) (h : keyword ++ [' '] <+: t) :
    classify? t = some construct := by
  have hne : keyword ≠ [] := by
    have hall : ∀ x ∈ keywordConstructs, x.1 ≠ [] := by decide
    exact hall _ hkeyword
  have hword : ∀ c ∈ keyword, isWord c = true := by
    have hall : ∀ x ∈ keywordConstructs, x.1.all isWord = true := by decide
    exact List.all_eq_true.1 (hall _ hkeyword)
  have hself : ((keywordLine keyword).matchStart t).isSome = true := by
    obtain ⟨u, rfl⟩ := h
    refine (isSome_keywordLine_iff hne hword).2 ⟨' ' :: u, List.append_assoc keyword _ u, ?_⟩
    rintro c ⟨⟩
    decide
  have hhead : t.head? = keyword.head? := by
    obtain ⟨u, rfl⟩ := h
    rw [List.append_assoc, List.head?_append_of_ne_nil keyword hne]
  have hnot : ∀ k ∈ constructKeywords, k.head? ≠ keyword.head? → ¬k <+: t := by
    rintro k hk hdifferent ⟨v, rfl⟩
    have hnil : ∀ k ∈ constructKeywords, k ≠ [] := by decide
    rw [List.head?_append_of_ne_nil k (hnil k hk)] at hhead
    exact hdifferent hhead
  have hline : ∀ k ∈ constructKeywords, k.head? ≠ keyword.head? →
      (keywordLine k).matchStart t = none :=
    fun k hk hdifferent => matchStart_keywordLine (hnot k hk hdifferent)
  have htype : "type".toList.head? ≠ keyword.head? → ∀ k, (typeLineOf k).matchStart t = none :=
    fun hdifferent k => matchStart_typeLineOf (hnot "type" (by decide) hdifferent)
  simp only [keywordConstructs, List.mem_cons, Prod.mk.injEq, List.not_mem_nil, or_false]
    at hkeyword
  rcases hkeyword with ⟨rfl, rfl⟩ | ⟨rfl, rfl⟩ | ⟨rfl, rfl⟩ | ⟨rfl, rfl⟩
  · simp only [classify?, constructLines, List.find?, hself]
    rfl
  · simp only [classify?, constructLines, List.find?, htype (by decide),
      hline "import" (by decide) (by decide), hline "type" (by decide) (by decide), hself]
    rfl
  · simp only [classify?, constructLines, List.find?, htype (by decide),
      hline "import" (by decide) (by decide), hline "type" (by decide) (by decide),
      hline "const" (by decide) (by decide), hself]
    rfl
  · simp only [classify?, constructLines, List.find?, htype (by decide),
      hline "import" (by decide) (by decide), hline "type" (by decide) (by decide),
      hline "const" (by decide) (by decide), hline "var" (by decide) (by decide), hself]
    rfl

theorem classify?_package {package : Text} (hpackage : isWordText package = true) :
    newline ∉ "package " ++ package ∧ classify? (trim ("package " ++ package)) = none := by
  obtain ⟨hne, hword⟩ := isWordText_iff.1 hpackage
  constructor
  · intro hmem
    rcases List.mem_append.1 hmem with hmem | hmem
    · exact absurd hmem (by decide)
    · exact absurd (hword _ hmem) (by decide)
  · have htrimmed : Trimmed ("package " ++ package) := by
      refine ⟨fun c hc => ?_, fun c hc => ?_⟩
      · obtain rfl : 'p' = c := Option.some.inj hc
        decide
      · rw [List.getLast?_append_of_ne_nil _ hne] at hc
        exact not_isBlank_of_isWord (hword c (List.mem_of_getLast? hc))
    rw [htrimmed.trim_eq]
    refine classify?_eq_none ?_
    rintro k hk ⟨u, hu⟩
    have hhead : k.head? ≠ some 'p' ∧ k ≠ [] := by
      have hall : ∀ k ∈ constructKeywords, k.head? ≠ some 'p' ∧ k ≠ [] := by decide
      exact hall k hk
    refine hhead.1 ?_
    rw [← List.head?_append_of_ne_nil k hhead.2, hu]
    rfl

-- ============================================================= the pass

/-- A construct that takes some lines leaves the pass at the line after them. -/
theorem declarationsFrom_skip (content : Text) (all skipped rest : List Text) (index offset : Nat) :
    declarationsFrom content all skipped.length (skipped ++ rest) index offset
      = declarationsFrom content all 0 rest (index + skipped.length)
          (offset + (skipped.flatMap (· ++ [newline])).length) := by
  induction skipped generalizing index offset with
  | nil => rfl
  | cons line skipped ih =>
      rw [List.length_cons, List.cons_append, declarationsFrom, ih]
      congr 1
      · omega
      · simp only [List.flatMap_cons, List.length_append, List.length_singleton]
        omega

/-- At a construct the pass takes what it declares and goes on after its last line. -/
theorem declarationsFrom_construct {content line : Text} {all rest : List Text}
    (skipped : List Text) {construct : Construct} {found : List Declaration} {index offset : Nat}
    (h : classify? (trim line) = some construct)
    (hread : readConstruct content all index offset (trim line) construct
      = (found, index + skipped.length)) :
    declarationsFrom content all 0 (line :: (skipped ++ rest)) index offset
      = found ++ declarationsFrom content all 0 rest (index + 1 + skipped.length)
          (offset + line.length + 1 + (skipped.flatMap (· ++ [newline])).length) := by
  rw [declarationsFrom]
  dsimp only
  rw [h]
  dsimp only
  rw [hread]
  dsimp only
  rw [Nat.add_sub_cancel_left, declarationsFrom_skip]

/-- A line that begins nothing is passed over. -/
theorem declarationsFrom_none {content line : Text} {all rest : List Text} {index offset : Nat}
    (h : classify? (trim line) = none) :
    declarationsFrom content all 0 (line :: rest) index offset
      = declarationsFrom content all 0 rest (index + 1) (offset + line.length + 1) := by
  rw [declarationsFrom]
  dsimp only
  rw [h]

end GoSurvey.Declaration
