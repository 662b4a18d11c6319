/-
Fields with tags, each on a line of its own. A field line is code up to
the tag, and the tag is a raw literal, so there is no comment in the line
whatever stands in the tag (`stripLineComment_fieldLine`), and the line as
a whole gives its field back (`fieldsFrom_fieldLine`).

The cut of a body into pieces knows no literals. A line without the mark
of a comment is cut at every semicolon, those of its tag included; what
is read of such a piece has no semicolon (`tagOf_of_mem_linePieces`), and
every field has the tag of a piece (`exists_piece_of_mem_fieldsFrom`).
-/
import GoSurvey.Proofs.Declaration.TypeText
import GoSurvey.Proofs.Declaration.ValueSpec
import GoSurvey.Proofs.Source.Stripped

namespace GoSurvey.Declaration

open Text Source Pattern DelimiterScan

-- ======================================================= fields with tags

/-- A field with a name, a type and a tag that can stand in one line. -/
structure IsTagged (f : StructField) : Prop where
  name : isWordText f.name = true
  type_ne_nil : f.type ≠ []
  type : ∀ c ∈ f.type, isTypeWord c = true
  raw : backtick ∉ f.tag
  line : newline ∉ f.tag
  comments : f.comments = []

instance (f : StructField) : Decidable (IsTagged f) :=
  decidable_of_iff (isWordText f.name = true ∧ f.type ≠ [] ∧ f.type.all isTypeWord = true ∧
      backtick ∉ f.tag ∧ newline ∉ f.tag ∧ f.comments = [])
    ⟨fun ⟨hname, hne, htype, hraw, hline, hcomments⟩ =>
        ⟨hname, hne, List.all_eq_true.1 htype, hraw, hline, hcomments⟩,
      fun h => ⟨h.name, h.type_ne_nil, List.all_eq_true.2 h.type, h.raw, h.line, h.comments⟩⟩

/-- What stands before the tag in the line of a field. -/
def fieldCode (f : StructField) : Text := f.name ++ ' ' :: (f.type ++ [' '])

/-- The line of a field: its name, its type, and its tag between backticks. -/
def fieldLine (f : StructField) : Text := fieldCode f ++ backtick :: (f.tag ++ [backtick])

/-- The line of a field is cut within the tag. -/
def IsTorn (f : StructField) : Prop := ';' ∈ f.tag ∧ contains lineMark f.tag = false

instance (f : StructField) : Decidable (IsTorn f) := inferInstanceAs (Decidable (_ ∧ _))

variable {f : StructField} {t : Text} {c d : Char}

namespace IsTagged

theorem name_ne_nil (h : IsTagged f) : f.name ≠ [] := (isWordText_iff.1 h.name).1

theorem name_word (h : IsTagged f) : ∀ c ∈ f.name, isWord c = true := (isWordText_iff.1 h.name).2

theorem spaced (h : IsTagged f) : IsSpaced (fieldCode f) := by
  have hname : IsSpaced f.name := fun c hc => .inl (isTypeWord_of_isWord (h.name_word c hc))
  have htype : IsSpaced f.type := fun c hc => .inl (h.type c hc)
  have hspace : IsSpaced [' '] := List.forall_mem_singleton.2 (.inr rfl)
  exact hname.append (hspace.append (htype.append hspace))

theorem newline_not_mem (h : IsTagged f) : newline ∉ fieldLine f := by
  simp only [fieldLine, List.mem_append, List.mem_cons, List.not_mem_nil, or_false, not_or]
  exact ⟨h.spaced.not_mem (by decide) (by decide), by decide, h.line, by decide⟩

end IsTagged

theorem exists_fieldLine_eq (h : IsTagged f) : ∃ c t, fieldLine f = c :: t ∧ isWord c = true := by
  obtain ⟨c, name, hname⟩ := List.exists_cons_of_ne_nil h.name_ne_nil
  refine ⟨c, name ++ ' ' :: (f.type ++ [' ']) ++ backtick :: (f.tag ++ [backtick]), ?_, ?_⟩
  · unfold fieldLine fieldCode
    rw [hname]
    rfl
  · exact h.name_word c (hname ▸ List.mem_cons_self)

theorem trimmed_fieldLine (h : IsTagged f) : Trimmed (fieldLine f) := by
  obtain ⟨c, t, hline, hc⟩ := exists_fieldLine_eq h
  refine ⟨fun e he => ?_, fun e he => ?_⟩
  · rw [hline] at he
    injection he with he
    exact he ▸ not_isBlank_of_isWord hc
  · have hlast : fieldLine f = (fieldCode f ++ backtick :: f.tag) ++ [backtick] := by
      simp [fieldLine]
    rw [hlast, List.getLast?_concat] at he
    injection he with he
    exact he ▸ by decide

/-- In the line of a field there is no comment. -/
theorem stripLineComment_fieldLine (h : IsTagged f) :
    stripLineComment (fieldLine f) = fieldLine f := by
  have hbegins : Begins (.literal (backtick :: (f.tag ++ [backtick]))) [] := .raw h.raw
  have hnewline : newline ∉ backtick :: (f.tag ++ [backtick]) := by
    simp only [List.mem_cons, List.mem_append, List.not_mem_nil, or_false, not_or]
    exact ⟨by decide, h.line, by decide⟩
  have hnone : beforeLineComment? none false (backtick :: (f.tag ++ [backtick])) = none := by
    rw [← List.append_nil (backtick :: (f.tag ++ [backtick]))]
    exact beforeLineComment?_literal hbegins hnewline
  unfold stripLineComment fieldLine
  rw [beforeLineComment?_append h.spaced.bare (h.spaced.joins _), hnone]
  rfl

-- ====================================================== the line is read

/-- What may follow the type in the line of a field. -/
def afterType : Pattern := blanks ++ (optionalTag 3 ++ Pattern.atEnd)

/-- Before the end of a type nothing of what follows it can be read. -/
theorem readings_afterType {s : State} {t : Text} (hs : s.cursor.rest = c :: t)
    (hc : isTypeWord c = true) : readings afterType s = [] := by
  refine List.eq_nil_iff_forall_not_mem.2 fun s' hs' => ?_
  obtain ⟨m, hm, hs'⟩ := mem_readings_seq.1 hs'
  obtain ⟨w, hw, hblank, rfl⟩ := mem_readings_run.1 hm
  obtain rfl : w = [] := by
    cases w with
    | nil => rfl
    | cons e w =>
        rw [hs] at hw
        obtain ⟨rfl, -⟩ := List.cons_prefix_cons.1 hw
        have hnot := hblank e List.mem_cons_self
        rw [not_isBlank_of_isTypeWord hc] at hnot
        cases hnot
  have hhere : s.advance [] = s := rfl
  rw [hhere] at hs'
  obtain ⟨m, hm, hend⟩ := mem_readings_seq.1 hs'
  have hsame : m = s := by
    refine (mem_readings_optional.1 hm).resolve_left fun htag => ?_
    obtain ⟨m₁, hm₁, -⟩ := mem_readings_seq.1 htag
    obtain ⟨m₂, hm₂, -⟩ := mem_readings_seq.1 hm₁
    obtain ⟨e, he, hopen, -⟩ := mem_readings_one.1 hm₂
    rw [hs] at he
    obtain ⟨rfl, -⟩ := List.cons_prefix_cons.1 he
    exact ne_of_isTypeWord hc (by decide) (beq_iff_eq.1 hopen)
  obtain ⟨hatEnd, -⟩ := mem_readings_place.1 hend
  rw [hsame] at hatEnd
  unfold Cursor.atEnd at hatEnd
  rw [hs] at hatEnd
  simp only [List.isEmpty_cons, Bool.false_or, beq_iff_eq, List.cons.injEq] at hatEnd
  exact ne_of_isTypeWord hc (by decide) hatEnd.1

/-- Of a name list that is followed by a type one name is read. -/
theorem first_name {s : State} {name t : Text} (hs : s.cursor.rest = name ++ ' ' :: c :: t)
    (hname : isWordText name = true) (hc : isTypeWord c = true) :
    First (group 1 nameList) s ((s.advance name).remember 1 s) := by
  obtain ⟨hne, hword⟩ := isWordText_iff.1 hname
  have hrest : (s.advance name).cursor.rest = ' ' :: c :: t := rest_advance hs
  have hnone : readings nextName (s.advance name) = [] := by
    refine readings_nextName_nil fun w rest hw hall => ?_
    exact space_ne_comma (not_isBlank_of_isTypeWord hc) (ne_of_isTypeWord hc (by decide)) hw
      (hrest.symm.trans hall)
  refine first_group (first_seq (first_run1 hs hne hword ?_) ?_)
  · rintro e ⟨⟩
    decide
  · exact head?_repeatedReadings_nil hnone _

/-- After the type the tag is read, and that is all. -/
theorem first_afterType {s : State} {tag : Text}
    (hs : s.cursor.rest = [' '] ++ ([backtick] ++ (tag ++ [backtick]))) (hraw : backtick ∉ tag) :
    ∃ s', First afterType s s' ∧ s'.texts = (3, tag) :: s.texts := by
  let s₁ : State := s.advance [' ']
  let s₂ : State := s₁.advance [backtick]
  let s₃ : State := (s₂.advance tag).remember 3 s₂
  let s₄ : State := s₃.advance [backtick]
  have hs₁ : s₁.cursor.rest = [backtick] ++ (tag ++ [backtick]) := rest_advance hs
  have hs₂ : s₂.cursor.rest = tag ++ [backtick] := rest_advance hs₁
  have hs₃ : s₃.cursor.rest = [backtick] ++ [] := rest_advance hs₂
  have hs₄ : s₄.cursor.rest = [] := rest_advance hs₃
  have hgap : First blanks s s₁ := by
    refine first_run hs (List.forall_mem_singleton.2 (by decide)) ?_
    rintro e ⟨⟩
    decide
  have hopen : First (one (· == backtick)) s₁ s₂ :=
    first_one hs₁ (beq_self_eq_true backtick)
  have hinside : First (group 3 (run (except backtick))) s₂ s₃ := by
    refine first_group (first_run hs₂ (except_of_not_mem hraw) ?_)
    rintro e ⟨⟩
    decide
  have hclose : First (one (· == backtick)) s₃ s₄ :=
    first_one hs₃ (beq_self_eq_true backtick)
  have hend : First Pattern.atEnd s₄ s₄ := by
    refine first_place ?_
    unfold Cursor.atEnd
    rw [hs₄]
    rfl
  have htag : First (optionalTag 3) s₁ s₄ :=
    first_optional (first_seq (first_seq hopen hinside) hclose)
  have htexts : s₃.texts = (3, tag) :: s₂.texts := texts_remember 3 ⟨_, hs₂.symm⟩ rfl
  exact ⟨s₄, first_seq hgap (first_seq htag hend), htexts⟩

/-- What is read of the line of a field are its name, its type and its tag. -/
theorem matchStart_fieldLine (h : IsTagged f) :
    ∃ m, fieldPattern.matchStart (fieldLine f) = some m ∧ m.group 1 = f.name ∧
      m.group 2 = f.type ∧ m.group 3 = f.tag := by
  obtain ⟨c, type, htype⟩ := List.exists_cons_of_ne_nil h.type_ne_nil
  have hc : isTypeWord c = true := h.type c (htype ▸ List.mem_cons_self)
  let s₀ : State := ⟨Cursor.start (fieldLine f), []⟩
  let s₁ : State := (s₀.advance f.name).remember 1 s₀
  let s₂ : State := s₁.advance [' ']
  let s₃ : State := (s₂.advance f.type).remember 2 s₂
  have hs₀ : s₀.cursor.rest = f.name ++ ([' '] ++ (f.type ++ ([' '] ++
      ([backtick] ++ (f.tag ++ [backtick]))))) := by
    show fieldLine f = _
    simp [fieldLine, fieldCode]
  have hs₁ : s₁.cursor.rest = [' '] ++ (f.type ++ _) := rest_advance hs₀
  have hs₂ : s₂.cursor.rest = f.type ++ ([' '] ++ _) := rest_advance hs₁
  have hs₃ : s₃.cursor.rest = [' '] ++ ([backtick] ++ _) := rest_advance hs₂
  obtain ⟨s₄, hafter, htexts⟩ := first_afterType hs₃ h.raw
  have hname : First (group 1 nameList) s₀ s₁ := by
    rw [htype] at hs₀
    exact first_name hs₀ h.name hc
  have hgap : First blanks1 s₁ s₂ := by
    refine first_run1 hs₁ (List.cons_ne_nil _ _) (List.forall_mem_singleton.2 (by decide))
      fun e he => ?_
    rw [htype] at he
    injection he with he
    exact he ▸ not_isBlank_of_isTypeWord hc
  -- A shorter type would leave characters of it before the tag.
  have htypeTag : First (group 2 (shortRun1 (except backtick)) ++ afterType) s₂ s₄ := by
    refine first_shortGroup hs₂ h.type_ne_nil (fun e he => ?_) (fun v _ hv hne => ?_) hafter
    · exact bne_iff_ne.2 (ne_of_isTypeWord (h.type e he) (by decide))
    · obtain ⟨u, hu⟩ := hv
      cases u with
      | nil => exact absurd ((List.append_nil v).symm.trans hu) hne
      | cons e u =>
          have he : isTypeWord e = true :=
            h.type e (hu ▸ List.mem_append_right v List.mem_cons_self)
          rw [← hu, List.append_assoc] at hs₂
          exact readings_afterType (rest_advance hs₂) he
  have hfirst : First fieldPattern ⟨Cursor.start (fieldLine f), []⟩ s₄ := by
    have hall := first_seq hname (first_seq hgap htypeTag)
    unfold First fieldPattern
    simp only [readings_assoc, readings_atStart]
    exact hall
  have h₁ : s₁.texts = [(1, f.name)] := texts_remember 1 ⟨_, hs₀.symm⟩ rfl
  have h₃ : s₃.texts = (2, f.type) :: s₁.texts := texts_remember 2 ⟨_, hs₂.symm⟩ rfl
  have hgroup : ∀ i, (Match.ofState (Cursor.start (fieldLine f)) s₄).group i
      = ([(3, f.tag), (2, f.type), (1, f.name)].lookup i).getD [] := by
    intro i
    rw [group_ofState, htexts, h₃, h₁]
  exact ⟨_, matchAt_of_first hfirst, hgroup 1, hgroup 2, hgroup 3⟩

-- ==================================================== the fields of pieces

theorem namesOf_word {name : Text} (hname : ∀ c ∈ name, isWord c = true) :
    namesOf name = [name] := by
  have hcomma : ',' ∉ name := fun hmem => absurd (hname ',' hmem) (by decide)
  have htrimmed := trimmed_of_no_blank fun c hc => not_isBlank_of_isWord (hname c hc)
  rw [namesOf, splitOn_of_not_mem hcomma, List.map_singleton, htrimmed.trim_eq]

/-- A type word is written without blanks around it and opens no inner struct. -/
theorem trim_typeWord {type : Text} (htype : ∀ c ∈ type, isTypeWord c = true) :
    trim type = type ∧ endsWith "\x7b" type = false := by
  refine ⟨(trimmed_of_no_blank fun c hc => not_isBlank_of_isTypeWord (htype c hc)).trim_eq, ?_⟩
  refine Bool.eq_false_iff.2 fun hend => ?_
  have hbrace := (List.isSuffixOf_iff_suffix.1 hend).subset (List.mem_singleton_self '{')
  exact ne_of_isTypeWord (htype '{' hbrace) (by decide) rfl

theorem lineComment?_fieldLine (h : IsTagged f) : lineComment? (fieldLine f) = none := by
  obtain ⟨c, t, hline, hc⟩ := exists_fieldLine_eq h
  refine Option.eq_none_iff_forall_ne_some.2 fun text htext => ?_
  have hslash := head?_of_lineComment? htext
  rw [(trimmed_fieldLine h).trim_eq, hline] at hslash
  obtain rfl : c = '/' := Option.some.inj hslash
  exact absurd hc (by decide)

/-- The line of a field gives the field. -/
theorem fieldsFrom_fieldLine (h : IsTagged f) (pieces : List Text) :
    fieldsFrom 0 [] (fieldLine f :: pieces) = f :: fieldsFrom 0 [] pieces := by
  obtain ⟨m, hm, hname, htype, htag⟩ := matchStart_fieldLine h
  obtain ⟨htypeTrim, hopens⟩ := trim_typeWord h.type
  have htrim := (trimmed_fieldLine h).trim_eq
  have hne : (fieldLine f).isEmpty = false := by
    obtain ⟨c, t, hline, -⟩ := exists_fieldLine_eq h
    rw [hline]
    rfl
  rw [fieldsFrom]
  simp only [ne_eq, not_true_eq_false, if_false, htrim, hne, Bool.false_eq_true,
    lineComment?_fieldLine h, stripLineComment_fieldLine h, hm, hname, htype, htag, htypeTrim,
    hopens, namesOf_word h.name_word, List.map_singleton, List.singleton_append]
  rw [← h.comments]

/-- The tag that a piece of a body gives to its fields. -/
def tagOf (piece : Text) : Text :=
  let code := stripLineComment (trim piece)
  match fieldPattern.matchStart code with
  | some m => m.group 3
  | none =>
    match embeddedPattern.matchStart code with
    | some m => m.group 2
    | none => []

theorem tagOf_of_field {piece : Text} {m : Match}
    (hm : fieldPattern.matchStart (stripLineComment (trim piece)) = some m) :
    tagOf piece = m.group 3 := by
  simp only [tagOf, hm]

theorem tagOf_of_embedded {piece : Text} {m : Match}
    (hfield : fieldPattern.matchStart (stripLineComment (trim piece)) = none)
    (hm : embeddedPattern.matchStart (stripLineComment (trim piece)) = some m) :
    tagOf piece = m.group 2 := by
  simp only [tagOf, hfield, hm]

theorem tagOf_fieldLine (h : IsTagged f) : tagOf (fieldLine f) = f.tag := by
  obtain ⟨m, hm, -, -, htag⟩ := matchStart_fieldLine h
  rw [← htag]
  refine tagOf_of_field ?_
  rw [(trimmed_fieldLine h).trim_eq, stripLineComment_fieldLine h, hm]

theorem tagOf_isInfix (piece : Text) : tagOf piece <:+: piece := by
  have hcode : stripLineComment (trim piece) <:+: piece :=
    (stripLineComment_isPrefix _).isInfix.trans (trim_isInfix piece)
  unfold tagOf
  dsimp only
  split
  · next m hm => exact (group_infix_of_matchAt 3 hm).trans hcode
  · split
    · next m hm => exact (group_infix_of_matchAt 2 hm).trans hcode
    · exact List.nil_infix

/-- Every field has the tag of a piece. -/
theorem exists_piece_of_mem_fieldsFrom {g : StructField} {nested : Int} {pending pieces : List Text}
    (hg : g ∈ fieldsFrom nested pending pieces) : ∃ piece ∈ pieces, g.tag = tagOf piece := by
  have hlater : ∀ {raw : Text} {rest : List Text}, (∃ piece ∈ rest, g.tag = tagOf piece) →
      ∃ piece ∈ raw :: rest, g.tag = tagOf piece :=
    fun ⟨piece, hpiece, htag⟩ => ⟨piece, List.mem_cons_of_mem _ hpiece, htag⟩
  fun_induction fieldsFrom nested pending pieces with
  | case1 => cases hg
  | case2 _ _ _ _ _ _ ih => exact hlater (ih hg)
  | case3 _ _ _ _ _ _ _ ih => exact hlater (ih hg)
  | case4 _ _ _ _ _ _ _ _ _ ih => exact hlater (ih hg)
  | case5 _ _ raw _ _ _ _ _ _ m hm _ _ _ ih =>
      rcases List.mem_append.1 hg with hg | hg
      · obtain ⟨name, -, rfl⟩ := List.mem_map.1 hg
        exact ⟨raw, List.mem_cons_self, (tagOf_of_field hm).symm⟩
      · exact hlater (ih hg)
  | case6 _ _ raw _ _ _ _ _ _ hfield m hm ih =>
      rcases List.mem_cons.1 hg with rfl | hg
      · exact ⟨raw, List.mem_cons_self, (tagOf_of_embedded hfield hm).symm⟩
      · exact hlater (ih hg)
  | case7 _ _ _ _ _ _ _ _ _ _ _ ih => exact hlater (ih hg)

-- ====================================================== pieces of the lines

/-- A mark of a comment in the line of a field stands in its tag. -/
theorem contains_fieldLine (h : IsTagged f) :
    contains lineMark (fieldLine f) = contains lineMark f.tag := by
  have hskip : ∀ {t : Text} (u : Text), '/' ∉ t →
      contains lineMark (t ++ u) = contains lineMark u := by
    intro t u ht
    induction t with
    | nil => rfl
    | cons c t ih =>
        rw [List.mem_cons, not_or] at ht
        rw [List.cons_append, contains, ih ht.2]
        simp [startsWith, lineMark, List.isPrefixOf, ht.1]
  have hend : ∀ t : Text, contains lineMark (t ++ [backtick]) = contains lineMark t := by
    intro t
    induction t with
    | nil => decide
    | cons c t ih =>
        have hback : '/' ≠ backtick := by decide
        rw [List.cons_append, contains, contains, ih]
        cases t with
        | nil => simp [startsWith, lineMark, List.isPrefixOf, hback]
        | cons e t => simp [startsWith, lineMark, List.isPrefixOf]
  have hcode : '/' ∉ fieldCode f ++ [backtick] := by
    rw [List.mem_append, not_or]
    exact ⟨h.spaced.not_mem (by decide) (by decide), by decide⟩
  have hline : fieldLine f = (fieldCode f ++ [backtick]) ++ (f.tag ++ [backtick]) := by
    simp [fieldLine]
  rw [hline, hskip _ hcode, hend]

/-- A line that is not torn is a piece by itself. -/
theorem linePieces_fieldLine (h : IsTagged f) (hwhole : ¬IsTorn f) :
    linePieces (fieldLine f) = [fieldLine f] := by
  unfold linePieces
  split
  · rfl
  · next hmark =>
    rw [contains_fieldLine h, Bool.not_eq_true] at hmark
    have hsemicolon : ';' ∉ fieldLine f := by
      simp only [fieldLine, List.mem_append, List.mem_cons, List.not_mem_nil, or_false, not_or]
      exact ⟨h.spaced.not_mem (by decide) (by decide), by decide, fun htag => hwhole ⟨htag, hmark⟩,
        by decide⟩
    obtain ⟨c, t, hline, hc⟩ := exists_fieldLine_eq h
    have hblank : isBlankText (fieldLine f) = false := by
      rw [hline, isBlankText, List.all_cons, not_isBlank_of_isWord hc, Bool.false_and]
    rw [splitOn_of_not_mem hsemicolon, List.filter_singleton, hblank]
    rfl

/-- A piece of a line is all of it, for the mark of a comment in its tag, or has no semicolon. -/
theorem tagOf_of_mem_linePieces (h : IsTagged f) {piece : Text}
    (hpiece : piece ∈ linePieces (fieldLine f)) :
    tagOf piece = f.tag ∧ contains lineMark f.tag = true ∨ ';' ∉ tagOf piece := by
  unfold linePieces at hpiece
  split at hpiece
  · next hmark =>
    rw [List.mem_singleton] at hpiece
    rw [contains_fieldLine h] at hmark
    exact .inl ⟨hpiece ▸ tagOf_fieldLine h, hmark⟩
  · have hnot := not_mem_of_mem_splitOn (List.mem_of_mem_filter hpiece)
    exact .inr fun hmem => hnot ((tagOf_isInfix piece).subset hmem)

end GoSurvey.Declaration
