/-
Specs with a comment behind one of their lines. Two things are read of a
spec. The names of constants and variables are read from the code of its
first line, where the comment has been stripped; types are recognised by
how the line begins, and the comment makes no word longer there and begins
no keyword (`Aside`). So specs that agree in both are listed as the same
(`SameSpec`), and a spec that begins in the line agrees with itself, if the
comment is seen as one (`Noted.sameSpec`).

A group is cut into specs line by line (`specsFrom_note`). The comment
neither closes the group nor makes a line one that is passed over, and a
line leaves open what it left open, unless it ends with a brace: a spec
goes on behind such a line, but not behind the comment. What stands after a
keyword in its own line is cut by the same rules once the keyword is taken
off (`groupSpecs_note`).
-/
import GoSurvey.Proofs.Declaration.Line
import GoSurvey.Proofs.Declaration.Located
import GoSurvey.Proofs.Declaration.TypeName
import GoSurvey.Proofs.Declaration.ValueLine
import GoSurvey.Proofs.Source.Note

namespace GoSurvey.Declaration

open Text Source Pattern

variable {t u v w : Text}

-- ================================================== behind a line

/-- What may stand behind a line without a part in what the line is taken for: it makes no word
longer, no keyword of a type begins in it, and no group opens in it. -/
structure Aside (w : Text) : Prop where
  head : ∀ c ∈ w.head?, isWord c = false
  apart : ∀ c ∈ w, c ≠ 's' ∧ c ≠ 'i' ∧ c ≠ '('

theorem aside_nil : Aside [] := ⟨by simp, by simp⟩

/-- The comment begins with a blank, and none of its letters begins a keyword of a type. -/
theorem aside_note : Aside note :=
  ⟨fun c hc => by rw [head_note c hc]; decide, List.all_iff_forall_prop.1 (by decide)⟩

theorem aside_blanks (hw : ∀ c ∈ w, isBlank c = true) : Aside w := by
  refine ⟨fun c hc => not_isWord_of_isBlank (hw c (List.mem_of_head? hc)), fun c hc => ?_⟩
  have hblank := hw c hc
  refine ⟨?_, ?_, ?_⟩ <;>
  · rintro rfl
    exact absurd hblank (by decide)

theorem Aside.append (hv : Aside v) (hw : Aside w) : Aside (v ++ w) := by
  refine ⟨fun c hc => ?_, List.forall_mem_append.2 ⟨hv.apart, hw.apart⟩⟩
  cases v with
  | nil => exact hw.head c hc
  | cons d v => exact hv.head c hc

/-- A character that is not in what follows a text is in the text. -/
theorem exists_of_append_cons {x more : Text} {c : Char} (hc : c ∉ w)
    (h : t ++ w = x ++ c :: more) : ∃ r, t = x ++ c :: r ∧ more = r ++ w := by
  rcases List.append_eq_append_iff.1 h with ⟨r, -, hw⟩ | ⟨r, hx, hr⟩
  · exact absurd (hw ▸ List.mem_append_right r List.mem_cons_self) hc
  · cases r with
    | nil =>
        have hmem : c ∈ [] ++ w := hr ▸ List.mem_cons_self
        exact absurd hmem hc
    | cons d r =>
        injection hr with hd hr
        exact ⟨r, hd ▸ hx, hr⟩

/-- A word at the beginning of a text with something behind it is at the beginning of the text. -/
theorem exists_of_append_word {k more : Text} (hk : ∀ c ∈ k, isWord c = true)
    (hw : ∀ c ∈ w.head?, isWord c = false) (h : t ++ w = k ++ more) :
    ∃ r, t = k ++ r ∧ more = r ++ w := by
  rcases List.append_eq_append_iff.1 h with ⟨r, rfl, hr⟩ | ⟨r, hr, hmore⟩
  · cases r with
    | nil => exact ⟨[], by simp, hr.symm⟩
    | cons c r =>
        have hword := hk c (by simp)
        rw [hw c (hr ▸ rfl)] at hword
        cases hword
  · exact ⟨r, hr, hmore⟩

-- ================================================== kinds of lines

/-- A line begins with a keyword as it does with something behind it. -/
theorem isSome_keywordLine_append {keyword : Text} (hkeyword : IsKeyword keyword) (hw : Aside w)
    (t : Text) : ((keywordLine keyword).matchStart (t ++ w)).isSome
      = ((keywordLine keyword).matchStart t).isSome := by
  rw [Bool.eq_iff_iff, isSome_keywordLine_iff hkeyword.ne_nil hkeyword.word,
    isSome_keywordLine_iff hkeyword.ne_nil hkeyword.word]
  constructor
  · rintro ⟨u, hsplit, hu⟩
    obtain ⟨r, rfl, rfl⟩ := exists_of_append_word hkeyword.word hw.head hsplit
    refine ⟨r, rfl, fun c hc => ?_⟩
    cases r with
    | nil => cases hc
    | cons => exact hu c hc
  · rintro ⟨u, rfl, hu⟩
    refine ⟨u ++ w, List.append_assoc keyword u w, fun c hc => ?_⟩
    cases u with
    | nil => exact hw.head c hc
    | cons => exact hu c hc

/-- The keywords of types that specs are recognised by. -/
structure IsTypeKeyword (keyword : Text) : Prop extends IsKeyword keyword where
  first : keyword.head? = some 's' ∨ keyword.head? = some 'i'

theorem isTypeKeyword_struct : IsTypeKeyword "struct" := ⟨isKeyword_struct, .inl rfl⟩

theorem isTypeKeyword_interface : IsTypeKeyword "interface" := ⟨isKeyword_interface, .inr rfl⟩

variable {keyword name : Text}

/-- A keyword of a type stands in a text where it stands in the text with something behind it. -/
theorem IsTypeKeyword.exists_of_append (hkeyword : IsTypeKeyword keyword) (hw : Aside w)
    {x after : Text} (h : t ++ w = x ++ (keyword ++ after)) :
    ∃ r, t = x ++ (keyword ++ r) ∧ after = r ++ w := by
  obtain ⟨c, k, rfl⟩ := List.exists_cons_of_ne_nil hkeyword.ne_nil
  have hc : c ∉ w := by
    intro hmem
    have hapart := hw.apart c hmem
    rcases hkeyword.first with hfirst | hfirst
    · exact hapart.1 (Option.some.inj hfirst)
    · exact hapart.2.1 (Option.some.inj hfirst)
  obtain ⟨r, rfl, hr⟩ := exists_of_append_cons hc h
  have hk : ∀ d ∈ k, isWord d = true := fun d hd => hkeyword.word d (List.mem_cons_of_mem c hd)
  obtain ⟨r, rfl, rfl⟩ := exists_of_append_word hk hw.head hr.symm
  exact ⟨r, rfl, rfl⟩

/-- A name with a keyword of a type ends before what stands behind the line. -/
theorem Named.of_append (hkeyword : IsTypeKeyword keyword) (hw : Aside w) {lead : Text}
    (hsplit : t ++ w = lead ++ u) (h : Named keyword name u) :
    ∃ r, t = lead ++ r ∧ Named keyword name r := by
  obtain ⟨u', hu', rfl⟩ := h.after
  obtain @⟨params, gap, after, hparams, hne, hgap, hafter⟩ := hu'
  have hassoc : lead ++ (name ++ (params ++ (gap ++ (keyword ++ after))))
      = (lead ++ (name ++ (params ++ gap))) ++ (keyword ++ after) := by simp
  rw [hassoc] at hsplit
  obtain ⟨r, rfl, rfl⟩ := hkeyword.exists_of_append hw hsplit
  refine ⟨name ++ (params ++ (gap ++ (keyword ++ r))), by simp, h.ne_nil, h.word, _, ?_, rfl⟩
  refine .mk hparams hne hgap fun c hc => ?_
  cases r with
  | nil => cases hc
  | cons => exact hafter c hc

theorem isTypeLine_append (hkeyword : IsTypeKeyword keyword) (hw : Aside w) :
    IsTypeLine keyword (t ++ w) ↔ IsTypeLine keyword t := by
  constructor
  · rintro ⟨gap, name, u, hne, hgap, hnamed, hsplit⟩
    rw [← List.append_assoc] at hsplit
    obtain ⟨r, rfl, hr⟩ := hnamed.of_append hkeyword hw hsplit
    exact ⟨gap, name, r, hne, hgap, hr, List.append_assoc _ gap r⟩
  · rintro ⟨gap, name, u, hne, hgap, hnamed, rfl⟩
    exact ⟨gap, name, u ++ w, hne, hgap, hnamed.append hw.head, by simp⟩

theorem isSome_typeLineOf_append (hkeyword : IsTypeKeyword keyword) (hw : Aside w) (t : Text) :
    ((typeLineOf keyword).matchStart (t ++ w)).isSome
      = ((typeLineOf keyword).matchStart t).isSome := by
  rw [Bool.eq_iff_iff, isSome_typeLineOf_iff hkeyword.toIsKeyword,
    isSome_typeLineOf_iff hkeyword.toIsKeyword]
  exact isTypeLine_append hkeyword hw

theorem isSome_typeSpecOf_append (hkeyword : IsTypeKeyword keyword) (hw : Aside w) (t : Text) :
    ((typeSpecOf keyword).matchStart (t ++ w)).isSome
      = ((typeSpecOf keyword).matchStart t).isSome := by
  rw [Bool.eq_iff_iff, isSome_typeSpecOf_iff hkeyword.toIsKeyword,
    isSome_typeSpecOf_iff hkeyword.toIsKeyword, isTypeLine_append hkeyword hw]
  apply or_congr_right
  constructor
  · rintro ⟨name, hnamed⟩
    obtain ⟨r, rfl, hr⟩ := hnamed.of_append hkeyword hw (List.nil_append _).symm
    exact ⟨name, hr⟩
  · rintro ⟨name, hnamed⟩
    exact ⟨name, hnamed.append hw.head⟩

theorem isKeyword_of_mem (h : keyword ∈ constructKeywords) : IsKeyword keyword := by
  have hall : ∀ k ∈ constructKeywords, k ≠ [] ∧ k.all isWord = true := by decide
  exact ⟨(hall keyword h).1, List.all_eq_true.1 (hall keyword h).2⟩

/-- A line begins what it does with something behind it. -/
theorem classify?_append (hw : Aside w) (t : Text) : classify? (t ++ w) = classify? t := by
  have hline : ∀ k ∈ constructKeywords, ((keywordLine k).matchStart (t ++ w)).isSome
      = ((keywordLine k).matchStart t).isSome :=
    fun k hk => isSome_keywordLine_append (isKeyword_of_mem hk) hw t
  simp only [classify?, constructLines, List.find?, hline "import" (by decide),
    hline "type" (by decide), hline "const" (by decide), hline "var" (by decide),
    hline "func" (by decide), isSome_typeLineOf_append isTypeKeyword_struct hw,
    isSome_typeLineOf_append isTypeKeyword_interface hw]

/-- A group opens in a line where it does in the line with something behind it. -/
theorem isSome_groupOpen_append (hw : Aside w) (keyword t : Text) :
    ((groupOpen keyword).matchStart (t ++ w)).isSome
      = ((groupOpen keyword).matchStart t).isSome := by
  rw [Bool.eq_iff_iff, isSome_groupOpen_iff, isSome_groupOpen_iff]
  constructor
  · rintro ⟨gap, more, hgap, hsplit⟩
    rw [← List.append_assoc] at hsplit
    obtain ⟨r, rfl, -⟩ := exists_of_append_cons (fun hmem => (hw.apart _ hmem).2.2 rfl) hsplit
    exact ⟨gap, r, hgap, List.append_assoc keyword gap _⟩
  · rintro ⟨gap, more, hgap, rfl⟩
    exact ⟨gap, more ++ w, hgap, by simp⟩

-- ========================================================== symbols

/-- The symbol that a declaration is listed as, if it is listed. -/
def symbol? (file : Text) : Declaration → Option ProjectSymbol
  | .ofImport _ => none
  | .ofType d => some ⟨d.name, .type, file, d.line⟩
  | .ofConstant d => some ⟨d.name, .constant, file, d.line⟩
  | .ofVariable d => some ⟨d.name, .variable, file, d.line⟩
  | .ofFunction d => some ⟨d.name, .function, file, d.line⟩
  | .ofStruct d => some ⟨d.name, .struct, file, d.line⟩
  | .ofInterface d => some ⟨d.name, .interface, file, d.line⟩

/-- The symbols that some declarations are listed as, in the order of the declarations. -/
def symbolsOf (file : Text) (ds : List Declaration) : List ProjectSymbol :=
  ds.filterMap (symbol? file)

theorem symbolsOf_append (file : Text) (ds es : List Declaration) :
    symbolsOf file (ds ++ es) = symbolsOf file ds ++ symbolsOf file es :=
  List.filterMap_append

/-- A struct is listed under the name of its heading. -/
theorem symbolsOf_struct {heading : Text} (h : Heading "struct" name heading) (file : Text)
    (line : Nat) (comments : List Text) :
    symbolsOf file ((parseStruct? heading line comments).map .ofStruct).toList
      = [⟨name, .struct, file, line⟩] := by
  obtain ⟨d, hd, rfl⟩ := parseStruct?_of_heading h line comments
  have hline := parseStruct?_line hd
  rw [hd, ← hline]
  rfl

/-- An interface is listed under the name of its heading. -/
theorem symbolsOf_interface {heading : Text} (h : Heading "interface" name heading) (file : Text)
    (line : Nat) (comments : List Text) :
    symbolsOf file ((parseInterface? heading line comments).map .ofInterface).toList
      = [⟨name, .interface, file, line⟩] := by
  obtain ⟨d, hd, rfl⟩ := parseInterface?_of_heading h line comments
  have hline := parseInterface?_line hd
  rw [hd, ← hline]
  rfl

/-- The symbols of a file are those of its declarations, kind by kind. -/
theorem symbols_structureOf (content file : Text) :
    (structureOf content file).symbols
      = [SymbolKind.function, .struct, .interface, .type, .constant, .variable].flatMap fun kind =>
          (symbolsOf file (declarations content)).filter (·.kind = kind) := by
  have hkind : ∀ {α : Type} (as? : Declaration → Option α) (symbol : α → ProjectSymbol)
      (kind : SymbolKind),
      (∀ d, (as? d).map symbol = (symbol? file d).filter (·.kind = kind)) → ∀ ds,
      (ds.filterMap as?).map symbol = (symbolsOf file ds).filter (·.kind = kind) := by
    intro α as? symbol kind hd ds
    unfold symbolsOf
    rw [List.map_filterMap, List.filter_filterMap]
    simp only [hd]
  unfold FileStructure.symbols structureOf FileStructure.ofDeclarations
  dsimp only
  rw [hkind asFunction? _ .function fun d => by cases d <;> rfl,
    hkind asStruct? _ .struct fun d => by cases d <;> rfl,
    hkind asInterface? _ .interface fun d => by cases d <;> rfl,
    hkind asType? _ .type fun d => by cases d <;> rfl,
    hkind asConstant? _ .constant fun d => by cases d <;> rfl,
    hkind asVariable? _ .variable fun d => by cases d <;> rfl]
  simp only [List.flatMap_cons, List.flatMap_nil, List.append_nil, List.append_assoc]

-- ============================================================ specs

/-- The code of the first line of a spec. -/
def Spec.code (s : Spec) : Text := trim (stripLineComment s.head)

/-- Two specs in one line that begin with the same text and have the same code. -/
structure SameSpec (s s' : Spec) : Prop where
  line : s'.line = s.line
  code : s'.code = s.code
  head : ∃ core w w', s.head = core ++ w ∧ s'.head = core ++ w' ∧ Aside w ∧ Aside w'

/-- For specs with the same first line there is nothing to show. -/
theorem SameSpec.of_head {s s' : Spec} (hline : s'.line = s.line) (hhead : s'.head = s.head) :
    SameSpec s s' :=
  ⟨hline, congrArg (fun h => trim (stripLineComment h)) hhead, s.head, [], [],
    (List.append_nil _).symm, hhead.trans (List.append_nil _).symm, aside_nil, aside_nil⟩

variable {s s' : Spec} {file : Text}

theorem SameSpec.symbols_constant (h : SameSpec s s') :
    symbolsOf file ((parseConstant? s').map .ofConstant).toList
      = symbolsOf file ((parseConstant? s).map .ofConstant).toList := by
  have hcode : trim (stripLineComment s'.head) = trim (stripLineComment s.head) := h.code
  unfold parseConstant?
  rw [hcode, h.line]
  cases constantPattern.matchStart (trim (stripLineComment s.head)) <;> rfl

theorem SameSpec.symbols_variables (h : SameSpec s s') :
    symbolsOf file ((parseVariables s').map .ofVariable)
      = symbolsOf file ((parseVariables s).map .ofVariable) := by
  have hcode : trim (stripLineComment s'.head) = trim (stripLineComment s.head) := h.code
  unfold parseVariables
  rw [hcode, h.line]
  cases variablePattern.matchStart (trim (stripLineComment s.head)) with
  | none => rfl
  | some m =>
      dsimp only
      unfold symbolsOf
      rw [List.map_map, List.map_map, List.filterMap_map, List.filterMap_map]
      rfl

/-- Of a type the head is read up to its keyword, which is in what the two heads have in common. -/
theorem SameSpec.symbols_type (h : SameSpec s s') :
    symbolsOf file (typeSpec? s').toList = symbolsOf file (typeSpec? s).toList := by
  obtain ⟨core, w, w', hw, hw', haside, haside'⟩ := h.head
  obtain ⟨more, htext, hmore⟩ := s.exists_text_eq
  obtain ⟨more', htext', hmore'⟩ := s'.exists_text_eq
  have hbehind : ∀ {w more : Text}, Aside w → (∀ c ∈ more.head?, isWord c = false) →
      ∀ c ∈ (w ++ more).head?, isWord c = false := by
    intro w more hw hmore c hc
    cases w with
    | nil => exact hmore c hc
    | cons d w => exact hw.head c hc
  unfold typeSpec?
  rw [hw, hw', isSome_typeSpecOf_append isTypeKeyword_struct haside,
    isSome_typeSpecOf_append isTypeKeyword_struct haside',
    isSome_typeSpecOf_append isTypeKeyword_interface haside,
    isSome_typeSpecOf_append isTypeKeyword_interface haside', htext, htext', hw, hw',
    List.append_assoc, List.append_assoc, h.line]
  split
  · next hstruct =>
    obtain ⟨name, hname⟩ := heading_of_typeSpec isKeyword_struct hstruct
    rw [symbolsOf_struct (hname.append (hbehind haside hmore)),
      symbolsOf_struct (hname.append (hbehind haside' hmore'))]
  · split
    · next hinterface =>
      obtain ⟨name, hname⟩ := heading_of_typeSpec isKeyword_interface hinterface
      rw [symbolsOf_interface (hname.append (hbehind haside hmore)),
        symbolsOf_interface (hname.append (hbehind haside' hmore'))]
    · have hcode : trim (stripLineComment s'.head) = trim (stripLineComment s.head) := h.code
      unfold parseType?
      rw [hcode, h.line]
      cases typePattern.matchStart (trim (stripLineComment s.head)) with
      | none => rfl
      | some m =>
          dsimp only
          split <;> rfl

/-- What specs are listed as does not change where each of them is listed as the same. -/
theorem symbolsOf_flatMap {specs specs' : List Spec} (h : List.Forall₂ SameSpec specs specs')
    {declared : Spec → List Declaration}
    (hdeclared : ∀ {s s' : Spec}, SameSpec s s' →
      symbolsOf file (declared s') = symbolsOf file (declared s)) :
    symbolsOf file (specs'.flatMap declared) = symbolsOf file (specs.flatMap declared) := by
  induction h with
  | nil => rfl
  | cons hspec _ ih =>
      rw [List.flatMap_cons, List.flatMap_cons, symbolsOf_append, symbolsOf_append, hdeclared hspec,
        ih]

-- ============================================= the first line of a spec

/-- A line with the comment is trimmed as the line is, at its beginning. -/
theorem exists_trim_note {line : Text} (hne : trim line ≠ []) :
    ∃ lead gap, (∀ c ∈ lead, isBlank c = true) ∧ (∀ c ∈ gap, isBlank c = true) ∧
      line = lead ++ (trim line ++ gap) ∧ trim (line ++ note) = trim line ++ (gap ++ note) := by
  obtain ⟨lead, gap, hsplit, hlead, hgap⟩ := exists_trim_eq line
  refine ⟨lead, gap, hlead, hgap, hsplit, ?_⟩
  have htrimmed : Trimmed (trim line ++ (gap ++ note)) := by
    refine ⟨fun c hc => ?_, fun c hc => ?_⟩
    · rw [List.head?_append_of_ne_nil _ hne] at hc
      exact (trimmed_trim line).first c hc
    · rw [← List.append_assoc, List.getLast?_append_of_ne_nil _ (by decide)] at hc
      obtain rfl : 'e' = c := Option.some.inj hc
      decide
  have hall : line ++ note = lead ++ ((trim line ++ (gap ++ note)) ++ []) := by
    conv => lhs; rw [hsplit]
    simp
  rw [hall]
  exact htrimmed.trim_around hlead (List.forall_mem_nil _)

theorem trim_note_of_blank {line : Text} (hline : trim line = []) :
    trim (line ++ note) = "// note" := by
  obtain ⟨lead, gap, hsplit, hlead, hgap⟩ := exists_trim_eq line
  rw [hline, List.nil_append] at hsplit
  rw [hsplit, trim_blanks_append (List.forall_mem_append.2 ⟨hlead, hgap⟩)]
  decide

/-- Blanks behind the first line make no other spec. -/
theorem SameSpec.of_blanks {core : Text} (hline : s'.line = s.line) (hhead : s.head = core ++ w)
    (hhead' : s'.head = core ++ v) (hw : ∀ c ∈ w, isBlank c = true)
    (hv : ∀ c ∈ v, isBlank c = true) : SameSpec s s' := by
  refine ⟨hline, ?_, core, w, v, hhead, hhead', aside_blanks hw, aside_blanks hv⟩
  unfold Spec.code
  rw [hhead, hhead', code_append_blanks hw, code_append_blanks hv]

/-- The comment behind the first line makes no other spec, if it is seen as one. -/
theorem SameSpec.of_note {core gap : Text} (hline : s'.line = s.line) (hhead : s.head = core ++ w)
    (hhead' : s'.head = core ++ (gap ++ note) ++ v) (hw : ∀ c ∈ w, isBlank c = true)
    (hgap : ∀ c ∈ gap, isBlank c = true) (hv : ∀ c ∈ v, isBlank c = true)
    (hsees : SeesNote (core ++ gap)) : SameSpec s s' := by
  rw [List.append_assoc] at hhead'
  have haside : Aside ((gap ++ note) ++ v) :=
    ((aside_blanks hgap).append aside_note).append (aside_blanks hv)
  refine ⟨hline, ?_, core, w, _, hhead, hhead', aside_blanks hw, haside⟩
  obtain ⟨trail, hcode, htrail⟩ := stripLineComment_note hsees
  have hnoted : trim (stripLineComment (core ++ gap ++ note)) = trim (stripLineComment core) := by
    rw [← code_append_blanks hgap core, hcode, trim_append_blanks _ htrail]
  unfold Spec.code
  rw [hhead, hhead', code_append_blanks hw, ← List.append_assoc, code_append_blanks hv,
    ← List.append_assoc, hnoted]

/-- A line that may have got the comment; if it has, the comment is seen as one, and the line does
not end with a brace. -/
inductive Noted (raw : Text) : Text → Prop where
  | same : Noted raw raw
  | behind (hsees : SeesNote raw) (hbrace : endsWith "\x7b" (trim raw) = false) :
      Noted raw (raw ++ note)

variable {raw raw' : Text} {number : Nat} {comments comments' : List Text}

/-- Blanks before a line open no quote, so they do not hide the comment. -/
theorem seesNote_trim {lead core gap : Text} (hlead : ∀ c ∈ lead, isBlank c = true)
    (h : SeesNote (lead ++ (core ++ gap))) : SeesNote (core ++ gap) := by
  refine (seesNote_append fun c hc => ⟨not_isQuote_of_isBlank (hlead c hc), ?_⟩).1 h
  rintro rfl
  exact absurd (hlead _ hc) (by decide)

/-- A spec that begins in a line is the same with the comment behind the line, whatever lines
follow. -/
theorem Noted.sameSpec (h : Noted raw raw') (hplain : newline ∉ raw) (hne : trim raw ≠ [])
    {more more' : Text} (hmore : ∀ c ∈ more.head?, c = newline)
    (hmore' : ∀ c ∈ more'.head?, c = newline) :
    SameSpec ⟨number, trim (raw ++ more), comments⟩ ⟨number, trim (raw' ++ more'), comments'⟩ := by
  obtain ⟨w, hhead, hw⟩ := firstLine_trim_eq hplain hmore hne
  cases h with
  | same =>
      obtain ⟨v, hhead', hv⟩ := firstLine_trim_eq hplain hmore' hne
      exact .of_blanks rfl hhead hhead' hw hv
  | behind hsees =>
      obtain ⟨lead, gap, hlead, hgap, hsplit, htrim⟩ := exists_trim_note hne
      have hplain' : newline ∉ raw ++ note := by
        rw [List.mem_append, not_or]
        exact ⟨hplain, by decide⟩
      have hne' : trim (raw ++ note) ≠ [] := by
        rw [htrim]
        exact List.append_ne_nil_of_left_ne_nil hne _
      obtain ⟨v, hhead', hv⟩ := firstLine_trim_eq hplain' hmore' hne'
      rw [htrim] at hhead'
      rw [hsplit] at hsees
      exact .of_note rfl hhead hhead' hw hgap hv (seesNote_trim hlead hsees)

theorem not_endsWith_note (t : Text) : endsWith "\x7b" (t ++ note) = false := by
  refine Bool.eq_false_iff.2 fun h => ?_
  obtain ⟨front, hfront⟩ := List.isSuffixOf_iff_suffix.1 h
  have hlast := congrArg List.getLast? hfront
  rw [List.getLast?_append_of_ne_nil _ (by decide),
    List.getLast?_append_of_ne_nil _ (by decide)] at hlast
  exact absurd hlast (by decide)

/-- What a line leaves open it leaves open with the comment behind it. -/
theorem Noted.openDelimiters? (h : Noted raw raw') (hne : trim raw ≠ []) :
    openDelimiters? (trim raw') = openDelimiters? (trim raw) := by
  cases h with
  | same => rfl
  | behind _ hbrace =>
      obtain ⟨lead, gap, -, hgap, -, htrim⟩ := exists_trim_note hne
      have hend := not_endsWith_note (trim raw ++ gap)
      rw [List.append_assoc] at hend
      have hwithout : Without parentheses (gap ++ note) := by
        refine Without.append (fun c hc => ?_) (by decide)
        have hblank := hgap c hc
        constructor <;>
        · rintro rfl
          exact absurd hblank (by decide)
      unfold Declaration.openDelimiters?
      rw [htrim, hend, hbrace, hasUnbalanced_append apartFromNote_parentheses hwithout]

/-- What a line leaves open is braces or parentheses. -/
theorem apartFromNote_of_openDelimiters? {d : Delimiters} (h : openDelimiters? t = some d) :
    ApartFromNote d := by
  unfold openDelimiters? at h
  split at h
  · exact Option.some.inj h ▸ apartFromNote_braces
  · split at h
    · exact Option.some.inj h ▸ apartFromNote_parentheses
    · cases h

-- ============================================================ groups

/-- Whether a line is passed over in a group, or may close it, is seen without the comment. -/
theorem startsWith_note (raw : Text) :
    startsWith ")" (trim (raw ++ note)) = startsWith ")" (trim raw) ∧
      ((trim (raw ++ note)).isEmpty || startsWith lineMark (trim (raw ++ note)))
        = ((trim raw).isEmpty || startsWith lineMark (trim raw)) := by
  by_cases hne : trim raw = []
  · rw [trim_note_of_blank hne, hne]
    exact ⟨rfl, rfl⟩
  · obtain ⟨lead, gap, -, hgap, -, htrim⟩ := exists_trim_note hne
    rw [htrim]
    have hhead : ∀ c ∈ (gap ++ note).head?, isBlank c = true := by
      intro c hc
      cases gap with
      | nil =>
          obtain rfl : ' ' = c := Option.some.inj hc
          decide
      | cons d gap => exact hgap c (List.mem_of_head? hc)
    generalize gap ++ note = w at hhead
    obtain ⟨c, core, hcore⟩ := List.exists_cons_of_ne_nil hne
    rw [hcore]
    constructor
    · simp [startsWith, List.isPrefixOf]
    · cases core with
      | cons d core => simp [startsWith, lineMark, List.isPrefixOf]
      | nil =>
          cases w with
          | nil => rfl
          | cons d w =>
              have hd : '/' ≠ d := by
                rintro rfl
                exact absurd (hhead _ rfl) (by decide)
              simp [startsWith, lineMark, List.isPrefixOf, hd]

variable {pre post : List Text} {line : Text}

theorem getElem?_note (pre post : List Text) (line : Text) (index : Nat) :
    (pre ++ (line ++ note) :: post)[index]?
      = if index = pre.length then some (line ++ note) else (pre ++ line :: post)[index]? := by
  split
  · next hindex =>
    rw [hindex, List.getElem?_append_right (Nat.le_refl _), Nat.sub_self]
    rfl
  · next hindex =>
    rcases Nat.lt_or_ge index pre.length with hlt | hge
    · rw [List.getElem?_append_left hlt, List.getElem?_append_left hlt]
    · obtain ⟨k, hk⟩ : ∃ k, index - pre.length = k + 1 := ⟨index - pre.length - 1, by omega⟩
      rw [List.getElem?_append_right hge, List.getElem?_append_right hge, hk]
      rfl

/-- A line of an index, and the line that stands there with the comment behind one of the lines. -/
def LineOrNoted (k index : Nat) (raw raw' : Text) : Prop :=
  raw' = raw ∨ index = k ∧ raw' = raw ++ note

/-- Of lines in the middle, those with the comment are as many, and each is the line that stood
there, or that line and the comment. -/
theorem exists_cons_note {count index : Nat} {raw : Text} {rest : List Text}
    (hrest : raw :: rest = ((pre ++ line :: post).take count).drop index) :
    ∃ raw', ((pre ++ (line ++ note) :: post).take count).drop index
        = raw' :: ((pre ++ (line ++ note) :: post).take count).drop (index + 1) ∧
      LineOrNoted pre.length index raw raw' := by
  obtain ⟨hraw, -⟩ := of_cons_eq_drop_take hrest
  have hlength := congrArg List.length hrest
  rw [List.length_drop, List.length_take, List.length_cons] at hlength
  have hall : (pre ++ (line ++ note) :: post).length = (pre ++ line :: post).length := by simp
  have hlt : index < ((pre ++ (line ++ note) :: post).take count).length := by
    rw [List.length_take, hall]
    omega
  refine ⟨_, List.drop_eq_getElem_cons hlt, ?_⟩
  rw [List.getElem_take]
  have hraw' := getElem?_note pre post line index
  rw [List.length_take, Nat.lt_min] at hlt
  rw [List.getElem?_eq_getElem hlt.2] at hraw'
  split at hraw'
  · next hindex =>
    rw [hindex, List.getElem?_append_right (Nat.le_refl _), Nat.sub_self] at hraw
    obtain rfl : line = raw := Option.some.inj hraw
    exact .inr ⟨hindex, Option.some.inj hraw'⟩
  · exact .inl (Option.some.inj (hraw'.trans hraw))

/-- The comment stands behind what is left of a line when it is trimmed. -/
theorem LineOrNoted.exists_trim {k index : Nat} (h : LineOrNoted k index raw raw') :
    ∃ w, trim raw' = trim raw ++ w ∧ Aside w ∧ '\x7b' ∉ w := by
  rcases h with rfl | ⟨-, rfl⟩
  · exact ⟨[], (List.append_nil _).symm, aside_nil, List.not_mem_nil⟩
  · by_cases hne : trim raw = []
    · have haside : Aside "// note" :=
        ⟨fun c hc => Option.some.inj hc ▸ by decide, List.all_iff_forall_prop.1 (by decide)⟩
      exact ⟨"// note", by rw [trim_note_of_blank hne, hne]; rfl, haside, by decide⟩
    · obtain ⟨lead, gap, -, hgap, -, htrim⟩ := exists_trim_note hne
      refine ⟨gap ++ note, htrim, (aside_blanks hgap).append aside_note, ?_⟩
      rw [List.mem_append, not_or]
      exact ⟨fun hmem => absurd (hgap _ hmem) (by decide), by decide⟩

/-- So lines close a group and are passed over in it alike. -/
theorem LineOrNoted.startsWith {k index : Nat} (h : LineOrNoted k index raw raw') :
    startsWith ")" (trim raw') = startsWith ")" (trim raw) ∧
      ((trim raw').isEmpty || Text.startsWith lineMark (trim raw'))
        = ((trim raw).isEmpty || Text.startsWith lineMark (trim raw)) := by
  rcases h with rfl | ⟨-, rfl⟩
  · exact ⟨rfl, rfl⟩
  · exact startsWith_note raw

/-- Where a line of a group is not passed over and does not close it, a spec begins. -/
theorem exists_spec_of_line {lines rest : List Text} {last index : Nat}
    (hclose : ¬(decide (index = last) && startsWith ")" (trim raw)) = true)
    (hpass : ¬((trim raw).isEmpty || startsWith lineMark (trim raw)) = true) :
    ∃ s ∈ specsFrom lines last 0 (raw :: rest) index, s.line = index + 1 := by
  rw [specsFrom]
  dsimp only
  rw [if_neg hclose, if_neg hpass]
  cases openDelimiters? (trim raw) with
  | none => exact ⟨_, List.mem_cons_self, rfl⟩
  | some d => exact ⟨_, List.mem_cons_self, rfl⟩

/-- The specs of a group are the same with the comment behind a line. If one of them begins in that
line, the comment has to be seen there, and the line must not end with a brace. -/
theorem specsFrom_note (hback : line.getLast? ≠ some backslash)
    (hplain : ∀ raw ∈ pre ++ line :: post, newline ∉ raw) {last skip index : Nat}
    {rest : List Text} (hrest : rest = ((pre ++ line :: post).take (last + 1)).drop index)
    (hbegins : ∀ s ∈ specsFrom (pre ++ line :: post) last skip rest index,
      s.line = pre.length + 1 → Noted line (line ++ note)) :
    List.Forall₂ SameSpec (specsFrom (pre ++ line :: post) last skip rest index)
      (specsFrom (pre ++ (line ++ note) :: post) last skip
        (((pre ++ (line ++ note) :: post).take (last + 1)).drop index) index) := by
  -- By induction on the lines that are left of the group; both groups are cut at the same lines.
  induction rest generalizing skip index with
  | nil =>
      have hnil : ((pre ++ (line ++ note) :: post).take (last + 1)).drop index = [] := by
        apply List.drop_eq_nil_of_le
        have hlength := congrArg List.length hrest
        rw [List.length_drop, List.length_take, List.length_nil] at hlength
        have hall : (pre ++ (line ++ note) :: post).length = (pre ++ line :: post).length := by simp
        rw [List.length_take, hall]
        omega
      rw [hnil, specsFrom, specsFrom]
      exact .nil
  | cons raw rest ih =>
      obtain ⟨hraw, hnext⟩ := of_cons_eq_drop_take hrest
      obtain ⟨raw', hrest', hseen⟩ := exists_cons_note hrest
      rw [hrest']
      cases skip with
      | succ skip =>
          rw [specsFrom] at hbegins
          rw [specsFrom, specsFrom]
          exact ih hnext hbegins
      | zero =>
          obtain ⟨hclose, hpass⟩ := hseen.startsWith
          by_cases hcloses : (decide (index = last) && startsWith ")" (trim raw)) = true
          · rw [specsFrom, specsFrom]
            dsimp only
            rw [hclose, if_pos hcloses, if_pos hcloses]
            exact .nil
          by_cases hpasses : ((trim raw).isEmpty || startsWith lineMark (trim raw)) = true
          · rw [specsFrom] at hbegins
            rw [specsFrom, specsFrom]
            dsimp only at hbegins ⊢
            rw [if_neg hcloses, if_pos hpasses] at hbegins
            rw [hclose, hpass, if_neg hcloses, if_neg hcloses, if_pos hpasses, if_pos hpasses]
            exact ih hnext hbegins
          -- A spec begins in the line.
          have hnoted : Noted raw raw' := by
            rcases hseen with rfl | ⟨rfl, rfl⟩
            · exact .same
            · rw [List.getElem?_append_right (Nat.le_refl _), Nat.sub_self] at hraw
              obtain rfl : line = raw := Option.some.inj hraw
              obtain ⟨s, hs, hline⟩ := exists_spec_of_line hcloses hpasses
              exact hbegins s hs hline
          have hne : trim raw ≠ [] := by
            intro hblank
            apply hpasses
            rw [hblank]
            rfl
          have hsame : ∀ {more more' : Text}, (∀ c ∈ more.head?, c = newline) →
              (∀ c ∈ more'.head?, c = newline) → ∀ comments comments' : List Text,
              SameSpec ⟨index + 1, trim (raw ++ more), comments⟩
                ⟨index + 1, trim (raw' ++ more'), comments'⟩ := by
            intro more more' hmore hmore' comments comments'
            exact hnoted.sameSpec (hplain raw (List.mem_of_getElem? hraw)) hne hmore hmore'
          rw [specsFrom] at hbegins
          rw [specsFrom, specsFrom]
          dsimp only at hbegins ⊢
          rw [if_neg hcloses, if_neg hpasses] at hbegins
          rw [hclose, hpass, if_neg hcloses, if_neg hcloses, if_neg hpasses, if_neg hpasses,
            hnoted.openDelimiters? hne]
          cases hopen : Declaration.openDelimiters? (trim raw) with
          | none =>
              rw [hopen] at hbegins
              refine .cons ?_ (ih hnext fun s hs => hbegins s (List.mem_cons_of_mem _ hs))
              simpa using @hsame [] [] (by simp) (by simp) _ _
          | some d =>
              rw [hopen] at hbegins
              have hd : ApartFromNote d := apartFromNote_of_openDelimiters? hopen
              obtain ⟨hle, -⟩ := blockEnd_bounds d (List.getElem?_eq_some_iff.1 hraw).1
              obtain ⟨more, hmore, hnewline⟩ := linesText_begins hraw hle
              obtain ⟨more', hmore', hnewline'⟩ :=
                linesText_begins (of_cons_eq_drop_take hrest'.symm).1 hle
              dsimp only
              rw [blockEnd_note hd hback]
              refine .cons ?_ (ih hnext fun s hs => hbegins s (List.mem_cons_of_mem _ hs))
              rw [hmore, hmore']
              exact hsame hnewline hnewline' _ _

-- ===================================================== after a keyword

/-- The keyword of the specs that a construct consists of, if it consists of specs. -/
def Construct.keyword? : Construct → Option Text
  | .type => some "type"
  | .constants => some "const"
  | .packageVars => some "var"
  | .imports | .struct | .interface | .function => none

theorem Construct.isKeyword {construct : Construct} (h : construct.keyword? = some keyword) :
    IsKeyword keyword := by
  refine isKeyword_of_mem ?_
  cases construct <;> cases h <;> decide

/-- A construct of specs begins in a line that begins with its keyword. -/
theorem keywordLine_of_classify? {construct : Construct} (h : classify? t = some construct)
    (hkeyword : construct.keyword? = some keyword) :
    ((keywordLine keyword).matchStart t).isSome = true := by
  obtain ⟨p, hp, hmatch⟩ := matches_of_classify? h
  cases construct with
  | imports | struct | interface | function => cases hkeyword
  | type =>
      cases hkeyword
      obtain rfl : p = keywordLine "type" := by simpa [constructLines] using hp
      exact hmatch
  | constants =>
      cases hkeyword
      obtain rfl : p = keywordLine "const" := by simpa [constructLines] using hp
      exact hmatch
  | packageVars =>
      cases hkeyword
      obtain rfl : p = keywordLine "var" := by simpa [constructLines] using hp
      exact hmatch

theorem ne_nil_of_keywordLine (hkeyword : IsKeyword keyword)
    (h : ((keywordLine keyword).matchStart t).isSome = true) : t ≠ [] := by
  rintro rfl
  obtain ⟨u, hu, -⟩ := (isSome_keywordLine_iff hkeyword.ne_nil hkeyword.word).1 h
  exact hkeyword.ne_nil (List.append_eq_nil_iff.1 hu.symm).1

/-- What is taken off a line with its keyword is taken off whatever stands behind the line. -/
theorem exists_dropMatch_append (hkeyword : IsKeyword keyword)
    (h : ((keywordLine keyword).matchStart t).isSome = true) (ht : Trimmed t) (hne : t ≠ keyword) :
    ∃ v core, t = v ++ core ∧ (∀ c ∈ v, isQuote c = false ∧ c ≠ '/') ∧
      ∀ w, dropMatch (keywordBlanks keyword) (t ++ w) = core ++ w := by
  obtain ⟨u, rfl, -⟩ := (isSome_keywordLine_iff hkeyword.ne_nil hkeyword.word).1 h
  have hblank : ∀ c ∈ u.takeWhile isBlank, isBlank c = true := fun c hc => List.mem_takeWhile_imp hc
  have hsplit : u = u.takeWhile isBlank ++ u.dropWhile isBlank :=
    List.takeWhile_append_dropWhile.symm
  have hfirst := List.head?_dropWhile_not isBlank u
  generalize u.takeWhile isBlank = gap at hblank hsplit
  generalize u.dropWhile isBlank = rest at hfirst hsplit
  subst hsplit
  have hrest : rest ≠ [] := by
    rintro rfl
    rw [List.append_nil] at ht hne
    have hgap : gap ≠ [] := by
      rintro rfl
      exact hne (List.append_nil keyword)
    obtain ⟨init, last, rfl⟩ := (List.eq_nil_or_concat' gap).resolve_left hgap
    have hvisible := ht.last last (by rw [← List.append_assoc]; exact List.getLast?_concat)
    rw [hblank last (by simp)] at hvisible
    cases hvisible
  have hvisible : ∀ w : Text, ∀ c ∈ (rest ++ w).head?, isBlank c = false := by
    intro w c hc
    rw [List.head?_append_of_ne_nil rest hrest] at hc
    rw [hc] at hfirst
    simpa using hfirst
  have hdrop : ∀ w, dropMatch (keywordBlanks keyword) (keyword ++ (gap ++ rest) ++ w)
      = if gap = [] then keyword ++ (rest ++ w) else rest ++ w := by
    intro w
    rw [← dropMatch_keywordBlanks keyword hblank (hvisible w)]
    simp
  by_cases hgap : gap = []
  · refine ⟨[], keyword ++ (gap ++ rest), rfl, by simp, fun w => ?_⟩
    rw [hdrop, if_pos hgap, hgap]
    simp
  · refine ⟨keyword ++ gap, rest, by simp, fun c hc => ?_, fun w => ?_⟩
    · rcases List.mem_append.1 hc with hc | hc
      · refine ⟨isQuote_eq_false_of_isWord (hkeyword.word c hc), ?_⟩
        rintro rfl
        exact absurd (hkeyword.word _ hc) (by decide)
      · refine ⟨not_isQuote_of_isBlank (hblank c hc), ?_⟩
        rintro rfl
        exact absurd (hblank _ hc) (by decide)
    · rw [hdrop, if_neg hgap]

/-- The comment behind the line of an index is read past by what reads the specs after a keyword:
it is seen as a comment where a spec begins in the line, a spec of a group there does not end with a
brace, and if the line is that of the keyword, it holds something else and not a whole group. -/
structure SpecsReadPast (keyword : Text) (lines : List Text) (first k : Nat) (line : Text) : Prop
    where
  sees : ∀ s ∈ (groupSpecs keyword lines first).1, s.line = k + 1 → SeesNote line
  brace : ∀ s ∈ (groupSpecs keyword lines first).1, s.line = k + 1 → first ≠ k →
    endsWith "\x7b" (trim line) = false
  more : first = k → trim line ≠ keyword
  group : first = k → blockEnd parentheses lines first = first →
    ((groupOpen keyword).matchStart (trim line)).isSome = false

/-- The spec after a keyword is the same with the comment behind its line. -/
theorem sameSpec_of_keyword (hkeyword : IsKeyword keyword)
    (hbegins : ((keywordLine keyword).matchStart (trim line)).isSome = true)
    (hplain : newline ∉ line) (hmore : trim line ≠ keyword) (hsees : SeesNote line) :
    SameSpec ⟨number, dropMatch (keywordBlanks keyword) (trim line), comments⟩
      ⟨number, dropMatch (keywordBlanks keyword) (trim (line ++ note)), comments'⟩ := by
  obtain ⟨lead, gap, hlead, hgap, hsplit, htrim⟩ :=
    exists_trim_note (ne_nil_of_keywordLine hkeyword hbegins)
  obtain ⟨v, core, hcore, hv, hdrop⟩ :=
    exists_dropMatch_append hkeyword hbegins (trimmed_trim line) hmore
  have hdrop' := hdrop []
  rw [List.append_nil, List.append_nil] at hdrop'
  rw [htrim, hdrop, hdrop']
  have hmem : ∀ c ∈ core ++ gap, c ≠ newline := by
    rintro c hc rfl
    apply hplain
    rw [hsplit, hcore]
    rcases List.mem_append.1 hc with hc | hc <;> simp [hc]
  rw [List.forall_mem_append] at hmem
  have hall : ∀ {t : Text}, (∀ c ∈ t, c ≠ newline) → before [newline] t = t := by
    intro t ht
    rw [before_singleton]
    exact List.takeWhile_eq_self_iff.2 fun c hc => bne_iff_ne.2 (ht c hc)
  have hnote : ∀ c ∈ note, c ≠ newline := List.all_iff_forall_prop.1 (by decide)
  have hsees' : SeesNote (core ++ gap) := by
    rw [hsplit, hcore] at hsees
    have hinner : SeesNote (v ++ core ++ gap) := seesNote_trim hlead hsees
    rw [List.append_assoc] at hinner
    exact (seesNote_append hv).1 hinner
  refine .of_note (w := []) (v := []) rfl ?_ ?_ (by simp) hgap (by simp) hsees'
  · exact (hall hmem.1).trans (List.append_nil core).symm
  · refine (hall ?_).trans (List.append_nil _).symm
    exact List.forall_mem_append.2 ⟨hmem.1, List.forall_mem_append.2 ⟨hmem.2, hnote⟩⟩

/-- The specs after a keyword are the same with the comment behind a line, and so is the line they
end in. -/
theorem groupSpecs_note (hback : line.getLast? ≠ some backslash)
    (hplain : ∀ raw ∈ pre ++ line :: post, newline ∉ raw) (hkeyword : IsKeyword keyword)
    {index : Nat} (hraw : (pre ++ line :: post)[index]? = some raw)
    (hbegins : ((keywordLine keyword).matchStart (trim raw)).isSome = true)
    (h : SpecsReadPast keyword (pre ++ line :: post) index pre.length line) :
    List.Forall₂ SameSpec (groupSpecs keyword (pre ++ line :: post) index).1
        (groupSpecs keyword (pre ++ (line ++ note) :: post) index).1 ∧
      (groupSpecs keyword (pre ++ (line ++ note) :: post) index).2
        = (groupSpecs keyword (pre ++ line :: post) index).2 := by
  obtain ⟨raw', hraw', hseen⟩ : ∃ raw', (pre ++ (line ++ note) :: post)[index]? = some raw' ∧
      (raw' = raw ∨ index = pre.length ∧ raw = line ∧ raw' = line ++ note) := by
    rw [getElem?_note]
    split
    · next hindex =>
      rw [hindex, List.getElem?_append_right (Nat.le_refl _), Nat.sub_self] at hraw
      exact ⟨_, rfl, .inr ⟨hindex, (Option.some.inj hraw).symm, rfl⟩⟩
    · exact ⟨raw, hraw, .inl rfl⟩
  have hopens : ((groupOpen keyword).matchStart (trim raw')).isNone
      = ((groupOpen keyword).matchStart (trim raw)).isNone := by
    rcases hseen with rfl | ⟨-, rfl, rfl⟩
    · rfl
    · obtain ⟨lead, gap, -, hgap, -, htrim⟩ :=
        exists_trim_note (ne_nil_of_keywordLine hkeyword hbegins)
      have haside := (aside_blanks hgap).append aside_note
      rw [← Option.not_isSome, ← Option.not_isSome, htrim, isSome_groupOpen_append haside]
  have hend : blockEnd parentheses (pre ++ (line ++ note) :: post) index
      = blockEnd parentheses (pre ++ line :: post) index :=
    blockEnd_note apartFromNote_parentheses hback index
  have hsees := h.sees
  have hbrace := h.brace
  unfold groupSpecs at hsees hbrace ⊢
  rw [hraw, Option.getD_some] at hsees hbrace ⊢
  rw [hraw', Option.getD_some, hend]
  dsimp only at hsees hbrace ⊢
  by_cases hsingle : ((groupOpen keyword).matchStart (trim raw)).isNone = true
  · rw [if_pos hsingle] at hsees ⊢
    rw [hopens, if_pos hsingle]
    refine ⟨.cons ?_ .nil, rfl⟩
    rcases hseen with rfl | ⟨hindex, rfl, rfl⟩
    · exact .of_head rfl rfl
    · have hnote := hsees _ List.mem_cons_self (congrArg (· + 1) hindex)
      exact sameSpec_of_keyword hkeyword hbegins (hplain raw (List.mem_of_getElem? hraw))
        (h.more hindex) hnote
  · rw [if_neg hsingle] at hsees hbrace ⊢
    rw [hopens, if_neg hsingle]
    by_cases hlast : blockEnd parentheses (pre ++ line :: post) index = index
    · rw [if_pos hlast, if_pos hlast]
      rcases hseen with rfl | ⟨hindex, rfl, rfl⟩
      · exact ⟨List.forall₂_same.2 fun s _ => .of_head rfl rfl, rfl⟩
      · have hnot := h.group hindex hlast
        rw [← Option.not_isSome, hnot] at hsingle
        exact absurd rfl hsingle
    · rw [if_neg hlast] at hsees hbrace
      rw [if_neg hlast, if_neg hlast]
      refine ⟨specsFrom_note hback hplain rfl fun s hs hline => ?_, rfl⟩
      obtain ⟨-, -, -, hlt, -⟩ := specsFrom_begins rfl s hs
      exact .behind (hsees s hs hline) (hbrace s hs hline (by omega))

end GoSurvey.Declaration
