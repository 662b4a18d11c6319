/-
One import on a line, as it is printed. The line is code up to the path,
and the path is a literal, so the comment that is stripped is the one
behind it, whatever stands in the path and in the comment
(`stripLineComment_code`). Parentheses are trimmed off the two ends of
what is left, which are a name or a quote, and there the whole text is
read by the pattern (`findAll_code`), so the line gives what it was
printed from and no other import (`parseImports_text`).
-/
import GoSurvey.Proofs.Declaration.Line
import GoSurvey.Proofs.Declaration.ValueSpec
import GoSurvey.Proofs.Source.Stripped

namespace GoSurvey.Declaration

open Text Source Pattern DelimiterScan

-- ============================================================== printing

/-- An import that is to be printed: the name it is imported under if it has one, its path, and
the comment behind it if there is one. -/
structure ImportSpec where
  importedAs : Text
  path : Text
  comment? : Option Text
  deriving DecidableEq, Repr

namespace ImportSpec

/-- The name before the path, with the space after it. -/
def front (s : ImportSpec) : Text := enclose "" s.importedAs " "

/-- The path between its quotes. -/
def literal (s : ImportSpec) : Text := doubleQuote :: (s.path ++ [doubleQuote])

/-- The import without its comment. -/
def code (s : ImportSpec) : Text := s.front ++ s.literal

/-- The comment with the mark before it, a space on each side of that. -/
def note (s : ImportSpec) : Text := (s.comment?.map (" // ".toList ++ ·)).getD []

/-- The import as it is printed. -/
def text (s : ImportSpec) : Text := s.code ++ s.note

/-- The declaration of the import in the line of a number. -/
def decl (s : ImportSpec) (number : Nat) (line : Text) : ImportDecl :=
  ⟨s.path, number, trim line, s.importedAs⟩

/-- The name is a dot or a word other than the keyword, the path can stand between double quotes,
and the comment ends with the line. -/
structure WellFormed (s : ImportSpec) : Prop where
  importedAs : s.importedAs = [] ∨ s.importedAs = "." ∨
    isWordText s.importedAs = true ∧ s.importedAs ≠ "import"
  path_ne_nil : s.path ≠ []
  path : ∀ c ∈ s.path, c ≠ doubleQuote ∧ c ≠ backslash ∧ c ≠ newline
  comment : ∀ c ∈ s.comment?, newline ∉ c

instance (s : ImportSpec) : Decidable s.WellFormed :=
  decidable_of_iff ((s.importedAs = [] ∨ s.importedAs = "." ∨
      isWordText s.importedAs = true ∧ s.importedAs ≠ "import") ∧ s.path ≠ [] ∧
      (s.path.all fun c => c != doubleQuote && c != backslash && c != newline) = true ∧
      ∀ c ∈ s.comment?, newline ∉ c)
    ⟨fun ⟨hname, hne, hpath, hcomment⟩ =>
        ⟨hname, hne, by simpa [and_assoc] using hpath, hcomment⟩,
      fun h => ⟨h.importedAs, h.path_ne_nil, by simpa [and_assoc] using h.path, h.comment⟩⟩

end ImportSpec

/-- What may stand in a line before an import: the keyword, or what the line is indented by. -/
def IsLead (lead : Text) : Prop := lead = "import ".toList ∨ IsIndent lead

variable {s : ImportSpec} {lead : Text} {c : Char}

-- ================================================= the parts of the code

/-- Before the path stands nothing, or the name with a space. -/
theorem front_cases (s : ImportSpec) :
    s.importedAs = [] ∧ s.front = [] ∨ s.importedAs ≠ [] ∧ s.front = s.importedAs ++ [' '] := by
  unfold ImportSpec.front enclose
  split
  · next hempty => exact .inl ⟨List.isEmpty_iff.1 hempty, rfl⟩
  · next hne => exact .inr ⟨fun hnil => hne (by rw [hnil]; rfl), rfl⟩

/-- The name is read as a qualified name. -/
theorem qualified_importedAs (hs : s.WellFormed) : ∀ c ∈ s.importedAs, isQualified c = true := by
  intro c hc
  rcases hs.importedAs with hname | hname | ⟨hword, -⟩
  · rw [hname] at hc
    cases hc
  · rw [hname] at hc
    obtain rfl : c = '.' := List.mem_singleton.1 hc
    decide
  · unfold isQualified
    rw [(isWordText_iff.1 hword).2 c hc, Bool.true_or]

theorem spaced_front (hs : s.WellFormed) : IsSpaced s.front := by
  rcases front_cases s with ⟨-, hfront⟩ | ⟨-, hfront⟩
  · rw [hfront]
    exact List.forall_mem_nil _
  · rw [hfront]
    refine IsSpaced.append (fun c hc => ?_) (List.forall_mem_singleton.2 (.inr rfl))
    have hqualified := qualified_importedAs hs c hc
    simp only [isQualified, Bool.or_eq_true] at hqualified
    refine .inl ?_
    unfold isTypeWord
    rcases hqualified with h | h <;> simp [h]

/-- The code begins with the name or with a quote, and it ends with a quote. -/
theorem head?_code (hs : s.WellFormed) :
    ∀ c ∈ s.code.head?, isQualified c = true ∨ c = doubleQuote := by
  intro c hc
  unfold ImportSpec.code ImportSpec.literal at hc
  rcases front_cases s with ⟨-, hfront⟩ | ⟨hne, hfront⟩
  · rw [hfront] at hc
    exact .inr (Option.some.inj hc).symm
  · rw [hfront, List.append_assoc, List.head?_append_of_ne_nil _ hne] at hc
    exact .inl (qualified_importedAs hs c (List.mem_of_head? hc))

/-- The code ends with the quote of the path. -/
theorem getLast?_code (s : ImportSpec) : s.code.getLast? = some doubleQuote := by
  have hcode : s.code = (s.front ++ doubleQuote :: s.path) ++ [doubleQuote] := by
    simp [ImportSpec.code, ImportSpec.literal]
  rw [hcode, List.getLast?_concat]

theorem head?_code_ne (hs : s.WellFormed) (hc : isQualified c = false) (hquote : c ≠ doubleQuote) :
    s.code.head? ≠ some c := by
  intro hhead
  rcases head?_code hs c hhead with hqualified | hsame
  · rw [hc] at hqualified
    cases hqualified
  · exact hquote hsame

theorem code_ne_nil (s : ImportSpec) : s.code ≠ [] := by
  simp [ImportSpec.code, ImportSpec.literal]

theorem trimmed_code (hs : s.WellFormed) : Trimmed s.code := by
  refine ⟨fun c hc => ?_, fun c hc => ?_⟩
  · rcases head?_code hs c hc with hqualified | rfl
    · rcases Bool.or_eq_true_iff.1 hqualified with hword | hdot
      · exact not_isBlank_of_isWord hword
      · rw [beq_iff_eq.1 hdot]
        decide
    · decide
  · rw [getLast?_code] at hc
    obtain rfl := Option.some.inj hc
    decide

/-- A text without quotes, backslashes and newlines is a literal as it stands. -/
theorem escaped_of_plain {quote : Char} {body : Text}
    (h : ∀ c ∈ body, c ≠ quote ∧ c ≠ backslash ∧ c ≠ newline) : Escaped quote body := by
  induction body with
  | nil => exact .nil
  | cons c body ih =>
      rw [List.forall_mem_cons] at h
      exact .plain h.1.2.1 h.1.1 h.1.2.2 (ih h.2)

theorem escaped_path (hs : s.WellFormed) : Escaped doubleQuote s.path := escaped_of_plain hs.path

theorem newline_not_mem_literal (hs : s.WellFormed) : newline ∉ s.literal := by
  have hpath : newline ∉ s.path := fun hmem => (hs.path newline hmem).2.2 rfl
  simp only [ImportSpec.literal, List.mem_cons, List.mem_append, List.not_mem_nil, or_false, not_or]
  exact ⟨by decide, hpath, by decide⟩

theorem newline_not_mem_note (hs : s.WellFormed) : newline ∉ s.note := by
  unfold ImportSpec.note
  cases hcomment : s.comment? with
  | none => exact List.not_mem_nil
  | some c =>
      intro hmem
      rcases List.mem_append.1 hmem with hmem | hmem
      · exact absurd hmem (by decide)
      · exact hs.comment c hcomment hmem

-- ==================================================== what stands before it

/-- What stands before the path is code in which nothing is opened or closed. -/
structure IsFront (t : Text) : Prop extends Bare t where
  slash : '/' ∉ t
  opener : '(' ∉ t
  closer : ')' ∉ t
  newline : newline ∉ t

theorem IsFront.append {t u : Text} (ht : IsFront t) (hu : IsFront u) : IsFront (t ++ u) where
  toBare := ht.toBare.append hu.toBare fun _ hx _ _ hmark =>
    ht.slash (hmark.1 ▸ List.mem_of_mem_getLast? hx)
  slash := fun h => (List.mem_append.1 h).elim ht.slash hu.slash
  opener := fun h => (List.mem_append.1 h).elim ht.opener hu.opener
  closer := fun h => (List.mem_append.1 h).elim ht.closer hu.closer
  newline := fun h => (List.mem_append.1 h).elim ht.newline hu.newline

theorem IsSpaced.isFront {t : Text} (h : IsSpaced t) : IsFront t where
  toBare := h.bare
  slash := h.not_mem (by decide) (by decide)
  opener := h.not_mem (by decide) (by decide)
  closer := h.not_mem (by decide) (by decide)
  newline := h.not_mem (by decide) (by decide)

theorem isFront_lead (h : IsLead lead) : IsFront lead := by
  rcases h with rfl | h
  · refine IsSpaced.isFront fun c hc => ?_
    have hall : ("import ".toList.all fun c => isTypeWord c || c == ' ') = true := by decide
    simpa using List.all_eq_true.1 hall c hc
  · exact ⟨h.bare, h.not_mem (by decide), h.not_mem (by decide), h.not_mem (by decide),
      h.newline_not_mem⟩

/-- All that stands before the path is a front, the beginning of the line included. -/
theorem isFront_front (hlead : IsLead lead) (hs : s.WellFormed) : IsFront (lead ++ s.front) :=
  (isFront_lead hlead).append (spaced_front hs).isFront

/-- No parenthesis is closed or left open in the line of an import. -/
theorem feed_text (hlead : IsLead lead) (hs : s.WellFormed) (depth : Nat)
    (openedAt : Option Nat) :
    feed parentheses ⟨.code, depth, openedAt⟩ ((lead ++ s.text) ++ [newline]) 0
      = (none, ⟨.code, depth, openedAt⟩) := by
  have hfront := isFront_front hlead hs
  have htext : (lead ++ s.text) ++ [newline]
      = (lead ++ s.front) ++ doubleQuote :: (s.path ++ doubleQuote :: (s.note ++ [newline])) := by
    simp [ImportSpec.text, ImportSpec.code, ImportSpec.literal]
  have hnote : ∀ offset, run parentheses false (s.note ++ [newline]) offset ⟨.code, depth, openedAt⟩
      = (none, ⟨.code, depth, openedAt⟩) := by
    intro offset
    unfold ImportSpec.note
    cases hcomment : s.comment? with
    | none =>
        have hempty : Bare [] := by decide
        exact run_plain hempty (by decide) (by decide) offset depth openedAt
    | some c =>
        have hbody : newline ∉ ' ' :: c := by simpa [newline] using hs.comment c hcomment
        have hmark : run parentheses false ((" // ".toList ++ c) ++ [newline]) offset
            ⟨.code, depth, openedAt⟩
              = run parentheses false ((' ' :: c) ++ newline :: []) (offset + 3)
                  ⟨.lineComment, depth, openedAt⟩ := rfl
        rw [Option.map_some, Option.getD_some, hmark, run_lineComment depth openedAt hbody]
        rfl
  rw [feed_line, htext, run_append_plain hfront.toBare (fun x hx y _ hmark =>
      hfront.slash (hmark.1 ▸ List.mem_of_mem_getLast? hx)) hfront.opener hfront.closer,
    run_escapedLiteral depth openedAt (.inl rfl) (escaped_path hs) (.inl rfl), hnote]

-- ======================================================= the comment is cut

/-- A line that begins with no blank loses at most the end of its comment when it is trimmed. -/
theorem trim_text {u : Text} (hhead : ∀ c ∈ (u ++ s.code).head?, isBlank c = false) :
    trim (u ++ s.text) = u ++ (s.code ++ trimEnd s.note) := by
  have htext : u ++ s.text = (u ++ s.front ++ doubleQuote :: s.path) ++ doubleQuote :: s.note := by
    simp [ImportSpec.text, ImportSpec.code, ImportSpec.literal]
  have hstart : trimStart (u ++ s.text) = u ++ s.text := by
    refine trimStart_eq_self fun c hc => hhead c ?_
    unfold ImportSpec.text at hc
    rwa [← List.append_assoc,
      List.head?_append_of_ne_nil _ (List.append_ne_nil_of_right_ne_nil u (code_ne_nil s))] at hc
  have hend := trimEnd_append_cons (c := doubleQuote) (by decide)
    (u ++ s.front ++ doubleQuote :: s.path) s.note
  unfold trimStart at hstart
  unfold trim stripWhile
  rw [hstart, htext]
  refine hend.trans ?_
  simp [ImportSpec.code, ImportSpec.literal]

/-- The code of a line is what stands before the comment. -/
theorem stripLineComment_code {u : Text} (hs : s.WellFormed) (hu : IsFront (u ++ s.front)) :
    stripLineComment (u ++ (s.code ++ trimEnd s.note)) = u ++ s.code := by
  have htext : ∀ rest, u ++ (s.code ++ rest) = (u ++ s.front) ++ (s.literal ++ rest) := by
    intro rest
    simp [ImportSpec.code]
  have hbefore : ∀ rest, beforeLineComment? none false (u ++ (s.code ++ rest))
      = (beforeLineComment? none false rest).map fun code => u ++ (s.code ++ code) := by
    intro rest
    have hbegins : Begins (.literal s.literal) rest :=
      .escaped (.inl rfl) (escaped_path hs) (.inl rfl)
    rw [htext, beforeLineComment?_append hu.toBare (fun x hx y _ hmark =>
        hu.slash (hmark.1 ▸ List.mem_of_mem_getLast? hx)),
      beforeLineComment?_literal hbegins (newline_not_mem_literal hs), Option.map_map]
    exact congrArg (Option.map · _) (funext fun code => (htext code).symm)
  unfold stripLineComment
  rw [hbefore]
  unfold ImportSpec.note
  cases s.comment? with
  | none =>
      show u ++ (s.code ++ []) = u ++ s.code
      rw [List.append_nil]
  | some c =>
      have hnote : trimEnd (" // ".toList ++ c) = ' ' :: '/' :: '/' :: trimEnd (' ' :: c) :=
        trimEnd_append_cons (c := '/') (by decide) [' ', '/'] (' ' :: c)
      have hmark : beforeLineComment? none false (' ' :: '/' :: '/' :: trimEnd (' ' :: c))
          = some [' '] := rfl
      have hspace : u ++ (s.code ++ [' '])
          = (u ++ s.front ++ doubleQuote :: s.path) ++ doubleQuote :: [' '] := by
        simp [ImportSpec.code, ImportSpec.literal]
      have hend := trimEnd_append_cons (c := doubleQuote) (by decide)
        (u ++ s.front ++ doubleQuote :: s.path) [' ']
      rw [Option.map_some, Option.getD_some, hnote, hmark, Option.map_some]
      dsimp only
      rw [hspace]
      refine hend.trans ?_
      have hnone : trimEnd [' '] = [] := by decide
      simp [hnone, ImportSpec.code, ImportSpec.literal]

-- ============================================================ what is read

/-- Nothing is read at the end of a text. -/
theorem readings_importPattern_nil {s : State} (hs : s.cursor.rest = []) :
    readings importPattern s = [] := by
  have hprefix : ∀ {w : Text}, w ≠ [] → ¬w <+: s.cursor.rest := by
    intro w hne h
    rw [hs] at h
    exact hne (List.prefix_nil.1 h)
  refine List.eq_nil_iff_forall_not_mem.2 fun s' hs' => ?_
  obtain ⟨m, hm, hpath⟩ := mem_readings_seq.1 hs'
  rcases mem_readings_optional.1 hm with hname | rfl
  · obtain ⟨m₁, hm₁, -⟩ := mem_readings_seq.1 hname
    obtain ⟨m₂, hm₂, -⟩ := mem_readings_group.1 hm₁
    obtain ⟨w, hne, hw, -⟩ := mem_readings_run1.1 hm₂
    exact hprefix hne hw
  · rcases mem_readings_choice.1 hpath with hquoted | hraw
    · obtain ⟨m₁, hm₁, -⟩ := mem_readings_seq.1 hquoted
      obtain ⟨m₂, hm₂, -⟩ := mem_readings_seq.1 hm₁
      exact hprefix (List.cons_ne_nil _ _) (mem_readings_lit.1 hm₂).1
    · obtain ⟨m₁, hm₁, -⟩ := mem_readings_seq.1 hraw
      obtain ⟨m₂, hm₂, -⟩ := mem_readings_seq.1 hm₁
      obtain ⟨c, hc, -⟩ := mem_readings_one.1 hm₂
      exact hprefix (List.cons_ne_nil _ _) hc

/-- The name is read if there is one, and after it the path is what is ahead. -/
theorem first_front (hs : s.WellFormed) {s₀ : State} (htexts : s₀.texts = [])
    (hrest : s₀.cursor.rest = s.front ++ s.literal) :
    ∃ s₁, First (optional (group 1 (run1 isQualified) ++ blanks1)) s₀ s₁ ∧
      s₁.cursor = s₀.cursor.advance s.front ∧ (s₁.texts.lookup 1).getD [] = s.importedAs := by
  rcases front_cases s with ⟨hname, hfront⟩ | ⟨hne, hfront⟩
  · have hnone : readings (group 1 (run1 isQualified) ++ blanks1) s₀ = [] := by
      refine List.eq_nil_iff_forall_not_mem.2 fun s' hs' => ?_
      obtain ⟨m₁, hm₁, -⟩ := mem_readings_seq.1 hs'
      obtain ⟨m₂, hm₂, -⟩ := mem_readings_group.1 hm₁
      obtain ⟨w, hne, hw, hqualified, -⟩ := mem_readings_run1.1 hm₂
      obtain ⟨c, w, rfl⟩ := List.exists_cons_of_ne_nil hne
      rw [hrest, hfront, List.nil_append] at hw
      obtain ⟨rfl, -⟩ := List.cons_prefix_cons.1 hw
      exact absurd (hqualified doubleQuote List.mem_cons_self) (by decide)
    refine ⟨s₀, first_optional_of_nil hnone, ?_, ?_⟩
    · rw [hfront]
      rfl
    · rw [htexts, hname]
      rfl
  · rw [hfront, List.append_assoc] at hrest
    let m₁ : State := (s₀.advance s.importedAs).remember 1 s₀
    let m₂ : State := m₁.advance [' ']
    have hm₁ : m₁.cursor.rest = [' '] ++ s.literal := rest_advance hrest
    have hname : First (group 1 (run1 isQualified)) s₀ m₁ := by
      refine first_group (first_run1 hrest hne (qualified_importedAs hs) ?_)
      rintro c ⟨⟩
      decide
    have hgap : First blanks1 m₁ m₂ := by
      refine first_run1 hm₁ (List.cons_ne_nil _ _) (List.forall_mem_singleton.2 (by decide)) ?_
      rintro c ⟨⟩
      decide
    have hremembered : m₁.texts = (1, s.importedAs) :: s₀.texts :=
      texts_remember 1 ⟨_, hrest.symm⟩ rfl
    refine ⟨m₂, first_optional (first_seq hname hgap), ?_, ?_⟩
    · rw [hfront]
      exact Cursor.advance_append _ _ _
    · show (m₁.texts.lookup 1).getD [] = s.importedAs
      rw [hremembered]
      rfl

/-- The pattern of an import is found once in the code, with the name and the path. -/
theorem findAll_code (hs : s.WellFormed) :
    ∃ found, importPattern.findAll s.code = [found] ∧ found.group? 2 = some s.path ∧
      found.group 1 = s.importedAs := by
  let s₀ : State := ⟨Cursor.start s.code, []⟩
  have hs₀ : s₀.cursor.rest = s.front ++ s.literal := rfl
  obtain ⟨s₁, hfront, hcursor, hname⟩ := first_front hs rfl hs₀
  let s₂ : State := s₁.advance [doubleQuote]
  let s₃ : State := (s₂.advance s.path).remember 2 s₂
  let s₄ : State := s₃.advance [doubleQuote]
  have hs₁ : s₁.cursor.rest = [doubleQuote] ++ (s.path ++ [doubleQuote]) := by
    rw [hcursor]
    exact rest_advance hs₀
  have hs₂ : s₂.cursor.rest = s.path ++ [doubleQuote] := rest_advance hs₁
  have hs₃ : s₃.cursor.rest = [doubleQuote] ++ [] := rest_advance hs₂
  have hpath : First (group 2 (run1 (except doubleQuote))) s₂ s₃ := by
    refine first_group (first_run1 hs₂ hs.path_ne_nil (fun c hc => ?_) ?_)
    · exact bne_iff_ne.2 (hs.path c hc).1
    · rintro c ⟨⟩
      decide
  have hquoted := first_seq (first_seq (first_lit (t := [doubleQuote]) ⟨_, hs₁.symm⟩) hpath)
    (first_lit (t := [doubleQuote]) ⟨_, hs₃.symm⟩)
  have hfirst : First importPattern s₀ s₄ := first_seq hfront (first_choice hquoted)
  have htexts : s₃.texts = (2, s.path) :: s₂.texts := texts_remember 2 ⟨_, hs₂.symm⟩ rfl
  have hall : s₄.cursor = s₀.cursor.advance s.code := by
    show ((s₁.cursor.advance [doubleQuote]).advance s.path).advance [doubleQuote] = _
    rw [hcursor]
    simp only [Cursor.advance_append]
    simp [ImportSpec.code, ImportSpec.literal]
  have htakes : Takes s₀ s₄ s.code := ⟨List.prefix_refl s.code, hall⟩
  have hend : importPattern.matchAt ((Cursor.start s.code).advance s.code) = none :=
    matchAt_of_nil (readings_importPattern_nil (List.drop_length (l := s.code)))
  refine ⟨_, findAll_eq_singleton (code_ne_nil s) (matchAt_of_first hfirst) (text_ofState htakes)
    hend, ?_, ?_⟩
  · show s₃.texts.lookup 2 = some s.path
    rw [htexts]
    rfl
  · show (s₃.texts.lookup 1).getD [] = s.importedAs
    rw [htexts]
    exact hname

/-- The keyword is taken off where it stands, and off nothing else. -/
theorem dropMatch_code (hs : s.WellFormed) :
    dropMatch importKeyword ("import ".toList ++ s.code) = ' ' :: s.code ∧
      dropMatch importKeyword s.code = s.code := by
  have hword : ∀ c ∈ "import".toList, isWord c = true := List.all_eq_true.1 (by decide)
  refine ⟨dropMatch_keywordLine (u := ' ' :: s.code) (by decide) hword (by
    rintro c ⟨⟩
    decide), ?_⟩
  have hnone : importKeyword.matchStart s.code = none := by
    rw [← Option.not_isSome_iff_eq_none]
    intro hsome
    have hsome : ((keywordLine "import").matchStart s.code).isSome = true := hsome
    obtain ⟨u, hu, hedge⟩ := (isSome_keywordLine_iff (by decide) hword).1 hsome
    have hhead : s.code.head? = some 'i' := by
      rw [hu]
      rfl
    rcases front_cases s with ⟨-, hfront⟩ | ⟨hne, hfront⟩
    · unfold ImportSpec.code at hhead
      rw [hfront] at hhead
      cases hhead
    · have hcode : s.code = s.importedAs ++ (' ' :: s.literal) := by
        unfold ImportSpec.code
        rw [hfront, List.append_assoc]
        rfl
      rcases hs.importedAs with hnil | hdot | ⟨hname, hother⟩
      · exact hne hnil
      · rw [hcode, hdot] at hhead
        cases hhead
      · -- The name is the whole first word, and so is the keyword.
        have hspace : ∀ c ∈ (' ' :: s.literal).head?, isWord c = false := by
          rintro c ⟨⟩
          decide
        exact hother (run_inj (isWordText_iff.1 hname).2 hword hspace hedge (hcode ▸ hu)).1
  unfold dropMatch
  rw [hnone]

/-- The line of an import gives the import. -/
theorem parseImports_text (hlead : IsLead lead) (hs : s.WellFormed) (number : Nat) :
    parseImports number (lead ++ s.text) = [s.decl number (lead ++ s.text)] := by
  have hblank : ∀ c ∈ s.code.head?, isBlank c = false := (trimmed_code hs).first
  obtain ⟨hkeyword, hself⟩ := dropMatch_code hs
  -- The lead is gone after the keyword has been taken off and the rest trimmed.
  have hcode : trim (dropMatch importKeyword (stripLineComment (trim (lead ++ s.text))))
      = s.code := by
    rcases hlead with rfl | hindent
    · have hstart : ∀ c ∈ ("import ".toList ++ s.code).head?, isBlank c = false := by
        rintro c ⟨⟩
        decide
      rw [trim_text hstart, stripLineComment_code hs (isFront_front (.inl rfl) hs), hkeyword,
        trim_cons_of_isBlank (by decide), (trimmed_code hs).trim_eq]
    · have hempty : IsLead [] := .inr (List.forall_mem_nil _)
      have hstrip := stripLineComment_code hs (isFront_front hempty hs)
      have htrim : trim s.text = [] ++ (s.code ++ trimEnd s.note) :=
        trim_text (u := []) hblank
      rw [trim_blanks_append hindent.blank, htrim, hstrip, List.nil_append, hself,
        (trimmed_code hs).trim_eq]
  have hstripped : stripWhile (fun c => c == '(' || c == ')') s.code = s.code := by
    have hstart : s.code.dropWhile (fun c => c == '(' || c == ')') = s.code := by
      have hopen := head?_code_ne (c := '(') hs (by decide) (by decide)
      have hclose := head?_code_ne (c := ')') hs (by decide) (by decide)
      cases hcode : s.code with
      | nil => rfl
      | cons c rest =>
          rw [hcode, List.head?_cons, Ne, Option.some_inj] at hopen hclose
          rw [List.dropWhile_cons_of_neg (by simp [hopen, hclose])]
    unfold stripWhile
    rw [hstart]
    refine dropEndWhile_eq_self fun c hc => ?_
    rw [getLast?_code] at hc
    obtain rfl := Option.some.inj hc
    decide
  have hmark : startsWith lineMark s.code = false := by
    refine Bool.eq_false_iff.2 fun hstarts => ?_
    exact head?_code_ne hs (by decide) (by decide) (head?_of_startsWith hstarts)
  obtain ⟨found, hfound, hpath, hname⟩ := findAll_code hs
  unfold parseImports
  dsimp only
  rw [hcode, hstripped, (trimmed_code hs).trim_eq, hmark, if_neg Bool.false_ne_true, hfound,
    List.map_singleton, hpath, hname]
  rfl

end GoSurvey.Declaration
