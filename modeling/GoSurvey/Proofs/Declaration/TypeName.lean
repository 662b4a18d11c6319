/-
Names of types before a keyword. A type spec is recognised in its first
line, `type` and blanks before it or not, and its name is then looked for
once more in the whole text of the spec, as the first word that has the
keyword after it.

A text with a `Heading` begins with the name of a type and the keyword.
Every line that is recognised has one (`heading_of_typeLine`,
`heading_of_typeSpec`), what follows the line does not change it
(`Heading.append`), and the search finds its name and nothing before
that (`search_heading`). The one name in front of which the keyword
stands is `type` itself, and `IsTypeLine.heading` counts that as a
heading of its own.
-/
import GoSurvey.Declaration.Structure
import GoSurvey.Proofs.Pattern.First
import GoSurvey.Proofs.Pattern.Step
import GoSurvey.Proofs.Text.Pieces

namespace GoSurvey.Declaration

open Text Source Pattern

-- ============================================================ headings

/-- A type parameter list as it is written, or nothing. -/
inductive ParametersPart : Text → Prop where
  | none : ParametersPart []
  | some {inside : Text} (h : ∀ c ∈ inside, except ']' c = true) :
      ParametersPart ('[' :: (inside ++ [']']))

/-- What stands between the name of a type and the end of the keyword after it, and what follows. -/
inductive AfterName (keyword : Text) : Text → Prop where
  | mk {params gap after : Text} (hparams : ParametersPart params) (hne : gap ≠ [])
      (hgap : ∀ c ∈ gap, isBlank c = true) (hafter : ∀ c ∈ after.head?, isWord c = false) :
      AfterName keyword (params ++ (gap ++ (keyword ++ after)))

/-- A text that begins with a name and the keyword after it. -/
structure Named (keyword name : Text) (t : Text) : Prop where
  ne_nil : name ≠ []
  word : ∀ c ∈ name, isWord c = true
  after : ∃ u, AfterName keyword u ∧ t = name ++ u

/-- A text that begins, after blanks, with the name of a type and the keyword after it, or with
`type` and those. -/
inductive Heading (keyword name : Text) : Text → Prop where
  | spec {lead t : Text} (hlead : ∀ c ∈ lead, isBlank c = true) (h : Named keyword name t) :
      Heading keyword name (lead ++ t)
  | line {lead gap t : Text} (hlead : ∀ c ∈ lead, isBlank c = true) (hne : gap ≠ [])
      (hgap : ∀ c ∈ gap, isBlank c = true) (h : Named keyword name t) (hother : name ≠ keyword) :
      Heading keyword name (lead ++ ("type".toList ++ (gap ++ t)))

theorem AfterName.append {keyword u more : Text} (h : AfterName keyword u)
    (hmore : ∀ c ∈ more.head?, isWord c = false) : AfterName keyword (u ++ more) := by
  obtain @⟨params, gap, after, hparams, hne, hgap, hafter⟩ := h
  have hall : params ++ (gap ++ (keyword ++ after)) ++ more
      = params ++ (gap ++ (keyword ++ (after ++ more))) := by
    simp only [List.append_assoc]
  rw [hall]
  refine .mk hparams hne hgap ?_
  cases after with
  | nil => exact hmore
  | cons => exact hafter

theorem Named.append {keyword name t more : Text} (h : Named keyword name t)
    (hmore : ∀ c ∈ more.head?, isWord c = false) : Named keyword name (t ++ more) := by
  obtain ⟨u, hu, rfl⟩ := h.after
  exact ⟨h.ne_nil, h.word, u ++ more, hu.append hmore, List.append_assoc name u more⟩

/-- What follows a heading does not change it, unless it makes the keyword longer. -/
theorem Heading.append {keyword name t more : Text} (h : Heading keyword name t)
    (hmore : ∀ c ∈ more.head?, isWord c = false) : Heading keyword name (t ++ more) := by
  cases h with
  | spec hlead h =>
      rw [List.append_assoc]
      exact .spec hlead (h.append hmore)
  | line hlead hne hgap h hother =>
      simp only [List.append_assoc]
      exact .line hlead hne hgap (h.append hmore) hother

theorem Heading.prepend {keyword name t blanks : Text} (h : Heading keyword name t)
    (hblanks : ∀ c ∈ blanks, isBlank c = true) : Heading keyword name (blanks ++ t) := by
  have hlead : ∀ {lead : Text}, (∀ c ∈ lead, isBlank c = true) →
      ∀ c ∈ blanks ++ lead, isBlank c = true :=
    fun h c hc => (List.mem_append.1 hc).elim (hblanks c) (h c)
  cases h with
  | spec h' h =>
      rw [← List.append_assoc]
      exact .spec (hlead h') h
  | line h' hne hgap h hother =>
      rw [← List.append_assoc]
      exact .line (hlead h') hne hgap h hother

theorem Named.isInfix {keyword name t : Text} (h : Named keyword name t) : name <:+: t := by
  obtain ⟨u, -, rfl⟩ := h.after
  exact (List.prefix_append name u).isInfix

/-- The name of a heading stands in it. -/
theorem Heading.isInfix {keyword name t : Text} (h : Heading keyword name t) : name <:+: t := by
  cases h with
  | spec _ h => exact h.isInfix.trans (List.suffix_append _ _).isInfix
  | line _ _ _ h =>
      refine h.isInfix.trans ?_
      simp only [← List.append_assoc]
      exact (List.suffix_append _ _).isInfix

-- ============================================ what the patterns read

/-- What follows the name in the patterns of type specs. -/
def afterName (keyword : Text) : Pattern := typeParameters ++ (blanks1 ++ (lit keyword ++ wordEdge))

/-- The keywords that type specs are recognised by are words. -/
structure IsKeyword (keyword : Text) : Prop where
  ne_nil : keyword ≠ []
  word : ∀ c ∈ keyword, isWord c = true

theorem isKeyword_struct : IsKeyword "struct" := ⟨by decide, List.all_eq_true.1 (by decide)⟩

theorem isKeyword_interface : IsKeyword "interface" :=
  ⟨by decide, List.all_eq_true.1 (by decide)⟩

variable {keyword : Text}

/-- What is read of type parameters has the form of them. -/
theorem parametersPart_of_reading {s s' : State} (h : s' ∈ readings typeParameters s) :
    ∃ params, ParametersPart params ∧ params <+: s.cursor.rest ∧ s' = s.advance params := by
  rcases mem_readings_optional.1 h with h | rfl
  · unfold bracketed at h
    simp only [readings_assoc] at h
    obtain ⟨s₁, hs₁, h⟩ := mem_readings_seq.1 h
    obtain ⟨s₂, hs₂, h⟩ := mem_readings_seq.1 h
    obtain ⟨hopen, rfl⟩ := mem_readings_lit.1 hs₁
    obtain ⟨inside, hrest, hinside, rfl⟩ := mem_readings_run.1 hs₂
    obtain ⟨hclose, rfl⟩ := mem_readings_lit.1 h
    refine ⟨_, .some hinside, ?_, ?_⟩
    · exact prefix_append_of_advance hopen (prefix_append_of_advance hrest hclose)
    · rw [State.advance_append, State.advance_append]
      rfl
  · exact ⟨[], .none, List.nil_prefix, rfl⟩

/-- What can be read behind a name has the keyword in it. -/
theorem afterName_of_reading (hkeyword : IsKeyword keyword) {s s' : State}
    (h : s' ∈ readings (afterName keyword) s) : AfterName keyword s.cursor.rest := by
  obtain ⟨s₁, hs₁, h⟩ := mem_readings_seq.1 h
  obtain ⟨s₂, hs₂, h⟩ := mem_readings_seq.1 h
  obtain ⟨s₃, hs₃, h⟩ := mem_readings_seq.1 h
  obtain ⟨params, hparams, hrest, rfl⟩ := parametersPart_of_reading hs₁
  obtain ⟨gap, hne, hrest₂, hgap, rfl⟩ := mem_readings_run1.1 hs₂
  obtain ⟨hrest₃, rfl⟩ := mem_readings_lit.1 hs₃
  obtain ⟨hedge, -⟩ := mem_readings_place.1 h
  have hafter := (atWordEdge_advance hkeyword.ne_nil hkeyword.word).1 hedge
  have hrest : s.cursor.rest = params ++ (s.advance params).cursor.rest :=
    Cursor.rest_eq_append hrest
  rw [hrest, Cursor.rest_eq_append hrest₂]
  show AfterName keyword (params ++ (gap ++ ((s.advance params).advance gap).cursor.rest))
  rw [Cursor.rest_eq_append hrest₃]
  exact .mk hparams hne hgap hafter

/-- A name and what follows it are read from the beginning of a text that has them. -/
theorem named_of_reading (hkeyword : IsKeyword keyword) {s s' : State}
    (h : s' ∈ readings (word ++ afterName keyword) s) :
    ∃ name, Named keyword name s.cursor.rest := by
  obtain ⟨s₁, hs₁, h⟩ := mem_readings_seq.1 h
  obtain ⟨name, hne, hrest, hword, rfl⟩ := mem_readings_run1.1 hs₁
  exact ⟨name, hne, hword, _, afterName_of_reading hkeyword h, Cursor.rest_eq_append hrest⟩

theorem named_of_nameBefore (hkeyword : IsKeyword keyword) {s s' : State}
    (h : s' ∈ readings (nameBefore keyword) s) : ∃ name, Named keyword name s.cursor.rest := by
  unfold nameBefore at h
  simp only [readings_assoc] at h
  obtain ⟨s₁, hs₁, h⟩ := mem_readings_seq.1 h
  obtain ⟨s₂, hs₂, rfl⟩ := mem_readings_group.1 hs₁
  obtain ⟨name, hne, hrest, hword, rfl⟩ := mem_readings_run1.1 hs₂
  exact ⟨name, hne, hword, _, afterName_of_reading hkeyword h, Cursor.rest_eq_append hrest⟩

-- ============================================ where no name is found

theorem head_of_word {w t : Text} (hne : w ≠ []) (hw : ∀ c ∈ w, isWord c = true) :
    ∀ c ∈ (w ++ t).head?, isBlank c = false := by
  obtain ⟨c, w, rfl⟩ := List.exists_cons_of_ne_nil hne
  rintro d ⟨⟩
  exact not_isBlank_of_isWord (hw c List.mem_cons_self)

theorem head_of_blanks {gap t : Text} (hne : gap ≠ []) (hgap : ∀ c ∈ gap, isBlank c = true) :
    ∀ c ∈ (gap ++ t).head?, isWord c = false := by
  obtain ⟨c, gap, rfl⟩ := List.exists_cons_of_ne_nil hne
  rintro d ⟨⟩
  exact not_isWord_of_isBlank (hgap c List.mem_cons_self)

/-- What comes after a name is no word character. -/
theorem AfterName.head {u : Text} (h : AfterName keyword u) :
    ∀ c ∈ u.head?, isWord c = false := by
  obtain @⟨params, gap, after, hparams, hne, hgap, hafter⟩ := h
  cases hparams with
  | none =>
      rw [List.nil_append]
      exact head_of_blanks hne hgap
  | some =>
      rintro c ⟨⟩
      decide

/-- Where blanks come after a name, the keyword comes after the blanks. -/
theorem AfterName.of_blanks (hkeyword : IsKeyword keyword) {gap t : Text} (hne : gap ≠ [])
    (hgap : ∀ c ∈ gap, isBlank c = true) (ht : ∀ c ∈ t.head?, isBlank c = false)
    (h : AfterName keyword (gap ++ t)) :
    ∃ after, t = keyword ++ after ∧ ∀ c ∈ after.head?, isWord c = false := by
  generalize hu : gap ++ t = u at h
  obtain @⟨params, gap', after, hparams, -, hgap', hafter⟩ := h
  cases hparams with
  | none =>
      have hhead := head_of_word (t := after) hkeyword.ne_nil hkeyword.word
      exact ⟨after, (run_inj hgap hgap' ht hhead hu).2, hafter⟩
  | some =>
      obtain ⟨b, gap, rfl⟩ := List.exists_cons_of_ne_nil hne
      injection hu with hb
      have hblank := hgap b List.mem_cons_self
      rw [hb] at hblank
      exact absurd hblank (by decide)

/-- In front of a name that is not the keyword, no word is a name with the keyword after it. -/
theorem not_named_before (hkeyword : IsKeyword keyword) {name other w gap t : Text}
    (hw : ∀ c ∈ w, isWord c = true) (hne : gap ≠ []) (hgap : ∀ c ∈ gap, isBlank c = true)
    (h : Named keyword name t) (hother : name ≠ keyword) :
    ¬Named keyword other (w ++ (gap ++ t)) := by
  intro hn
  obtain ⟨u, hu, rfl⟩ := h.after
  obtain ⟨u', hu', hall⟩ := hn.after
  obtain ⟨-, hrest⟩ := run_inj hw hn.word (head_of_blanks hne hgap) hu'.head hall
  rw [← hrest] at hu'
  obtain ⟨after, heq, hafter⟩ := hu'.of_blanks hkeyword hne hgap (head_of_word h.ne_nil h.word)
  exact hother (run_inj h.word hkeyword.word hu.head hafter heq).1

/-- Where blanks begin no name does. -/
theorem not_named_of_blanks {name gap t : Text} (hne : gap ≠ [])
    (hgap : ∀ c ∈ gap, isBlank c = true) : ¬Named keyword name (gap ++ t) := by
  intro h
  obtain ⟨u, -, hall⟩ := h.after
  obtain ⟨c, w, hname⟩ := List.exists_cons_of_ne_nil h.ne_nil
  have hc : c ∈ (gap ++ t).head? := by
    rw [hall, hname]
    rfl
  have hword := h.word c (hname ▸ List.mem_cons_self)
  rw [head_of_blanks hne hgap c hc] at hword
  cases hword

/-- No name with the keyword after it begins before the name of a heading. -/
theorem not_named_in_front (hkeyword : IsKeyword keyword) {lead gap name other v s t : Text}
    (hlead : ∀ c ∈ lead, isBlank c = true) (hne : gap ≠ []) (hgap : ∀ c ∈ gap, isBlank c = true)
    (h : Named keyword name t) (hother : name ≠ keyword)
    (hfront : lead ++ ("type".toList ++ gap) = v ++ s) (hs : s ≠ []) :
    ¬Named keyword other (s ++ t) := by
  have htype : ∀ {w p : Text}, "type".toList = p ++ w → ¬Named keyword other (w ++ (gap ++ t)) := by
    intro w p htype
    refine not_named_before hkeyword (fun c hc => ?_) hne hgap h hother
    have hall : ∀ d ∈ "type".toList, isWord d = true := List.all_eq_true.1 (by decide)
    exact hall c (htype ▸ List.mem_append_right p hc)
  rcases List.append_eq_append_iff.1 hfront with ⟨p, -, hp⟩ | ⟨p, rfl, rfl⟩
  · rcases List.append_eq_append_iff.1 hp with ⟨b, -, rfl⟩ | ⟨b, hb, rfl⟩
    · exact not_named_of_blanks hs fun c hc => hgap c (List.mem_append_right b hc)
    · rw [List.append_assoc]
      exact htype hb
  · simp only [List.append_assoc]
    cases p with
    | nil => exact htype (List.nil_append _).symm
    | cons c p =>
        exact not_named_of_blanks (List.cons_ne_nil c p) fun d hd =>
          hlead d (List.mem_append_right v hd)

-- ========================================================= what is found

theorem first_typeParameters {s : State} {params rest : Text} (hparams : ParametersPart params)
    (hs : s.cursor.rest = params ++ rest) (hrest : ∀ c ∈ rest.head?, c ≠ '[') :
    First typeParameters s (s.advance params) := by
  cases hparams with
  | none =>
      refine first_optional_of_nil (readings_seq_nil (readings_seq_nil (readings_lit_nil ?_)))
      rintro ⟨more, hmore⟩
      rw [hs, List.nil_append] at hmore
      exact hrest '[' (hmore ▸ rfl) rfl
  | @some inside hinside =>
      have hall : s.cursor.rest = "[".toList ++ (inside ++ ("]".toList ++ rest)) := by
        rw [hs]
        simp
      have hinner : (s.advance "[".toList).cursor.rest = inside ++ ("]".toList ++ rest) :=
        rest_advance hall
      have hclose : ((s.advance "[".toList).advance inside).cursor.rest = "]".toList ++ rest :=
        rest_advance hinner
      have hopen : First "[" s (s.advance "[".toList) := first_lit ⟨_, hall.symm⟩
      have hrun := first_run hinner hinside (by rintro c ⟨⟩; decide)
      have hlast : First "]" _ (((s.advance "[".toList).advance inside).advance "]".toList) :=
        first_lit ⟨rest, hclose.symm⟩
      have hfirst := first_optional (first_seq (first_seq hopen hrun) hlast)
      rw [State.advance_append, State.advance_append] at hfirst
      exact hfirst

/-- At a name with the keyword after it, the name is what is remembered. -/
theorem match_of_named (hkeyword : IsKeyword keyword) {cur : Cursor} {name : Text}
    (h : Named keyword name cur.rest) :
    ∃ m, (nameBefore keyword).matchAt cur = some m ∧ m.group 1 = name := by
  obtain ⟨u, hu, hcur⟩ := h.after
  obtain @⟨params, gap, after, hparams, hne, hgap, hafter⟩ := hu
  let s₀ : State := ⟨cur, []⟩
  let s₁ : State := (s₀.advance name).remember 1 s₀
  let s₂ : State := s₁.advance params
  let s₃ : State := s₂.advance gap
  let s₄ : State := s₃.advance keyword
  have hs₁ : s₁.cursor.rest = params ++ (gap ++ (keyword ++ after)) := rest_advance hcur
  have hs₂ : s₂.cursor.rest = gap ++ (keyword ++ after) := rest_advance hs₁
  have hs₃ : s₃.cursor.rest = keyword ++ after := rest_advance hs₂
  have hs₄ : (s₃.cursor.advance keyword).rest = after := rest_advance hs₃
  have hbracket : ∀ c ∈ (gap ++ (keyword ++ after)).head?, c ≠ '[' := by
    obtain ⟨b, gap, rfl⟩ := List.exists_cons_of_ne_nil hne
    rintro c ⟨⟩ rfl
    exact absurd (hgap _ List.mem_cons_self) (by decide)
  have hname : First (group 1 word) s₀ s₁ :=
    first_group (first_run1 hcur h.ne_nil h.word (AfterName.mk hparams hne hgap hafter).head)
  have hparams : First typeParameters s₁ s₂ := first_typeParameters hparams hs₁ hbracket
  have hgap : First blanks1 s₂ s₃ :=
    first_run1 hs₂ hne hgap (head_of_word hkeyword.ne_nil hkeyword.word)
  have hlit : First (lit keyword) s₃ s₄ := first_lit ⟨after, hs₃.symm⟩
  have hedge : First wordEdge s₄ s₄ :=
    first_place ((atWordEdge_advance hkeyword.ne_nil hkeyword.word).2 (hs₄.symm ▸ hafter))
  have hfirst : First (nameBefore keyword) s₀ s₄ :=
    first_seq (first_seq (first_seq (first_seq hname hparams) hgap) hlit) hedge
  refine ⟨_, matchAt_of_first hfirst, ?_⟩
  have htexts : s₁.texts = [(1, name)] := texts_remember 1 ⟨_, hcur.symm⟩ rfl
  show (s₁.texts.lookup 1).getD [] = name
  rw [htexts]
  rfl

/-- What is looked for in a text with a heading is found where the name of the heading stands. -/
theorem search_heading (hkeyword : IsKeyword keyword) {name t : Text}
    (h : Heading keyword name t) :
    ∃ m, (nameBefore keyword).search t = some m ∧ m.group 1 = name := by
  have hfound : ∀ {front u : Text}, Named keyword name u →
      (∀ v s, front = v ++ s → s ≠ [] → ∀ other, ¬Named keyword other (s ++ u)) →
      ∃ m, (nameBefore keyword).search (front ++ u) = some m ∧ m.group 1 = name := by
    intro front u hnamed hbefore
    have hrest : ((Cursor.start (front ++ u)).advance front).rest = u := rest_advance rfl
    obtain ⟨m, hm, hname⟩ := match_of_named hkeyword (hrest.symm ▸ hnamed)
    refine ⟨m, search_eq_some (List.prefix_append front u) hm fun v hv hne => ?_, hname⟩
    obtain ⟨s, rfl⟩ := hv
    have hs : s ≠ [] := by
      rintro rfl
      exact hne (List.append_nil v).symm
    refine matchAt_of_nil (List.eq_nil_iff_forall_not_mem.2 fun s' hs' => ?_)
    obtain ⟨other, hother⟩ := named_of_nameBefore hkeyword hs'
    have hhere : ((Cursor.start (v ++ s ++ u)).advance v).rest = s ++ u :=
      rest_advance (List.append_assoc v s u)
    exact hbefore v s rfl hs other (hhere ▸ hother)
  cases h with
  | spec hlead hnamed =>
      refine hfound hnamed fun v s hfront hs other => ?_
      refine not_named_of_blanks hs fun c hc => hlead c ?_
      rw [hfront]
      exact List.mem_append_right v hc
  | line hlead hne hgap hnamed hother =>
      rw [← List.append_assoc "type".toList, ← List.append_assoc]
      exact hfound hnamed fun v s hfront hs other =>
        not_named_in_front hkeyword hlead hne hgap hnamed hother hfront hs

-- ======================================================== what has a heading

variable {name t : Text}

theorem canRead_typeParameters {params : Text} (h : ParametersPart params) :
    CanRead typeParameters params := by
  cases h with
  | none => exact canRead_optional_nil bracketed
  | @some inside hinside =>
      have hall : '[' :: (inside ++ [']']) = "[".toList ++ inside ++ "]".toList := rfl
      rw [hall]
      exact CanRead.optional (((canRead_lit "[").append (canRead_run hinside)).append
        (canRead_lit "]"))

/-- Where a name and the keyword after it are all that is ahead, they can be read. -/
theorem Named.readsRest (hkeyword : IsKeyword keyword) (h : Named keyword name t) :
    ReadsRest (Pattern.word ++ afterName keyword) t := by
  obtain ⟨u, hu, rfl⟩ := h.after
  obtain @⟨params, gap, after, hparams, hne, hgap, hafter⟩ := hu
  have hlast : ReadsRest (lit keyword ++ wordEdge) (keyword ++ after) := by
    intro s hs
    have hahead : (s.cursor.advance keyword).rest = after := rest_advance hs
    have hedge : (s.cursor.advance keyword).atWordEdge = true := by
      rw [atWordEdge_advance hkeyword.ne_nil hkeyword.word, hahead]
      exact hafter
    refine ⟨s.advance keyword, mem_readings_seq.2 ⟨s.advance keyword, ?_, ?_⟩⟩
    · exact mem_readings_lit.2 ⟨⟨after, hs.symm⟩, rfl⟩
    · exact mem_readings_place.2 ⟨hedge, rfl⟩
  unfold afterName
  exact .append (canRead_run1 h.ne_nil h.word)
    (.append (canRead_typeParameters hparams) (.append (canRead_run1 hne hgap) hlast))

/-- A line that begins with `type`, a name and a keyword of a type. -/
def IsTypeLine (keyword t : Text) : Prop :=
  ∃ gap name u, gap ≠ [] ∧ (∀ c ∈ gap, isBlank c = true) ∧ Named keyword name u ∧
    t = "type".toList ++ (gap ++ u)

/-- All of a line that declares a type can be read up to its keyword. -/
theorem readsRest_typeLine (hkeyword : IsKeyword keyword) (h : IsTypeLine keyword t) :
    ReadsRest ((lit "type" ++ blanks1) ++ (word ++ afterName keyword)) t := by
  obtain ⟨gap, name, u, hne, hgap, hnamed, rfl⟩ := h
  rw [← List.append_assoc]
  exact .append ((canRead_lit "type").append (canRead_run1 hne hgap)) (hnamed.readsRest hkeyword)

theorem isTypeLine_of_reading (hkeyword : IsKeyword keyword) {s s' : State}
    (htype : s ∈ readings (lit "type" ++ blanks1) ⟨Cursor.start t, []⟩)
    (h : s' ∈ readings (word ++ afterName keyword) s) : IsTypeLine keyword t := by
  obtain ⟨s₁, hs₁, hs⟩ := mem_readings_seq.1 htype
  obtain ⟨htyperest, rfl⟩ := mem_readings_lit.1 hs₁
  obtain ⟨gap, hne, hgaprest, hgap, rfl⟩ := mem_readings_run1.1 hs
  obtain ⟨name, hnamed⟩ := named_of_reading hkeyword h
  have ht : t = "type".toList ++ _ := Cursor.rest_eq_append htyperest
  have hrest : ((Cursor.start t).advance "type").rest = _ := Cursor.rest_eq_append hgaprest
  exact ⟨gap, name, _, hne, hgap, hnamed, ht.trans (congrArg ("type".toList ++ ·) hrest)⟩

/-- What is read from the start of a text is read there. -/
theorem readings_atStart (p : Pattern) (t : Text) :
    readings (atStart ++ p) ⟨Cursor.start t, []⟩ = readings p ⟨Cursor.start t, []⟩ :=
  List.append_nil _

/-- The pattern matches exactly the lines that declare a type. -/
theorem isSome_typeLineOf_iff (hkeyword : IsKeyword keyword) :
    ((typeLineOf keyword).matchStart t).isSome = true ↔ IsTypeLine keyword t := by
  have hshape : readings (typeLineOf keyword) ⟨Cursor.start t, []⟩
      = readings ((lit "type" ++ blanks1) ++ (word ++ afterName keyword)) ⟨Cursor.start t, []⟩ := by
    unfold typeLineOf afterName
    simp only [readings_assoc, readings_atStart]
  unfold matchStart
  rw [isSome_matchAt_iff, hshape]
  constructor
  · rintro ⟨s, hs⟩
    obtain ⟨s₁, hs₁, hs⟩ := mem_readings_seq.1 hs
    exact isTypeLine_of_reading hkeyword hs₁ hs
  · intro h
    exact readsRest_typeLine hkeyword h ⟨Cursor.start t, []⟩ rfl

/-- A spec need not have the word `type` before the name, since it may stand in a group. -/
theorem isSome_typeSpecOf_iff (hkeyword : IsKeyword keyword) :
    ((typeSpecOf keyword).matchStart t).isSome = true ↔
      IsTypeLine keyword t ∨ ∃ name, Named keyword name t := by
  have hshape : readings (typeSpecOf keyword) ⟨Cursor.start t, []⟩
      = readings (optional (lit "type" ++ blanks1) ++ (word ++ afterName keyword))
        ⟨Cursor.start t, []⟩ := by
    unfold typeSpecOf afterName
    simp only [readings_assoc, readings_atStart]
  unfold matchStart
  rw [isSome_matchAt_iff, hshape]
  constructor
  · rintro ⟨s, hs⟩
    obtain ⟨s₁, hs₁, hs⟩ := mem_readings_seq.1 hs
    rcases mem_readings_optional.1 hs₁ with hs₁ | rfl
    · exact .inl (isTypeLine_of_reading hkeyword hs₁ hs)
    · exact .inr (named_of_reading hkeyword hs)
  · intro h
    have hreads :
        ReadsRest (optional (lit "type" ++ blanks1) ++ (word ++ afterName keyword)) t := by
      rcases h with ⟨gap, name, u, hne, hgap, hnamed, rfl⟩ | ⟨name, hnamed⟩
      · rw [← List.append_assoc]
        exact .append ((canRead_lit "type").append (canRead_run1 hne hgap)).optional
          (hnamed.readsRest hkeyword)
      · exact ReadsRest.append (canRead_optional_nil _) (hnamed.readsRest hkeyword)
    exact hreads ⟨Cursor.start t, []⟩ rfl

/-- A line of a type has a heading. If the keyword stands twice, `type` is the name. -/
theorem IsTypeLine.heading (h : IsTypeLine keyword t) :
    ∃ name, Heading keyword name t := by
  obtain ⟨gap, name, u, hne, hgap, hnamed, rfl⟩ := h
  have hlead : ∀ c ∈ ([] : Text), isBlank c = true := List.forall_mem_nil _
  by_cases hother : name = keyword
  · subst hother
    obtain ⟨v, hv, rfl⟩ := hnamed.after
    have hkey : AfterName name (gap ++ (name ++ v)) := .mk .none hne hgap hv.head
    have hword : ∀ c ∈ "type".toList, isWord c = true := List.all_eq_true.1 (by decide)
    exact ⟨"type", @Heading.spec _ _ [] _ hlead ⟨by decide, hword, _, hkey, rfl⟩⟩
  · exact ⟨name, .line hlead hne hgap hnamed hother⟩

/-- A line that declares a type begins with a heading. -/
theorem heading_of_typeLine (hkeyword : IsKeyword keyword)
    (h : ((typeLineOf keyword).matchStart t).isSome = true) : ∃ name, Heading keyword name t :=
  ((isSome_typeLineOf_iff hkeyword).1 h).heading

theorem heading_of_typeSpec (hkeyword : IsKeyword keyword)
    (h : ((typeSpecOf keyword).matchStart t).isSome = true) : ∃ name, Heading keyword name t := by
  rcases (isSome_typeSpecOf_iff hkeyword).1 h with hline | ⟨name, hnamed⟩
  · exact hline.heading
  · exact ⟨name, @Heading.spec _ _ [] _ (List.forall_mem_nil _) hnamed⟩

-- ============================================================= declared

/-- A struct is declared under the name of its heading. -/
theorem parseStruct?_of_heading {name t : Text} (h : Heading "struct" name t) (line : Nat)
    (comments : List Text) : ∃ d, parseStruct? t line comments = some d ∧ d.name = name := by
  obtain ⟨m, hm, hname⟩ := search_heading isKeyword_struct h
  unfold parseStruct?
  rw [hm]
  exact ⟨_, rfl, hname⟩

/-- An interface is declared under the name of its heading. -/
theorem parseInterface?_of_heading {name t : Text} (h : Heading "interface" name t) (line : Nat)
    (comments : List Text) : ∃ d, parseInterface? t line comments = some d ∧ d.name = name := by
  obtain ⟨m, hm, hname⟩ := search_heading isKeyword_interface h
  unfold parseInterface?
  rw [hm]
  exact ⟨_, rfl, hname⟩

end GoSurvey.Declaration
