/-
What a signature of the call graph remembers of the parameters and of the
result. The parameters are the text up to the first closing parenthesis
(`exists_read_signature`). The result is a text in parentheses without a
closing one inside, or a type that is no more than a name
(`returned_list`, `returned_type`); of any other result nothing or only a
beginning is read (`returned_other`). The same holds of the results of a
function of the call graph (`exists_signature_of_function`).
-/
import GoSurvey.Proofs.CallGraph.Opening
import GoSurvey.Proofs.Source.Split

namespace GoSurvey.CallGraph

open Text Source Pattern

variable {receiver : Option Text} {name o : Text}

-- ========================================================= parameters

/-- What follows the parameters of a signature. -/
def resultPart : Pattern :=
  optional (choice (gap ++ parenthesized 4) (gap ++ group 5 resultType))

theorem readings_signature_front (s : State) :
    readings signature s = readings (lineStart ++ (front isGap (run1 isGap) (received isGap)
      ++ (parenthesized 3 ++ resultPart))) s := by
  unfold signature front received resultPart
  simp only [readings_append, List.flatMap_assoc]
  rfl

/-- Where a signature matches there is an opening, and a parenthesis is closed after it. -/
theorem opening_of_signature {cur : Cursor} {m : Match} (h : signature.matchAt cur = some m) :
    cur.atLineStart = true ∧ ∃ receiver name o list tail, Opening isGap receiver name o ∧
      ')' ∉ list ∧ cur.rest = o ++ (list ++ ')' :: tail) := by
  obtain ⟨s, hs, rfl⟩ := exists_reading_of_matchAt h
  rw [readings_signature] at hs
  obtain ⟨s₁, hs₁, hs⟩ := mem_readings_seq.1 hs
  obtain ⟨hstart, rfl⟩ := mem_readings_place.1 hs₁
  obtain ⟨g, part, name, receiver, s₂, hne, hg, hpart, hname, hword, hrest, hcur, -, htail⟩ :=
    mem_readings_front readsReceiver_signature hs
  have hfront : Takes ⟨cur, []⟩ s₂ (funcKeyword ++ (g ++ (part ++ name))) := ⟨hrest, hcur⟩
  have htail : s ∈ readings ((run isGap ++ (Declaration.typeParameters ++ run isGap))
      ++ (parenthesized 3 ++ resultPart)) s₂ := by
    simp only [readings_append, List.flatMap_assoc]
    exact htail
  obtain ⟨s₅, hs₅, htail⟩ := mem_readings_seq.1 htail
  obtain ⟨s₆, hs₆, -⟩ := mem_readings_seq.1 htail
  obtain ⟨g', types, g'', hg', htypes, hg'', htypesTaken⟩ := takes_typePart hs₅
  unfold parenthesized at hs₆
  obtain ⟨s₇, hs₇, hclose⟩ := mem_readings_seq.1 hs₆
  obtain ⟨s₈, hs₈, hlist⟩ := mem_readings_seq.1 hs₇
  obtain ⟨s₉, hs₉, rfl⟩ := mem_readings_group.1 hlist
  obtain ⟨list, hexcept, hinside, -⟩ := takes_run hs₉
  have hremembered : Takes s₈ (s₉.remember 3 s₈) list := ⟨hinside.ahead, hinside.cursor⟩
  have hall := (hfront.append htypesTaken).append
    (((takes_lit hs₈).1.append hremembered).append (takes_lit hclose).1)
  obtain ⟨tail, htail⟩ := hall.ahead
  refine ⟨hstart, receiver, name, _, list, tail,
    .mk hne hg hpart hname hword hg' htypes hg'', not_mem_of_except hexcept, ?_⟩
  refine htail.symm.trans ?_
  simp

/-- Along an opening a signature is read up to the first closing parenthesis, and then what it can
of the result. -/
theorem exists_read_signature (ho : Opening isGap receiver name o) {list tail : Text}
    (hlist : ')' ∉ list) {cur : Cursor} (hstart : cur.atLineStart = true)
    (hrest : cur.rest = o ++ (list ++ ')' :: tail)) :
    ∃ s s', First resultPart s s' ∧ s.cursor.rest = tail ∧
      s.texts = (3, list) :: (2, name) :: receiverTexts receiver ∧
      signature.matchAt cur = some (Match.ofState cur s') := by
  obtain ⟨hname, hword⟩ : name ≠ [] ∧ ∀ d ∈ name, isWord d = true := by
    obtain ⟨-, -, -, hname, hword, -, -, -⟩ := ho
    exact ⟨hname, hword⟩
  have hspace : ∀ c, isGap c = true → isBlank c = true := fun _ => isBlank_of_isGap
  obtain ⟨s, hs, hcursor, htexts⟩ := first_opening (s := ⟨cur, []⟩) hspace (readsSpace_run1 isGap)
    (readsName_received hspace hname hword) ho hrest
  have h₁ : s.cursor.rest = ['('] ++ (list ++ ')' :: tail) := by
    rw [hcursor]
    exact ho.ahead hrest
  have h₂ : (s.advance ['(']).cursor.rest = list ++ ([')'] ++ tail) := rest_advance h₁
  have hclose : ∀ c ∈ ([')'] ++ tail).head?, except ')' c = false := by
    intro c hc
    obtain rfl : ')' = c := Option.some.inj hc
    rfl
  let s₁ := ((s.advance ['(']).advance list).remember 3 (s.advance ['('])
  have h₃ : s₁.cursor.rest = [')'] ++ tail := rest_advance h₂
  have hread : First (parenthesized 3) s (s₁.advance [')']) :=
    first_seq (first_seq (first_lit ⟨_, h₁.symm⟩)
      (first_group (first_run h₂ (except_of_not_mem hlist) hclose))) (first_lit ⟨_, h₃.symm⟩)
  have hremember : s₁.texts = (3, list) :: s.texts := texts_remember 3 ⟨_, h₂.symm⟩ rfl
  obtain ⟨s', hs'⟩ : ∃ s', First resultPart (s₁.advance [')']) s' :=
    exists_first (mem_readings_optional.2 (.inr rfl))
  refine ⟨s₁.advance [')'], s', hs', rest_advance h₃, ?_, ?_⟩
  · show s₁.texts = _
    rw [hremember, htexts]
    simp [State.texts]
  · refine (matchAt_eq signature cur).trans ?_
    have hall : First (lineStart ++ (front isGap (run1 isGap) (received isGap)
        ++ (parenthesized 3 ++ resultPart))) ⟨cur, []⟩ s' :=
      first_seq (first_place hstart) (first_seq hs (first_seq hread hs'))
    unfold First at hall
    rw [readings_signature_front, hall]
    rfl

-- ============================================================= results

/-- A text that is a qualified name with a star before it or a name in brackets after it, or with
neither. -/
inductive TypeName : Text → Prop where
  | mk {star name index : Text} (hstar : star = [] ∨ star = ['*']) (hne : name ≠ [])
      (hname : ∀ c ∈ name, Declaration.isQualified c = true)
      (hindex : index = [] ∨ ∃ inner, inner ≠ [] ∧
        (∀ c ∈ inner, Declaration.isQualified c = true) ∧ index = '[' :: (inner ++ [']'])) :
      TypeName (star ++ (name ++ index))

/-- A type name begins with a star or with a character of a name. -/
theorem TypeName.exists_cons {t : Text} (h : TypeName t) :
    ∃ c u, t = c :: u ∧ (c = '*' ∨ Declaration.isQualified c = true) := by
  obtain @⟨star, name, index, hstar, hne, hname, -⟩ := h
  obtain ⟨c, name, rfl⟩ := List.exists_cons_of_ne_nil hne
  rcases hstar with rfl | rfl
  · exact ⟨c, name ++ index, rfl, .inr (hname c List.mem_cons_self)⟩
  · exact ⟨'*', c :: name ++ index, rfl, .inl rfl⟩

theorem isGap_eq_false {c : Char} (h : c = '*' ∨ Declaration.isQualified c = true) :
    isGap c = false ∧ c ≠ '(' := by
  rcases h with rfl | h
  · decide
  · constructor
    · refine Bool.eq_false_iff.2 fun hgap => ?_
      unfold isGap at hgap
      rw [Bool.or_eq_true, beq_iff_eq, beq_iff_eq] at hgap
      rcases hgap with rfl | rfl <;> exact absurd h (by decide)
    · rintro rfl
      exact absurd h (by decide)

/-- A single type is read as a type name. -/
theorem takes_resultType {s s' : State} (h : s' ∈ readings resultType s) :
    ∃ t, TypeName t ∧ Takes s s' t ∧ s'.texts = s.texts := by
  unfold resultType at h
  obtain ⟨m, hm, hindex⟩ := mem_readings_seq.1 h
  obtain ⟨s₁, hstar, hname⟩ := mem_readings_seq.1 hm
  have hstar : ∃ star, (star = [] ∨ star = ['*']) ∧ Takes s s₁ star ∧ s₁.texts = s.texts := by
    rcases mem_readings_optional.1 hstar with hstar | rfl
    · exact ⟨_, .inr rfl, takes_lit hstar⟩
    · exact ⟨[], .inl rfl, ⟨List.nil_prefix, rfl⟩, rfl⟩
  obtain ⟨star, hstar, hstarTaken, hstarTexts⟩ := hstar
  obtain ⟨name, hne, hnamerest, hqualified, rfl⟩ := mem_readings_run1.1 hname
  have hindex : ∃ index, (index = [] ∨ ∃ inner, inner ≠ [] ∧
      (∀ c ∈ inner, Declaration.isQualified c = true) ∧ index = '[' :: (inner ++ [']'])) ∧
      Takes (s₁.advance name) s' index ∧ s'.texts = s₁.texts := by
    rcases mem_readings_optional.1 hindex with hindex | rfl
    · obtain ⟨s₃, hs₃, hclose⟩ := mem_readings_seq.1 hindex
      obtain ⟨s₂, hopen, hrun⟩ := mem_readings_seq.1 hs₃
      obtain ⟨inner, hinnerNe, hinnerRest, hinner, rfl⟩ := mem_readings_run1.1 hrun
      obtain ⟨hopenTaken, hopenTexts⟩ := takes_lit hopen
      obtain ⟨hcloseTaken, hcloseTexts⟩ := takes_lit hclose
      have hinside : Takes s₂ (s₂.advance inner) inner := ⟨hinnerRest, rfl⟩
      exact ⟨_, .inr ⟨inner, hinnerNe, hinner, rfl⟩,
        (hopenTaken.append hinside).append hcloseTaken, hcloseTexts.trans hopenTexts⟩
    · exact ⟨[], .inl rfl, ⟨List.nil_prefix, rfl⟩, rfl⟩
  obtain ⟨index, hindex, hindexTaken, hindexTexts⟩ := hindex
  have hnameTaken : Takes s₁ (s₁.advance name) name := ⟨hnamerest, rfl⟩
  exact ⟨_, .mk hstar hne hqualified hindex, hstarTaken.append (hnameTaken.append hindexTaken),
    hindexTexts.trans hstarTexts⟩

/-- A type name is read as a single type, each of its parts as far as it goes. -/
theorem first_resultType {s : State} {t more : Text} (ht : TypeName t)
    (hrest : s.cursor.rest = t ++ more)
    (hmore : ∀ c ∈ more.head?, Declaration.isQualified c = false ∧ c ≠ '[') :
    First resultType s (s.advance t) := by
  obtain @⟨star, name, index, hstar, hne, hname, hindex⟩ := ht
  have hindexEnd : ∀ d ∈ (index ++ more).head?, Declaration.isQualified d = false := by
    intro d hd
    rcases hindex with rfl | ⟨inner, -, -, rfl⟩
    · exact (hmore d hd).1
    · obtain rfl : '[' = d := Option.some.inj hd
      decide
  have hstarRead : First (optional "*") s (s.advance star) := by
    rcases hstar with rfl | rfl
    · refine first_optional_of_nil (readings_lit_nil ?_)
      rw [hrest]
      obtain ⟨d, name, rfl⟩ := List.exists_cons_of_ne_nil hne
      rintro ⟨v, hv⟩
      obtain rfl : '*' = d := (List.cons.inj hv).1
      exact absurd (hname '*' List.mem_cons_self) (by decide)
    · exact first_optional (first_lit ⟨_, hrest.symm⟩)
  have h₁ : (s.advance star).cursor.rest = name ++ (index ++ more) := by
    refine rest_advance (hrest.trans ?_)
    simp only [List.append_assoc]
  have hnameRead := first_run1 h₁ hne hname hindexEnd
  have h₂ := rest_advance h₁
  have hindexRead : First (optional ("[" ++ run1 Declaration.isQualified ++ "]"))
      ((s.advance star).advance name) (((s.advance star).advance name).advance index) := by
    rcases hindex with rfl | ⟨inner, hinnerNe, hinner, rfl⟩
    · refine first_optional_of_nil (readings_seq_nil (readings_seq_nil (readings_lit_nil ?_)))
      show ¬"[".toList <+: ((s.advance star).cursor.advance name).rest
      rw [h₂]
      rintro ⟨v, hv⟩
      exact (hmore '[' (by rw [List.nil_append] at hv; rw [← hv]; rfl)).2 rfl
    · let s₁ := ((s.advance star).advance name).advance ['[']
      have h₃ : s₁.cursor.rest = inner ++ (']' :: more) := by
        refine rest_advance (v := ['[']) (h₂.trans ?_)
        simp
      have h₄ : (s₁.advance inner).cursor.rest = ']' :: more := rest_advance h₃
      have hclose : ∀ d ∈ (']' :: more).head?, Declaration.isQualified d = false := by
        intro d hd
        obtain rfl : ']' = d := Option.some.inj hd
        decide
      have hread : First ("[" ++ run1 Declaration.isQualified ++ "]") _
          ((s₁.advance inner).advance [']']) :=
        first_seq (first_seq (first_lit ⟨_, h₂.symm⟩) (first_run1 h₃ hinnerNe hinner hclose))
          (first_lit ⟨_, h₄.symm⟩)
      simpa only [State.advance_append, List.append_assoc, List.cons_append, List.nil_append,
        s₁] using first_optional hread
  have hall : First resultType s (((s.advance star).advance name).advance index) :=
    first_seq (first_seq hstarRead hnameRead) hindexRead
  simpa only [State.advance_append, List.append_assoc] using hall

section BehindSpace

variable {s : State} {b u : Text} (hb : ∀ c ∈ b, isGap c = true) (hrest : s.cursor.rest = b ++ u)

include hb hrest

/-- Whatever is read after spaces is read after all of them. -/
theorem prefix_behind_gap (hu : ∀ c ∈ u.head?, isGap c = false) {b' w : Text} {c : Char}
    (hb' : ∀ d ∈ b', isGap d = true) (hc : isGap c = false)
    (h : b' ++ c :: w <+: s.cursor.rest) : c :: w <+: u := by
  obtain ⟨more, hmore⟩ := h
  rw [hrest, List.append_assoc, List.cons_append] at hmore
  cases u with
  | nil =>
      rw [List.append_nil] at hmore
      have hmem := hb c (hmore ▸ List.mem_append_right b' List.mem_cons_self)
      rw [hc] at hmem
      cases hmem
  | cons d u =>
      obtain ⟨-, hu⟩ := run_unique hc (hu d rfl) hb' hb hmore
      exact ⟨more, hu⟩

/-- Where something else than a parenthesis comes after spaces, no list is read. -/
theorem readings_list_nil (hu : ∀ c ∈ u.head?, isGap c = false ∧ c ≠ '(') (index : Nat) :
    readings (gap ++ parenthesized index) s = [] := by
  refine List.eq_nil_iff_forall_not_mem.2 fun m hm => ?_
  obtain ⟨s₁, hs₁, hm⟩ := mem_readings_seq.1 hm
  unfold parenthesized at hm
  obtain ⟨s₂, hs₂, -⟩ := mem_readings_seq.1 hm
  obtain ⟨s₃, hs₃, -⟩ := mem_readings_seq.1 hs₂
  obtain ⟨b', hb', hgap, -⟩ := takes_run hs₁
  have hopen := (hgap.append (takes_lit hs₃).1).ahead
  obtain ⟨w, hw⟩ := prefix_behind_gap hb hrest (fun c hc => (hu c hc).1) (w := []) hb'
    (by decide) hopen
  exact (hu '(' (by rw [← hw]; rfl)).2 rfl

end BehindSpace

/-- A list of results without a closing parenthesis in it is remembered. -/
theorem returned_list {s s' : State} (h : First resultPart s s') {b inner more : Text}
    (hb : ∀ c ∈ b, isGap c = true) (hinner : ')' ∉ inner)
    (hrest : s.cursor.rest = b ++ '(' :: (inner ++ ')' :: more)) :
    s'.texts = (4, inner) :: s.texts := by
  have hopen : ∀ c ∈ ('(' :: (inner ++ ')' :: more)).head?, isGap c = false := by
    intro c hc
    obtain rfl : '(' = c := Option.some.inj hc
    rfl
  have hclose : ∀ c ∈ (')' :: more).head?, except ')' c = false := by
    intro c hc
    obtain rfl : ')' = c := Option.some.inj hc
    rfl
  let s₁ := (s.advance b).advance ['(']
  let s₂ := (s₁.advance inner).remember 4 s₁
  have h₁ : (s.advance b).cursor.rest = '(' :: (inner ++ ')' :: more) := rest_advance hrest
  have h₂ : s₁.cursor.rest = inner ++ ')' :: more := rest_advance h₁
  have h₃ : s₂.cursor.rest = ')' :: more := rest_advance h₂
  have hgap : First gap s (s.advance b) := first_run hrest hb hopen
  have hread : First (gap ++ parenthesized 4) s (s₂.advance [')']) :=
    first_seq hgap (first_seq (first_seq (first_lit ⟨_, h₁.symm⟩)
      (first_group (first_run h₂ (except_of_not_mem hinner) hclose))) (first_lit ⟨_, h₃.symm⟩))
  have hall : First resultPart s (s₂.advance [')']) := first_optional (first_choice hread)
  obtain rfl : s' = s₂.advance [')'] := Option.some.inj (h.symm.trans hall)
  exact texts_remember 4 ⟨_, h₂.symm⟩ rfl

/-- What is remembered of any other result is a type name with which it begins. -/
theorem returned_other {s s' : State} (h : s' ∈ readings resultPart s) {b u : Text}
    (hb : ∀ c ∈ b, isGap c = true) (hrest : s.cursor.rest = b ++ u)
    (hu : ∀ c ∈ u.head?, isGap c = false ∧ c ≠ '(') :
    s'.texts = s.texts ∨ ∃ t, TypeName t ∧ t <+: u ∧ s'.texts = (5, t) :: s.texts := by
  rcases mem_readings_optional.1 h with h | rfl
  · rcases mem_readings_choice.1 h with h | h
    · rw [readings_list_nil hb hrest hu] at h
      cases h
    · refine .inr ?_
      obtain ⟨s₁, hs₁, h⟩ := mem_readings_seq.1 h
      obtain ⟨s₂, hs₂, rfl⟩ := mem_readings_group.1 h
      obtain ⟨b', hb', hgap, hspace⟩ := takes_run hs₁
      obtain ⟨t, ht, htaken, htexts⟩ := takes_resultType hs₂
      have hremember : (s₂.remember 5 s₁).texts = (5, t) :: s₂.texts :=
        texts_remember 5 htaken.ahead htaken.cursor
      have hall := (hgap.append htaken).ahead
      obtain ⟨c, w, rfl, hfirst⟩ := ht.exists_cons
      refine ⟨_, ht, ?_, ?_⟩
      · exact prefix_behind_gap hb hrest (fun c hc => (hu c hc).1) hb' (isGap_eq_false hfirst).1
          hall
      · rw [hremember, htexts, hspace]
  · exact .inl rfl

/-- A type name is remembered as a whole. -/
theorem returned_type {s s' : State} (h : First resultPart s s') {b t more : Text}
    (hb : ∀ c ∈ b, isGap c = true) (ht : TypeName t) (hrest : s.cursor.rest = b ++ (t ++ more))
    (hmore : ∀ c ∈ more.head?, Declaration.isQualified c = false ∧ c ≠ '[') :
    s'.texts = (5, t) :: s.texts := by
  have hhead : ∀ d ∈ (t ++ more).head?, isGap d = false ∧ d ≠ '(' := by
    obtain ⟨c, u, rfl, hc⟩ := ht.exists_cons
    rintro d ⟨⟩
    exact isGap_eq_false hc
  have hahead : (s.advance b).cursor.rest = t ++ more := rest_advance hrest
  have hspace : First gap s (s.advance b) := first_run hrest hb fun d hd => (hhead d hd).1
  let s₁ := (s.advance b).advance t
  have hread : First (gap ++ group 5 resultType) s (s₁.remember 5 (s.advance b)) :=
    first_seq hspace (first_group (first_resultType ht hahead hmore))
  have hall : First resultPart s (s₁.remember 5 (s.advance b)) :=
    first_optional (first_choice_of_nil (readings_list_nil hb hrest hhead 4) hread)
  obtain rfl : s' = s₁.remember 5 (s.advance b) := Option.some.inj (h.symm.trans hall)
  exact texts_remember 5 ⟨more, hahead.symm⟩ rfl

-- =========================================================== functions

theorem not_isBlank_of_isQualified {c : Char} (hc : Declaration.isQualified c = true) :
    isBlank c = false := by
  unfold Declaration.isQualified at hc
  rw [Bool.or_eq_true, beq_iff_eq] at hc
  rcases hc with hc | rfl
  · exact not_isBlank_of_isWord hc
  · decide

theorem TypeName.isQualified_of_mem {t : Text} (h : TypeName t) :
    ∀ c ∈ t, c ∈ ['*', '[', ']'] ∨ Declaration.isQualified c = true := by
  obtain @⟨star, name, index, hstar, -, hname, hindex⟩ := h
  intro c hc
  simp only [List.mem_append] at hc
  rcases hc with hc | hc | hc
  · rcases hstar with rfl | rfl
    · cases hc
    · obtain rfl := List.mem_singleton.1 hc
      exact .inl (by decide)
  · exact .inr (hname c hc)
  · rcases hindex with rfl | ⟨inner, -, hinner, rfl⟩
    · cases hc
    · simp only [List.mem_cons, List.mem_append, List.not_mem_nil, or_false] at hc
      rcases hc with rfl | hc | rfl
      · exact .inl (by decide)
      · exact .inr (hinner c hc)
      · exact .inl (by decide)

/-- A type name is one part of a list, without blanks. -/
theorem TypeName.plain {t : Text} (h : TypeName t) : ∀ c ∈ t, isBlank c = false ∧ c ≠ ',' := by
  intro c hc
  rcases h.isQualified_of_mem c hc with hc | hc
  · simp only [List.mem_cons, List.not_mem_nil, or_false] at hc
    rcases hc with rfl | rfl | rfl <;> decide
  · refine ⟨not_isBlank_of_isQualified hc, ?_⟩
    rintro rfl
    exact absurd hc (by decide)

theorem TypeName.ne_nil {t : Text} (h : TypeName t) : t ≠ [] := by
  obtain ⟨c, u, rfl, -⟩ := h.exists_cons
  exact List.cons_ne_nil c u

theorem TypeName.trim_eq {t : Text} (h : TypeName t) : trim t = t :=
  (trimmed_of_no_blank fun c hc => (h.plain c hc).1).trim_eq

theorem TypeName.keptParts_splitOn {t : Text} (h : TypeName t) :
    keptParts (splitOn ',' t) = [t] := by
  rw [splitOn_of_not_mem fun hmem => (h.plain ',' hmem).2 rfl, keptParts_cons, h.trim_eq,
    if_neg h.ne_nil]
  rfl

/-- Results that are read of what follows the parameters. -/
def ReturnsOf (tail : Text) (returns : List Text) : Prop :=
  ∃ s s', First resultPart s s' ∧ s.cursor.rest = tail ∧ s.texts.lookup 4 = none ∧
    s.texts.lookup 5 = none ∧
    returns = keptParts (splitOn ',' ((s'.texts.lookup 4).getD ((s'.texts.lookup 5).getD [])))

section Returns

variable {tail b : Text} {returns : List Text}

/-- The results of a list in parentheses are its pieces between commas. -/
theorem ReturnsOf.list (h : ReturnsOf tail returns) (hb : ∀ c ∈ b, isGap c = true)
    {inner more : Text} (hinner : ')' ∉ inner) (htail : tail = b ++ '(' :: (inner ++ ')' :: more)) :
    returns = keptParts (splitOn ',' inner) := by
  obtain ⟨s, s', hread, hrest, -, -, rfl⟩ := h
  rw [returned_list hread hb hinner (hrest.trans htail)]
  rfl

/-- A type name is the only result. -/
theorem ReturnsOf.type (h : ReturnsOf tail returns) (hb : ∀ c ∈ b, isGap c = true) {t more : Text}
    (ht : TypeName t) (htail : tail = b ++ (t ++ more))
    (hmore : ∀ c ∈ more.head?, Declaration.isQualified c = false ∧ c ≠ '[') : returns = [t] := by
  obtain ⟨s, s', hread, hrest, hnone, -, rfl⟩ := h
  have hfour : List.lookup 4 ((5, t) :: s.texts) = none := hnone
  rw [returned_type hread hb ht (hrest.trans htail) hmore, hfour]
  exact ht.keptParts_splitOn

/-- Of anything else there is a type name at most. -/
theorem ReturnsOf.other (h : ReturnsOf tail returns) (hb : ∀ c ∈ b, isGap c = true) {u : Text}
    (htail : tail = b ++ u) (hu : ∀ c ∈ u.head?, isGap c = false ∧ c ≠ '(') :
    returns = [] ∨ ∃ t, TypeName t ∧ t <+: u ∧ returns = [t] := by
  obtain ⟨s, s', hread, hrest, hlist, htype, rfl⟩ := h
  rcases returned_other hread.mem hb (hrest.trans htail) hu with hs' | ⟨t, ht, hbegins, hs'⟩
  · rw [hs', hlist, htype]
    exact .inl rfl
  · have hfour : List.lookup 4 ((5, t) :: s.texts) = none := hlist
    rw [hs', hfour]
    exact .inr ⟨t, ht, hbegins, ht.keptParts_splitOn⟩

end Returns

/-- The signature that a function of the call graph is read from. -/
theorem exists_signature_of_function {content file package : Text} {d : FunctionDef}
    (hd : d ∈ functionsIn content file package) :
    ∃ w receiver name o list tail, content = w ++ (o ++ (list ++ ')' :: tail)) ∧
      (w = [] ∨ w.getLast? = some newline) ∧ d.line = w.count newline + 1 ∧
      Opening isGap receiver name o ∧ ')' ∉ list ∧
      d.params = (splitTopLevel ',' list).map parameterName ∧ ReturnsOf tail d.returns := by
  obtain ⟨m, hm, rfl⟩ := List.mem_map.1 hd
  obtain ⟨w, hw, hmatch, -, hline⟩ := exists_before hm
  obtain ⟨hstart, receiver, name, o, list, tail, ho, hlist, hrest⟩ := opening_of_signature hmatch
  obtain ⟨s, s', hread, hafter, htexts, hmatch'⟩ := exists_read_signature ho hlist hstart hrest
  obtain rfl : m = Match.ofState _ s' := Option.some.inj (hmatch.symm.trans hmatch')
  obtain ⟨new, hnew, hindices⟩ := texts_of_reading hread.mem
  have hparams : s'.texts.lookup 3 = some list := by
    have hnone : new.lookup 3 = none := by
      refine List.lookup_eq_none_iff.2 fun x hx => bne_iff_ne.2 fun heq => ?_
      have hmem : 3 ∈ resultPart.groups.map (·.1) := heq ▸ hindices x hx
      exact absurd hmem (by decide)
    rw [hnew, htexts, List.lookup_append, hnone]
    rfl
  have hbefore : s.texts.lookup 4 = none ∧ s.texts.lookup 5 = none := by
    rw [htexts]
    cases receiver <;> exact ⟨rfl, rfl⟩
  have hcontent : content = w ++ (o ++ (list ++ ')' :: tail)) := by
    obtain ⟨rest, rfl⟩ := hw
    have hrest : (w ++ rest).drop w.length = o ++ (list ++ ')' :: tail) := hrest
    rw [List.drop_left] at hrest
    rw [hrest]
  refine ⟨w, receiver, name, o, list, tail, hcontent, atLineStart_advance.1 hstart, hline, ho,
    hlist, ?_, s, s', hread, hafter, hbefore.1, hbefore.2, rfl⟩
  show (splitTopLevel ',' ((s'.texts.lookup 3).getD [])).map parameterName = _
  rw [hparams]
  rfl

end GoSurvey.CallGraph
