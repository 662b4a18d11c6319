/-
What the line of a value looks like. The line of a constant begins with
the name, and what follows is a type, a value, both or nothing
(`constant_line`). The line of variables begins with the names and the
commas between them; the list is read as far as it goes, so that no word
character follows it, and after it come a type and a value
(`variables_line`). Only the code of the line is read; what may follow is
a line comment (`trim_eq_code`).
-/
import GoSurvey.Proofs.Declaration.Located
import GoSurvey.Proofs.Declaration.ValueSpec
import GoSurvey.Proofs.Source.Squeeze

namespace GoSurvey.Declaration

open Text Source Pattern

-- =============================================== the code and the comment

/-- A trimmed line is its code, or its code and a line comment. -/
theorem trim_eq_code (t : Text) : trim t = trim (stripLineComment t) ∨
    ∃ gap comment, (∀ c ∈ gap, isBlank c = true) ∧
      trim t = trim (stripLineComment t) ++ (gap ++ '/' :: '/' :: comment) := by
  unfold stripLineComment
  cases hcode : beforeLineComment? none false t with
  | none => exact .inl rfl
  | some code =>
      obtain ⟨comment, rfl⟩ := beforeLineComment?_eq_some hcode
      obtain ⟨lead, trail, hsplit, hlead, htrail⟩ := exists_trim_eq code
      obtain ⟨trail', hsplit', htrail'⟩ := exists_dropEndWhile_eq isBlank code
      have hend : trim (trimEnd code) = trim code := by
        conv => rhs; rw [hsplit']
        exact (trim_append_blanks _ htrail').symm
      have hmark : ∃ c ∈ '/' :: '/' :: comment, isBlank c = false :=
        ⟨'/', List.mem_cons_self, by decide⟩
      have hall : trim (code ++ '/' :: '/' :: comment)
          = trim (trim code ++ (trail ++ '/' :: '/' :: comment)) := by
        conv => lhs; rw [hsplit]
        rw [List.append_assoc, trim_blanks_append hlead, List.append_assoc]
      refine .inr ?_
      dsimp only
      rw [hend, hall]
      have hlast : dropEndWhile isBlank ('/' :: '/' :: comment)
          = '/' :: '/' :: dropEndWhile isBlank comment := by
        rw [dropEndWhile_cons (by decide), dropEndWhile_cons (by decide)]
      cases htrim : trim code with
      | nil =>
          refine ⟨[], dropEndWhile isBlank comment, List.forall_mem_nil _, ?_⟩
          rw [List.nil_append, trim_blanks_append htrail]
          exact hlast
      | cons c core =>
          have hc : isBlank c = false := by
            have hfirst := (trimmed_trim code).first c
            rw [htrim] at hfirst
            exact hfirst rfl
          refine ⟨trail, dropEndWhile isBlank comment, htrail, ?_⟩
          unfold trim stripWhile
          rw [List.cons_append, List.dropWhile_cons_of_neg (by simp [hc]), ← List.cons_append,
            ← List.append_assoc, dropEndWhile_append hmark, hlast, List.append_assoc]

theorem beforeLineComment?_blanks {trail : Text} (htrail : ∀ c ∈ trail, isBlank c = true)
    (quote : Option Char) (skip : Bool) : beforeLineComment? quote skip trail = none := by
  induction trail generalizing quote skip with
  | nil => cases quote <;> cases skip <;> rfl
  | cons c trail ih =>
      rw [List.forall_mem_cons] at htrail
      have hslash : c ≠ '/' := by
        rintro rfl
        cases htrail.1
      have hquote := not_isQuote_of_isBlank htrail.1
      cases quote <;> cases skip <;> simp [beforeLineComment?, ih htrail.2, hslash, hquote]

/-- Blanks at the end of a line begin no comment. -/
theorem beforeLineComment?_append_blanks {trail : Text} (htrail : ∀ c ∈ trail, isBlank c = true)
    (t : Text) (quote : Option Char) (skip : Bool) :
    beforeLineComment? quote skip (t ++ trail) = beforeLineComment? quote skip t := by
  induction t generalizing quote skip with
  | nil =>
      rw [List.nil_append, beforeLineComment?_blanks htrail]
      cases quote <;> cases skip <;> rfl
  | cons c t ih =>
      have hhead : (t ++ trail).head? = some '/' ↔ t.head? = some '/' := by
        cases t with
        | cons d t => exact Iff.rfl
        | nil =>
            refine iff_of_false (fun h => ?_) (fun h => by cases h)
            exact absurd (htrail '/' (List.mem_of_head? h)) (by decide)
      cases quote <;> cases skip <;> simp only [List.cons_append, beforeLineComment?, ih, hhead]

/-- Blanks at the end of a line are no part of its code. -/
theorem code_append_blanks {trail : Text} (htrail : ∀ c ∈ trail, isBlank c = true) (t : Text) :
    trim (stripLineComment (t ++ trail)) = trim (stripLineComment t) := by
  unfold stripLineComment
  rw [beforeLineComment?_append_blanks htrail]
  cases beforeLineComment? none false t with
  | none => exact trim_append_blanks t htrail
  | some code => rfl

/-- The first line of a trimmed text is the line that the text begins with, up to blanks. -/
theorem firstLine_trim_eq {line more : Text} (hnot : newline ∉ line)
    (hmore : ∀ c ∈ more.head?, c = newline) (hne : trim line ≠ []) :
    ∃ trail, before [newline] (trim (line ++ more)) = trim line ++ trail ∧
      ∀ c ∈ trail, isBlank c = true := by
  obtain ⟨lead, trail, hsplit, hlead, htrail⟩ := exists_trim_eq line
  have htrimmed := trimmed_trim line
  generalize trim line = core at hsplit htrimmed hne ⊢
  obtain ⟨c, core', rfl⟩ := List.exists_cons_of_ne_nil hne
  have hstart : trim (line ++ more) = dropEndWhile isBlank ((c :: core') ++ (trail ++ more)) := by
    rw [hsplit, List.append_assoc, trim_blanks_append hlead, List.append_assoc]
    unfold trim stripWhile
    rw [List.cons_append, List.dropWhile_cons_of_neg (by simp [htrimmed.first c rfl])]
  -- What is trimmed off at the end does not reach the line's own text.
  obtain ⟨u, hu, hprefix⟩ : ∃ u, trim (line ++ more) = (c :: core') ++ u ∧ u <+: trail ++ more := by
    rw [hstart]
    obtain ⟨init, last, hlast⟩ := List.eq_nil_or_concat' (c :: core') |>.resolve_left hne
    have hvisible : isBlank last = false := by
      apply htrimmed.last last
      rw [hlast]
      exact List.getLast?_concat
    rw [hlast, List.append_assoc, List.singleton_append,
      dropEndWhile_append ⟨last, List.mem_cons_self, hvisible⟩, dropEndWhile_cons hvisible]
    refine ⟨dropEndWhile isBlank (trail ++ more), by simp, dropEndWhile_isPrefix isBlank _⟩
  rw [hu, before_singleton]
  have hcore : newline ∉ c :: core' := fun hmem =>
    hnot (hsplit ▸ List.mem_append_right lead (List.mem_append_left trail hmem))
  have hplain : ∀ d ∈ c :: core', (d != newline) = true := except_of_not_mem hcore
  rw [List.takeWhile_append_of_pos hplain]
  have hrest : u.takeWhile (· != newline) <+: trail := by
    refine firstLine_isPrefix hmore ((List.takeWhile_prefix _).trans hprefix) fun hmem => ?_
    exact bne_iff_ne.1 (List.mem_takeWhile_imp (p := (· != newline)) hmem) rfl
  exact ⟨_, rfl, fun d hd => htrail d (hrest.subset hd)⟩

-- ================================================== the list of names

/-- Names with a comma before each of them. -/
inductive MoreNames : List Text → Text → Prop where
  | nil : MoreNames [] []
  | cons {lead gap name t : Text} {names : List Text} (hlead : ∀ c ∈ lead, isBlank c = true)
    (hgap : ∀ c ∈ gap, isBlank c = true) (hname : isWordText name = true)
    (ht : MoreNames names t) :
    MoreNames (name :: names) (lead ++ (",".toList ++ (gap ++ (name ++ t))))

/-- A list of names, the first of them and more. -/
inductive NameList : List Text → Text → Prop where
  | mk {name t : Text} {names : List Text} (hname : isWordText name = true)
    (ht : MoreNames names t) : NameList (name :: names) (name ++ t)

theorem not_isWord_head_blanks {lead t : Text} (hlead : ∀ c ∈ lead, isBlank c = true)
    (ht : ∀ c ∈ t.head?, isWord c = false) : ∀ c ∈ (lead ++ t).head?, isWord c = false := by
  cases lead with
  | nil => exact ht
  | cons d lead =>
      rintro c ⟨⟩
      exact not_isWord_of_isBlank (hlead d List.mem_cons_self)

/-- In a list of names there are words, blanks and commas. -/
theorem MoreNames.plain {names : List Text} {t : Text} (h : MoreNames names t) :
    ∀ c ∈ t, isWord c = true ∨ isBlank c = true ∨ c = ',' := by
  induction h with
  | nil => exact List.forall_mem_nil _
  | @cons lead gap name t names hlead hgap hname _ ih =>
      intro c hc
      rcases List.mem_append.1 hc with hc | hc
      · exact .inr (.inl (hlead c hc))
      · rcases List.mem_append.1 hc with hc | hc
        · exact .inr (.inr (List.mem_singleton.1 hc))
        · rcases List.mem_append.1 hc with hc | hc
          · exact .inr (.inl (hgap c hc))
          · rcases List.mem_append.1 hc with hc | hc
            · exact .inl ((isWordText_iff.1 hname).2 c hc)
            · exact ih c hc

/-- A list of names has no character but those of words, blanks and commas. -/
theorem NameList.plain {names : List Text} {t : Text} (h : NameList names t) :
    ∀ c ∈ t, isWord c = true ∨ isBlank c = true ∨ c = ',' := by
  obtain ⟨hname, ht⟩ := h
  intro c hc
  rcases List.mem_append.1 hc with hc | hc
  · exact .inl ((isWordText_iff.1 hname).2 c hc)
  · exact ht.plain c hc

theorem NameList.not_mem_equals {names : List Text} {t : Text} (h : NameList names t) :
    '=' ∉ t := by
  intro hmem
  exact absurd (h.plain '=' hmem) (by decide)

/-- One more name, as it is read. -/
theorem takes_nextName {s s' : State} (h : s' ∈ readings nextName s) :
    ∃ lead gap name, (∀ c ∈ lead, isBlank c = true) ∧ (∀ c ∈ gap, isBlank c = true) ∧
      isWordText name = true ∧ Takes s s' (lead ++ (",".toList ++ (gap ++ name))) := by
  unfold nextName at h
  obtain ⟨s₁, hs₁, hword⟩ := mem_readings_seq.1 h
  obtain ⟨s₂, hs₂, hgap⟩ := mem_readings_seq.1 hs₁
  obtain ⟨s₃, hlead, hcomma⟩ := mem_readings_seq.1 hs₂
  obtain ⟨lead, hlead, hleadTaken, -⟩ := takes_run hlead
  obtain ⟨gap, hgap, hgapTaken, -⟩ := takes_run hgap
  obtain ⟨name, hne, hname, hall, rfl⟩ := mem_readings_run1.1 hword
  have hnameTaken : Takes s₁ (s₁.advance name) name := ⟨hname, rfl⟩
  exact ⟨lead, gap, name, hlead, hgap, isWordText_iff.2 ⟨hne, hall⟩,
    hleadTaken.append ((takes_lit hcomma).1.append (hgapTaken.append hnameTaken))⟩

/-- What is read of further names is a list of them. -/
theorem takes_moreNames : ∀ {n : Nat} {s s' : State},
    s' ∈ repeatedReadings (readings nextName) n s →
      ∃ names t, MoreNames names t ∧ Takes s s' t := by
  intro n
  induction n with
  | zero =>
      intro s s' h
      obtain rfl := List.mem_singleton.1 h
      exact ⟨[], [], .nil, List.nil_prefix, rfl⟩
  | succ n ih =>
      intro s s' h
      rw [repeatedReadings] at h
      rcases List.mem_append.1 h with h | h
      · obtain ⟨m, hm, h⟩ := List.mem_flatMap.1 h
        obtain ⟨lead, gap, name, hlead, hgap, hname, hfirst⟩ :=
          takes_nextName (List.mem_filter.1 hm).1
        obtain ⟨names, t, ht, hrest⟩ := ih h
        refine ⟨name :: names, _, .cons hlead hgap hname ht, ?_⟩
        have hall := hfirst.append hrest
        simp only [List.append_assoc] at hall
        exact hall
      · obtain rfl := List.mem_singleton.1 h
        exact ⟨[], [], .nil, List.nil_prefix, rfl⟩

/-- Whatever is read as a list of names is one. -/
theorem takes_nameList {s s' : State} (h : s' ∈ readings nameList s) :
    ∃ names t, NameList names t ∧ Takes s s' t := by
  obtain ⟨m, hm, hmore⟩ := mem_readings_seq.1 h
  obtain ⟨name, hne, hname, hall, rfl⟩ := mem_readings_run1.1 hm
  obtain ⟨names, t, ht, htaken⟩ := takes_moreNames hmore
  have hfirst : Takes s (s.advance name) name := ⟨hname, rfl⟩
  exact ⟨name :: names, name ++ t, .mk (isWordText_iff.2 ⟨hne, hall⟩) ht, hfirst.append htaken⟩

/-- A word can be read as far as it goes. -/
theorem exists_whole_word {name rest : Text} (hname : isWordText name = true) :
    ∃ word after, name ++ rest = word ++ after ∧ isWordText word = true ∧
      ∀ c ∈ after.head?, isWord c = false := by
  obtain ⟨hne, hword⟩ := isWordText_iff.1 hname
  refine ⟨name ++ rest.takeWhile isWord, rest.dropWhile isWord, ?_, ?_, fun c hc => ?_⟩
  · rw [List.append_assoc, List.takeWhile_append_dropWhile]
  · refine isWordText_iff.2 ⟨by simp [hne], fun c hc => ?_⟩
    rcases List.mem_append.1 hc with hc | hc
    · exact hword c hc
    · exact List.mem_takeWhile_imp hc
  · have hfirst := List.head?_dropWhile_not isWord rest
    rw [Option.mem_def.1 hc] at hfirst
    simpa using hfirst

/-- The names that follow are read as far as they go. -/
theorem first_moreNames : ∀ (n : Nat) {s : State},
    (∀ c ∈ s.cursor.rest.head?, isWord c = false) →
      ∃ names t after, MoreNames names t ∧ s.cursor.rest = t ++ after ∧
        (∀ c ∈ after.head?, isWord c = false) ∧
        (repeatedReadings (readings nextName) n s).head? = some (s.advance t) := by
  intro n
  induction n with
  | zero => exact fun {s} hedge => ⟨[], [], s.cursor.rest, .nil, rfl, hedge, rfl⟩
  | succ n ih =>
      intro s hedge
      by_cases hnone : readings nextName s = []
      · exact ⟨[], [], s.cursor.rest, .nil, rfl, hedge, head?_repeatedReadings_nil hnone _⟩
      · obtain ⟨m, hm⟩ := List.exists_mem_of_ne_nil _ hnone
        obtain ⟨lead, gap, name, hlead, hgap, hname, ⟨rest, hrest⟩, -⟩ := takes_nextName hm
        obtain ⟨word, after, hword, hwordText, hedge⟩ := @exists_whole_word name rest hname
        have hs : s.cursor.rest = lead ++ (",".toList ++ (gap ++ (word ++ after))) := by
          rw [← hword, ← hrest]
          simp only [List.append_assoc]
        have hfirst := first_nextName hlead hgap hwordText hs hedge
        have hafter : (s.advance (lead ++ (",".toList ++ (gap ++ word)))).cursor.rest = after := by
          apply rest_advance
          rw [hs]
          simp only [List.append_assoc]
        rw [← hafter] at hedge
        obtain ⟨names, t, after', ht, hsplit, hedge', hlater⟩ := ih hedge
        refine ⟨word :: names, _, after', .cons hlead hgap hwordText ht, ?_, hedge', ?_⟩
        · rw [hs, ← hafter, hsplit]
          simp only [List.append_assoc]
        · have hlt : s.cursor.offset
              < (s.advance (lead ++ (",".toList ++ (gap ++ word)))).cursor.offset := by
            show s.cursor.offset < s.cursor.offset + (lead ++ (",".toList ++ (gap ++ word))).length
            rw [List.length_append, List.length_append, show ",".toList.length = 1 from rfl]
            omega
          have hall := head?_repeatedReadings_cons hfirst hlt hlater
          rw [State.advance_append] at hall
          simp only [List.append_assoc] at hall ⊢
          exact hall

/-- A list of names is read as far as it goes, and then no word goes on. -/
theorem first_nameList_of_mem {s s' : State} (h : s' ∈ readings nameList s) :
    ∃ names t after, NameList names t ∧ s.cursor.rest = t ++ after ∧
      (∀ c ∈ after.head?, isWord c = false) ∧ First nameList s (s.advance t) := by
  obtain ⟨m, hm, -⟩ := mem_readings_seq.1 h
  obtain ⟨name, hne, ⟨rest, hrest⟩, hall, rfl⟩ := mem_readings_run1.1 hm
  have hname : isWordText name = true := isWordText_iff.2 ⟨hne, hall⟩
  obtain ⟨word, after, hword, hwordText, hedge⟩ := @exists_whole_word name rest hname
  obtain ⟨hwordNe, hwordAll⟩ := isWordText_iff.1 hwordText
  have hs : s.cursor.rest = word ++ after := hrest.symm.trans hword
  have hfirst : First Pattern.word s (s.advance word) := first_run1 hs hwordNe hwordAll hedge
  have hafter : (s.advance word).cursor.rest = after := rest_advance hs
  rw [← hafter] at hedge
  obtain ⟨names, t, after', ht, hsplit, hedge', hmore⟩ :=
    first_moreNames (s.advance word).cursor.rest.length hedge
  refine ⟨word :: names, word ++ t, after', .mk hwordText ht, ?_, hedge', ?_⟩
  · rw [hs, ← hafter, hsplit, List.append_assoc]
  · have hmore : First (repeated nextName) (s.advance word) ((s.advance word).advance t) := hmore
    have hlist := first_seq hfirst hmore
    rw [State.advance_append] at hlist
    exact hlist

/-- The names of a list are those that are written in it. -/
theorem namesOf_nameList {names : List Text} {t : Text} (h : NameList names t) :
    namesOf t = names := by
  have htrim : ∀ {name : Text}, isWordText name = true → Trimmed name ∧ ',' ∉ name := by
    intro name hname
    obtain ⟨-, hword⟩ := isWordText_iff.1 hname
    refine ⟨trimmed_of_no_blank fun c hc => not_isBlank_of_isWord (hword c hc), fun hmem => ?_⟩
    exact absurd (hword ',' hmem) (by decide)
  have hcomma : ∀ {b : Text}, (∀ c ∈ b, isBlank c = true) → ',' ∉ b := by
    intro b hb hmem
    exact absurd (hb ',' hmem) (by decide)
  -- The blanks before a name belong to its piece.
  have hlist : ∀ {names : List Text} {before name t : Text}, (∀ c ∈ before, isBlank c = true) →
      isWordText name = true → MoreNames names t →
        namesOf (before ++ (name ++ t)) = name :: names := by
    intro names before name t hbefore hname ht
    induction ht generalizing before name with
    | nil =>
        obtain ⟨htrimmed, hplain⟩ := htrim hname
        have hnone : ',' ∉ before ++ (name ++ []) := by
          rw [List.append_nil, List.mem_append, not_or]
          exact ⟨hcomma hbefore, hplain⟩
        unfold namesOf
        rw [splitOn_of_not_mem hnone]
        exact congrArg ([·]) (htrimmed.trim_around hbefore (List.forall_mem_nil _))
    | @cons lead gap next t names hlead hgap hnext _ ih =>
        obtain ⟨htrimmed, hplain⟩ := htrim hname
        have hnone : ',' ∉ before ++ (name ++ lead) := by
          rw [List.mem_append, List.mem_append, not_or, not_or]
          exact ⟨hcomma hbefore, hplain, hcomma hlead⟩
        have hrest := ih hgap hnext
        unfold namesOf at hrest ⊢
        have htext : before ++ (name ++ (lead ++ (",".toList ++ (gap ++ (next ++ t)))))
            = (before ++ (name ++ lead)) ++ ',' :: (gap ++ (next ++ t)) := by simp
        rw [htext, splitOn_append_cons, splitOn_of_not_mem hnone, List.singleton_append,
          List.map_cons, hrest, htrimmed.trim_around hbefore hlead]
  obtain ⟨hname, ht⟩ := h
  exact hlist (List.forall_mem_nil _) hname ht

/-- A name and the comma after it. -/
def IsNameComma (w : Text) : Prop :=
  ∃ name lead gap, isWordText name = true ∧ (∀ c ∈ lead, isBlank c = true) ∧
    (∀ c ∈ gap, isBlank c = true) ∧ w = name ++ (lead ++ (",".toList ++ gap))

/-- A list of names is cut at a name of it; the last name ends the list, and every other is
followed by a comma. -/
theorem NameList.cut {names : List Text} {t : Text} (h : NameList names t) {name : Text}
    (hmem : name ∈ names) :
    isWordText name = true ∧ ∃ (ws : List Text) (post : Text), (∀ w ∈ ws, IsNameComma w) ∧
      t = ws.flatten ++ (name ++ post) ∧
      (post = [] ∧ name ∉ names.dropLast ∨ ∃ lead rest, (∀ c ∈ lead, isBlank c = true) ∧
        post = lead ++ ',' :: rest) := by
  obtain ⟨hfirst, ht⟩ := h
  rename_i first t names
  induction ht generalizing first with
  | nil =>
      obtain rfl := List.mem_singleton.1 hmem
      exact ⟨hfirst, [], [], List.forall_mem_nil _, rfl, .inl ⟨rfl, List.not_mem_nil⟩⟩
  | @cons lead gap next t names hlead hgap hnext _ ih =>
      by_cases hsame : name = first
      · subst hsame
        exact ⟨hfirst, [], _, List.forall_mem_nil _, rfl, .inr ⟨lead, _, hlead, rfl⟩⟩
      · have hlater : name ∈ next :: names := (List.mem_cons.1 hmem).resolve_left hsame
        obtain ⟨hword, ws, post, hws, hsplit, hpost⟩ := ih hnext hlater
        refine ⟨hword, (first ++ (lead ++ (",".toList ++ gap))) :: ws, post, ?_, ?_, ?_⟩
        · exact List.forall_mem_cons.2 ⟨⟨first, lead, gap, hfirst, hlead, hgap, rfl⟩, hws⟩
        · rw [hsplit]
          simp only [List.flatten_cons, List.append_assoc]
        · refine hpost.imp_left fun hlast => ⟨hlast.1, ?_⟩
          rw [List.dropLast_cons_cons]
          rw [List.mem_cons, not_or]
          exact ⟨hsame, hlast.2⟩

-- ================================================== types and values

/-- How a value is written: after an equals sign, or not at all. -/
inductive WrittenValue : (value written : Text) → Prop where
  | absent : WrittenValue [] []
  | present {gap value : Text} (hne : value ≠ []) (hgap : ∀ c ∈ gap, isBlank c = true) :
    WrittenValue value ('=' :: (gap ++ value))

/-- How the type of a constant is written: a word after blanks, or not at all. -/
inductive WrittenType : (type written : Text) → Prop where
  | absent : WrittenType [] []
  | present {lead type : Text} (hne : lead ≠ []) (hlead : ∀ c ∈ lead, isBlank c = true)
    (htype : type ≠ []) (hword : ∀ c ∈ type, isTypeWord c = true) : WrittenType type (lead ++ type)

/-- What is read at the end of a line is a value or nothing. -/
theorem takes_optionalValue {s s' : State} (h : s' ∈ readings optionalValue s)
    (hline : newline ∉ s.cursor.rest) :
    ∃ value, WrittenValue value s.cursor.rest ∧
      (value = [] ∧ s'.texts = s.texts ∨ s'.texts = (3, value) :: s.texts) := by
  unfold optionalValue at h
  obtain ⟨m, hm, hplace⟩ := mem_readings_seq.1 h
  obtain ⟨hend, rfl⟩ := mem_readings_place.1 hplace
  -- No newline is left over, so the end is that of the text.
  have hempty : s'.cursor.rest = [] := by
    obtain ⟨u, hu⟩ := rest_suffix hm
    unfold Cursor.atEnd at hend
    rw [Bool.or_eq_true, List.isEmpty_iff, beq_iff_eq] at hend
    rcases hend with hend | hend
    · exact hend
    · refine absurd ?_ hline
      rw [← hu, hend]
      simp
  rcases mem_readings_optional.1 hm with hm | rfl
  · simp only [readings_assoc] at hm
    obtain ⟨s₁, hequals, hm⟩ := mem_readings_seq.1 hm
    obtain ⟨s₂, hgap, hvalue⟩ := mem_readings_seq.1 hm
    obtain ⟨hequalsTaken, htexts₁⟩ := takes_lit hequals
    obtain ⟨gap, hgap, hgapTaken, htexts₂⟩ := takes_run hgap
    obtain ⟨value, hne, -, hvalueTaken, htexts₃⟩ := takes_group hvalue
    have hall := hequalsTaken.append (hgapTaken.append hvalueTaken)
    have hrest := Cursor.rest_eq_append hall.ahead
    rw [← hall.cursor, hempty, List.append_nil] at hrest
    refine ⟨value, hrest ▸ .present hne hgap, .inr ?_⟩
    rw [htexts₃, htexts₂, htexts₁]
  · rw [hempty]
    exact ⟨[], .absent, .inl ⟨rfl, rfl⟩⟩

/-- The value that a match remembers is the one that was read last. -/
theorem lookup_value {s : State} {value : Text} {texts : List (Nat × Text)}
    (hnone : texts.lookup 3 = none)
    (h : value = [] ∧ s.texts = texts ∨ s.texts = (3, value) :: texts) :
    (s.texts.lookup 3).getD [] = value ∧
      ∀ index, index ≠ 3 → s.texts.lookup index = texts.lookup index := by
  rcases h with ⟨rfl, h⟩ | h
  · rw [h, hnone]
    exact ⟨rfl, fun _ _ => rfl⟩
  · rw [h]
    refine ⟨rfl, fun index hindex => ?_⟩
    rw [List.lookup_cons, beq_false_of_ne hindex]

/-- The line of a constant: its name, a type and a value. -/
theorem constant_line {code : Text} {m : Match} (hm : constantPattern.matchStart code = some m)
    (hline : newline ∉ code) :
    ∃ type gap value, code = m.group 1 ++ (type ++ (gap ++ value)) ∧
      isWordText (m.group 1) = true ∧ WrittenType (m.group 2) type ∧
      (∀ c ∈ gap, isBlank c = true) ∧ WrittenValue (m.group 3) value := by
  obtain ⟨s, hs, rfl⟩ := exists_reading_of_matchAt hm
  rw [readings_constantPattern] at hs
  unfold constantTail at hs
  obtain ⟨s₁, hfront, hs⟩ := mem_readings_seq.1 hs
  obtain ⟨s₀, hplace, hname⟩ := mem_readings_seq.1 hfront
  obtain ⟨-, rfl⟩ := mem_readings_place.1 hplace
  obtain ⟨name, hne, hword, hnameTaken, htexts₁⟩ := takes_group hname
  obtain ⟨s₂, htype, hs⟩ := mem_readings_seq.1 hs
  obtain ⟨s₃, hgap, hvalue⟩ := mem_readings_seq.1 hs
  obtain ⟨gap, hgap, hgapTaken, htexts₃⟩ := takes_run hgap
  have hwritten : ∃ type written, WrittenType type written ∧ Takes s₁ s₂ written ∧
      s₂.texts.lookup 3 = none ∧ s₂.texts.lookup 1 = some name ∧
      (s₂.texts.lookup 2).getD [] = type := by
    rcases mem_readings_optional.1 htype with htype | rfl
    · obtain ⟨m, hblanks, htype⟩ := mem_readings_seq.1 htype
      obtain ⟨lead, hleadNe, hleadRest, hlead, rfl⟩ := mem_readings_run1.1 hblanks
      obtain ⟨type, htypeNe, hword, htypeTaken, htexts⟩ := takes_group htype
      have hleadTaken : Takes s₁ (s₁.advance lead) lead := ⟨hleadRest, rfl⟩
      refine ⟨type, lead ++ type, .present hleadNe hlead htypeNe hword,
        hleadTaken.append htypeTaken, ?_⟩
      have hsame : (s₁.advance lead).texts = s₁.texts := rfl
      rw [htexts, hsame, htexts₁]
      exact ⟨rfl, rfl, rfl⟩
    · refine ⟨[], [], .absent, ⟨List.nil_prefix, rfl⟩, ?_⟩
      rw [htexts₁]
      exact ⟨rfl, rfl, rfl⟩
  obtain ⟨type, written, htype, htypeTaken, hnone, hfirst, hsecond⟩ := hwritten
  have hall := hnameTaken.append (htypeTaken.append hgapTaken)
  have hrest := Cursor.rest_eq_append hall.ahead
  rw [← hall.cursor] at hrest
  have hrest : code = (name ++ (written ++ gap)) ++ s₃.cursor.rest := hrest
  obtain ⟨value, hvalue, htexts⟩ := takes_optionalValue hvalue fun hmem =>
    hline (hrest ▸ List.mem_append_right _ hmem)
  rw [htexts₃] at htexts
  obtain ⟨hgroup, hothers⟩ := lookup_value hnone htexts
  have h₁ : (Match.ofState (Cursor.start code) s).group 1 = name := by
    rw [group_ofState, hothers 1 (by decide), hfirst]
    rfl
  have h₂ : (Match.ofState (Cursor.start code) s).group 2 = type := by
    rw [group_ofState, hothers 2 (by decide)]
    exact hsecond
  have h₃ : (Match.ofState (Cursor.start code) s).group 3 = value := hgroup
  rw [h₁, h₂, h₃]
  refine ⟨written, gap, _, ?_, isWordText_iff.2 ⟨hne, hword⟩, htype, hgap, hvalue⟩
  conv => lhs; rw [hrest]
  simp only [List.append_assoc]

/-- What is read of the line of variables after the names. -/
theorem takes_variableTail {s s' : State} (h : s' ∈ readings variableTail s)
    (hline : newline ∉ s.cursor.rest) (hnone : s.texts.lookup 3 = none) :
    ∃ lead type gap value written, s.cursor.rest = lead ++ (type ++ (gap ++ written)) ∧
      (∀ c ∈ lead, isBlank c = true) ∧ '=' ∉ type ∧ (∀ c ∈ gap, isBlank c = true) ∧
      WrittenValue value written ∧ s'.texts.lookup 1 = s.texts.lookup 1 ∧
      (s'.texts.lookup 2).getD [] = type ∧ (s'.texts.lookup 3).getD [] = value := by
  unfold variableTail at h
  obtain ⟨s₁, hlead, h⟩ := mem_readings_seq.1 h
  obtain ⟨s₂, htype, h⟩ := mem_readings_seq.1 h
  obtain ⟨s₃, hgap, hvalue⟩ := mem_readings_seq.1 h
  obtain ⟨lead, hlead, hleadTaken, htexts₁⟩ := takes_run hlead
  obtain ⟨type, htype, htypeTaken, htexts₂⟩ := takes_shortGroup htype
  obtain ⟨gap, hgap, hgapTaken, htexts₃⟩ := takes_run hgap
  have hall := hleadTaken.append (htypeTaken.append hgapTaken)
  have hrest := Cursor.rest_eq_append hall.ahead
  rw [← hall.cursor] at hrest
  obtain ⟨value, hvalue, htexts⟩ := takes_optionalValue hvalue fun hmem =>
    hline (hrest ▸ List.mem_append_right _ hmem)
  rw [htexts₃, htexts₂, htexts₁] at htexts
  have hnone : List.lookup 3 ((2, type) :: s.texts) = none := hnone
  obtain ⟨hgroup, hothers⟩ := lookup_value hnone htexts
  refine ⟨lead, type, gap, value, _, ?_, hlead, not_mem_of_except htype, hgap, hvalue,
    hothers 1 (by decide), ?_, hgroup⟩
  · rw [hrest]
    simp only [List.append_assoc]
  · rw [hothers 2 (by decide)]
    rfl

/-- What follows the names is a type and a value as soon as the first equals sign is followed by
something. -/
theorem readsRest_variableTail_of_value {type value written : Text}
    (htype : '=' ∉ type) (hvalue : WrittenValue value written) (hline : newline ∉ written) :
    ReadsRest variableTail (type ++ written) := by
  have htyped : CanRead (group 2 (shortRun (except '='))) type :=
    (canRead_shortRun (except_of_not_mem htype)).group 2
  have hblanks : CanRead blanks [] := canRead_run (List.forall_mem_nil _)
  have hread : ReadsRest optionalValue written := by
    cases hvalue with
    | absent => exact .append (canRead_optional_nil _) readsRest_atEnd
    | @present gap value hne hgap =>
        have hvalue : ∀ c ∈ value, inLine c = true := except_of_not_mem fun hmem =>
          hline (List.mem_cons_of_mem _ (List.mem_append_right gap hmem))
        have hequals : CanRead ("=" ++ blanks ++ group 3 (run1 inLine))
            ("=".toList ++ gap ++ value) :=
          ((canRead_lit _).append (canRead_run hgap)).append (canRead_group 3 hne hvalue)
        have hall : ReadsRest optionalValue (("=".toList ++ gap ++ value) ++ []) :=
          .append hequals.optional readsRest_atEnd
        rw [List.append_nil, List.append_assoc] at hall
        exact hall
  have hall : ReadsRest variableTail ([] ++ (type ++ ([] ++ written))) :=
    .append hblanks (.append htyped (.append hblanks hread))
  exact hall

/-- A list of names holds no equals sign, so it leaves the value to what follows it. -/
theorem exists_tail_of_names {front written t after value : Text} (hfront : '=' ∉ front)
    (ht : '=' ∉ t) (hvalue : WrittenValue value written) (h : t ++ after = front ++ written) :
    ∃ rest, '=' ∉ rest ∧ after = rest ++ written := by
  rcases List.append_eq_append_iff.1 h with ⟨rest, hrest, hafter⟩ | ⟨rest, hrest, hafter⟩
  · refine ⟨rest, fun hmem => hfront ?_, hafter⟩
    rw [hrest]
    exact List.mem_append_right t hmem
  · cases hvalue with
    | absent =>
        obtain ⟨rfl, rfl⟩ := List.append_eq_nil_iff.1 hafter.symm
        exact ⟨[], List.not_mem_nil, rfl⟩
    | present hne hgap =>
        cases rest with
        | nil => exact ⟨[], List.not_mem_nil, hafter.symm⟩
        | cons c rest =>
            injection hafter with hc
            refine absurd ?_ ht
            rw [hrest, ← hc]
            simp

/-- The line of variables: the names, a type and a value. -/
theorem variables_line {code : Text} {m : Match} (hm : variablePattern.matchStart code = some m)
    (hline : newline ∉ code) :
    ∃ names lead gap value, NameList names (m.group 1) ∧
      code = m.group 1 ++ (lead ++ (m.group 2 ++ (gap ++ value))) ∧
      (∀ c ∈ (lead ++ (m.group 2 ++ (gap ++ value))).head?, isWord c = false) ∧
      (∀ c ∈ lead, isBlank c = true) ∧ (∀ c ∈ gap, isBlank c = true) ∧
      WrittenValue (m.group 3) value := by
  let s₀ : State := ⟨Cursor.start code, []⟩
  obtain ⟨s, hs, -⟩ := exists_reading_of_matchAt hm
  rw [readings_variablePattern] at hs
  obtain ⟨s₁, hfront, htail⟩ := mem_readings_seq.1 hs
  obtain ⟨s₀', hplace, hgroup⟩ := mem_readings_seq.1 hfront
  obtain ⟨-, rfl⟩ := mem_readings_place.1 hplace
  obtain ⟨m₁, hnames, rfl⟩ := mem_readings_group.1 hgroup
  -- Some list of names can be read with the rest after it, so the longest one can.
  obtain ⟨names', t', ht', htaken⟩ := takes_nameList hnames
  have hcode : code = t' ++ m₁.cursor.rest := by
    have hrest := Cursor.rest_eq_append htaken.ahead
    rw [← htaken.cursor] at hrest
    exact hrest
  have hremember : (m₁.remember 1 s₀).texts = [(1, t')] := by
    have htexts := texts_remember 1 htaken.ahead htaken.cursor
    rw [texts_of_reading_none rfl hnames] at htexts
    exact htexts
  obtain ⟨lead', type', gap', value', written', hrest', hlead', htype', hgap', hvalue', -⟩ :=
    takes_variableTail htail (fun hmem => hline (hcode ▸ List.mem_append_right t' hmem))
      (by rw [hremember]; rfl)
  obtain ⟨names, t, after, ht, hsplit, hedge, hfirst⟩ := first_nameList_of_mem hnames
  have hsplit : code = t ++ after := hsplit
  have hequals : '=' ∉ t' ++ (lead' ++ (type' ++ gap')) := by
    have hblank : ∀ {b : Text}, (∀ c ∈ b, isBlank c = true) → '=' ∉ b := by
      intro b hb hmem
      exact absurd (hb '=' hmem) (by decide)
    simp only [List.mem_append, not_or]
    exact ⟨ht'.not_mem_equals, hblank hlead', htype', hblank hgap'⟩
  have hwritten : t ++ after = (t' ++ (lead' ++ (type' ++ gap'))) ++ written' := by
    have hrest' : m₁.cursor.rest = lead' ++ (type' ++ (gap' ++ written')) := hrest'
    rw [← hsplit, hcode, hrest']
    simp only [List.append_assoc]
  obtain ⟨rest, hrestEquals, rfl⟩ := exists_tail_of_names hequals ht.not_mem_equals hvalue' hwritten
  have hreads : ReadsRest variableTail (rest ++ written') :=
    readsRest_variableTail_of_value hrestEquals hvalue' fun hmem =>
      hline (hsplit ▸ List.mem_append_right t (List.mem_append_right rest hmem))
  let s₂ : State := (s₀.advance t).remember 1 s₀
  have hs₂ : s₂.cursor.rest = rest ++ written' := rest_advance hsplit
  have htexts₂ : s₂.texts = [(1, t)] :=
    texts_remember 1 ⟨rest ++ written', hsplit.symm⟩ rfl
  have hfront : First (atStart ++ group 1 nameList) s₀ s₂ :=
    first_seq (first_place rfl) (first_group hfirst)
  obtain ⟨s₃, hs₃⟩ := hreads s₂ hs₂
  obtain ⟨s₄, hs₄, hall⟩ := exists_first_seq hfront hs₃
  have hall : First variablePattern s₀ s₄ := by
    unfold First
    rw [readings_variablePattern]
    exact hall
  obtain rfl : Match.ofState (Cursor.start code) s₄ = m :=
    Option.some.inj ((matchAt_of_first hall).symm.trans hm)
  obtain ⟨lead, type, gap, value, written, hrest, hlead, -, hgap, hvalue, h₁, h₂, h₃⟩ :=
    takes_variableTail hs₄ (fun hmem => hline (hsplit ▸ List.mem_append_right t (hs₂ ▸ hmem)))
      (by rw [htexts₂]; rfl)
  have hgroup₁ : (Match.ofState (Cursor.start code) s₄).group 1 = t := by
    rw [group_ofState, h₁, htexts₂]
    rfl
  have hgroup₂ : (Match.ofState (Cursor.start code) s₄).group 2 = type := h₂
  have hgroup₃ : (Match.ofState (Cursor.start code) s₄).group 3 = value := h₃
  rw [hs₂] at hrest
  rw [hgroup₁, hgroup₂, hgroup₃]
  refine ⟨names, lead, gap, written, ht, ?_, ?_, hlead, hgap, hvalue⟩
  · rw [hsplit, hrest]
  · rw [← hrest]
    exact hedge

end GoSurvey.Declaration
