/-
Squeezed text. Squeezing acts on each run of blanks by itself, so a text
may be squeezed in pieces wherever it is cut at something that is no
blank (`squeeze_append_cons`), and what is no blank stays in its order.
Trimming and squeezing may change places (`trim_squeeze`).
-/
import GoSurvey.Proofs.Source.Inline
import GoSurvey.Proofs.Text.Part

namespace GoSurvey.Text

variable {c d : Char} {t u : Text}

-- ============================================== one character at a time

theorem squeeze_cons (hc : isBlank c = false) : squeeze (c :: t) = c :: squeeze t := by
  rw [squeeze.eq_def]
  dsimp only
  rw [hc, if_neg Bool.false_ne_true]

/-- Of two blanks in a row one is left out. -/
theorem squeeze_blank_blank (hc : isBlank c = true) (hd : isBlank d = true) :
    squeeze (c :: d :: t) = squeeze (d :: t) := by
  rw [squeeze.eq_def]
  dsimp only
  rw [if_pos hc, if_pos hd]

/-- The last of a run of blanks becomes a space. -/
theorem squeeze_blank (hc : isBlank c = true) (ht : ∀ d ∈ t.head?, isBlank d = false) :
    squeeze (c :: t) = ' ' :: squeeze t := by
  rw [squeeze.eq_def]
  dsimp only
  rw [if_pos hc]
  cases t with
  | nil => rfl
  | cons d t =>
      dsimp only
      rw [ht d rfl, if_neg Bool.false_ne_true]

/-- A text is empty, or it begins with no blank, with the last of a run of blanks, or with a blank
before another. -/
@[elab_as_elim]
theorem squeeze_induction {P : Text → Prop} (nil : P [])
    (plain : ∀ c t, isBlank c = false → P t → P (c :: t))
    (last : ∀ c t, isBlank c = true → (∀ d ∈ t.head?, isBlank d = false) → P t → P (c :: t))
    (more : ∀ c d t, isBlank c = true → isBlank d = true → P (d :: t) → P (c :: d :: t)) :
    ∀ t, P t := by
  intro t
  induction t with
  | nil => exact nil
  | cons c t ih =>
      cases hc : isBlank c with
      | false => exact plain c t hc ih
      | true =>
          cases t with
          | nil => exact last c [] hc (fun d hd => by cases hd) ih
          | cons d t =>
              cases hd : isBlank d with
              | true => exact more c d t hc hd ih
              | false =>
                  refine last c (d :: t) hc (fun e he => ?_) ih
                  obtain rfl : d = e := Option.some.inj he
                  exact hd

-- ================================================================ cuts

/-- Squeezing goes on by itself after something that is no blank. -/
theorem squeeze_append_cons (hc : isBlank c = false) (t u : Text) :
    squeeze (t ++ c :: u) = squeeze t ++ c :: squeeze u := by
  induction t using squeeze_induction with
  | nil => exact squeeze_cons hc
  | plain e t he ih => rw [List.cons_append, squeeze_cons he, squeeze_cons he, ih]; rfl
  | last e t he ht ih =>
      have hhead : ∀ f ∈ (t ++ c :: u).head?, isBlank f = false := by
        intro f hf
        cases t with
        | nil =>
            obtain rfl : c = f := Option.some.inj hf
            exact hc
        | cons g t => exact ht f hf
      rw [List.cons_append, squeeze_blank he hhead, squeeze_blank he ht, ih]
      rfl
  | more e f t he hf ih =>
      rw [List.cons_append, List.cons_append, squeeze_blank_blank he hf,
        squeeze_blank_blank he hf]
      exact ih

theorem exists_squeeze_blank (hc : isBlank c = true) (t : Text) :
    ∃ u, squeeze (c :: t) = ' ' :: u := by
  induction t generalizing c with
  | nil => exact ⟨[], squeeze_blank hc (by simp)⟩
  | cons d t ih =>
      cases hd : isBlank d with
      | true =>
          rw [squeeze_blank_blank hc hd]
          exact ih hd
      | false =>
          refine ⟨squeeze (d :: t), squeeze_blank hc fun e he => ?_⟩
          obtain rfl : d = e := Option.some.inj he
          exact hd

/-- What is no blank is neither left out nor put in. -/
theorem mem_squeeze (hc : isBlank c = false) : c ∈ squeeze t ↔ c ∈ t := by
  have hspace : isBlank ' ' = true := by decide
  have hne : ∀ {e : Char}, isBlank e = true → c ≠ e := by
    intro e he h
    rw [h, he] at hc
    cases hc
  induction t using squeeze_induction with
  | nil => exact Iff.rfl
  | plain e t he ih =>
      rw [squeeze_cons he, List.mem_cons, List.mem_cons]
      exact or_congr_right ih
  | last e t he ht ih =>
      rw [squeeze_blank he ht, List.mem_cons, List.mem_cons, or_iff_right (hne hspace),
        or_iff_right (hne he)]
      exact ih
  | more e f t he hf ih =>
      rw [squeeze_blank_blank he hf]
      refine Iff.trans ih ?_
      rw [List.mem_cons (b := e), or_iff_right (hne he)]

theorem squeeze_eq_nil : squeeze t = [] ↔ t = [] := by
  refine ⟨fun h => ?_, fun h => by rw [h]; rfl⟩
  induction t using squeeze_induction with
  | nil => rfl
  | plain e t he =>
      rw [squeeze_cons he] at h
      cases h
  | last e t he ht =>
      rw [squeeze_blank he ht] at h
      cases h
  | more e f t he hf ih =>
      rw [squeeze_blank_blank he hf] at h
      cases ih h

/-- Nothing but blanks is squeezed to nothing but blanks. -/
theorem isBlank_of_mem_squeeze (ht : ∀ c ∈ t, isBlank c = true) :
    ∀ c ∈ squeeze t, isBlank c = true := by
  intro c hc
  cases hblank : isBlank c with
  | true => rfl
  | false =>
      have hmem := ht c ((mem_squeeze hblank).1 hc)
      rw [hblank] at hmem
      cases hmem

/-- Squeezing begins anew at something that is no blank. -/
theorem squeeze_append (hu : ∀ c ∈ u.head?, isBlank c = false) :
    squeeze (t ++ u) = squeeze t ++ squeeze u := by
  cases u with
  | nil => rw [List.append_nil]; exact (List.append_nil _).symm
  | cons c u => rw [squeeze_append_cons (hu c rfl), squeeze_cons (hu c rfl)]

/-- Of blanks in a row that are followed by another one, nothing is left. -/
theorem squeeze_append_blanks {gap : Text} (hgap : ∀ c ∈ gap, isBlank c = true)
    (hc : isBlank c = true) (t u : Text) :
    squeeze (t ++ (gap ++ c :: u)) = squeeze (t ++ c :: u) := by
  have hstart : squeeze (gap ++ c :: u) = squeeze (c :: u) := by
    induction gap with
    | nil => rfl
    | cons g gap ih =>
        rw [List.forall_mem_cons] at hgap
        cases gap with
        | nil => exact squeeze_blank_blank hgap.1 hc
        | cons g' gap => exact (squeeze_blank_blank hgap.1 (hgap.2 g' (by simp))).trans (ih hgap.2)
  induction t using squeeze_induction with
  | nil => exact hstart
  | plain e t he ih =>
      rw [List.cons_append, List.cons_append, squeeze_cons he, squeeze_cons he, ih]
  | last e t he ht ih =>
      cases t with
      | cons f t =>
          have hf : ∀ v : Text, ∀ d ∈ (f :: t ++ v).head?, isBlank d = false :=
            fun v d hd => ht d hd
          show squeeze (e :: (f :: t ++ (gap ++ c :: u))) = squeeze (e :: (f :: t ++ c :: u))
          rw [squeeze_blank he (hf _), squeeze_blank he (hf _), ih]
      | nil =>
          have hlast : squeeze (e :: c :: u) = squeeze (c :: u) := squeeze_blank_blank he hc
          refine Eq.trans ?_ hlast.symm
          cases gap with
          | nil => exact hlast
          | cons g gap => exact (squeeze_blank_blank he (hgap g (by simp))).trans hstart
  | more e f t he hf ih =>
      exact (squeeze_blank_blank he hf).trans (ih.trans (squeeze_blank_blank he hf).symm)

/-- Without blanks there is nothing to squeeze. -/
theorem squeeze_append_of_no_blank (h : ∀ c ∈ t, isBlank c = false) (u : Text) :
    squeeze (t ++ u) = t ++ squeeze u := by
  induction t with
  | nil => rfl
  | cons c t ih =>
      rw [List.cons_append, squeeze_cons (h c List.mem_cons_self),
        ih fun d hd => h d (List.mem_cons_of_mem c hd)]
      rfl

/-- A text without blanks can only have been squeezed from itself. -/
theorem squeeze_eq_self (h : ∀ c ∈ squeeze t, isBlank c = false) : squeeze t = t := by
  induction t using squeeze_induction with
  | nil => rfl
  | plain c t hc ih =>
      rw [squeeze_cons hc] at h ⊢
      rw [ih fun d hd => h d (List.mem_cons_of_mem c hd)]
  | last c t hc ht =>
      rw [squeeze_blank hc ht] at h
      exact absurd (h ' ' List.mem_cons_self) (by decide)
  | more c d t hc hd =>
      obtain ⟨u, hu⟩ := exists_squeeze_blank hd t
      rw [squeeze_blank_blank hc hd, hu] at h
      exact absurd (h ' ' List.mem_cons_self) (by decide)

/-- What stands before the first of a character that is no blank is squeezed by itself. -/
theorem takeWhile_squeeze (hc : isBlank c = false) (t : Text) :
    (squeeze t).takeWhile (· != c) = squeeze (t.takeWhile (· != c)) := by
  by_cases hmem : c ∈ t
  · obtain ⟨v, w, rfl, hv⟩ := List.eq_append_cons_of_mem hmem
    have hplain : ∀ {v : Text}, c ∉ v → ∀ d ∈ v, (d != c) = true := by
      intro v hv d hd
      refine bne_iff_ne.2 ?_
      rintro rfl
      exact hv hd
    rw [squeeze_append_cons hc,
      List.takeWhile_append_of_pos (hplain fun h => hv ((mem_squeeze hc).1 h)),
      List.takeWhile_append_of_pos (hplain hv), List.takeWhile_cons_of_neg (by simp),
      List.takeWhile_cons_of_neg (by simp), List.append_nil, List.append_nil]
  · have hall : ∀ {v : Text}, c ∉ v → v.takeWhile (· != c) = v := by
      intro v hv
      refine List.takeWhile_eq_self_iff.2 fun d hd => bne_iff_ne.2 ?_
      rintro rfl
      exact hv hd
    rw [hall hmem, hall fun h => hmem ((mem_squeeze hc).1 h)]

end GoSurvey.Text

namespace GoSurvey.Source

open Text

-- =============================================================== trims

theorem trim_of_isBlank {t : Text} (h : ∀ c ∈ t, isBlank c = true) : trim t = [] := by
  have hnone : t.dropWhile isBlank = [] := List.dropWhile_eq_nil_iff.2 h
  unfold trim stripWhile
  rw [hnone]
  rfl

/-- A trimmed text begins with the first character that is no blank. -/
theorem head?_trim (t : Text) : (trim t).head? = (t.dropWhile isBlank).head? := by
  have hfirst := List.head?_dropWhile_not isBlank t
  unfold trim stripWhile
  cases hdrop : t.dropWhile isBlank with
  | nil => rfl
  | cons c u =>
      rw [hdrop] at hfirst
      have hc : isBlank c = false := by simpa using hfirst
      rw [dropEndWhile_cons hc]
      rfl

theorem trimmed_trim (t : Text) : Trimmed (trim t) := by
  refine ⟨fun c hc => ?_, getLast?_dropEndWhile⟩
  have hfirst := List.head?_dropWhile_not isBlank t
  rw [← head?_trim, Option.mem_def.1 hc] at hfirst
  simpa using hfirst

/-- Trimming takes away the blanks around a trimmed text. -/
theorem Trimmed.trim_around {lead t trail : Text} (h : Trimmed t)
    (hlead : ∀ c ∈ lead, isBlank c = true) (htrail : ∀ c ∈ trail, isBlank c = true) :
    trim (lead ++ (t ++ trail)) = t := by
  cases t with
  | nil =>
      refine trim_of_isBlank fun c hc => ?_
      exact (List.mem_append.1 hc).elim (hlead c) (htrail c)
  | cons c t =>
      have hstart : (lead ++ (c :: t ++ trail)).dropWhile isBlank
          = (c :: t ++ trail).dropWhile isBlank := List.dropWhile_append_of_pos hlead
      have hend := dropEndWhile_eq_self h.last
      unfold dropEndWhile at hend
      have hback : ∀ d ∈ trail.reverse, isBlank d = true := fun d hd =>
        htrail d (List.mem_reverse.1 hd)
      unfold trim stripWhile dropEndWhile
      rw [hstart, List.cons_append, List.dropWhile_cons_of_neg (by simp [h.first c rfl]),
        ← List.cons_append, List.reverse_append, List.dropWhile_append_of_pos hback, hend]

/-- Blanks at the end are trimmed away, whatever else is. -/
theorem trim_append_blanks (t : Text) {trail : Text} (htrail : ∀ c ∈ trail, isBlank c = true) :
    trim (t ++ trail) = trim t := by
  obtain ⟨lead, trail', ht, hlead, htrail'⟩ := exists_trim_eq t
  have hblank : ∀ c ∈ trail' ++ trail, isBlank c = true := fun c hc =>
    (List.mem_append.1 hc).elim (htrail' c) (htrail c)
  have haround := (trimmed_trim t).trim_around hlead hblank
  rw [← List.append_assoc (trim t), ← List.append_assoc lead, ← ht] at haround
  exact haround

theorem trim_blanks_append {lead : Text} (hlead : ∀ c ∈ lead, isBlank c = true) (t : Text) :
    trim (lead ++ t) = trim t := by
  unfold trim stripWhile
  rw [List.dropWhile_append_of_pos hlead]

/-- What stands before a character that is no blank is found in the trimmed text as well. -/
theorem trim_takeWhile_trim {c : Char} (hc : isBlank c = false) (t : Text) :
    trim ((trim t).takeWhile (· != c)) = trim (t.takeWhile (· != c)) := by
  obtain ⟨lead, trail, ht, hlead, htrail⟩ := exists_trim_eq t
  have hplain : ∀ {v : Text}, (∀ d ∈ v, isBlank d = true) → ∀ d ∈ v, (d != c) = true := by
    intro v hv d hd
    refine bne_iff_ne.2 ?_
    rintro rfl
    rw [hv d hd] at hc
    cases hc
  conv => rhs; rw [ht]
  rw [List.takeWhile_append_of_pos (hplain hlead), trim_blanks_append hlead, List.takeWhile_append]
  split
  · next hlength =>
    rw [(List.takeWhile_prefix _).eq_of_length hlength,
      List.takeWhile_eq_self_iff.2 (hplain htrail), trim_append_blanks _ htrail]
  · rfl

/-- A trimmed text is squeezed apart from what follows it. -/
theorem Trimmed.squeeze_append {t : Text} (h : Trimmed t) (u : Text) :
    squeeze (t ++ u) = squeeze t ++ squeeze u := by
  rcases List.eq_nil_or_concat' t with rfl | ⟨init, c, rfl⟩
  · rfl
  · have hc : isBlank c = false := h.last c List.getLast?_concat
    rw [List.append_assoc, List.singleton_append, squeeze_append_cons hc, squeeze_append_cons hc,
      List.append_assoc]
    rfl

/-- A trimmed text keeps its first character and its last. -/
theorem Trimmed.head?_squeeze {t : Text} (h : Trimmed t) : (squeeze t).head? = t.head? := by
  cases t with
  | nil => rfl
  | cons c t =>
      rw [squeeze_cons (h.first c rfl)]
      rfl

theorem Trimmed.getLast?_squeeze {t : Text} (h : Trimmed t) :
    (squeeze t).getLast? = t.getLast? := by
  rcases List.eq_nil_or_concat' t with rfl | ⟨init, c, rfl⟩
  · rfl
  · rw [squeeze_append_cons (h.last c List.getLast?_concat), List.getLast?_concat]
    exact List.getLast?_concat

theorem Trimmed.squeeze {t : Text} (h : Trimmed t) : Trimmed (squeeze t) :=
  ⟨fun c hc => h.first c (h.head?_squeeze ▸ hc), fun c hc => h.last c (h.getLast?_squeeze ▸ hc)⟩

theorem trim_squeeze (t : Text) : trim (squeeze t) = squeeze (trim t) := by
  obtain ⟨lead, trail, ht, hlead, htrail⟩ := exists_trim_eq t
  have htrimmed := trimmed_trim t
  have hsplit : squeeze t = squeeze lead ++ (squeeze (trim t) ++ squeeze trail)
      ∨ trim t = [] := by
    cases hcore : trim t with
    | nil => exact .inr rfl
    | cons c core =>
        rw [hcore] at htrimmed ht
        have hc := htrimmed.first c rfl
        refine .inl ?_
        have hsqueezed := htrimmed.squeeze_append trail
        rw [List.cons_append, squeeze_cons hc] at hsqueezed
        rw [ht, List.cons_append, squeeze_append_cons hc, hsqueezed]
  rcases hsplit with hsplit | hnil
  · rw [hsplit]
    exact htrimmed.squeeze.trim_around (isBlank_of_mem_squeeze hlead)
      (isBlank_of_mem_squeeze htrail)
  · have hblank : ∀ c ∈ t, isBlank c = true := by
      intro c hc
      rw [ht, hnil, List.nil_append] at hc
      exact (List.mem_append.1 hc).elim (hlead c) (htrail c)
    rw [hnil, trim_of_isBlank (isBlank_of_mem_squeeze hblank)]
    rfl

end GoSurvey.Source
