/-
Scans and cuts of squeezed text. A blank that is no newline changes
nothing for a scan of delimiters, and nothing for the cuts at top-level
separators, so both find in a squeezed text what they find in the text
itself: the same group, squeezed (`findMatching?_squeeze`), and the same
parts, squeezed (`splitTopLevel_squeeze`).
-/
import GoSurvey.Proofs.Source.Block
import GoSurvey.Proofs.Source.Split

namespace GoSurvey.Source

open Text DelimiterScan

-- ================================================================ cuts

section Cuts

variable {sep c : Char} {depth : Int} {quote previous previous' : Option Char} {t : Text}

theorem not_isQuote_of_isBlank (hc : isBlank c = true) : isQuote c = false := by
  cases hquote : isQuote c with
  | false => rfl
  | true =>
      simp only [isQuote, Bool.or_eq_true, beq_iff_eq] at hquote
      rcases hquote with (rfl | rfl) | rfl <;> exact absurd hc (by decide)

/-- A blank opens and closes nothing. -/
theorem cutStep_blank_snd (hquote : ∀ q ∈ quote, isQuote q = true) (hc : isBlank c = true) :
    (cutStep sep depth quote previous c).2 = (depth, quote) := by
  have hne : ∀ {d : Char}, isBlank d = false → c ≠ d := by
    rintro d hd rfl
    rw [hc] at hd
    cases hd
  unfold cutStep
  cases quote with
  | some q =>
      have hq : c ≠ q := by
        rintro rfl
        have hmark := hquote c rfl
        rw [not_isQuote_of_isBlank hc] at hmark
        cases hmark
      dsimp only
      rw [decide_eq_false hq]
      rfl
  | none =>
      have hopen : isOpening c = false := by
        simp [isOpening, hne (show isBlank '(' = false by decide),
          hne (show isBlank '[' = false by decide), hne (show isBlank '{' = false by decide)]
      have hclose : isClosing c = false := by
        simp [isClosing, hne (show isBlank ')' = false by decide),
          hne (show isBlank ']' = false by decide), hne (show isBlank '}' = false by decide)]
      dsimp only
      rw [not_isQuote_of_isBlank hc, hopen, hclose]
      rfl

/-- A blank is none of the marks of a list. -/
theorem cutStep_blank (hsep : isBlank sep = false) (hquote : ∀ q ∈ quote, isQuote q = true)
    (hc : isBlank c = true) : cutStep sep depth quote previous c = (false, depth, quote) := by
  have hcut : (cutStep sep depth quote previous c).1 = false := by
    refine Bool.eq_false_iff.2 fun hcut => ?_
    rw [eq_sep_of_cut hcut, hsep] at hc
    cases hc
  exact Prod.ext hcut (cutStep_blank_snd hquote hc)

/-- Of the character before it matters whether it is a backslash. -/
theorem cutStep_previous (h : previous = some backslash ↔ previous' = some backslash) :
    cutStep sep depth quote previous' c = cutStep sep depth quote previous c := by
  unfold cutStep
  simp only [ne_eq, h]

/-- The first piece begins as the text does, if it is not empty. -/
theorem head?_first {first : Text} {more : List Text}
    (h : piecesFrom sep depth quote previous t = first :: more) :
    ∀ d ∈ first.head?, d ∈ t.head? := by
  cases t with
  | nil =>
      obtain rfl : [] = first := (List.cons.inj h).1
      simp
  | cons c t =>
      rw [piecesFrom_cons] at h
      split at h
      · obtain rfl : [] = first := (List.cons.inj h).1
        simp
      · cases hrest : piecesFrom sep (cutStep sep depth quote previous c).2.1
            (cutStep sep depth quote previous c).2.2 (some c) t with
        | nil => exact absurd hrest (piecesFrom_ne_nil _ _ _ _ _)
        | cons piece pieces =>
            rw [hrest] at h
            obtain rfl : c :: piece = first := (List.cons.inj h).1
            exact fun d hd => hd

/-- A blank is put before the first piece. -/
theorem piecesFrom_blank (hsep : isBlank sep = false) (hquote : ∀ q ∈ quote, isQuote q = true)
    (hc : isBlank c = true) : piecesFrom sep depth quote previous (c :: t)
      = extendFirst c (piecesFrom sep depth quote (some c) t) := by
  rw [piecesFrom_cons, cutStep_blank hsep hquote hc, if_neg Bool.false_ne_true]

/-- The pieces of a squeezed text are squeezed. -/
theorem piecesFrom_squeeze (hsep : isBlank sep = false) (hquote : ∀ q ∈ quote, isQuote q = true)
    (hprevious : previous = some backslash ↔ previous' = some backslash) :
    piecesFrom sep depth quote previous' (squeeze t)
      = (piecesFrom sep depth quote previous t).map squeeze := by
  have hnot : ∀ {e : Char}, isBlank e = true → some e ≠ some backslash := by
    intro e he h
    rw [Option.some.inj h] at he
    exact absurd he (by decide)
  have hspace : isBlank ' ' = true := by decide
  induction t using squeeze_induction generalizing depth quote previous previous' with
  | nil => rfl
  | plain c t hc ih =>
      have hrest := @ih (cutStep sep depth quote previous c).2.1 _ (some c) (some c)
        (isQuote_of_cutStep sep depth previous c hquote) Iff.rfl
      rw [squeeze_cons hc, piecesFrom_cons, piecesFrom_cons, cutStep_previous hprevious, hrest]
      split
      · rfl
      · cases hpieces : piecesFrom sep (cutStep sep depth quote previous c).2.1
            (cutStep sep depth quote previous c).2.2 (some c) t with
        | nil => exact absurd hpieces (piecesFrom_ne_nil _ _ _ _ _)
        | cons piece pieces => exact congrArg (· :: _) (squeeze_cons hc).symm
  | last c t hc ht ih =>
      have hrest := @ih depth _ (some c) (some ' ') hquote (by simp only [hnot hc, hnot hspace])
      rw [squeeze_blank hc ht, piecesFrom_blank hsep hquote hspace, piecesFrom_blank hsep hquote hc,
        hrest]
      cases hpieces : piecesFrom sep depth quote (some c) t with
      | nil => exact absurd hpieces (piecesFrom_ne_nil _ _ _ _ _)
      | cons piece pieces =>
          have hhead : ∀ d ∈ piece.head?, isBlank d = false := fun d hd =>
            ht d (head?_first hpieces d hd)
          exact congrArg (· :: _) (squeeze_blank hc hhead).symm
  | more c d t hc hd ih =>
      have hrest := @ih depth _ (some c) (some c) hquote Iff.rfl
      -- What stands before a blank does not matter.
      have hfree : piecesFrom sep depth quote previous' (squeeze (d :: t))
          = piecesFrom sep depth quote (some c) (squeeze (d :: t)) := by
        obtain ⟨u, hu⟩ := exists_squeeze_blank hd t
        rw [hu, piecesFrom_blank hsep hquote hspace, piecesFrom_blank hsep hquote hspace]
      rw [squeeze_blank_blank hc hd, hfree, hrest, piecesFrom_blank hsep hquote hc,
        piecesFrom_blank hsep hquote hd]
      cases hpieces : piecesFrom sep depth quote (some d) t with
      | nil => exact absurd hpieces (piecesFrom_ne_nil _ _ _ _ _)
      | cons piece pieces => exact congrArg (· :: _) (squeeze_blank_blank hc hd).symm

theorem keptParts_squeeze (pieces : List Text) :
    keptParts (pieces.map squeeze) = (keptParts pieces).map squeeze := by
  induction pieces with
  | nil => rfl
  | cons piece pieces ih =>
      rw [List.map_cons, keptParts_cons, keptParts_cons, trim_squeeze, ih]
      by_cases hpiece : trim piece = []
      · rw [if_pos (squeeze_eq_nil.2 hpiece), if_pos hpiece]
      · rw [if_neg fun h => hpiece (squeeze_eq_nil.1 h), if_neg hpiece]
        rfl

/-- The parts of a squeezed list are squeezed. -/
theorem splitTopLevel_squeeze (hsep : isBlank sep = false) (t : Text) :
    splitTopLevel sep (squeeze t) = (splitTopLevel sep t).map squeeze := by
  rw [splitTopLevel_eq, splitTopLevel_eq, ← keptParts_squeeze,
    piecesFrom_squeeze hsep (by simp) Iff.rfl]

theorem piecesFrom_of_isBlank (hsep : isBlank sep = false)
    (hquote : ∀ q ∈ quote, isQuote q = true) (ht : ∀ c ∈ t, isBlank c = true) :
    piecesFrom sep depth quote previous t = [t] := by
  induction t generalizing previous with
  | nil => rfl
  | cons c t ih =>
      rw [piecesFrom_blank hsep hquote (ht c List.mem_cons_self),
        ih fun d hd => ht d (List.mem_cons_of_mem c hd)]
      rfl

theorem keptParts_blank (hc : isBlank c = true) (pieces : List Text) :
    keptParts (extendFirst c pieces) = keptParts pieces := by
  cases pieces with
  | nil => rw [extendFirst, keptParts_cons, trim_of_isBlank (by simpa using hc), if_pos rfl]
  | cons piece pieces =>
      rw [extendFirst, keptParts_cons, keptParts_cons, trim_cons_of_isBlank hc]

/-- Blanks around a list make no difference. -/
theorem splitTopLevel_trim (hsep : isBlank sep = false) (t : Text) :
    splitTopLevel sep (trim t) = splitTopLevel sep t := by
  obtain ⟨lead, trail, ht, hlead, htrail⟩ := exists_trim_eq t
  have hbefore : ∀ u : Text, splitTopLevel sep (lead ++ u) = splitTopLevel sep u := by
    intro u
    clear ht
    induction lead with
    | nil => rfl
    | cons c lead ih =>
        have hc := hlead c List.mem_cons_self
        rw [← ih fun d hd => hlead d (List.mem_cons_of_mem c hd), splitTopLevel_eq,
          splitTopLevel_eq, List.cons_append, piecesFrom_blank hsep (by simp) hc,
          piecesFrom_previous none, keptParts_blank hc]
  obtain ⟨init, last, depth, quote, previous, first, more, hcore, hfirst, hall, hquote⟩ :=
    piecesFrom_append sep 0 none none (trim t) trail
  rw [piecesFrom_of_isBlank hsep (hquote (by simp)) htrail] at hfirst
  injection hfirst with hfirst hmore
  subst hfirst
  subst hmore
  have hlast := trim_append_blanks last htrail
  conv => rhs; rw [ht]
  rw [hbefore, splitTopLevel_eq, splitTopLevel_eq, hall, hcore, keptParts_append, keptParts_append,
    keptParts_cons, keptParts_cons, hlast]

end Cuts

-- =============================================================== scans

section Scans

variable {d : Delimiters} {s s' : DelimiterScan} {t : Text}

/-- A scan without the place of its first opener. -/
def DelimiterScan.forget (s : DelimiterScan) : DelimiterScan := { s with openedAt := none }

/-- A step without the place of the first opener. -/
def DelimiterScan.Step.forget : Step → Step
  | .next s => .next s.forget
  | .afterNext s => .afterNext s.forget
  | .closed s => .closed s.forget

/-- Steps that differ in the place of the first opener alone go on in the same way. -/
theorem DelimiterScan.Step.forget_cases {u u' : Step} (h : u.forget = u'.forget) :
    (∃ s s', u = .next s ∧ u' = .next s' ∧ s.forget = s'.forget) ∨
      (∃ s s', u = .afterNext s ∧ u' = .afterNext s' ∧ s.forget = s'.forget) ∨
      ∃ s s', u = .closed s ∧ u' = .closed s' := by
  cases u with
  | next s =>
      cases u' with
      | next s' => exact .inl ⟨s, s', rfl, rfl, Step.next.inj h⟩
      | afterNext s' => cases h
      | closed s' => cases h
  | afterNext s =>
      cases u' with
      | next s' => cases h
      | afterNext s' => exact .inr (.inl ⟨s, s', rfl, rfl, Step.afterNext.inj h⟩)
      | closed s' => cases h
  | closed s =>
      cases u' with
      | next s' => cases h
      | afterNext s' => cases h
      | closed s' => exact .inr (.inr ⟨s, s', rfl, rfl⟩)

/-- Whether two texts make the same marks with what stands before them. -/
def MarkAlike (rest rest' : Text) : Prop :=
  ∀ m, isBlank m = false → (rest.head? = some m ↔ rest'.head? = some m)

/-- Neither the place of a character matters nor that of the first opener, and of what follows the
marks alone. -/
theorem step_forget (h : s.forget = s'.forget) (offset offset' : Nat) (c : Char)
    {rest rest' : Text} (hrest : MarkAlike rest rest') :
    (step d s offset c rest).forget = (step d s' offset' c rest').forget := by
  obtain ⟨region, depth, openedAt⟩ := s
  obtain ⟨region', depth', openedAt'⟩ := s'
  injection h with hregion hdepth
  subst hregion
  subst hdepth
  have heffect : effect d region depth c rest.head? = effect d region depth c rest'.head? :=
    effect_congr (hrest '/' (by decide)) (hrest '*' (by decide)) region depth c
  rw [step_eq, step_eq, heffect]
  cases effect d region depth c rest'.head? <;> rfl

/-- A blank that is no newline is passed over and changes nothing. -/
theorem step_blank (hregion : ∀ q, s.region = .literal q → isQuote q = true)
    (hd : isBlank d.opener = false ∧ isBlank d.closer = false) {c : Char} (hc : isBlank c = true)
    (hnewline : c ≠ newline) (offset : Nat) (rest : Text) :
    step d s offset c rest = .next s := by
  have hne : ∀ {e : Char}, isBlank e = false → c ≠ e := by
    rintro e he rfl
    rw [hc] at he
    cases he
  obtain ⟨region, depth, openedAt⟩ := s
  cases region with
  | lineComment => simp only [step, if_neg hnewline]
  | blockComment => simp only [step, hne (show isBlank '*' = false by decide), false_and, if_false]
  | literal quote =>
      have hquote : c ≠ quote := by
        rintro rfl
        have hmark := hregion c rfl
        rw [not_isQuote_of_isBlank hc] at hmark
        cases hmark
      simp only [step, hne (show isBlank backslash = false by decide), hquote, hnewline, false_and,
        or_false, if_false]
  | code =>
      simp only [step, hne (show isBlank '/' = false by decide), hne hd.1, hne hd.2,
        not_isQuote_of_isBlank hc, false_and, if_false, Bool.false_eq_true]

/-- The literal that a scan is in is one that a quote has begun. -/
def Quoted (s : DelimiterScan) : Prop := ∀ q, s.region = .literal q → isQuote q = true

theorem Quoted.of_forget (h : Quoted s) (hs : s.forget = s'.forget) : Quoted s' := by
  intro q hq
  have hregion : s.region = s'.region := (DelimiterScan.mk.inj hs).1
  exact h q (hregion.trans hq)

theorem step_quoted (h : Quoted s) (offset : Nat) (c : Char) (rest : Text) :
    Quoted (step d s offset c rest).scan := by
  have hcode : ∀ {depth : Nat} {openedAt : Option Nat}, Quoted ⟨.code, depth, openedAt⟩ :=
    fun _ hq => Region.noConfusion hq
  rw [step_eq]
  cases heffect : effect d s.region s.depth c rest.head? with
  | enters region =>
      rintro q rfl
      exact (of_effect_eq_literal (.inl heffect)).elim (h q) id
  | marks region =>
      rintro q rfl
      exact (of_effect_eq_literal (.inr heffect)).elim (h q) id
  | _ => exact hcode

/-- Up to something that is there in both, a squeezed text makes the marks that the text makes. -/
theorem markAlike_squeeze (t : Text) (y : Char) (post post' : Text) :
    MarkAlike (t ++ y :: post) (squeeze t ++ y :: post') := by
  intro m hm
  have hne : ∀ {e : Char}, isBlank e = true → e ≠ m := by
    rintro e he rfl
    rw [hm] at he
    cases he
  cases t with
  | nil => exact Iff.rfl
  | cons e t =>
      cases he : isBlank e with
      | false => rw [squeeze_cons he]; exact Iff.rfl
      | true =>
          obtain ⟨u, hu⟩ := exists_squeeze_blank he t
          rw [hu]
          simp [hne he, hne (show isBlank ' ' = true by decide)]

/-- A scan that has been ended by a character is ended by it in a squeezed text as well. -/
theorem run_squeeze (hd : isBlank d.opener = false ∧ isBlank d.closer = false)
    (hcloser : d.closer ≠ '/') (y : Char) (post post' : Text) (ht : newline ∉ t) {skip : Bool}
    {offset : Nat} (offset' : Nat) (hs : s.forget = s'.forget) (hquoted : Quoted s)
    (h : (run d skip (t ++ y :: post) offset s).1 = some (offset + t.length)) :
    (run d skip (squeeze t ++ y :: post') offset' s').1 = some (offset' + (squeeze t).length) := by
  have hlate : ∀ {skip : Bool} {text : Text} {offset q : Nat} {s : DelimiterScan},
      (run d skip text (offset + 1) s).1 = some q → offset < q := fun hq =>
    ((run_bounds _ _ _ _).1 _ hq).1
  have hlength : ∀ (c : Char) (u : Text) (n : Nat), n + (c :: u).length = n + 1 + u.length := by
    intro c u n
    rw [List.length_cons]
    omega
  induction t using squeeze_induction generalizing skip offset offset' s s' with
  | nil =>
      cases skip with
      | true =>
          have hq := hlate h
          simp at hq
      | false =>
          rw [List.nil_append, run] at h
          have hforget := step_forget (d := d) hs offset offset' y
            fun m _ => @Iff.rfl (post.head? = some m)
          obtain ⟨s₁, s₂, hstep, -⟩ | ⟨s₁, s₂, hstep, -⟩ | ⟨s₁, s₂, hstep, hstep'⟩ :=
            Step.forget_cases hforget
          · rw [hstep] at h
            have hq := hlate h
            simp at hq
          · rw [hstep] at h
            have hq := hlate h
            simp at hq
          · show (run d false (y :: post') offset' s').1 = _
            rw [run, step_closed hcloser hstep' post']
            rfl
  | plain c t hc ih =>
      have hnewline : newline ∉ t := fun hmem => ht (List.mem_cons_of_mem c hmem)
      rw [hlength] at h
      rw [squeeze_cons hc, hlength, List.cons_append]
      cases skip with
      | true => exact ih hnewline _ hs hquoted h
      | false =>
          have hforget :=
            step_forget (d := d) hs offset offset' c (markAlike_squeeze t y post post')
          have hlater := step_quoted (d := d) hquoted offset c (t ++ y :: post)
          rw [List.cons_append, run] at h
          rw [run]
          obtain ⟨s₁, s₂, hstep, hstep', hforget⟩ | ⟨s₁, s₂, hstep, hstep', hforget⟩ |
              ⟨s₁, s₂, hstep, -⟩ := Step.forget_cases hforget
          · rw [hstep] at h hlater
            rw [hstep']
            exact ih hnewline _ hforget hlater h
          · rw [hstep] at h hlater
            rw [hstep']
            exact ih hnewline _ hforget hlater h
          · rw [hstep] at h
            injection h with h
            omega
  | last c t hc hhead ih =>
      have hnewline : newline ∉ t := fun hmem => ht (List.mem_cons_of_mem c hmem)
      have hc' : c ≠ newline := fun heq => ht (heq ▸ List.mem_cons_self)
      rw [hlength] at h
      rw [squeeze_blank hc hhead, hlength, List.cons_append]
      cases skip with
      | true => exact ih hnewline _ hs hquoted h
      | false =>
          rw [List.cons_append, run, step_blank hquoted hd hc hc'] at h
          rw [run, step_blank (hquoted.of_forget hs) hd (by decide) (by decide)]
          exact ih hnewline _ hs hquoted h
  | more c e t hc he ih =>
      have hnewline : newline ∉ e :: t := fun hmem => ht (List.mem_cons_of_mem c hmem)
      have hc' : c ≠ newline := fun heq => ht (heq ▸ List.mem_cons_self)
      have he' : e ≠ newline := fun heq => hnewline (heq ▸ List.mem_cons_self)
      rw [hlength] at h
      rw [squeeze_blank_blank hc he]
      cases skip with
      | true =>
          -- Skipping a blank and passing over one is the same.
          have h : (run d false (e :: (t ++ y :: post)) (offset + 1) s).1 = _ := h
          rw [run, step_blank hquoted hd he he'] at h
          exact @ih _ _ hnewline true (offset + 1) offset' hs hquoted h
      | false =>
          rw [List.cons_append, run, step_blank hquoted hd hc hc'] at h
          exact ih hnewline _ hs hquoted h

/-- A scan is ended by a closer. -/
theorem eq_closer_of_step {offset : Nat} {c : Char} {rest : Text}
    (h : step d s offset c rest = .closed s') : c = d.closer :=
  (effect_eq_balances_iff.1 (of_step_closed h).1).2.2.1

theorem exists_closer_of_run {text : Text} {skip : Bool} {offset q : Nat} {s : DelimiterScan}
    (h : (run d skip text offset s).1 = some q) :
    ∃ before after, text = before ++ d.closer :: after ∧ q = offset + before.length := by
  induction text generalizing skip offset s with
  | nil => cases skip <;> cases h
  | cons c rest ih =>
      have hlater : ∀ {skip' : Bool} {s' : DelimiterScan},
          (run d skip' rest (offset + 1) s').1 = some q →
          ∃ before after, c :: rest = before ++ d.closer :: after ∧ q = offset + before.length := by
        intro skip' s' h
        obtain ⟨before, after, rfl, rfl⟩ := ih h
        refine ⟨c :: before, after, rfl, ?_⟩
        rw [List.length_cons]
        omega
      cases skip with
      | true => exact hlater h
      | false =>
          rw [run] at h
          cases hstep : step d s offset c rest with
          | next s' => rw [hstep] at h; exact hlater h
          | afterNext s' => rw [hstep] at h; exact hlater h
          | closed s' =>
              rw [hstep] at h
              injection h with h
              exact ⟨[], rest, by rw [eq_closer_of_step hstep]; rfl, h.symm⟩

/-- What is found from an opener on is where the scan after it ends. -/
theorem findMatching?_opener (hquote : isQuote d.opener = false) (hslash : d.opener ≠ '/')
    (pre rest : Text) : findMatching? d (pre ++ d.opener :: rest) pre.length
      = (run d false rest (pre.length + 1) ⟨.code, 1, none⟩).1.map fun q => (pre.length, q) := by
  have hstep : step d {} pre.length d.opener rest
      = .next (since (some pre.length) ⟨.code, 1, none⟩) := by
    simp [step, hquote, hslash, since]
  rw [findMatching?_eq_found, List.drop_left, run, hstep]
  dsimp only
  rw [run_since]
  cases (run d false rest (pre.length + 1) ⟨.code, 1, none⟩).1 with
  | none => rfl
  | some q => rfl

/-- A group that is found from its opener on is cut out of the text by its two ends. -/
theorem exists_group_of_findMatching? (hquote : isQuote d.opener = false) (hslash : d.opener ≠ '/')
    {pre rest : Text} {p q : Nat}
    (h : findMatching? d (pre ++ d.opener :: rest) pre.length = some (p, q)) :
    ∃ inner after, rest = inner ++ d.closer :: after ∧ p = pre.length ∧
      q = pre.length + 1 + inner.length := by
  rw [findMatching?_opener hquote hslash] at h
  obtain ⟨q', hq', heq⟩ := Option.map_eq_some_iff.1 h
  injection heq with hp hq
  obtain ⟨before, after, hrest, hend⟩ := exists_closer_of_run hq'
  exact ⟨before, after, hrest, hp.symm, hq.symm.trans hend⟩

/-- A group of one line is found in a squeezed text, squeezed. -/
theorem findMatching?_squeeze (hd : isBlank d.opener = false ∧ isBlank d.closer = false)
    (hquote : isQuote d.opener = false) (hslash : d.opener ≠ '/' ∧ d.closer ≠ '/')
    {pre post : Text} (pre' post' : Text) (ht : newline ∉ t)
    (h : findMatching? d (pre ++ d.opener :: (t ++ d.closer :: post)) pre.length
      = some (pre.length, pre.length + 1 + t.length)) :
    findMatching? d (pre' ++ d.opener :: (squeeze t ++ d.closer :: post')) pre'.length
      = some (pre'.length, pre'.length + 1 + (squeeze t).length) := by
  rw [findMatching?_opener hquote hslash.1] at h ⊢
  obtain ⟨q, hq, heq⟩ := Option.map_eq_some_iff.1 h
  injection heq with _ heq
  subst heq
  rw [run_squeeze hd hslash.2 d.closer post post' ht _ rfl (fun q hq => by cases hq) hq]
  rfl

end Scans

end GoSurvey.Source
