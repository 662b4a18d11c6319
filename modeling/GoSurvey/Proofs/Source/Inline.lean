/-
Code on one line, as it is written where a signature is printed: its
blanks are single spaces, and nothing in it is a literal or a comment.
What cleans up signatures leaves such a text as it is. A scan takes each
character of it for itself (`step_bare`), for which it is enough that the
text is `Bare` of literals and comments.
-/
import Mathlib.Data.List.Chain
import GoSurvey.Proofs.Text.Pieces
import GoSurvey.Source.Split

namespace GoSurvey.Source

open Text DelimiterScan

/-- Whether a character may stand directly after another: not a space after a space, nor what would
begin a comment. -/
def MayFollow (before after : Char) : Prop :=
  ¬(before = ' ' ∧ after = ' ') ∧ ¬(before = '/' ∧ (after = '/' ∨ after = '*'))

instance (before after : Char) : Decidable (MayFollow before after) :=
  inferInstanceAs (Decidable (_ ∧ _))

/-- Whether a character may stand directly after another where no comment begins. -/
def NoMark (before after : Char) : Prop := ¬(before = '/' ∧ (after = '/' ∨ after = '*'))

instance (before after : Char) : Decidable (NoMark before after) :=
  inferInstanceAs (Decidable (¬_))

/-- Code without literals and comments. -/
structure Bare (t : Text) : Prop where
  quote : ∀ c ∈ t, isQuote c = false
  neighbours : t.IsChain NoMark

instance (t : Text) : Decidable (Bare t) :=
  decidable_of_iff ((t.all fun c => !isQuote c) = true ∧ t.IsChain NoMark)
    ⟨fun h => ⟨by simpa using h.1, h.2⟩, fun h => ⟨by simpa using h.quote, h.neighbours⟩⟩

/-- Code on one line with single spaces, without literals and comments. -/
structure Inline (t : Text) : Prop where
  blank : ∀ c ∈ t, isBlank c = true → c = ' '
  quote : ∀ c ∈ t, isQuote c = false
  neighbours : t.IsChain MayFollow

instance (t : Text) : Decidable (Inline t) :=
  decidable_of_iff ((t.all fun c => !isBlank c || c == ' ') = true ∧
      (t.all fun c => !isQuote c) = true ∧ t.IsChain MayFollow)
    ⟨fun h => ⟨by simpa [imp_iff_not_or] using h.1, by simpa using h.2.1, h.2.2⟩,
      fun h => ⟨by simpa [imp_iff_not_or] using h.blank, by simpa using h.quote, h.neighbours⟩⟩

-- ============================================================= parts

theorem Inline.part {t u : Text} (h : Inline t) (hu : u <:+: t) : Inline u :=
  ⟨fun c hc => h.blank c (hu.subset hc), fun c hc => h.quote c (hu.subset hc),
    h.neighbours.infix hu⟩

theorem Inline.tail {c : Char} {t : Text} (h : Inline (c :: t)) : Inline t :=
  h.part (List.suffix_cons c t).isInfix

theorem Inline.append {t u : Text} (ht : Inline t) (hu : Inline u)
    (hjoin : ∀ x ∈ t.getLast?, ∀ y ∈ u.head?, MayFollow x y) : Inline (t ++ u) := by
  refine ⟨fun c hc => ?_, fun c hc => ?_, List.isChain_append.2 ⟨?_, ?_, hjoin⟩⟩
  · exact (List.mem_append.1 hc).elim (ht.blank c) (hu.blank c)
  · exact (List.mem_append.1 hc).elim (ht.quote c) (hu.quote c)
  · exact ht.neighbours
  · exact hu.neighbours

theorem Inline.bare {t : Text} (h : Inline t) : Bare t :=
  ⟨h.quote, h.neighbours.imp fun _ _ hfollow => hfollow.2⟩

theorem Bare.part {t u : Text} (h : Bare t) (hu : u <:+: t) : Bare u :=
  ⟨fun c hc => h.quote c (hu.subset hc), h.neighbours.infix hu⟩

theorem Bare.append {t u : Text} (ht : Bare t) (hu : Bare u)
    (hjoin : ∀ x ∈ t.getLast?, ∀ y ∈ u.head?, NoMark x y) : Bare (t ++ u) :=
  ⟨fun c hc => (List.mem_append.1 hc).elim (ht.quote c) (hu.quote c),
    List.isChain_append.2 ⟨ht.neighbours, hu.neighbours, hjoin⟩⟩

/-- Without a slash there is no comment. -/
theorem bare_of_no_slash {t : Text} (h : ∀ c ∈ t, isQuote c = false ∧ c ≠ '/') : Bare t := by
  refine ⟨fun c hc => (h c hc).1, ?_⟩
  refine (List.pairwise_of_forall_mem_list fun x hx y _ => ?_).isChain
  exact fun hmark => (h x hx).2 hmark.1

/-- What stands after the first character may follow it. -/
theorem Inline.mayFollow {c : Char} {t : Text} (h : Inline (c :: t)) :
    ∀ y ∈ t.head?, MayFollow c y := by
  cases t with
  | nil => simp
  | cons d t =>
      intro y hy
      rw [List.head?_cons, Option.mem_some_iff] at hy
      exact hy ▸ (List.isChain_cons_cons.1 h.neighbours).1

theorem isQuote_eq_false_of_isWord {c : Char} (h : isWord c = true) : isQuote c = false := by
  cases hquote : isQuote c with
  | false => rfl
  | true =>
      simp only [isQuote, Bool.or_eq_true, beq_iff_eq] at hquote
      rcases hquote with (rfl | rfl) | rfl <;> revert h <;> decide

theorem inline_of_isWord {t : Text} (h : ∀ c ∈ t, isWord c = true) : Inline t := by
  have hspace : isWord ' ' = false := by decide
  have hslash : isWord '/' = false := by decide
  refine ⟨fun c hc hblank => ?_, fun c hc => isQuote_eq_false_of_isWord (h c hc), ?_⟩
  · rw [not_isBlank_of_isWord (h c hc)] at hblank
    cases hblank
  · refine (List.pairwise_of_forall_mem_list fun x hx y _ => ?_).isChain
    have hx := h x hx
    refine ⟨fun hboth => ?_, fun hboth => ?_⟩
    · rw [hboth.1, hspace] at hx
      cases hx
    · rw [hboth.1, hslash] at hx
      cases hx

theorem Inline.newline_not_mem {t : Text} (h : Inline t) : newline ∉ t :=
  fun hmem => absurd (h.blank newline hmem (by decide)) (by decide)

-- ================================================= what leaves it alone

/-- What stands after the first character of code begins no comment with it. -/
theorem Bare.noMark {c : Char} {t : Text} (h : Bare (c :: t)) : ∀ y ∈ t.head?, NoMark c y := by
  cases t with
  | nil => simp
  | cons d t =>
      rintro y ⟨⟩
      exact (List.isChain_cons_cons.1 h.neighbours).1

/-- Where code joins what follows it without a mark, so does each end of it. -/
theorem Bare.noMark_append {c : Char} {t rest : Text} (h : Bare (c :: t))
    (hjoin : ∀ x ∈ (c :: t).getLast?, ∀ y ∈ rest.head?, NoMark x y) :
    (∀ y ∈ (t ++ rest).head?, NoMark c y) ∧ ∀ x ∈ t.getLast?, ∀ y ∈ rest.head?, NoMark x y := by
  cases t with
  | nil => exact ⟨hjoin c rfl, by simp⟩
  | cons e t =>
      refine ⟨h.noMark, fun x hx => hjoin x ?_⟩
      rw [List.getLast?_cons_cons]
      exact hx

/-- A scan takes a character of code for itself. -/
theorem step_bare {d : Delimiters} (depth offset : Nat) (openedAt : Option Nat) {c : Char}
    (rest : Text) (hquote : isQuote c = false) (hnext : ∀ y ∈ rest.head?, NoMark c y) :
    step d ⟨.code, depth, openedAt⟩ offset c rest
      = if c = d.opener then .next ⟨.code, depth + 1, some (openedAt.getD offset)⟩
        else if c = d.closer ∧ 0 < depth then
          if depth = 1 then .closed ⟨.code, 0, openedAt⟩ else .next ⟨.code, depth - 1, openedAt⟩
        else .next ⟨.code, depth, openedAt⟩ := by
  have hline : ¬(c = '/' ∧ rest.head? = some '/') :=
    fun h => hnext '/' h.2 ⟨h.1, .inl rfl⟩
  have hblock : ¬(c = '/' ∧ rest.head? = some '*') :=
    fun h => hnext '*' h.2 ⟨h.1, .inr rfl⟩
  simp only [step, if_neg hline, if_neg hblock, hquote, Bool.false_eq_true, if_false]

/-- On the way to a comment code is passed over. -/
theorem beforeLineComment?_append {t rest : Text} (h : Bare t)
    (hjoin : ∀ x ∈ t.getLast?, ∀ y ∈ rest.head?, NoMark x y) :
    beforeLineComment? none false (t ++ rest)
      = (beforeLineComment? none false rest).map (t ++ ·) := by
  induction t with
  | nil => simp
  | cons c t ih =>
      obtain ⟨hnext, hjoin'⟩ := h.noMark_append hjoin
      have hmark : (decide (c = '/') && decide ((t ++ rest).head? = some '/')) = false := by
        rw [Bool.and_eq_false_iff, decide_eq_false_iff_not, decide_eq_false_iff_not,
          ← Decidable.not_and_iff_not_or_not]
        exact fun hboth => hnext '/' hboth.2 ⟨hboth.1, .inl rfl⟩
      rw [List.cons_append, beforeLineComment?, h.quote c List.mem_cons_self, hmark,
        ih (h.part (List.suffix_cons c t).isInfix) hjoin', if_neg Bool.false_ne_true,
        if_neg Bool.false_ne_true, Option.map_map]
      rfl

theorem beforeLineComment?_bare {t : Text} (h : Bare t) :
    beforeLineComment? none false t = none := by
  have hall : beforeLineComment? none false (t ++ []) = none :=
    beforeLineComment?_append h (by simp)
  rw [List.append_nil] at hall
  exact hall

theorem stripLineComment_bare {t : Text} (h : Bare t) : stripLineComment t = t := by
  unfold stripLineComment
  rw [beforeLineComment?_bare h]

theorem stripLineComment_inline {t : Text} (h : Inline t) : stripLineComment t = t :=
  stripLineComment_bare h.bare

theorem squeeze_inline {t : Text} (h : Inline t) : squeeze t = t := by
  induction t with
  | nil => rfl
  | cons c t ih =>
      have hrest := ih h.tail
      cases hc : isBlank c with
      | false =>
          unfold squeeze
          rw [hc, if_neg Bool.false_ne_true, hrest]
      | true =>
          obtain rfl := h.blank c List.mem_cons_self hc
          cases t with
          | nil => rfl
          | cons d t =>
              -- The next character is no space, and no other blank either.
              have hd : isBlank d = false := by
                cases hd : isBlank d with
                | false => rfl
                | true =>
                    obtain rfl := h.blank d (by simp) hd
                    exact absurd ⟨rfl, rfl⟩ (h.mayFollow ' ' rfl).1
              unfold squeeze
              rw [hc, if_pos rfl]
              dsimp only
              rw [hd, if_neg Bool.false_ne_true, hrest]

-- ========================================================= both its ends

/-- A text that neither begins nor ends with a blank. -/
structure Trimmed (t : Text) : Prop where
  first : ∀ c ∈ t.head?, isBlank c = false
  last : ∀ c ∈ t.getLast?, isBlank c = false

/-- A text without blanks has none at its ends. -/
theorem trimmed_of_no_blank {t : Text} (h : ∀ c ∈ t, isBlank c = false) : Trimmed t :=
  ⟨fun c hc => h c (List.mem_of_head? hc), fun c hc => h c (List.mem_of_getLast? hc)⟩

instance (t : Text) : Decidable (Trimmed t) :=
  decidable_of_iff ((t.head?.all fun c => !isBlank c) = true ∧
      (t.getLast?.all fun c => !isBlank c) = true)
    ⟨fun h => ⟨by simpa [Option.all_eq_true] using h.1, by simpa [Option.all_eq_true] using h.2⟩,
      fun h => ⟨by simpa [Option.all_eq_true] using h.first,
        by simpa [Option.all_eq_true] using h.last⟩⟩

theorem trimStart_eq_self {t : Text} (h : ∀ c ∈ t.head?, isBlank c = false) : trimStart t = t := by
  cases t with
  | nil => rfl
  | cons c t => exact List.dropWhile_cons_of_neg (by simp [h c rfl])

theorem dropEndWhile_eq_self {cls : Char → Bool} {t : Text} (h : ∀ c ∈ t.getLast?, cls c = false) :
    dropEndWhile cls t = t := by
  rw [← List.head?_reverse] at h
  unfold dropEndWhile
  cases hrev : t.reverse with
  | nil => rw [List.reverse_eq_nil_iff.1 hrev]; rfl
  | cons c u =>
      rw [hrev] at h
      rw [List.dropWhile_cons_of_neg (by simp [h c rfl]), ← hrev, List.reverse_reverse]

theorem Trimmed.trim_eq {t : Text} (h : Trimmed t) : trim t = t := by
  have hstart := trimStart_eq_self h.first
  unfold trimStart at hstart
  unfold trim stripWhile
  rw [hstart]
  exact dropEndWhile_eq_self h.last

/-- A blank before a text is trimmed away. -/
theorem trim_cons_of_isBlank {c : Char} {t : Text} (hc : isBlank c = true) :
    trim (c :: t) = trim t := by
  unfold trim stripWhile
  rw [List.dropWhile_cons_of_pos hc]

/-- Trimming leaves of a space and a text the text, and nothing where both are left out. -/
theorem Trimmed.trim_enclose {t : Text} (h : Trimmed t) : trim (enclose " " t "") = t := by
  unfold enclose
  split
  · next hempty =>
    rw [List.isEmpty_iff.1 hempty]
    rfl
  · show trim (' ' :: (t ++ [])) = t
    rw [List.append_nil, trim_cons_of_isBlank (by decide), h.trim_eq]

/-- A blank after a text is trimmed away. -/
theorem Trimmed.trim_concat {c : Char} {t : Text} (h : Trimmed t) (hc : isBlank c = true) :
    trim (t ++ [c]) = t := by
  cases t with
  | nil => exact trim_cons_of_isBlank hc
  | cons d t =>
      have hstart := trimStart_eq_self (t := d :: t ++ [c]) fun e he => h.first e he
      have hend := dropEndWhile_eq_self h.last
      unfold trimStart at hstart
      unfold dropEndWhile at hend
      unfold trim stripWhile dropEndWhile
      rw [hstart, List.reverse_concat, List.dropWhile_cons_of_pos hc, hend]

/-- Blanks that a line is indented by. -/
def IsIndent (t : Text) : Prop := ∀ c ∈ t, isBlank c = true ∧ c ≠ newline

instance (t : Text) : Decidable (IsIndent t) :=
  decidable_of_iff ((t.all fun c => isBlank c && c != newline) = true) (by simp [IsIndent])

namespace IsIndent

variable {t : Text} {c : Char}

theorem blank (h : IsIndent t) : ∀ c ∈ t, isBlank c = true := fun c hc => (h c hc).1

theorem newline_not_mem (h : IsIndent t) : newline ∉ t := fun hmem => (h newline hmem).2 rfl

theorem not_mem (h : IsIndent t) (hc : isBlank c = false) : c ∉ t := by
  intro hmem
  rw [h.blank c hmem] at hc
  cases hc

theorem bare (h : IsIndent t) : Bare t := by
  refine bare_of_no_slash fun c hc => ⟨Bool.eq_false_iff.2 fun hquote => ?_, ?_⟩
  · simp only [isQuote, Bool.or_eq_true, beq_iff_eq] at hquote
    rcases hquote with (rfl | rfl) | rfl <;> exact h.not_mem (by decide) hc
  · rintro rfl
    exact h.not_mem (by decide) hc

end IsIndent

/-- Trimming takes nothing from a trimmed text at the start. -/
theorem Trimmed.prefix_trim {t : Text} (h : Trimmed t) (hne : t ≠ []) (u : Text) :
    t <+: trim (t ++ u) := by
  have hstart := trimStart_eq_self (t := t ++ u) fun c hc => by
    rw [List.head?_append_of_ne_nil t hne] at hc
    exact h.first c hc
  have hend := dropEndWhile_eq_self h.last
  unfold dropEndWhile at hend
  unfold trimStart at hstart
  unfold trim stripWhile dropEndWhile
  rw [hstart, List.reverse_append, List.dropWhile_append]
  split
  · exact ⟨[], by rw [List.append_nil, hend]⟩
  · rw [List.reverse_append, List.reverse_reverse]
    exact List.prefix_append _ _

end GoSurvey.Source
