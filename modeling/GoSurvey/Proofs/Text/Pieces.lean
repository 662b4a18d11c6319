/-
Pieces of a text: what stands between separators, and what stands after
the last of them. `splitOn_append_cons` and `splitOn_of_not_mem` are the
two facts from which the last piece is known, and `append_cons_inj` says
that a text can be cut at its last separator in one way only.

Likewise a text can be cut after its first run of a class in one way only
(`run_unique`); the classes of interest are blanks and word characters,
which have no character in common (`not_isBlank_of_isWord`).

A place at the start of a line is the place of a line: what stands ahead
of it, up to the next newline, is the line whose index is the number of
newlines before (`exists_line`).

Pieces that are joined are found again if none has the separator in it
(`splitOn_join`), and so is a number in its digits (`ofNat_inj`).
-/
import GoSurvey.Text.Blank
import GoSurvey.Text.WordChar

namespace GoSurvey.Text

variable {sep : Char}

-- ===================================================== all the pieces

/-- A text without a separator is its only piece. -/
theorem splitOn_of_not_mem {t : Text} (h : sep ∉ t) : splitOn sep t = [t] := by
  induction t with
  | nil => rfl
  | cons c rest ih =>
      have hc : c ≠ sep := fun hc => h (hc ▸ List.mem_cons_self)
      rw [splitOn, if_neg hc, ih fun hmem => h (List.mem_cons_of_mem c hmem)]

/-- A separator stands between the pieces before it and those after it. -/
theorem splitOn_append_cons (before after : Text) :
    splitOn sep (before ++ sep :: after) = splitOn sep before ++ splitOn sep after := by
  induction before with
  | nil =>
      have hsep : splitOn sep (sep :: after) = [] :: splitOn sep after := if_pos rfl
      exact hsep
  | cons c rest ih =>
      rw [List.cons_append, splitOn, splitOn, ih]
      split
      · rfl
      · cases hs : splitOn sep rest with
        | nil => exact absurd hs (splitOn_ne_nil sep rest)
        | cons piece pieces => rfl

/-- The first piece begins the text, and the others lie in it. -/
theorem prefix_of_splitOn {t : Text} : ∀ {piece : Text} {pieces : List Text},
    splitOn sep t = piece :: pieces → piece <+: t ∧ ∀ q ∈ pieces, q <:+: t := by
  induction t with
  | nil =>
      intro piece pieces h
      injection h with hpiece hpieces
      subst hpiece
      subst hpieces
      exact ⟨List.prefix_rfl, fun q hq => absurd hq List.not_mem_nil⟩
  | cons c rest ih =>
      intro piece pieces h
      have htail : rest <:+: c :: rest := (List.suffix_cons c rest).isInfix
      cases hs : splitOn sep rest with
      | nil => exact absurd hs (splitOn_ne_nil sep rest)
      | cons first others =>
          obtain ⟨hfirst, hothers⟩ := ih hs
          rw [splitOn, hs] at h
          split at h
          · injection h with hpiece hpieces
            subst hpiece
            subst hpieces
            refine ⟨List.nil_prefix, fun q hq => ?_⟩
            rcases List.mem_cons.1 hq with rfl | hq
            · exact hfirst.isInfix.trans htail
            · exact (hothers q hq).trans htail
          · injection h with hpiece hpieces
            subst hpiece
            subst hpieces
            exact ⟨List.cons_prefix_cons.2 ⟨rfl, hfirst⟩, fun q hq => (hothers q hq).trans htail⟩

theorem infix_of_mem_splitOn {t piece : Text} (h : piece ∈ splitOn sep t) : piece <:+: t := by
  cases hs : splitOn sep t with
  | nil => exact absurd hs (splitOn_ne_nil sep t)
  | cons first others =>
      obtain ⟨hfirst, hothers⟩ := prefix_of_splitOn hs
      rw [hs] at h
      rcases List.mem_cons.1 h with rfl | h
      · exact hfirst.isInfix
      · exact hothers piece h

-- ===================================================== the last piece

theorem lastPiece_mem (sep : Char) (t : Text) : lastPiece sep t ∈ splitOn sep t := by
  unfold lastPiece
  rw [List.getLastD_eq_getLast?, List.getLast?_eq_some_getLast (splitOn_ne_nil sep t),
    Option.getD_some]
  exact List.getLast_mem _

theorem lastPiece_isInfix (sep : Char) (t : Text) : lastPiece sep t <:+: t :=
  infix_of_mem_splitOn (lastPiece_mem sep t)

theorem lastPiece_of_not_mem {t : Text} (h : sep ∉ t) : lastPiece sep t = t := by
  unfold lastPiece
  rw [splitOn_of_not_mem h]
  rfl

theorem lastPiece_append_cons (before : Text) {after : Text} (h : sep ∉ after) :
    lastPiece sep (before ++ sep :: after) = after := by
  unfold lastPiece
  rw [splitOn_append_cons, splitOn_of_not_mem h, List.getLastD_concat]

/-- A text is cut at its last separator in one way. -/
theorem append_cons_inj {a b a' b' : Text} (h : a ++ sep :: b = a' ++ sep :: b')
    (hb : sep ∉ b) (hb' : sep ∉ b') : b = b' := by
  rw [← lastPiece_append_cons a hb, h, lastPiece_append_cons a' hb']

/-- There is no last separator exactly if there is none. -/
theorem cutLast?_eq_none {t : Text} (h : cutLast? sep t = none) : sep ∉ t := by
  induction t with
  | nil => exact List.not_mem_nil
  | cons c rest ih =>
      rw [cutLast?] at h
      split at h
      · cases h
      · next hrest =>
        split at h
        · cases h
        · next hc =>
          intro hmem
          rcases List.mem_cons.1 hmem with rfl | hmem
          · exact hc rfl
          · exact ih hrest hmem

/-- The last separator stands between the two parts, and none is in the second. -/
theorem cutLast?_eq_some {t : Text} : ∀ {before after : Text},
    cutLast? sep t = some (before, after) → t = before ++ sep :: after ∧ sep ∉ after := by
  induction t with
  | nil => intro before after h; cases h
  | cons c rest ih =>
      intro before after h
      rw [cutLast?] at h
      split at h
      · next before' after' hrest =>
        injection h with h
        injection h with hbefore hafter
        subst hbefore
        subst hafter
        obtain ⟨hrest, hnot⟩ := ih hrest
        exact ⟨by rw [hrest]; rfl, hnot⟩
      · next hrest =>
        split at h
        · next hc =>
          injection h with h
          injection h with hbefore hafter
          subst hbefore
          subst hafter
          subst hc
          exact ⟨rfl, cutLast?_eq_none hrest⟩
        · cases h

theorem join_cons (sep : Text) (c : Char) (first : Text) (rest : List Text) :
    join sep ((c :: first) :: rest) = c :: join sep (first :: rest) := by
  cases rest <;> rfl

/-- Joined pieces stand around any one of them. -/
theorem join_around (sep : Text) (above : List Text) (piece : Text) (below : List Text) :
    join sep (above ++ piece :: below)
      = above.flatMap (· ++ sep) ++ (piece ++ below.flatMap (sep ++ ·)) := by
  have hcons : ∀ (first next : Text) (rest : List Text),
      join sep (first :: next :: rest) = first ++ sep ++ join sep (next :: rest) :=
    fun first next rest => rfl
  induction above with
  | nil =>
      induction below generalizing piece with
      | nil => exact (List.append_nil piece).symm
      | cons next below ih =>
          have hnext := ih next
          rw [List.nil_append] at hnext ⊢
          rw [hcons, hnext]
          simp
  | cons first above ih =>
      rw [List.cons_append, List.flatMap_cons, List.append_assoc, ← ih]
      cases above with
      | nil => exact hcons first piece below
      | cons next above => exact hcons first next _

/-- A text with nothing before its first separator begins with it. -/
theorem eq_of_splitOn_cons {sep c : Char} {t : Text} {pieces : List Text}
    (h : splitOn sep (c :: t) = [] :: pieces) : c = sep := by
  by_cases hc : c = sep
  · exact hc
  · rw [splitOn, if_neg hc] at h
    cases hs : splitOn sep t with
    | nil => exact absurd hs (splitOn_ne_nil sep t)
    | cons piece pieces' =>
        rw [hs] at h
        cases h

/-- Pieces without a separator are found again in the text that joins them. -/
theorem splitOn_join {pieces : List Text} (hne : pieces ≠ []) (h : ∀ piece ∈ pieces, sep ∉ piece) :
    splitOn sep (join [sep] pieces) = pieces := by
  induction pieces with
  | nil => exact absurd rfl hne
  | cons piece pieces ih =>
      have hpiece := splitOn_of_not_mem (h piece List.mem_cons_self)
      cases pieces with
      | nil => exact hpiece
      | cons next pieces =>
          have hjoin : join [sep] (piece :: next :: pieces)
              = piece ++ sep :: join [sep] (next :: pieces) := by
            rw [join, List.append_assoc]
            · rfl
            · exact List.cons_ne_nil next pieces
          have hrest := ih (List.cons_ne_nil next pieces)
            fun q hq => h q (List.mem_cons_of_mem piece hq)
          rw [hjoin, splitOn_append_cons, hpiece, hrest]
          rfl

-- ============================================================= numbers

/-- A number can be read back from its digits. -/
theorem ofNat_inj {i j : Nat} (h : ofNat i = ofNat j) : i = j := by
  have hread : Nat.ofDigitChars 10 (ofNat i) 0 = Nat.ofDigitChars 10 (ofNat j) 0 := by rw [h]
  unfold ofNat at hread
  rwa [Nat.ofDigitChars_ten_toDigits, Nat.ofDigitChars_ten_toDigits] at hread

theorem hyphen_not_mem_ofNat (n : Nat) : '-' ∉ ofNat n := by
  intro h
  have hdigit : Char.isDigit '-' = true :=
    Nat.isDigit_of_mem_toDigits (by decide) (by decide) h
  revert hdigit
  decide

theorem ofNat_ne_nil (n : Nat) : ofNat n ≠ [] := Nat.toDigits_ne_nil

-- =============================================================== trims

theorem dropEndWhile_isPrefix (cls : Char → Bool) (t : Text) : dropEndWhile cls t <+: t := by
  unfold dropEndWhile
  rw [← List.reverse_suffix, List.reverse_reverse]
  exact List.dropWhile_suffix cls

theorem stripWhile_isInfix (cls : Char → Bool) (t : Text) : stripWhile cls t <:+: t :=
  (dropEndWhile_isPrefix cls _).isInfix.trans (List.dropWhile_suffix cls).isInfix

theorem trim_isInfix (t : Text) : trim t <:+: t := stripWhile_isInfix isBlank t

-- ================================================================ runs

/-- A text is cut after its first run of a class in one way. -/
theorem run_unique {cls : Char → Bool} {d d' : Char} {s s' : Text} (hd : cls d = false)
    (hd' : cls d' = false) : ∀ {u u' : Text}, (∀ c ∈ u, cls c = true) →
      (∀ c ∈ u', cls c = true) → u ++ d :: s = u' ++ d' :: s' → u = u' ∧ d :: s = d' :: s' := by
  intro u
  induction u with
  | nil =>
      intro u' _ hu' h
      cases u' with
      | nil => exact ⟨rfl, h⟩
      | cons c u' =>
          injection h with hc
          rw [hc, hu' c List.mem_cons_self] at hd
          cases hd
  | cons c u ih =>
      intro u' hu hu' h
      cases u' with
      | nil =>
          injection h with hc
          rw [← hc, hu c List.mem_cons_self] at hd'
          cases hd'
      | cons c' u' =>
          injection h with hc h
          obtain ⟨hsame, hrest⟩ := ih (fun e he => hu e (List.mem_cons_of_mem c he))
            (fun e he => hu' e (List.mem_cons_of_mem c' he)) h
          exact ⟨by rw [hc, hsame], hrest⟩

/-- The same where the text may end with the run. -/
theorem run_inj {cls : Char → Bool} {u u' s s' : Text} (hu : ∀ c ∈ u, cls c = true)
    (hu' : ∀ c ∈ u', cls c = true) (hs : ∀ c ∈ s.head?, cls c = false)
    (hs' : ∀ c ∈ s'.head?, cls c = false) (h : u ++ s = u' ++ s') : u = u' ∧ s = s' := by
  have hrun : ∀ {u s : Text}, (∀ c ∈ u, cls c = true) → (∀ c ∈ s.head?, cls c = false) →
      (u ++ s).takeWhile cls = u := by
    intro u s hu hs
    rw [List.takeWhile_append_of_pos hu]
    cases s with
    | nil => exact List.append_nil u
    | cons c s =>
        have hc : ¬cls c = true := Bool.eq_false_iff.1 (hs c rfl)
        rw [List.takeWhile_cons_of_neg hc, List.append_nil]
  have hsame : u = u' := by rw [← hrun hu hs, h, hrun hu' hs']
  subst hsame
  exact ⟨rfl, List.append_cancel_left h⟩

/-- A text is cut at its first separator in one way. -/
theorem append_cons_inj_left {u u' s s' : Text} (hu : sep ∉ u) (hu' : sep ∉ u')
    (h : u ++ sep :: s = u' ++ sep :: s') : u = u' ∧ s = s' := by
  let other : Char → Bool := fun c => c != sep
  have hself : other sep = false := bne_self_eq_false sep
  have hne : ∀ {t : Text}, sep ∉ t → ∀ c ∈ t, other c = true :=
    fun ht c hc => bne_iff_ne.2 fun hsame => ht (hsame ▸ hc)
  obtain ⟨hsame, hrest⟩ := run_unique hself hself (hne hu) (hne hu') h
  injection hrest with _ hrest
  exact ⟨hsame, hrest⟩

/-- The code points of blanks. -/
def blankPoints : List Nat :=
  [0x9, 0xA, 0xB, 0xC, 0xD, 0x1C, 0x1D, 0x1E, 0x1F, 0x20, 0x85, 0xA0, 0x1680, 0x2000, 0x2001,
   0x2002, 0x2003, 0x2004, 0x2005, 0x2006, 0x2007, 0x2008, 0x2009, 0x200A, 0x2028, 0x2029, 0x202F,
   0x205F, 0x3000]

theorem mem_blankPoints {c : Char} (h : isBlank c = true) : c.toNat ∈ blankPoints := by
  simp only [isBlank, Bool.or_eq_true, Bool.and_eq_true, decide_eq_true_eq, beq_iff_eq] at h
  simp only [blankPoints, List.mem_cons, List.not_mem_nil, or_false]
  omega

/-- A word character is no blank. -/
theorem not_isBlank_of_isWord {c : Char} (h : isWord c = true) : isBlank c = false := by
  have hpoints : ∀ n ∈ blankPoints, isWord (Char.ofNat n) = false := by decide +kernel
  cases hblank : isBlank c with
  | false => rfl
  | true =>
      have hword := hpoints c.toNat (mem_blankPoints hblank)
      rw [Char.ofNat_toNat, h] at hword
      cases hword

/-- A blank is no word character. -/
theorem not_isWord_of_isBlank {c : Char} (h : isBlank c = true) : isWord c = false := by
  cases hword : isWord c with
  | false => rfl
  | true =>
      rw [not_isBlank_of_isWord hword] at h
      cases h

-- =============================================================== lines

/-- There is one piece more than separators. -/
theorem length_splitOn (t : Text) : (splitOn sep t).length = t.count sep + 1 := by
  induction t with
  | nil => rfl
  | cons c rest ih =>
      rw [splitOn]
      split
      · next h =>
        rw [h, List.length_cons, ih, List.count_cons_self]
      · next h =>
        rw [List.count_cons_of_ne h, ← ih]
        cases hs : splitOn sep rest with
        | nil => exact absurd hs (splitOn_ne_nil sep rest)
        | cons piece pieces => rfl

/-- No separator is in a piece. -/
theorem not_mem_of_mem_splitOn {t : Text} : ∀ {piece : Text}, piece ∈ splitOn sep t →
    sep ∉ piece := by
  induction t with
  | nil =>
      intro piece h
      rw [List.mem_singleton.1 h]
      exact List.not_mem_nil
  | cons c rest ih =>
      intro piece h
      rw [splitOn] at h
      split at h
      · rcases List.mem_cons.1 h with rfl | h
        · exact List.not_mem_nil
        · exact ih h
      · next hc =>
        cases hs : splitOn sep rest with
        | nil => exact absurd hs (splitOn_ne_nil sep rest)
        | cons first others =>
            rw [hs] at h ih
            rcases List.mem_cons.1 h with rfl | h
            · intro hmem
              rcases List.mem_cons.1 hmem with rfl | hmem
              · exact hc rfl
              · exact ih List.mem_cons_self hmem
            · exact ih (List.mem_cons_of_mem first h)

theorem not_mem_lastPiece (sep : Char) (t : Text) : sep ∉ lastPiece sep t :=
  not_mem_of_mem_splitOn (lastPiece_mem sep t)

/-- The first piece is the longest beginning of the text without a separator. -/
theorem prefix_head_splitOn {t piece : Text} {pieces : List Text}
    (h : splitOn sep t = piece :: pieces) {u : Text} (hu : u <+: t) (hnot : sep ∉ u) :
    u <+: piece := by
  obtain ⟨s, rfl⟩ := hu
  induction u generalizing piece with
  | nil => exact List.nil_prefix
  | cons c u ih =>
      have hc : c ≠ sep := fun hc => hnot (hc ▸ List.mem_cons_self)
      rw [List.cons_append, splitOn, if_neg hc] at h
      cases hs : splitOn sep (u ++ s) with
      | nil => exact absurd hs (splitOn_ne_nil sep _)
      | cons first others =>
          rw [hs] at h
          injection h with hpiece hpieces
          subst hpieces
          rw [← hpiece]
          exact List.cons_prefix_cons.2
            ⟨rfl, ih (fun hmem => hnot (List.mem_cons_of_mem c hmem)) hs⟩

/-- Ahead of a place at the start of a line stands the line of the place. -/
theorem exists_line {before : Text} (after : Text)
    (h : before = [] ∨ before.getLast? = some newline) :
    ∃ line, (lines (before ++ after))[before.count newline]? = some line ∧ line <+: after ∧
      newline ∉ line ∧ ∀ u, u <+: after → newline ∉ u → u <+: line := by
  cases hs : splitOn newline after with
  | nil => exact absurd hs (splitOn_ne_nil newline after)
  | cons line others =>
      refine ⟨line, ?_, (prefix_of_splitOn hs).1, ?_, fun u => prefix_head_splitOn hs⟩
      · unfold lines
        rcases h with rfl | h
        · rw [List.nil_append, hs]
          rfl
        · obtain ⟨init, rfl⟩ := List.getLast?_eq_some_iff.1 h
          have hcount : (init ++ [newline]).count newline = (splitOn newline init).length := by
            rw [List.count_append, List.count_singleton_self, length_splitOn]
          rw [List.append_assoc, List.singleton_append, splitOn_append_cons, hs, hcount,
            List.getElem?_append_right (Nat.le_refl _), Nat.sub_self]
          rfl
      · exact not_mem_of_mem_splitOn (hs ▸ List.mem_cons_self)

end GoSurvey.Text
