/-
Parts put together again. The cuts of a list begin anew behind each
separator: there nothing is open, neither a bracket nor a literal
(`exists_cut`), and that is so behind what is left of the piece once its
blanks are gone, since no blank opens or closes anything
(`openBehind_trim`). So the parts of a list, joined by the separator, are
cut apart where they were joined (`splitTopLevel_rejoin`). The last part
may leave brackets or a literal open, but nothing comes behind it.
-/
import GoSurvey.Proofs.Source.Squeeze

namespace GoSurvey.Source

open Text

variable {sep c : Char} {depth : Int} {quote previous : Option Char}
  {t u piece part : Text} {pieces parts : List Text}

-- ========================================================= behind a text

/-- How many brackets are open behind a text, and which literal. -/
def openBehind (sep : Char) : (depth : Int) → (quote previous : Option Char) → Text →
    Int × Option Char
  | depth, quote, _, [] => (depth, quote)
  | depth, quote, previous, c :: t =>
    openBehind sep (cutStep sep depth quote previous c).2.1
      (cutStep sep depth quote previous c).2.2 (some c) t

/-- Outside literals the character before does not matter. -/
theorem openBehind_previous (previous' : Option Char) :
    openBehind sep depth none previous t = openBehind sep depth none previous' t := by
  cases t <;> rfl

theorem openBehind_of_isBlank (hquote : ∀ q ∈ quote, isQuote q = true)
    (ht : ∀ c ∈ t, isBlank c = true) : openBehind sep depth quote previous t = (depth, quote) := by
  induction t generalizing previous with
  | nil => rfl
  | cons c t ih =>
      rw [openBehind, cutStep_blank_snd hquote (ht c List.mem_cons_self)]
      exact ih fun d hd => ht d (List.mem_cons_of_mem c hd)

theorem openBehind_append_blanks (hquote : ∀ q ∈ quote, isQuote q = true)
    (hu : ∀ c ∈ u, isBlank c = true) :
    openBehind sep depth quote previous (t ++ u) = openBehind sep depth quote previous t := by
  induction t generalizing depth quote previous with
  | nil => exact openBehind_of_isBlank hquote hu
  | cons c t ih => exact ih (isQuote_of_cutStep sep depth previous c hquote)

theorem openBehind_blanks_append (ht : ∀ c ∈ t, isBlank c = true) :
    openBehind sep depth none previous (t ++ u) = openBehind sep depth none previous u := by
  induction t generalizing previous with
  | nil => rfl
  | cons c t ih =>
      have hnone : ∀ q ∈ (none : Option Char), isQuote q = true := by simp
      rw [List.cons_append, openBehind, cutStep_blank_snd hnone (ht c List.mem_cons_self),
        ih fun d hd => ht d (List.mem_cons_of_mem c hd), openBehind_previous]

/-- Trimming changes nothing in what is open. -/
theorem openBehind_trim (t : Text) :
    openBehind sep depth none none (trim t) = openBehind sep depth none none t := by
  obtain ⟨lead, trail, ht, hlead, htrail⟩ := exists_trim_eq t
  conv => rhs; rw [ht]
  rw [openBehind_blanks_append hlead, openBehind_append_blanks (by simp) htrail]

-- =================================================== a cut and behind it

/-- A text in which nothing is cut. -/
def Uncut (sep : Char) (t : Text) : Prop := piecesFrom sep 0 none none t = [t]

/-- Behind a separator in front of which nothing is open, the cuts begin anew. -/
theorem piecesFrom_append_sep (hsep : IsSeparator sep)
    (hopen : openBehind sep depth quote previous t = (0, none)) (u : Text) :
    piecesFrom sep depth quote previous (t ++ sep :: u)
      = piecesFrom sep depth quote previous t ++ piecesFrom sep 0 none none u := by
  induction t generalizing depth quote previous with
  | nil =>
      injection hopen with hdepth hquote
      subst hdepth
      subst hquote
      rw [List.nil_append, piecesFrom_cons, hsep.cutStep, if_pos rfl, piecesFrom_previous none]
      rfl
  | cons c t ih =>
      rw [List.cons_append, piecesFrom_cons, piecesFrom_cons, ih hopen]
      split
      · rfl
      · obtain ⟨first, more, hfirst⟩ := List.exists_cons_of_ne_nil
          (piecesFrom_ne_nil sep (cutStep sep depth quote previous c).2.1
            (cutStep sep depth quote previous c).2.2 (some c) t)
        rw [hfirst]
        rfl

/-- In front of the first cut there is one piece with nothing open behind it. -/
theorem exists_cut (h : piecesFrom sep depth quote previous t = piece :: pieces)
    (hmore : pieces ≠ []) :
    IsSeparator sep ∧ piecesFrom sep depth quote previous piece = [piece] ∧
      openBehind sep depth quote previous piece = (0, none) ∧
      ∃ rest, piecesFrom sep 0 none none rest = pieces := by
  induction t generalizing depth quote previous piece with
  | nil =>
      injection h with _ hnil
      exact absurd hnil.symm hmore
  | cons c t ih =>
      rw [piecesFrom_cons] at h
      split at h
      · next hcut =>
        obtain ⟨rfl, rfl, rfl, hsep⟩ := of_cut hcut
        injection h with hpiece hpieces
        subst hpiece
        rw [hsep.cutStep, piecesFrom_previous none] at hpieces
        exact ⟨hsep, rfl, rfl, t, hpieces⟩
      · next hcut =>
        obtain ⟨first, more, hfirst⟩ := List.exists_cons_of_ne_nil
          (piecesFrom_ne_nil sep (cutStep sep depth quote previous c).2.1
            (cutStep sep depth quote previous c).2.2 (some c) t)
        rw [hfirst] at h
        injection h with hpiece hpieces
        subst hpiece
        subst hpieces
        obtain ⟨hsep, huncut, hopen, hrest⟩ := ih hfirst
        refine ⟨hsep, ?_, hopen, hrest⟩
        rw [piecesFrom_cons, if_neg hcut, huncut]
        rfl

-- ======================================================= trimmed pieces

/-- Nothing is cut in the beginning of a text in which nothing is. -/
theorem uncut_of_append (h : Uncut sep (t ++ u)) : Uncut sep t := by
  obtain ⟨init, last, _, _, _, first, more, ht, -, hall, -⟩ :=
    piecesFrom_append sep 0 none none t u
  unfold Uncut at h ⊢
  rw [h] at hall
  obtain ⟨rfl, -⟩ : init = [] ∧ more = [] := by
    have hlength := congrArg List.length hall
    simp only [List.length_append, List.length_cons, List.length_nil] at hlength
    exact ⟨List.eq_nil_of_length_eq_zero (by omega), List.eq_nil_of_length_eq_zero (by omega)⟩
  have hjoin := join_piecesFrom sep 0 none none t
  rw [ht] at hjoin ⊢
  exact congrArg (fun t => [t]) hjoin

/-- Nothing is cut in the rest of such a text behind its first blanks. -/
theorem uncut_of_blanks_append (ht : ∀ c ∈ t, isBlank c = true) (h : Uncut sep (t ++ u)) :
    Uncut sep u := by
  induction t with
  | nil => exact h
  | cons c t ih =>
      refine ih (fun d hd => ht d (List.mem_cons_of_mem c hd)) ?_
      have hnone : ∀ q ∈ (none : Option Char), isQuote q = true := by simp
      unfold Uncut at h ⊢
      rw [List.cons_append, piecesFrom_cons,
        cutStep_blank_snd hnone (ht c List.mem_cons_self), piecesFrom_previous none] at h
      split at h
      · cases h
      · obtain ⟨first, more, hfirst⟩ :=
          List.exists_cons_of_ne_nil (piecesFrom_ne_nil sep 0 none none (t ++ u))
        rw [hfirst] at h ⊢
        injection h with hpiece hmore
        injection hpiece with _ hpiece
        rw [hpiece, hmore]

theorem Uncut.trim (h : Uncut sep t) : Uncut sep (trim t) := by
  obtain ⟨lead, trail, ht, hlead, -⟩ := exists_trim_eq t
  rw [ht] at h
  exact uncut_of_append (uncut_of_blanks_append hlead h)

-- ==================================================== pieces to be joined

/-- Texts that are cut apart again once they are joined: each of them is one piece, and nothing is
open behind any but the last. -/
inductive Rejoinable (sep : Char) : List Text → Prop where
  | last {part : Text} (hpart : Uncut sep part) : Rejoinable sep [part]
  | cons {part : Text} {parts : List Text} (hsep : IsSeparator sep) (hpart : Uncut sep part)
      (hopen : openBehind sep 0 none none part = (0, none)) (hparts : Rejoinable sep parts) :
      Rejoinable sep (part :: parts)

/-- The pieces of a text are such. -/
theorem rejoinable_piecesFrom (sep : Char) (t : Text) :
    Rejoinable sep (piecesFrom sep 0 none none t) := by
  generalize hpieces : piecesFrom sep 0 none none t = pieces
  induction pieces generalizing t with
  | nil => exact absurd hpieces (piecesFrom_ne_nil sep 0 none none t)
  | cons piece pieces ih =>
      cases pieces with
      | nil =>
          have hjoin := join_piecesFrom sep 0 none none t
          rw [hpieces] at hjoin
          obtain rfl : piece = t := hjoin
          exact .last hpieces
      | cons next pieces =>
          obtain ⟨hsep, huncut, hopen, rest, hrest⟩ := exists_cut hpieces (List.cons_ne_nil _ _)
          exact .cons hsep huncut hopen (ih rest hrest)

namespace Rejoinable

theorem ne_nil (h : Rejoinable sep parts) : parts ≠ [] := by
  cases h <;> exact List.cons_ne_nil _ _

theorem uncut (h : Rejoinable sep parts) : ∀ part ∈ parts, Uncut sep part := by
  induction h with
  | last hpart => exact List.forall_mem_singleton.2 hpart
  | cons _ hpart _ _ ih => exact List.forall_mem_cons.2 ⟨hpart, ih⟩

/-- Joined, they are cut where they were joined. -/
theorem piecesFrom_join (h : Rejoinable sep parts) :
    piecesFrom sep 0 none none (join [sep] parts) = parts := by
  induction h with
  | last hpart => exact hpart
  | @cons part parts hsep hpart hopen hparts ih =>
      obtain ⟨next, more, rfl⟩ := List.exists_cons_of_ne_nil hparts.ne_nil
      have hjoin : join [sep] (part :: next :: more)
          = part ++ sep :: join [sep] (next :: more) := by
        rw [join, List.append_assoc]
        · rfl
        · exact List.cons_ne_nil next more
      rw [hjoin, piecesFrom_append_sep hsep hopen, ih, hpart]
      rfl

/-- What is left of them without blanks is such again, if anything is left. -/
theorem keptParts (h : Rejoinable sep pieces) :
    keptParts pieces = [] ∨ Rejoinable sep (keptParts pieces) := by
  induction h with
  | @last part hpart =>
      rw [keptParts_cons]
      split
      · exact .inl rfl
      · exact .inr (.last hpart.trim)
  | @cons part parts hsep hpart hopen _ ih =>
      rw [keptParts_cons]
      split
      · exact ih
      · rcases ih with hnil | hrest
        · rw [hnil]
          exact .inr (.last hpart.trim)
        · exact .inr (.cons hsep hpart.trim ((openBehind_trim part).trans hopen) hrest)

end Rejoinable

/-- Trimmed texts that are not empty are kept as they are. -/
theorem keptParts_eq_self (h : ∀ part ∈ parts, part ≠ [] ∧ Trimmed part) :
    keptParts parts = parts := by
  induction parts with
  | nil => rfl
  | cons part parts ih =>
      rw [List.forall_mem_cons] at h
      rw [keptParts_cons, h.1.2.trim_eq, if_neg h.1.1, ih h.2]

-- ======================================================== what is kept

/-- A character that is neither a blank nor the separator. -/
def isKept (sep c : Char) : Bool := !isBlank c && c != sep

theorem filter_isKept_of_isBlank (ht : ∀ c ∈ t, isBlank c = true) :
    t.filter (isKept sep) = [] := by
  refine List.filter_eq_nil_iff.2 fun c hc => ?_
  simp [isKept, ht c hc]

theorem filter_isKept_trim (t : Text) :
    (trim t).filter (isKept sep) = t.filter (isKept sep) := by
  obtain ⟨lead, trail, ht, hlead, htrail⟩ := exists_trim_eq t
  conv => rhs; rw [ht]
  rw [List.filter_append, List.filter_append, filter_isKept_of_isBlank hlead,
    filter_isKept_of_isBlank htrail, List.nil_append, List.append_nil]

theorem filter_isKept_keptParts (pieces : List Text) :
    (keptParts pieces).flatten.filter (isKept sep) = pieces.flatten.filter (isKept sep) := by
  induction pieces with
  | nil => rfl
  | cons piece pieces ih =>
      have hpiece : (trim piece).filter (isKept sep) = _ := filter_isKept_trim piece
      rw [keptParts_cons, List.flatten_cons, List.filter_append, ← ih, ← hpiece]
      split
      · next hnil => rw [hnil]; rfl
      · rw [List.flatten_cons, List.filter_append]

theorem filter_isKept_join (pieces : List Text) :
    (join [sep] pieces).filter (isKept sep) = pieces.flatten.filter (isKept sep) := by
  induction pieces with
  | nil => rfl
  | cons piece pieces ih =>
      cases pieces with
      | nil => simp [join]
      | cons next pieces =>
          have hsep : [sep].filter (isKept sep) = [] := by simp [isKept]
          rw [join, List.filter_append, List.filter_append, hsep, ih, List.append_nil,
            List.flatten_cons (l := piece), List.filter_append]
          exact List.cons_ne_nil next pieces

-- ======================================================= the main result

/-- A list that is put together from its parts has the same parts. Each of them has text and no
blanks around it, and is a list of one part, namely itself; and nothing of the text is missing from
them but blanks and separators. -/
theorem splitTopLevel_rejoin (sep : Char) (text : Text) :
    splitTopLevel sep (join [sep] (splitTopLevel sep text)) = splitTopLevel sep text ∧
      (∀ part ∈ splitTopLevel sep text,
        part ≠ [] ∧ Trimmed part ∧ splitTopLevel sep part = [part]) ∧
      (splitTopLevel sep text).flatten.filter (isKept sep) = text.filter (isKept sep) := by
  have hparts := (rejoinable_piecesFrom sep text).keptParts
  rw [← splitTopLevel_eq] at hparts
  refine ⟨?_, fun part hpart => ?_, ?_⟩
  · rcases hparts with hnil | hrejoin
    · rw [hnil]
      rfl
    · rw [splitTopLevel_eq, hrejoin.piecesFrom_join]
      exact keptParts_eq_self fun part => trimmed_of_mem_splitTopLevel
  · obtain ⟨hne, htrim⟩ := trimmed_of_mem_splitTopLevel hpart
    have hrejoin := hparts.resolve_left (List.ne_nil_of_mem hpart)
    refine ⟨hne, htrim, ?_⟩
    rw [splitTopLevel_eq, hrejoin.uncut part hpart]
    exact keptParts_eq_self (List.forall_mem_singleton.2 ⟨hne, htrim⟩)
  · rw [splitTopLevel_eq, filter_isKept_keptParts, ← filter_isKept_join, join_piecesFrom]

/-- A list with an empty part, a part in brackets, and a literal that is not closed. -/
def openList : Text := " {x, y} ,, f(\x22a\x22) ,\t\x22z, "

theorem splitTopLevel_openList :
    "{x, y}".toList ∈ splitTopLevel ',' openList ∧
      splitTopLevel ',' "{x, y}" = ["{x, y}".toList] := by
  have hmem : "{x, y}".toList ∈ splitTopLevel ',' openList := by decide
  exact ⟨hmem, ((splitTopLevel_rejoin ',' openList).2.1 _ hmem).2.2⟩

end GoSurvey.Source
