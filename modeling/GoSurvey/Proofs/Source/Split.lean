/-
The cuts between top-level separators, one character after another. What
a character does depends on the depth, on the literal it may stand in and
on the character before it (`cutStep`); it does not depend on what
follows. So the pieces of a text are those of its beginning, the last of
which goes on, and those of the rest (`piecesFrom_append`).

The pieces joined are the text again (`join_piecesFrom`): only blanks and
separators are missing from the parts of a list.
-/
import GoSurvey.Proofs.Text.Squeeze
import GoSurvey.Source.Split

namespace GoSurvey.Source

open Text

variable {sep c : Char} {depth : Int} {quote previous : Option Char} {t u : Text}

-- ============================================== one character at a time

/-- Whether a character is cut at, and the depth and the literal after it. -/
def cutStep (sep : Char) (depth : Int) (quote previous : Option Char) (c : Char) :
    Bool × Int × Option Char :=
  match quote with
  | some q => (false, depth, if c = q && previous ≠ some backslash then none else some q)
  | none =>
    if isQuote c then (false, depth, some c)
    else if isOpening c then (false, depth + 1, none)
    else if isClosing c then (false, depth - 1, none)
    else (decide (c = sep) && decide (depth = 0), depth, none)

/-- A character put before the first piece. -/
def extendFirst (c : Char) : List Text → List Text
  | [] => [[c]]
  | piece :: pieces => (c :: piece) :: pieces

/-- The pieces of a text from those of what follows its first character. -/
theorem piecesFrom_cons (rest : Text) :
    piecesFrom sep depth quote previous (c :: rest)
      = if (cutStep sep depth quote previous c).1 then
          [] :: piecesFrom sep (cutStep sep depth quote previous c).2.1
            (cutStep sep depth quote previous c).2.2 (some c) rest
        else extendFirst c (piecesFrom sep (cutStep sep depth quote previous c).2.1
          (cutStep sep depth quote previous c).2.2 (some c) rest) := by
  cases quote with
  | some q =>
      rw [piecesFrom]
      rfl
  | none =>
      rw [piecesFrom]
      unfold cutStep
      dsimp only
      by_cases hquote : isQuote c = true
      · rw [if_pos hquote, if_pos hquote]
        rfl
      · rw [if_neg hquote, if_neg hquote]
        by_cases hopen : isOpening c = true
        · rw [if_pos hopen, if_pos hopen]
          rfl
        · rw [if_neg hopen, if_neg hopen]
          by_cases hclose : isClosing c = true
          · rw [if_pos hclose, if_pos hclose]
            rfl
          · rw [if_neg hclose, if_neg hclose]
            rfl

theorem piecesFrom_ne_nil (sep : Char) (depth : Int) (quote previous : Option Char) (t : Text) :
    piecesFrom sep depth quote previous t ≠ [] := by
  cases t with
  | nil => simp [piecesFrom]
  | cons c t =>
      rw [piecesFrom_cons]
      split
      · exact List.cons_ne_nil _ _
      · cases piecesFrom sep (cutStep sep depth quote previous c).2.1
          (cutStep sep depth quote previous c).2.2 (some c) t <;> exact List.cons_ne_nil _ _

/-- A character that can be cut at. -/
structure IsSeparator (sep : Char) : Prop where
  quote : isQuote sep = false
  opening : isOpening sep = false
  closing : isClosing sep = false

theorem IsSeparator.cutStep (h : IsSeparator sep) :
    cutStep sep 0 none previous sep = (true, 0, none) := by
  unfold Source.cutStep
  simp [h.quote, h.opening, h.closing]

/-- A cut is made at separators alone, where nothing is open. -/
theorem of_cut (h : (cutStep sep depth quote previous c).1 = true) :
    c = sep ∧ depth = 0 ∧ quote = none ∧ IsSeparator sep := by
  cases quote with
  | some q => cases h
  | none =>
      unfold cutStep at h
      dsimp only at h
      split at h
      · cases h
      · next hquote =>
        split at h
        · cases h
        · next hopen =>
          split at h
          · cases h
          · next hclose =>
            rw [Bool.and_eq_true, decide_eq_true_eq, decide_eq_true_eq] at h
            obtain ⟨rfl, rfl⟩ := h
            exact ⟨rfl, rfl, rfl, by simpa using hquote, by simpa using hopen,
              by simpa using hclose⟩

theorem eq_sep_of_cut (h : (cutStep sep depth quote previous c).1 = true) : c = sep :=
  (of_cut h).1

/-- The literal that a text is in after a character is begun by a quote. -/
theorem isQuote_of_cutStep (sep : Char) (depth : Int) (previous : Option Char) (c : Char)
    (hquote : ∀ q ∈ quote, isQuote q = true) :
    ∀ q ∈ (cutStep sep depth quote previous c).2.2, isQuote q = true := by
  intro q hq
  unfold cutStep at hq
  cases quote with
  | some q' =>
      dsimp only at hq
      split at hq
      · cases hq
      · exact hquote q hq
  | none =>
      dsimp only at hq
      split at hq
      · next hc =>
        obtain rfl : c = q := Option.some.inj hq
        exact hc
      · split at hq
        · cases hq
        · split at hq <;> cases hq

/-- Outside literals the character before does not matter. -/
theorem piecesFrom_previous (previous' : Option Char) :
    piecesFrom sep depth none previous t = piecesFrom sep depth none previous' t := by
  cases t with
  | nil => rfl
  | cons c t => rw [piecesFrom_cons, piecesFrom_cons]; rfl

-- =============================================================== appends

/-- The last piece of a beginning goes on in what follows. -/
theorem piecesFrom_append (sep : Char) (depth : Int) (quote previous : Option Char) (t u : Text) :
    ∃ init last depth' quote' previous' first more,
      piecesFrom sep depth quote previous t = init ++ [last] ∧
      piecesFrom sep depth' quote' previous' u = first :: more ∧
      piecesFrom sep depth quote previous (t ++ u) = init ++ (last ++ first) :: more ∧
      ((∀ q ∈ quote, isQuote q = true) → ∀ q ∈ quote', isQuote q = true) := by
  induction t generalizing depth quote previous with
  | nil =>
      obtain ⟨first, more, hu⟩ :=
        List.exists_cons_of_ne_nil (piecesFrom_ne_nil sep depth quote previous u)
      exact ⟨[], [], depth, quote, previous, first, more, rfl, hu, hu, id⟩
  | cons c t ih =>
      obtain ⟨init, last, depth', quote', previous', first, more, ht, hu, htu, hlater⟩ :=
        ih (cutStep sep depth quote previous c).2.1 (cutStep sep depth quote previous c).2.2
          (some c)
      have hquote := fun h => hlater (isQuote_of_cutStep sep depth previous c h)
      by_cases hcut : (cutStep sep depth quote previous c).1 = true
      · refine ⟨[] :: init, last, depth', quote', previous', first, more, ?_, hu, ?_, hquote⟩
        · rw [piecesFrom_cons, if_pos hcut, ht]
          rfl
        · rw [List.cons_append, piecesFrom_cons, if_pos hcut, htu]
          rfl
      · rw [List.cons_append, piecesFrom_cons, piecesFrom_cons, if_neg hcut, if_neg hcut, ht, htu]
        cases init with
        | nil =>
            exact ⟨[], c :: last, depth', quote', previous', first, more, rfl, hu, rfl, hquote⟩
        | cons piece init =>
            exact ⟨(c :: piece) :: init, last, depth', quote', previous', first, more, rfl, hu, rfl,
              hquote⟩

/-- The pieces joined are the text. -/
theorem join_piecesFrom (sep : Char) (depth : Int) (quote previous : Option Char) (t : Text) :
    join [sep] (piecesFrom sep depth quote previous t) = t := by
  induction t generalizing depth quote previous with
  | nil => rfl
  | cons c t ih =>
      obtain ⟨first, more, hrest⟩ := List.exists_cons_of_ne_nil
        (piecesFrom_ne_nil sep (cutStep sep depth quote previous c).2.1
          (cutStep sep depth quote previous c).2.2 (some c) t)
      have hjoin := ih (cutStep sep depth quote previous c).2.1
        (cutStep sep depth quote previous c).2.2 (some c)
      rw [hrest] at hjoin
      rw [piecesFrom_cons, hrest]
      split
      · next hcut =>
        rw [eq_sep_of_cut hcut, ← hjoin]
        rfl
      · exact (join_cons [sep] c first more).trans (congrArg (c :: ·) hjoin)

/-- Where no piece holds a separator, all separators have been cut at. -/
theorem piecesFrom_eq_splitOn
    (h : ∀ piece ∈ piecesFrom sep depth quote previous t, sep ∉ piece) :
    piecesFrom sep depth quote previous t = splitOn sep t := by
  have hjoin := splitOn_join (piecesFrom_ne_nil sep depth quote previous t) h
  rw [join_piecesFrom] at hjoin
  exact hjoin.symm

theorem mem_join {x : Char} {pieces : List Text} (h : x ∈ join [sep] pieces) :
    x = sep ∨ ∃ piece ∈ pieces, x ∈ piece := by
  induction pieces with
  | nil => cases h
  | cons piece pieces ih =>
      cases pieces with
      | nil => exact .inr ⟨piece, List.mem_cons_self, h⟩
      | cons next pieces =>
          rw [join, List.append_assoc] at h
          · rcases List.mem_append.1 h with h | h
            · exact .inr ⟨piece, List.mem_cons_self, h⟩
            · rcases List.mem_cons.1 h with rfl | h
              · exact .inl rfl
              · rcases ih h with rfl | ⟨other, hother, hx⟩
                · exact .inl rfl
                · exact .inr ⟨other, List.mem_cons_of_mem piece hother, hx⟩
          · exact List.cons_ne_nil next pieces

theorem mem_join_of_mem {x : Char} {piece : Text} {pieces : List Text} (h : piece ∈ pieces)
    (hx : x ∈ piece) : x ∈ join [sep] pieces := by
  induction pieces with
  | nil => cases h
  | cons first pieces ih =>
      cases pieces with
      | nil =>
          rw [List.mem_singleton.1 h] at hx
          exact hx
      | cons next pieces =>
          rw [join, List.append_assoc]
          · rcases List.mem_cons.1 h with rfl | h
            · exact List.mem_append_left _ hx
            · exact List.mem_append_right _ (List.mem_cons_of_mem sep (ih h))
          · exact List.cons_ne_nil next pieces

-- =============================================================== parts

/-- The pieces that are more than blanks, trimmed. -/
def keptParts (pieces : List Text) : List Text := (pieces.map trim).filter (!·.isEmpty)

theorem keptParts_append (pieces pieces' : List Text) :
    keptParts (pieces ++ pieces') = keptParts pieces ++ keptParts pieces' := by
  simp [keptParts]

theorem keptParts_cons (piece : Text) (pieces : List Text) :
    keptParts (piece :: pieces)
      = if trim piece = [] then keptParts pieces else trim piece :: keptParts pieces := by
  unfold keptParts
  rw [List.map_cons, List.filter_cons]
  cases trim piece <;> rfl

theorem splitTopLevel_eq (sep : Char) (t : Text) :
    splitTopLevel sep t = keptParts (piecesFrom sep 0 none none t) := rfl

theorem mem_keptParts {part : Text} {pieces : List Text} :
    part ∈ keptParts pieces ↔ part ≠ [] ∧ ∃ piece ∈ pieces, trim piece = part := by
  simp [keptParts, and_comm]

/-- A part has text and no blanks around it. -/
theorem trimmed_of_mem_splitTopLevel {sep : Char} {t part : Text} (h : part ∈ splitTopLevel sep t) :
    part ≠ [] ∧ Trimmed part := by
  obtain ⟨hne, piece, -, rfl⟩ := mem_keptParts.1 h
  exact ⟨hne, trimmed_trim piece⟩

/-- What is no blank is kept by trimming. -/
theorem mem_trim {x : Char} (hx : isBlank x = false) : x ∈ trim t ↔ x ∈ t := by
  refine ⟨fun h => (trim_isInfix t).subset h, fun h => ?_⟩
  obtain ⟨lead, trail, ht, hlead, htrail⟩ := exists_trim_eq t
  have hnot : ∀ {v : Text}, (∀ d ∈ v, isBlank d = true) → x ∉ v := by
    intro v hv hmem
    have hblank := hv x hmem
    rw [hx] at hblank
    cases hblank
  rw [ht, List.mem_append, List.mem_append, or_iff_right (hnot hlead),
    or_iff_left (hnot htrail)] at h
  exact h

/-- Only blanks and separators are missing from the parts. -/
theorem exists_mem_part {x : Char} (hx : isBlank x = false) (hne : x ≠ sep) (h : x ∈ t) :
    ∃ part ∈ splitTopLevel sep t, x ∈ part := by
  rw [← join_piecesFrom sep 0 none none t] at h
  rcases mem_join h with rfl | ⟨piece, hpiece, hmem⟩
  · exact absurd rfl hne
  · have hpart := (mem_trim hx).2 hmem
    exact ⟨trim piece, mem_keptParts.2 ⟨List.ne_nil_of_mem hpart, piece, hpiece, rfl⟩, hpart⟩

theorem mem_of_mem_part {x : Char} {part : Text} (h : part ∈ splitTopLevel sep t)
    (hx : x ∈ part) : x ∈ t := by
  obtain ⟨-, piece, hpiece, rfl⟩ := mem_keptParts.1 h
  rw [← join_piecesFrom sep 0 none none t]
  exact mem_join_of_mem hpiece ((trim_isInfix piece).subset hx)

end GoSurvey.Source
