/-
The code of a line, which is what stands before the comment at its end.
In the code there is no further comment, so what has been stripped once
stays as it is (`stripLineComment_stripped`).
-/
import GoSurvey.Proofs.Text.Part
import GoSurvey.Source.Split

namespace GoSurvey.Source

open Text

variable {quote : Option Char} {skip : Bool} {c : Char} {t : Text}

-- ================================================ one character at a time

/-- At a character that is looked at outside literals a line comment begins. -/
structure BeginsComment (quote : Option Char) (skip : Bool) (c : Char) (rest : Text) : Prop where
  quote : quote = none
  skip : skip = false
  mark : c = '/' ∧ rest.head? = some '/'

theorem BeginsComment.before (h : BeginsComment quote skip c t) :
    beforeLineComment? quote skip (c :: t) = some [] := by
  obtain ⟨rfl, rfl, rfl, hhead⟩ := h
  have hquote : ¬isQuote '/' = true := by decide
  rw [beforeLineComment?, if_neg hquote, hhead]
  rfl

/-- Where none begins, the character belongs to the code, and the rest is read from a state that
does not depend on it. -/
theorem beforeLineComment?_cons (quote : Option Char) (skip : Bool) (c : Char) :
    ∃ quote' skip', ∀ t, ¬BeginsComment quote skip c t →
      beforeLineComment? quote skip (c :: t)
        = (beforeLineComment? quote' skip' t).map (c :: ·) := by
  cases skip with
  | true => exact ⟨quote, false, fun t _ => by cases quote <;> rfl⟩
  | false =>
      cases quote with
      | some quote => exact ⟨_, _, fun t _ => rfl⟩
      | none =>
          by_cases hquote : isQuote c = true
          · exact ⟨some c, false, fun t _ => by rw [beforeLineComment?, if_pos hquote]⟩
          · refine ⟨none, false, fun t hnot => ?_⟩
            have hmark : ¬(decide (c = '/') && decide (t.head? = some '/')) = true := by
              rw [Bool.and_eq_true, decide_eq_true_eq, decide_eq_true_eq]
              exact fun hmark => hnot ⟨rfl, rfl, hmark⟩
            rw [beforeLineComment?, if_neg hquote, if_neg hmark]

-- ============================================================== the code

/-- Before a line comment stands the code, and after the code the mark of the comment. -/
theorem beforeLineComment?_eq_some {code : Text} (h : beforeLineComment? quote skip t = some code) :
    ∃ comment, t = code ++ '/' :: '/' :: comment := by
  induction t generalizing quote skip code with
  | nil => cases quote <;> cases skip <;> cases h
  | cons c t ih =>
      by_cases hmark : BeginsComment quote skip c t
      · rw [hmark.before] at h
        obtain ⟨rfl, comment, rfl⟩ := hmark.mark.imp_right List.head?_eq_some_iff.1
        injection h with h
        exact ⟨comment, h ▸ rfl⟩
      · obtain ⟨quote', skip', hcons⟩ := beforeLineComment?_cons quote skip c
        rw [hcons t hmark] at h
        obtain ⟨code', hcode, rfl⟩ := Option.map_eq_some_iff.1 h
        obtain ⟨comment, rfl⟩ := ih hcode
        exact ⟨comment, rfl⟩

/-- A beginning of the code has no line comment. -/
theorem beforeLineComment?_of_isPrefix {code part : Text}
    (h : beforeLineComment? quote skip t = some code) (hpart : part <+: code) :
    beforeLineComment? quote skip part = none := by
  induction t generalizing quote skip code part with
  | nil => cases quote <;> cases skip <;> cases h
  | cons c t ih =>
      cases part with
      | nil => cases quote <;> cases skip <;> rfl
      | cons e part =>
          by_cases hmark : BeginsComment quote skip c t
          · rw [hmark.before] at h
            injection h with h
            rw [← h] at hpart
            exact absurd (List.prefix_nil.1 hpart) (List.cons_ne_nil e part)
          · obtain ⟨quote', skip', hcons⟩ := beforeLineComment?_cons quote skip c
            rw [hcons t hmark] at h
            obtain ⟨code', hcode, rfl⟩ := Option.map_eq_some_iff.1 h
            obtain ⟨rfl, hrest⟩ := List.cons_prefix_cons.1 hpart
            -- The mark of a comment in the beginning would be one in the text.
            have hmark' : ¬BeginsComment quote skip e part := by
              rintro ⟨hquote, hskip, hslash, hhead⟩
              obtain ⟨more, rfl⟩ := List.head?_eq_some_iff.1 hhead
              obtain ⟨comment, rfl⟩ := beforeLineComment?_eq_some hcode
              obtain ⟨more', rfl⟩ := hrest
              exact hmark ⟨hquote, hskip, hslash, rfl⟩
            rw [hcons part hmark', ih hcode hrest]
            rfl

/-- The code of a line is a beginning of it. -/
theorem stripLineComment_isPrefix (line : Text) : stripLineComment line <+: line := by
  unfold stripLineComment
  split
  · next code hcode =>
    obtain ⟨comment, rfl⟩ := beforeLineComment?_eq_some hcode
    exact (dropEndWhile_isPrefix isBlank code).trans (List.prefix_append code _)
  · exact List.prefix_rfl

/-- From the code of a line nothing more is taken. -/
theorem stripLineComment_stripped (line : Text) :
    stripLineComment (stripLineComment line) = stripLineComment line := by
  have hself : ∀ {t : Text}, beforeLineComment? none false t = none → stripLineComment t = t := by
    intro t ht
    unfold stripLineComment
    rw [ht]
  cases hcode : beforeLineComment? none false line with
  | none => rw [hself hcode, hself hcode]
  | some code =>
      have hline : stripLineComment line = trimEnd code := by
        unfold stripLineComment
        rw [hcode]
      rw [hline]
      exact hself (beforeLineComment?_of_isPrefix hcode (dropEndWhile_isPrefix isBlank code))

end GoSurvey.Source
