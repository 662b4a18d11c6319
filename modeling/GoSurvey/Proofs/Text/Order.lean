/-
Texts in order. Texts are compared by their first difference, and lists of
texts likewise; both orders are total, so of two different members one
comes first (`lt_or_eq_or_lt`), and not to come after is to come first or
to be the same. That is how `Text.le` compares.
-/
import GoSurvey.Text.Basic

namespace GoSurvey

-- ======================================================= total orders

section Total

variable {α : Type} [LT α] [LE α] [Std.IsLinearOrder α] [Std.LawfulOrderLT α] {a b c : α}

/-- Of two members one comes first, unless they are the same. -/
theorem lt_or_eq_or_lt (a b : α) : a < b ∨ a = b ∨ b < a := by
  by_cases hab : a < b
  · exact .inl hab
  · by_cases hba : b < a
    · exact .inr (.inr hba)
    · exact .inr (.inl (Std.le_antisymm (Std.not_lt.1 hba) (Std.not_lt.1 hab)))

theorem eq_of_not_lt (hba : ¬b < a) (hab : ¬a < b) : a = b :=
  (lt_or_eq_or_lt a b).elim (absurd · hab) fun h => h.elim id (absurd · hba)

theorem lt_of_not_lt_of_ne (hba : ¬b < a) (hne : a ≠ b) : a < b :=
  (lt_or_eq_or_lt a b).elim id fun h => h.elim (absurd · hne) (absurd · hba)

theorem not_lt_trans (hba : ¬b < a) (hcb : ¬c < b) : ¬c < a :=
  Std.not_lt.2 (Std.le_trans (Std.not_lt.1 hba) (Std.not_lt.1 hcb))

theorem not_lt_or_not_lt (a b : α) : ¬b < a ∨ ¬a < b := by
  rcases lt_or_eq_or_lt a b with h | rfl | h
  · exact .inl (Std.not_lt.2 (Std.le_of_lt h))
  · exact .inl (Std.lt_irrefl)
  · exact .inr (Std.not_lt.2 (Std.le_of_lt h))

end Total

-- ============================================================== texts

namespace Text

variable {a b c : Text}

theorem le_iff_not_lt : le a b = true ↔ ¬b < a := by
  unfold le
  rw [Bool.not_eq_true', decide_eq_false_iff_not]

theorem le_trans (hab : le a b = true) (hbc : le b c = true) : le a c = true :=
  le_iff_not_lt.2 (not_lt_trans (le_iff_not_lt.1 hab) (le_iff_not_lt.1 hbc))

theorem le_total (a b : Text) : (le a b || le b a) = true := by
  rw [Bool.or_eq_true, le_iff_not_lt, le_iff_not_lt]
  exact not_lt_or_not_lt a b

theorem le_antisymm (hab : le a b = true) (hba : le b a = true) : a = b :=
  eq_of_not_lt (le_iff_not_lt.1 hab) (le_iff_not_lt.1 hba)

/-- Members that are sorted by a text are in the order of these texts. -/
theorem mergeSort_pairwise {α : Type} (key : α → Text) (xs : List α) :
    (xs.mergeSort fun a b => le (key a) (key b)).Pairwise fun a b => le (key a) (key b) = true := by
  have htrans : ∀ a b c : α, le (key a) (key b) = true → le (key b) (key c) = true →
      le (key a) (key c) = true := fun _ _ _ => le_trans
  have htotal : ∀ a b : α, (le (key a) (key b) || le (key b) (key a)) = true :=
    fun a b => le_total (key a) (key b)
  exact List.pairwise_mergeSort htrans htotal xs

end Text
end GoSurvey
