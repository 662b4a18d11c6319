/-
One step of a scan. What a character does depends on where the scan is
lexically, on its depth and on the next character; the place of the
character and that of the first opener are carried along and decide
nothing. So a step is an `Effect`, which knows of no place, applied to
the scan (`step_eq`).

What all steps have in common is shown for the five effects. What is
special about one of them follows from where it occurs: an opener is
balanced by a closer in code (`effect_eq_balances_iff`), and two
characters are taken together only behind a backslash or as a mark
(`of_effect_eq_marks`), so a newline never is one of two.
-/
import GoSurvey.Source.Delimiter

namespace GoSurvey.Source

open Text DelimiterScan

/-- What a character does to a scan, whatever its place. -/
inductive Effect where
  /-- The scan goes on in a region. -/
  | enters (region : Region)
  /-- The character is taken together with the next one, and the scan goes on in a region. -/
  | marks (region : Region)
  | opens
  /-- An opener is closed that is not the first. -/
  | closes
  | balances

/-- The effect of a character, by the region and the depth of the scan and the next character. -/
def effect (d : Delimiters) (region : Region) (depth : Nat) (c : Char) (next : Option Char) :
    Effect :=
  match region with
  | .lineComment => .enters (if c = newline then .code else .lineComment)
  | .blockComment => if c = '*' ∧ next = some '/' then .marks .code else .enters .blockComment
  | .literal quote =>
    if c = backslash ∧ quote ≠ backtick then .marks (.literal quote)
    else .enters (if c = quote ∨ (c = newline ∧ quote ≠ backtick) then .code else .literal quote)
  | .code =>
    if c = '/' ∧ next = some '/' then .marks .lineComment
    else if c = '/' ∧ next = some '*' then .marks .blockComment
    else if isQuote c then .enters (.literal c)
    else if c = d.opener then .opens
    else if c = d.closer ∧ 0 < depth then if depth = 1 then .balances else .closes
    else .enters .code

/-- The step that an effect makes of a scan at an offset. -/
def Effect.apply (s : DelimiterScan) (offset : Nat) : Effect → Step
  | .enters region => .next { s with region := region }
  | .marks region => .afterNext { s with region := region }
  | .opens => .next ⟨.code, s.depth + 1, some (s.openedAt.getD offset)⟩
  | .closes => .next ⟨.code, s.depth - 1, s.openedAt⟩
  | .balances => .closed ⟨.code, 0, s.openedAt⟩

variable {d : Delimiters}

theorem step_eq (s : DelimiterScan) (offset : Nat) (c : Char) (rest : Text) :
    step d s offset c rest = (effect d s.region s.depth c rest.head?).apply s offset := by
  obtain ⟨region, depth, openedAt⟩ := s
  unfold step effect
  cases region with
  | lineComment => dsimp only; split <;> rfl
  | blockComment => dsimp only; split <;> rfl
  | literal quote =>
      dsimp only
      split
      · rfl
      · split <;> rfl
  | code =>
      dsimp only
      split
      · rfl
      · split
        · rfl
        · split
          · rfl
          · split
            · rfl
            · split
              · split <;> rfl
              · rfl

-- ================================================== effects of a kind

section Kinds

variable {region region' : Region} {depth : Nat} {c : Char} {next : Option Char}

/-- The first opener is balanced by a closer in code that begins no mark. -/
theorem effect_eq_balances_iff : effect d region depth c next = .balances ↔
    region = .code ∧ depth = 1 ∧ c = d.closer ∧ c ≠ d.opener ∧ isQuote c = false ∧
      ¬(c = '/' ∧ next = some '/') ∧ ¬(c = '/' ∧ next = some '*') := by
  cases region with
  | lineComment => simp [effect]
  | blockComment => simp only [effect]; split <;> simp
  | literal quote => simp only [effect]; split <;> simp
  | code => simp only [effect]; grind

theorem eq_opener_of_effect (h : effect d region depth c next = .opens) : c = d.opener := by
  cases region <;> simp only [effect] at h <;> grind

theorem eq_closer_of_effect (h : effect d region depth c next = .closes) : c = d.closer := by
  cases region <;> simp only [effect] at h <;> grind

/-- Two characters are taken together if the first is a backslash in a literal, or as a mark. -/
theorem of_effect_eq_marks (h : effect d region depth c next = .marks region') :
    c = backslash ∧ region' = region ∧ region ≠ .lineComment ∨
      (c = '/' ∨ c = '*') ∧ (next = some '/' ∨ next = some '*') := by
  cases region <;> simp only [effect] at h <;> grind

/-- A line comment begins with a mark, and a newline ends it. -/
theorem of_effect_eq_lineComment (h : effect d region depth c next = .enters .lineComment) :
    c ≠ newline := by
  cases region <;> simp only [effect] at h <;> grind

/-- A literal begins with the quote that ends it. -/
theorem of_effect_eq_literal {quote : Char}
    (h : effect d region depth c next = .enters (.literal quote) ∨
      effect d region depth c next = .marks (.literal quote)) :
    region = .literal quote ∨ isQuote quote = true := by
  cases region <;> simp only [effect] at h <;> grind

end Kinds

-- ================================================= the next character

/-- Of the next character it matters only whether it ends a mark. -/
theorem effect_congr {next next' : Option Char} (hslash : next = some '/' ↔ next' = some '/')
    (hstar : next = some '*' ↔ next' = some '*') (region : Region) (depth : Nat) (c : Char) :
    effect d region depth c next = effect d region depth c next' := by
  unfold effect
  simp only [hslash, hstar]

/-- Of what follows a character only the next one matters. -/
theorem step_congr {rest rest' : Text} (h : rest.head? = rest'.head?) (s : DelimiterScan)
    (offset : Nat) (c : Char) : step d s offset c rest = step d s offset c rest' := by
  rw [step_eq, step_eq, h]

/-- What begins with no end of a mark is like the end of the text. -/
theorem step_congr_nil {rest : Text} (hslash : rest.head? ≠ some '/')
    (hstar : rest.head? ≠ some '*') (s : DelimiterScan) (offset : Nat) (c : Char) :
    step d s offset c rest = step d s offset c [] := by
  have heffect : effect d s.region s.depth c rest.head? = effect d s.region s.depth c none :=
    effect_congr (by simp [hslash]) (by simp [hstar]) s.region s.depth c
  rw [step_eq, step_eq, heffect]
  rfl

/-- What follows a character that begins no mark does not matter. -/
theorem step_unmarked {c : Char} (hslash : c ≠ '/') (hstar : c ≠ '*') (s : DelimiterScan)
    (offset : Nat) (rest rest' : Text) : step d s offset c rest = step d s offset c rest' := by
  rw [step_eq, step_eq]
  unfold effect
  simp only [hslash, hstar, false_and, if_false]

-- ================================================= steps of a kind

section Steps

variable {s s' : DelimiterScan} {offset : Nat} {c : Char} {rest : Text}

/-- The scan that a step leads to. -/
def DelimiterScan.Step.scan : Step → DelimiterScan
  | .next s => s
  | .afterNext s => s
  | .closed s => s

/-- A scan ends where an opener is balanced. -/
theorem of_step_closed (h : step d s offset c rest = .closed s') :
    effect d s.region s.depth c rest.head? = .balances ∧ s' = ⟨.code, 0, s.openedAt⟩ := by
  rw [step_eq] at h
  cases heffect : effect d s.region s.depth c rest.head? with
  | balances =>
      rw [heffect] at h
      exact ⟨rfl, (Step.closed.inj h).symm⟩
  | _ => rw [heffect] at h; cases h

/-- A character that goes together with the next one is a backslash in a literal or the first of a
mark. -/
theorem of_step_afterNext (h : step d s offset c rest = .afterNext s') :
    c = backslash ∧ s'.region ≠ .lineComment ∨
      (c = '/' ∨ c = '*') ∧ (rest.head? = some '/' ∨ rest.head? = some '*') := by
  rw [step_eq] at h
  cases heffect : effect d s.region s.depth c rest.head? with
  | marks region =>
      rw [heffect] at h
      injection h with h
      rw [← h]
      refine (of_effect_eq_marks heffect).imp (fun ⟨hc, hregion, hne⟩ => ⟨hc, ?_⟩) id
      exact hregion ▸ hne
  | _ => rw [heffect] at h; cases h

/-- What is no delimiter opens and closes nothing. -/
theorem step_undelimited (hopener : c ≠ d.opener) (hcloser : c ≠ d.closer) (s : DelimiterScan)
    (offset : Nat) (rest : Text) : ∃ s', s'.openedAt = s.openedAt ∧
      (step d s offset c rest = .next s' ∨ step d s offset c rest = .afterNext s') := by
  rw [step_eq]
  cases heffect : effect d s.region s.depth c rest.head? with
  | enters region => exact ⟨{ s with region := region }, rfl, .inl rfl⟩
  | marks region => exact ⟨{ s with region := region }, rfl, .inr rfl⟩
  | opens => exact absurd (eq_opener_of_effect heffect) hopener
  | closes => exact absurd (eq_closer_of_effect heffect) hcloser
  | balances => exact absurd (effect_eq_balances_iff.1 heffect).2.2.1 hcloser

/-- A step sees no opener but at its own place. -/
theorem step_openedAt (s : DelimiterScan) (offset : Nat) (c : Char) (rest : Text) :
    (step d s offset c rest).scan.openedAt = s.openedAt ∨
      (step d s offset c rest).scan.openedAt = some offset := by
  obtain ⟨region, depth, openedAt⟩ := s
  rw [step_eq]
  cases effect d region depth c rest.head? with
  | opens =>
      cases openedAt with
      | none => exact .inr rfl
      | some p => exact .inl rfl
  | _ => exact .inl rfl

end Steps

-- ========================================================== the places

/-- A scan with another place of its first opener. -/
def DelimiterScan.mapOpenedAt (f : Option Nat → Option Nat) (s : DelimiterScan) : DelimiterScan :=
  { s with openedAt := f s.openedAt }

/-- The step that leads to another scan. -/
def DelimiterScan.Step.map (f : DelimiterScan → DelimiterScan) : Step → Step
  | .next s => .next (f s)
  | .afterNext s => .afterNext (f s)
  | .closed s => .closed (f s)

section Places

variable {f : Option Nat → Option Nat} {k : Nat}
  (hf : ∀ offset p, f (some (p.getD offset)) = some ((f p).getD (offset + k)))

include hf

theorem step_mapOpenedAt (s : DelimiterScan) (offset : Nat) (c : Char) (rest : Text) :
    step d (s.mapOpenedAt f) (offset + k) c rest
      = (step d s offset c rest).map (mapOpenedAt f) := by
  rw [step_eq, step_eq]
  show (effect d s.region s.depth c rest.head?).apply (s.mapOpenedAt f) (offset + k) = _
  cases effect d s.region s.depth c rest.head? with
  | opens =>
      show Step.next ⟨.code, s.depth + 1, some ((f s.openedAt).getD (offset + k))⟩ = _
      rw [← hf offset s.openedAt]
      rfl
  | _ => rfl

/-- A scan of a text that stands later by some characters finds everything later by as much, and
the place of an opener that was seen before is only carried along. -/
theorem run_mapOpenedAt (skip : Bool) (text : Text) (offset : Nat) (s : DelimiterScan) :
    run d skip text (offset + k) (s.mapOpenedAt f)
      = ((run d skip text offset s).1.map (· + k),
          (run d skip text offset s).2.mapOpenedAt f) := by
  induction text generalizing skip offset s with
  | nil => cases skip <;> rfl
  | cons c rest ih =>
      cases skip with
      | true =>
          rw [run, run, Nat.add_right_comm]
          exact ih false _ s
      | false =>
          rw [run, run, step_mapOpenedAt hf, Nat.add_right_comm]
          cases step d s offset c rest with
          | next s' => exact ih false _ s'
          | afterNext s' => exact ih true _ s'
          | closed s' => rfl

end Places

end GoSurvey.Source
