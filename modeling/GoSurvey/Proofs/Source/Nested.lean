/-
Balanced brackets. `nestedFrom` reads a text with the closing brackets
that are still expected, the innermost first; a text is nested if it
expects none before and none after.

A scan that is inside a group passes over a nested text and is as deep
after it as before (`run_nested`), so it ends a group where the brackets
say (`findMatching?_group`). A group that has been found by itself is
found in the same way wherever it stands (`findMatching?_of_group`).
-/
import GoSurvey.Proofs.Source.Inline
import GoSurvey.Proofs.Source.Matching
import GoSurvey.Proofs.Source.Position
import GoSurvey.Proofs.Source.Step

namespace GoSurvey.Source

open Text DelimiterScan

-- ============================================================ brackets

/-- The bracket that closes what a character opens. -/
def closerOf? (c : Char) : Option Char :=
  if c = '(' then some ')' else if c = '[' then some ']' else if c = '{' then some '}' else none

/-- Whether the brackets of a text are balanced where some closing brackets are expected. -/
def nestedFrom : (expected : List Char) → Text → Bool
  | expected, [] => expected.isEmpty
  | expected, c :: rest =>
    match closerOf? c with
    | some closer => nestedFrom (closer :: expected) rest
    | none =>
      if isClosing c then expected.head? == some c && nestedFrom expected.tail rest
      else nestedFrom expected rest

/-- Whether the brackets of a text are balanced. -/
def isNested (t : Text) : Bool := nestedFrom [] t

theorem closerOf?_eq_some_iff {c closer : Char} : closerOf? c = some closer ↔
    c = '(' ∧ closer = ')' ∨ c = '[' ∧ closer = ']' ∨ c = '{' ∧ closer = '}' := by
  unfold closerOf?
  constructor
  · intro h
    split at h
    · next hc => exact .inl ⟨hc, (Option.some.inj h).symm⟩
    · split at h
      · next hc => exact .inr (.inl ⟨hc, (Option.some.inj h).symm⟩)
      · split at h
        · next hc => exact .inr (.inr ⟨hc, (Option.some.inj h).symm⟩)
        · cases h
  · rintro (⟨rfl, rfl⟩ | ⟨rfl, rfl⟩ | ⟨rfl, rfl⟩) <;> rfl

theorem isClosing_iff {c : Char} : isClosing c = true ↔ c = ')' ∨ c = ']' ∨ c = '}' := by
  simp [isClosing, or_assoc]

theorem isOpening_iff {c : Char} : isOpening c = true ↔ (closerOf? c).isSome = true := by
  unfold isOpening closerOf?
  by_cases h₁ : c = '(' <;> by_cases h₂ : c = '[' <;> by_cases h₃ : c = '{' <;> simp [h₁, h₂, h₃]

/-- Different brackets are closed differently. -/
theorem closerOf?_inj {c c' closer : Char} (h : closerOf? c = some closer)
    (h' : closerOf? c' = some closer) : c = c' := by
  rcases closerOf?_eq_some_iff.1 h with ⟨rfl, rfl⟩ | ⟨rfl, rfl⟩ | ⟨rfl, rfl⟩ <;>
    simpa [eq_comm] using closerOf?_eq_some_iff.1 h'

theorem isClosing_of_closerOf? {c closer : Char} (h : closerOf? c = some closer) :
    isClosing closer = true := by
  rcases closerOf?_eq_some_iff.1 h with ⟨-, rfl⟩ | ⟨-, rfl⟩ | ⟨-, rfl⟩ <;> rfl

theorem closerOf?_of_isClosing {c : Char} (h : isClosing c = true) : closerOf? c = none := by
  rcases isClosing_iff.1 h with rfl | rfl | rfl <;> rfl

section Nested

variable {c closer : Char} {t u : Text} {expected : List Char}

theorem nestedFrom_opening (h : closerOf? c = some closer) :
    nestedFrom expected (c :: t) = nestedFrom (closer :: expected) t := by
  rw [nestedFrom, h]

theorem nestedFrom_closing (h : isClosing c = true) :
    nestedFrom expected (c :: t) = true
      ↔ ∃ outer, expected = c :: outer ∧ nestedFrom outer t = true := by
  rw [nestedFrom, closerOf?_of_isClosing h]
  dsimp only
  rw [if_pos h, Bool.and_eq_true, beq_iff_eq]
  cases expected with
  | nil => simp
  | cons e outer => simp

theorem nestedFrom_plain (hopen : closerOf? c = none) (hclose : isClosing c = false) :
    nestedFrom expected (c :: t) = nestedFrom expected t := by
  rw [nestedFrom, hopen]
  dsimp only
  rw [hclose, if_neg Bool.false_ne_true]

/-- After a text that is balanced by itself what was expected before is expected still. -/
theorem nestedFrom_append (h : nestedFrom expected t = true) (outer : List Char) :
    nestedFrom (expected ++ outer) (t ++ u) = nestedFrom outer u := by
  induction t generalizing expected with
  | nil =>
      rw [nestedFrom, List.isEmpty_iff] at h
      rw [h]
      rfl
  | cons c t ih =>
      rw [List.cons_append]
      cases hopen : closerOf? c with
      | some closer =>
          rw [nestedFrom_opening hopen] at h ⊢
          exact ih h
      | none =>
          cases hclose : isClosing c with
          | true =>
              obtain ⟨rest, rfl, hrest⟩ := (nestedFrom_closing hclose).1 h
              rw [nestedFrom, hopen]
              dsimp only
              rw [if_pos hclose]
              simpa using ih hrest
          | false =>
              rw [nestedFrom_plain hopen hclose] at h ⊢
              exact ih h

theorem isNested_append (ht : isNested t = true) : isNested (t ++ u) = isNested u :=
  nestedFrom_append ht []

theorem isNested_group (hcloser : closerOf? c = some closer) (ht : isNested t = true) :
    isNested (c :: (t ++ closer :: u)) = isNested u := by
  unfold isNested
  have hclose := isClosing_of_closerOf? hcloser
  rw [nestedFrom_opening hcloser, ← List.nil_append [closer], nestedFrom_append ht, nestedFrom,
    closerOf?_of_isClosing hclose]
  dsimp only
  rw [if_pos hclose]
  simp

theorem isNested_of_plain (h : ∀ c ∈ t, closerOf? c = none ∧ isClosing c = false) :
    isNested t = true := by
  unfold isNested
  induction t with
  | nil => rfl
  | cons c t ih =>
      obtain ⟨hopen, hclose⟩ := h c List.mem_cons_self
      rw [nestedFrom_plain hopen hclose]
      exact ih fun d hd => h d (List.mem_cons_of_mem c hd)

/-- What is expected is found, and up to there the text is balanced by itself. -/
theorem exists_closing {outer : List Char} (inside : List Char)
    (h : nestedFrom (inside ++ closer :: outer) t = true) :
    ∃ inner after, t = inner ++ closer :: after ∧ nestedFrom inside inner = true ∧
      nestedFrom outer after = true := by
  induction t generalizing inside with
  | nil => simp [nestedFrom] at h
  | cons c t ih =>
      cases hopen : closerOf? c with
      | some e =>
          rw [nestedFrom_opening hopen] at h
          obtain ⟨inner, after, rfl, hinner, hafter⟩ := ih (e :: inside) h
          exact ⟨c :: inner, after, rfl, (nestedFrom_opening hopen).trans hinner, hafter⟩
      | none =>
          cases hclose : isClosing c with
          | false =>
              rw [nestedFrom_plain hopen hclose] at h
              obtain ⟨inner, after, rfl, hinner, hafter⟩ := ih inside h
              exact ⟨c :: inner, after, rfl, (nestedFrom_plain hopen hclose).trans hinner, hafter⟩
          | true =>
              obtain ⟨rest, hrest, h⟩ := (nestedFrom_closing hclose).1 h
              cases inside with
              | nil =>
                  injection hrest with hcloser houter
                  subst hcloser
                  subst houter
                  exact ⟨[], t, rfl, rfl, h⟩
              | cons e inside =>
                  injection hrest with he hrest
                  subst he
                  subst hrest
                  obtain ⟨inner, after, rfl, hinner, hafter⟩ := ih inside h
                  exact ⟨e :: inner, after, rfl,
                    (nestedFrom_closing hclose).2 ⟨inside, rfl, hinner⟩, hafter⟩

/-- Wherever a text is cut, some closing brackets are expected in what is left. -/
theorem exists_nestedFrom (h : nestedFrom expected (t ++ u) = true) :
    ∃ expected', nestedFrom expected' u = true := by
  induction t generalizing expected with
  | nil => exact ⟨expected, h⟩
  | cons c t ih =>
      rw [List.cons_append] at h
      cases hopen : closerOf? c with
      | some closer => exact ih ((nestedFrom_opening hopen).symm.trans h)
      | none =>
          cases hclose : isClosing c with
          | false => exact ih ((nestedFrom_plain hopen hclose).symm.trans h)
          | true =>
              obtain ⟨rest, -, h⟩ := (nestedFrom_closing hclose).1 h
              exact ih h

/-- Every opening bracket of a balanced text has its group. -/
theorem exists_group (hcloser : closerOf? c = some closer) (h : isNested (t ++ c :: u) = true) :
    ∃ inner after, u = inner ++ closer :: after ∧ isNested inner = true := by
  obtain ⟨expected, h⟩ := exists_nestedFrom h
  rw [nestedFrom_opening hcloser] at h
  obtain ⟨inner, after, hu, hinner, -⟩ := exists_closing [] h
  exact ⟨inner, after, hu, hinner⟩

end Nested

-- =============================================================== scans

section Scan

variable {d : Delimiters} {y : Char} {t : Text} (pre post : Text)

theorem head?_append_cons : (t ++ y :: post).head? = (t ++ [y]).head? := by
  cases t <;> rfl

/-- A scan passes over a text without an opener as long as it has seen none. -/
theorem run_unopened (hbare : Bare (t ++ [y])) (hopener : d.opener ∉ t) (offset : Nat) :
    run d false (t ++ y :: post) offset {} = run d false (y :: post) (offset + t.length) {} := by
  induction t generalizing offset with
  | nil => rfl
  | cons c t ih =>
      rw [List.mem_cons, not_or] at hopener
      rw [List.cons_append] at hbare
      have hnext : ∀ z ∈ (t ++ y :: post).head?, NoMark c z := by
        rw [head?_append_cons]
        exact hbare.noMark
      have hc : c ≠ d.opener := fun h => hopener.1 h.symm
      have hstep := step_bare (d := d) 0 offset none _ (hbare.quote c List.mem_cons_self) hnext
      rw [if_neg hc, if_neg fun h => Nat.lt_irrefl 0 h.2] at hstep
      rw [List.cons_append, run, hstep]
      dsimp only
      rw [ih (hbare.part (List.suffix_cons _ _).isInfix) hopener.2, List.length_cons,
        Nat.add_right_comm offset 1]
      rfl

/-- A scan inside a group passes over what is nested in it: each bracket that is expected is one
that the scan counts, or none of its kind. -/
theorem run_nested (hd : closerOf? d.opener = some d.closer) (hbare : Bare (t ++ [y]))
    {expected : List Char} (hnested : nestedFrom expected t = true) {depth : Nat}
    (hdepth : 0 < depth) (p offset : Nat) :
    run d false (t ++ y :: post) offset ⟨.code, depth + expected.count d.closer, some p⟩
      = run d false (y :: post) (offset + t.length) ⟨.code, depth, some p⟩ := by
  induction t generalizing expected offset with
  | nil =>
      rw [nestedFrom, List.isEmpty_iff] at hnested
      rw [hnested]
      rfl
  | cons c t ih =>
      rw [List.cons_append] at hbare
      have hnext : ∀ z ∈ (t ++ y :: post).head?, NoMark c z := by
        rw [head?_append_cons]
        exact hbare.noMark
      have hlater : ∀ {expected' : List Char}, nestedFrom expected' t = true →
          run d false (t ++ y :: post) (offset + 1)
              ⟨.code, depth + expected'.count d.closer, some p⟩
            = run d false (y :: post) (offset + (c :: t).length) ⟨.code, depth, some p⟩ := by
        intro expected' h
        rw [ih (hbare.part (List.suffix_cons _ _).isInfix) h, List.length_cons,
          Nat.add_right_comm offset 1]
        rfl
      have hstep := step_bare (d := d) (depth + expected.count d.closer) offset (some p) _
        (hbare.quote c List.mem_cons_self) hnext
      have hclosing := isClosing_of_closerOf? hd
      rw [List.cons_append, run, hstep]
      cases hopen : closerOf? c with
      | some e =>
          rw [nestedFrom_opening hopen] at hnested
          have hnot : c ≠ d.closer := by
            intro h
            rw [h, closerOf?_of_isClosing hclosing] at hopen
            cases hopen
          have hcount := hlater hnested
          by_cases hc : c = d.opener
          · have he : e = d.closer := by
              rw [hc, hd] at hopen
              exact (Option.some.inj hopen).symm
            rw [he, List.count_cons_self, ← Nat.add_assoc] at hcount
            rw [if_pos hc]
            exact hcount
          · have he : e ≠ d.closer := fun h => hc (closerOf?_inj hopen (h ▸ hd))
            rw [List.count_cons_of_ne he] at hcount
            rw [if_neg hc, if_neg fun h => hnot h.1]
            exact hcount
      | none =>
          have hc : c ≠ d.opener := by
            intro h
            rw [h, hd] at hopen
            cases hopen
          rw [if_neg hc]
          cases hclose : isClosing c with
          | false =>
              rw [nestedFrom_plain hopen hclose] at hnested
              have hnot : c ≠ d.closer := fun h => by rw [h, hclosing] at hclose; cases hclose
              rw [if_neg fun h => hnot h.1]
              exact hlater hnested
          | true =>
              obtain ⟨outer, rfl, houter⟩ := (nestedFrom_closing hclose).1 hnested
              have hcount := hlater houter
              by_cases hc : c = d.closer
              · rw [hc, List.count_cons_self, if_pos ⟨rfl, by omega⟩, if_neg (by omega)]
                exact hcount
              · rw [List.count_cons_of_ne hc, if_neg fun h => hc h.1]
                exact hcount

/-- What stands before the first opener does not matter. -/
theorem findMatching?_unopened (hbare : Bare (t ++ [y]))
    (hopener : d.opener ∉ t) :
    findMatching? d (pre ++ (t ++ y :: post)) pre.length
      = findMatching? d (pre ++ (t ++ y :: post)) (pre.length + t.length) := by
  rw [findMatching?_eq_found, findMatching?_eq_found, List.drop_left, ← List.length_append,
    ← List.append_assoc, List.drop_left, run_unopened post hbare hopener, List.length_append]

/-- A group whose inside is nested is found from its opener on. -/
theorem findMatching?_group (hd : closerOf? d.opener = some d.closer)
    (hbare : Bare (t ++ [d.closer])) (hnested : isNested t = true) :
    findMatching? d (pre ++ d.opener :: (t ++ d.closer :: post)) pre.length
      = some (pre.length, pre.length + t.length + 1) := by
  have hquote : isQuote d.opener = false ∧ ∀ z, NoMark d.opener z := by
    rcases closerOf?_eq_some_iff.1 hd with ⟨h, -⟩ | ⟨h, -⟩ | ⟨h, -⟩ <;> rw [h] <;>
      exact ⟨rfl, fun z => by simp [NoMark]⟩
  have hne : d.closer ≠ d.opener := by
    intro h
    have hclose := closerOf?_of_isClosing (isClosing_of_closerOf? hd)
    rw [h, hd] at hclose
    cases hclose
  have hfollow : ∀ z, NoMark d.closer z := by
    rcases closerOf?_eq_some_iff.1 hd with ⟨-, h⟩ | ⟨-, h⟩ | ⟨-, h⟩ <;> rw [h] <;>
      exact fun z => by simp [NoMark]
  have hopenStep := step_bare (d := d) 0 pre.length none (t ++ d.closer :: post) hquote.1
    fun z _ => hquote.2 z
  have hcloseStep := step_bare (d := d) 1 (pre.length + 1 + t.length) (some pre.length) post
    (hbare.quote d.closer (List.mem_append_right t List.mem_cons_self)) fun z _ => hfollow z
  rw [if_pos rfl] at hopenStep
  rw [if_neg hne, if_pos ⟨rfl, Nat.one_pos⟩, if_pos rfl] at hcloseStep
  have hinside := run_nested post hd hbare hnested Nat.one_pos pre.length (pre.length + 1)
  rw [findMatching?_eq_found, List.drop_left, run]
  rw [show ({} : DelimiterScan) = ⟨.code, 0, none⟩ from rfl, hopenStep]
  dsimp only
  rw [Option.getD_none]
  refine (congrArg found hinside).trans ?_
  rw [run, hcloseStep]
  simp only [found, Option.map_some]
  congr 2
  omega

/-- What stands in a group and what stands after it are cut out at its delimiters. -/
theorem exists_findMatching?_group (hd : closerOf? d.opener = some d.closer)
    (hbare : Bare (t ++ [d.closer])) (hnested : isNested t = true) :
    ∃ opener closer,
      findMatching? d (pre ++ d.opener :: (t ++ d.closer :: post)) pre.length
        = some (opener, closer) ∧
      slice (pre ++ d.opener :: (t ++ d.closer :: post)) (opener + 1) closer = t ∧
      (pre ++ d.opener :: (t ++ d.closer :: post)).drop (closer + 1) = post := by
  refine ⟨_, _, findMatching?_group pre post hd hbare hnested, ?_, ?_⟩
  · rw [Nat.add_right_comm, slice_after_cons]
  · have hsplit : pre ++ d.opener :: (t ++ d.closer :: post)
        = (pre ++ d.opener :: (t ++ [d.closer])) ++ post := by simp
    have hlength : pre.length + t.length + 1 + 1
        = (pre ++ d.opener :: (t ++ [d.closer])).length := by
      simp only [List.length_append, List.length_cons, List.length_nil]
      omega
    rw [hlength, hsplit, List.drop_left]

end Scan

-- ================================================== groups found before

section Moved

variable {d : Delimiters}

/-- A scan whose text stands later by some characters. -/
def movedBy (k : Nat) (s : DelimiterScan) : DelimiterScan :=
  { s with openedAt := s.openedAt.map (· + k) }

/-- A scan finds in a text that stands later the same as before, later by as much. -/
theorem run_movedBy (k : Nat) (skip : Bool) (text : Text) (offset : Nat) (s : DelimiterScan) :
    run d skip text (offset + k) (movedBy k s)
      = ((run d skip text offset s).1.map (· + k), movedBy k (run d skip text offset s).2) :=
  run_mapOpenedAt (fun _ p => by cases p <;> rfl) skip text offset s

/-- A closer is no part of a mark, so what follows it does not matter. -/
theorem step_closed {s s' : DelimiterScan} {offset : Nat} {c : Char} {rest : Text}
    (hcloser : d.closer ≠ '/') (h : step d s offset c rest = .closed s') (post : Text) :
    step d s offset c post = .closed s' := by
  obtain ⟨heffect, rfl⟩ := of_step_closed h
  obtain ⟨hregion, hdepth, hc, hopener, hquote, -⟩ := effect_eq_balances_iff.1 heffect
  have hslash : c ≠ '/' := hc ▸ hcloser
  have hpost : effect d s.region s.depth c post.head? = .balances :=
    effect_eq_balances_iff.2 ⟨hregion, hdepth, hc, hopener, hquote, fun h => hslash h.1,
      fun h => hslash h.1⟩
  rw [step_eq, hpost]
  rfl

/-- A scan that has ended does not see what follows. -/
theorem run_append {q : Nat} {skip : Bool} {text : Text} {offset : Nat} {s : DelimiterScan}
    (hcloser : d.closer ≠ '/') (post : Text) (h : (run d skip text offset s).1 = some q) :
    run d skip (text ++ post) offset s = run d skip text offset s := by
  induction text generalizing skip offset s with
  | nil => cases skip <;> cases h
  | cons c rest ih =>
      cases skip with
      | true => exact ih h
      | false =>
          rw [run] at h
          have hstep : step d s offset c (rest ++ post) = step d s offset c rest := by
            cases rest with
            | cons e rest => rfl
            | nil =>
                cases hcase : step d s offset c [] with
                | next s' => rw [hcase] at h; cases h
                | afterNext s' => rw [hcase] at h; cases h
                | closed s' => exact step_closed hcloser hcase post
          rw [List.cons_append, run, run, hstep]
          cases hcase : step d s offset c rest with
          | next s' => rw [hcase] at h; exact ih h
          | afterNext s' => rw [hcase] at h; exact ih h
          | closed s' => rfl

/-- A group that is a text of its own is found wherever that text stands. -/
theorem findMatching?_of_group {group : Text} {p q : Nat} (hcloser : d.closer ≠ '/')
    (h : findMatching? d group 0 = some (p, q)) (pre post : Text) :
    findMatching? d (pre ++ (group ++ post)) pre.length
      = some (p + pre.length, q + pre.length) := by
  rw [findMatching?_eq_found, List.drop_zero] at h
  cases hrun : run d false group 0 {} with
  | mk closed s =>
      rw [hrun] at h
      cases closed with
      | none => cases h
      | some closer =>
          have hall := run_append hcloser post (congrArg Prod.fst hrun)
          have hmoved := run_movedBy (d := d) pre.length false (group ++ post) 0 {}
          rw [hall, hrun, Nat.zero_add] at hmoved
          obtain ⟨opener, hopener, heq⟩ := Option.map_eq_some_iff.1 h
          rw [Prod.mk.injEq] at heq
          rw [findMatching?_eq_found, List.drop_left]
          refine (congrArg found hmoved).trans ?_
          simp [found, movedBy, hopener, heq]

end Moved

end GoSurvey.Source
