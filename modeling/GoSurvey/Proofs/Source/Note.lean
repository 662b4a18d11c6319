/-
A line comment behind a line of a text. In code the mark begins a comment
that ends with the line; in a comment or a literal its characters mean
nothing. So a scan comes out of the line as it would without the comment
(`run_note`), with one exception: a backslash at the end of the line,
where the scan is inside a literal, takes the next character with it.

What is found in a text is therefore found with the comment as well, only
later by its length where it stands behind it (`findMatching?_note`).
-/
import GoSurvey.Proofs.Source.Block
import GoSurvey.Proofs.Source.LineComment
import GoSurvey.Proofs.Source.Squeeze

namespace GoSurvey.Source

open Text DelimiterScan

/-- A line comment to be put behind a line. -/
def note : Text := " // note"

theorem head_note : ∀ c ∈ note.head?, c = ' ' := fun _ hc => (Option.some.inj hc).symm

variable {d : Delimiters} {s : DelimiterScan} {t u : Text}

-- ================================================= without delimiters

/-- A text in which the delimiters do not stand. -/
def Without (d : Delimiters) (t : Text) : Prop := ∀ c ∈ t, c ≠ d.opener ∧ c ≠ d.closer

instance (d : Delimiters) (t : Text) : Decidable (Without d t) :=
  List.decidableBAll (fun c => c ≠ d.opener ∧ c ≠ d.closer) t

theorem Without.append (ht : Without d t) (hu : Without d u) : Without d (t ++ u) :=
  List.forall_mem_append.2 ⟨ht, hu⟩

/-- Delimiters that are no part of the mark of a comment, and stand neither in the comment nor at
the end of its line. -/
structure ApartFromNote (d : Delimiters) : Prop where
  marks : Without d ['/', '*']
  note : Without d (note ++ [newline])

theorem apartFromNote_braces : ApartFromNote braces := ⟨by decide, by decide⟩

theorem apartFromNote_parentheses : ApartFromNote parentheses := ⟨by decide, by decide⟩

/-- A text without delimiters opens and closes nothing. -/
theorem run_without (hu : Without d u) (skip : Bool) (offset : Nat) (s : DelimiterScan) :
    (run d skip u offset s).1 = none ∧ (run d skip u offset s).2.openedAt = s.openedAt := by
  induction u generalizing skip offset s with
  | nil => cases skip <;> exact ⟨rfl, rfl⟩
  | cons c u ih =>
      unfold Without at hu
      rw [List.forall_mem_cons] at hu
      cases skip with
      | true => exact ih hu.2 false _ s
      | false =>
          obtain ⟨s', hopened, hstep⟩ := step_undelimited hu.1.1 hu.1.2 s offset u
          rw [run, ← hopened]
          rcases hstep with hstep | hstep
          · rw [hstep]
            exact ih hu.2 false _ s'
          · rw [hstep]
            exact ih hu.2 true _ s'

/-- Behind a text, such a one changes nothing in what is found. -/
theorem run_append_without (hd : Without d ['/', '*']) (hu : Without d u) (t : Text) (skip : Bool)
    (offset : Nat) (s : DelimiterScan) :
    (run d skip (t ++ u) offset s).1 = (run d skip t offset s).1 ∧
      (run d skip (t ++ u) offset s).2.openedAt = (run d skip t offset s).2.openedAt := by
  have hend : ∀ (skip : Bool) (offset : Nat) (s : DelimiterScan),
      (run d skip u offset s).1 = (run d skip [] offset s).1 ∧
        (run d skip u offset s).2.openedAt = (run d skip [] offset s).2.openedAt := by
    intro skip offset s
    cases skip <;> exact run_without hu _ offset s
  induction t generalizing skip offset s with
  | nil => exact hend skip offset s
  | cons c t ih =>
      cases skip with
      | true => exact ih false _ s
      | false =>
          cases t with
          | cons e t =>
              rw [List.cons_append, run, run,
                step_congr (show (e :: t ++ u).head? = (e :: t).head? from rfl)]
              cases step d s offset c (e :: t) with
              | next s' => exact ih false _ s'
              | afterNext s' => exact ih true _ s'
              | closed s' => exact ⟨rfl, rfl⟩
          | nil =>
              by_cases hc : c ≠ d.opener ∧ c ≠ d.closer
              · -- The character is no delimiter, so nothing is found on either side.
                have hlast : Without d [c] := List.forall_mem_singleton.2 hc
                obtain ⟨hclosed, hopened⟩ := run_without (hlast.append hu) false offset s
                obtain ⟨hclosed', hopened'⟩ := run_without hlast false offset s
                exact ⟨hclosed.trans hclosed'.symm, hopened.trans hopened'.symm⟩
              · -- A delimiter makes no mark with what follows it.
                have hmarks : c ≠ '/' ∧ c ≠ '*' := by
                  constructor
                  · rintro rfl
                    exact hc (hd _ (by simp))
                  · rintro rfl
                    exact hc (hd _ (by simp))
                rw [List.cons_append, List.nil_append, run, run,
                  step_unmarked hmarks.1 hmarks.2 s offset u []]
                cases step d s offset c [] with
                | next s' => exact hend false _ s'
                | afterNext s' => exact hend true _ s'
                | closed s' => exact ⟨rfl, rfl⟩

theorem hasUnbalanced_append (hd : ApartFromNote d) (hu : Without d u) (t : Text) :
    hasUnbalanced d (t ++ u) = hasUnbalanced d t := by
  have hnewline : Without d [newline] := fun c hc => hd.note c (List.mem_append_right note hc)
  obtain ⟨hclosed, hopened⟩ := run_append_without hd.marks (hu.append hnewline) t false 0 {}
  obtain ⟨hclosed', hopened'⟩ := run_append_without hd.marks hnewline t false 0 {}
  unfold hasUnbalanced
  rw [feed_line, feed_line, List.append_assoc]
  unfold opened
  dsimp only
  rw [hclosed, hopened, hclosed', hopened']

-- ==================================================== at the end of a line

theorem quoted_start : Quoted {} := fun _ h => Region.noConfusion h

/-- A scan that is in a literal at all has been led there by a quote. -/
theorem run_quoted (hs : Quoted s) (t : Text) (skip : Bool) (offset : Nat) :
    Quoted (run d skip t offset s).2 := by
  induction t generalizing skip offset s with
  | nil => cases skip <;> exact hs
  | cons c t ih =>
      cases skip with
      | true => exact ih hs false _
      | false =>
          have hstep := step_quoted (d := d) hs offset c t
          rw [run]
          cases hcase : step d s offset c t with
          | next s' =>
              rw [hcase] at hstep
              exact ih hstep false _
          | afterNext s' =>
              rw [hcase] at hstep
              exact ih hstep true _
          | closed s' =>
              rw [hcase] at hstep
              exact hstep

/-- At the end of a line the comment is passed over. -/
theorem run_note_newline (hd : ApartFromNote d) (hs : Quoted s) (offset : Nat) :
    run d false (note ++ [newline]) offset s = run d false [newline] offset s := by
  obtain ⟨region, depth, openedAt⟩ := s
  have hspace := hd.note ' ' (by decide)
  have hnewline := hd.note newline (by decide)
  cases region with
  | lineComment => rfl
  | blockComment => rfl
  | literal quote =>
      have hquote : ∀ c ∈ note, c ≠ quote := by
        rintro c hc rfl
        have hplain : ∀ c ∈ note, isQuote c = false := List.all_iff_forall_prop.1 (by decide)
        have hmark := hs c rfl
        rw [hplain c hc] at hmark
        cases hmark
      have hback : ∀ c ∈ note, c ≠ backslash ∧ c ≠ newline := List.all_iff_forall_prop.1 (by decide)
      have hpass : ∀ t : Text, (∀ c ∈ t, c ∈ note) → ∀ offset,
          run d false (t ++ [newline]) offset ⟨.literal quote, depth, openedAt⟩
            = run d false [newline] (offset + t.length) ⟨.literal quote, depth, openedAt⟩ := by
        intro t ht
        induction t with
        | nil => exact fun offset => rfl
        | cons c t ih =>
            intro offset
            rw [List.forall_mem_cons] at ht
            obtain ⟨hback, hnewline⟩ := hback c ht.1
            rw [List.cons_append, run]
            simp only [step, hback, hnewline, hquote c ht.1, false_and, or_false, if_false]
            rw [ih ht.2, List.length_cons, Nat.add_right_comm, Nat.add_assoc]
      rw [hpass note fun c hc => hc]
      have hnewline : newline ≠ backslash := by decide
      simp only [run, step, hnewline, false_and, if_false, true_and]
      by_cases hends : newline = quote ∨ quote ≠ backtick
      · rw [if_pos hends]
      · rw [if_neg hends]
  | code =>
      have hopen : ∀ offset rest, step d ⟨.code, depth, openedAt⟩ offset ' ' rest
          = .next ⟨.code, depth, openedAt⟩ := by
        intro offset rest
        simp [step, hspace, isQuote, doubleQuote, singleQuote, backtick]
      have hend : ∀ offset rest, step d ⟨.code, depth, openedAt⟩ offset newline rest
          = .next ⟨.code, depth, openedAt⟩ := by
        intro offset rest
        obtain ⟨hopener, hcloser⟩ := hnewline
        simp only [step, hopener, hcloser, false_and, if_false]
        rfl
      show run d false (' ' :: ("// note".toList ++ [newline])) offset _ = _
      rw [run, hopen, run, hend]
      rfl

/-- A scan comes out of a line with the comment as it does without, unless a backslash at the end
of the line takes a character with it. -/
theorem run_note (hd : ApartFromNote d) {line : Text} {skip : Bool}
    (hback : line.getLast? ≠ some backslash) (hskip : skip = true → line ≠ []) (hs : Quoted s)
    (offset : Nat) :
    run d skip (line ++ (note ++ [newline])) offset s
      = run d skip (line ++ [newline]) offset s := by
  induction line generalizing skip offset s with
  | nil =>
      cases skip with
      | true => exact absurd rfl (hskip rfl)
      | false => exact run_note_newline hd hs offset
  | cons c line ih =>
      have hlater : line.getLast? ≠ some backslash := by
        intro hlast
        apply hback
        rw [List.getLast?_cons, hlast]
        rfl
      cases skip with
      | true => exact ih hlater (fun h => Bool.noConfusion h) hs _
      | false =>
          have hstep : step d s offset c (line ++ (note ++ [newline]))
              = step d s offset c (line ++ [newline]) := by
            cases line with
            | cons e line => rfl
            | nil =>
                -- Neither a blank nor a newline makes a mark with the character before it.
                exact (step_congr_nil (by decide) (by decide) s offset c).trans
                  (step_congr_nil (by decide) (by decide) s offset c).symm
          have hquoted := step_quoted (d := d) hs offset c (line ++ [newline])
          rw [List.cons_append, List.cons_append, run, run, hstep]
          cases hcase : step d s offset c (line ++ [newline]) with
          | next s' =>
              rw [hcase] at hquoted
              exact ih hlater (fun h => Bool.noConfusion h) hquoted _
          | afterNext s' =>
              rw [hcase] at hquoted
              refine ih hlater (fun _ => ?_) hquoted _
              rintro rfl
              rcases of_step_afterNext hcase with ⟨rfl, -⟩ | ⟨-, hmark⟩
              · exact hback rfl
              · exact absurd hmark (by decide)
          | closed s' => rfl

theorem feed_note (hd : ApartFromNote d) {line : Text} (hback : line.getLast? ≠ some backslash)
    (hs : Quoted s) :
    feed d s (line ++ note ++ [newline]) 0 = feed d s (line ++ [newline]) 0 := by
  rw [feed_line, feed_line, List.append_assoc]
  exact run_note hd hback (fun h => Bool.noConfusion h) hs 0

-- ================================================================ blocks

variable {line : Text} {pre post : List Text}

/-- A block that goes over the line ends where it does without the comment. -/
theorem blockEndFrom_note (hd : ApartFromNote d) (hback : line.getLast? ≠ some backslash)
    (firstOnly : Bool) (index : Nat) (hs : Quoted s) :
    blockEndFrom d firstOnly (pre ++ (line ++ note) :: post) index s
      = blockEndFrom d firstOnly (pre ++ line :: post) index s := by
  induction pre generalizing firstOnly index s with
  | nil =>
      rw [List.nil_append, List.nil_append, blockEndFrom, blockEndFrom, feed_note hd hback hs]
  | cons first pre ih =>
      have hquoted := run_quoted (d := d) hs (first ++ [newline]) false 0
      rw [List.cons_append, List.cons_append, blockEndFrom, blockEndFrom, feed_line]
      generalize run d false (first ++ [newline]) 0 s = scan at hquoted
      obtain ⟨closed, s'⟩ := scan
      dsimp only
      rw [ih false (index + 1) hquoted]

/-- The end of a block, by the lines from its first on. -/
def BlockEnd.index (length start : Nat) : BlockEnd → Nat
  | .closedAt index => index
  | .unclosed => length - 1
  | .unopened => start

theorem endIndex_extractBlock? (sameLine : Bool) {lines : List Text} {start : Nat}
    (hstart : start < lines.length) :
    ((extractBlock? d sameLine lines start).map (·.endIndex)) =
      some ((blockEndFrom d sameLine (lines.drop start) start {}).index lines.length start) := by
  unfold extractBlock?
  rw [List.getElem?_eq_getElem hstart, Option.map_some, Option.map_some]
  cases blockEndFrom d sameLine (lines.drop start) start {} <;> rfl

theorem endIndex_note (hd : ApartFromNote d) (hback : line.getLast? ≠ some backslash)
    (sameLine : Bool) (start : Nat) :
    (extractBlock? d sameLine (pre ++ (line ++ note) :: post) start).map (·.endIndex)
      = (extractBlock? d sameLine (pre ++ line :: post) start).map (·.endIndex) := by
  have hlength : (pre ++ (line ++ note) :: post).length = (pre ++ line :: post).length := by simp
  by_cases hstart : start < (pre ++ line :: post).length
  · rw [endIndex_extractBlock? sameLine hstart,
      endIndex_extractBlock? sameLine (hlength.symm ▸ hstart), hlength]
    congr 2
    rcases Nat.le_total start pre.length with hle | hle
    · rw [List.drop_append_of_le_length hle, List.drop_append_of_le_length hle]
      exact blockEndFrom_note hd hback sameLine start quoted_start
    · -- A block below the line does not know of it.
      rcases Nat.eq_or_lt_of_le hle with rfl | hlt
      · rw [List.drop_left, List.drop_left]
        exact @blockEndFrom_note d {} line [] post hd hback sameLine _ quoted_start
      · obtain ⟨k, rfl⟩ := Nat.exists_eq_add_of_lt hlt
        rw [Nat.add_assoc, List.drop_length_add_append, List.drop_length_add_append]
        rfl
  · have hnone : ∀ {lines : List Text}, lines.length = (pre ++ line :: post).length →
        extractBlock? d sameLine lines start = none := by
      intro lines hlines
      unfold extractBlock?
      rw [List.getElem?_eq_none (by omega)]
      rfl
    rw [hnone hlength, hnone rfl]

theorem blockEnd_note (hd : ApartFromNote d) (hback : line.getLast? ≠ some backslash)
    (start : Nat) :
    blockEnd d (pre ++ (line ++ note) :: post) start = blockEnd d (pre ++ line :: post) start := by
  unfold blockEnd
  rw [endIndex_note hd hback]

-- ============================================================ one text

section Insertion

variable {a b : Text}

/-- Where a place of a text is once the comment has been put in behind some characters. -/
def moved (count : Nat) (offset : Nat) : Nat :=
  if offset ≤ count then offset else offset + note.length

theorem moved_of_le {count offset : Nat} (h : offset ≤ count) : moved count offset = offset :=
  if_pos h

theorem moved_of_lt {count offset : Nat} (h : count < offset) :
    moved count offset = offset + note.length :=
  if_neg (Nat.not_le_of_lt h)

/-- Behind the comment a text is what it was. -/
theorem drop_moved (a b : Text) {offset : Nat} (h : a.length < offset) :
    (a ++ (note ++ b)).drop (offset + note.length) = (a ++ b).drop offset := by
  obtain ⟨k, rfl⟩ := Nat.exists_eq_add_of_lt h
  have hleft : a.length + k + 1 + note.length = (a ++ note).length + (k + 1) := by
    rw [List.length_append]
    omega
  rw [hleft, ← List.append_assoc, List.drop_length_add_append, Nat.add_assoc,
    List.drop_length_add_append]

/-- A scan that begins behind the comment finds everything later by its length. -/
theorem findMatching?_behind (a b : Text) {start : Nat} (h : a.length < start) :
    findMatching? d (a ++ (note ++ b)) (start + note.length)
      = (findMatching? d (a ++ b) start).map fun (p, q) => (p + note.length, q + note.length) := by
  have hmoved := run_movedBy (d := d) note.length false ((a ++ b).drop start) start {}
  rw [findMatching?_eq_found, findMatching?_eq_found, drop_moved a b h]
  show found (run d false _ (start + note.length) (movedBy note.length {})) = _
  rw [hmoved]
  obtain ⟨closed, region, depth, openedAt⟩ := run d false ((a ++ b).drop start) start {}
  cases closed with
  | none => rfl
  | some q => cases openedAt <;> rfl

theorem found_congr {r r' : Option Nat × DelimiterScan} (hclosed : r.1 = r'.1)
    (hopened : r.2.openedAt = r'.2.openedAt) : found r = found r' := by
  obtain ⟨closed, s⟩ := r
  obtain ⟨closed', s'⟩ := r'
  obtain rfl : closed = closed' := hclosed
  cases closed with
  | none => rfl
  | some q => exact congrArg (Option.map fun opener => (opener, q)) hopened

/-- Behind the chunk that the comment ends, a scan finds everything later by its length. -/
theorem found_behind {count : Nat} (hopened : ∀ p ∈ s.openedAt, p ≤ count) (t : Text) :
    found (run d false t (count + 1 + note.length) s)
      = (found (run d false t (count + 1) s)).map
        fun (p, q) => (moved count p, moved count q) := by
  obtain ⟨region, depth, openedAt⟩ := s
  have hsince : (⟨region, depth, openedAt⟩ : DelimiterScan)
      = since openedAt ⟨region, depth, none⟩ := by
    cases openedAt <;> rfl
  have hmoved := run_movedBy (d := d) note.length false t (count + 1) ⟨region, depth, none⟩
  have hmoved : run d false t (count + 1 + note.length) ⟨region, depth, none⟩ = _ := hmoved
  obtain ⟨hclosed, hlater⟩ := run_bounds (d := d) t false (count + 1) ⟨region, depth, none⟩
  rw [hsince, run_since, run_since, hmoved]
  generalize run d false t (count + 1) ⟨region, depth, none⟩ = scan at hclosed hlater
  obtain ⟨closed, region', depth', openedAt'⟩ := scan
  cases closed with
  | none => rfl
  | some q =>
      have hq := hclosed q rfl
      have hq : moved count q = q + note.length := moved_of_lt (by omega)
      cases openedAt with
      | some p =>
          have hp := hopened p rfl
          simp [found, since, movedBy, hq, moved_of_le hp]
      | none =>
          cases openedAt' with
          | none => rfl
          | some p =>
              have hp : moved count p = p + note.length := by
                rcases hlater p rfl with hnone | hle
                · cases hnone
                · exact moved_of_lt (by omega)
              simp [found, since, movedBy, hq, hp]

/-- What stands in the line is where it was. -/
theorem map_moved_of_le {count : Nat} {pair? : Option (Nat × Nat)}
    (h : ∀ p q, pair? = some (p, q) → p ≤ count ∧ q ≤ count) :
    pair?.map (fun (p, q) => (moved count p, moved count q)) = pair? := by
  cases pair? with
  | none => rfl
  | some pair =>
      obtain ⟨p, q⟩ := pair
      obtain ⟨hp, hq⟩ := h p q rfl
      simp [moved_of_le hp, moved_of_le hq]

/-- Behind the last line, a text without delimiters changes nothing in what is found. -/
theorem findMatching?_append_without (hd : Without d ['/', '*']) (hu : Without d u) {start : Nat}
    (hle : start ≤ a.length) : findMatching? d (a ++ u) start = findMatching? d a start := by
  rw [findMatching?_eq_found, findMatching?_eq_found, List.drop_append_of_le_length hle]
  obtain ⟨hclosed, hopened⟩ := run_append_without hd hu (a.drop start) false start {}
  exact found_congr hclosed hopened

/-- From a place in the line on, what is found with the comment behind the line is found without,
later by its length if it stands behind the line. -/
theorem findMatching?_note_newline (hd : ApartFromNote d) (hback : a.getLast? ≠ some backslash)
    (b : Text) {start : Nat} (hle : start ≤ a.length) :
    findMatching? d (a ++ (note ++ newline :: b)) start
      = (findMatching? d (a ++ newline :: b) start).map
        fun (p, q) => (moved a.length p, moved a.length q) := by
  have hstart : start + (a.drop start).length = a.length := by
    rw [List.length_drop]
    omega
  have hback' : (a.drop start).getLast? ≠ some backslash := by
    rw [List.getLast?_drop]
    split
    · exact fun h => by cases h
    · exact hback
  rw [findMatching?_eq_found, findMatching?_eq_found, List.drop_append_of_le_length hle,
    List.drop_append_of_le_length hle]
  generalize a.drop start = x at hstart hback'
  have hchunk : run d false (x ++ note ++ [newline]) start {}
      = run d false (x ++ [newline]) start {} := by
    rw [List.append_assoc]
    exact run_note hd hback' (fun h => absurd h Bool.false_ne_true) quoted_start start
  have hnoted := run_line (d := d) (x ++ note) b false start {}
  have hplain := run_line (d := d) x b false start {}
  obtain ⟨hclosed, hopened⟩ := run_bounds (d := d) (x ++ [newline]) false start {}
  rw [List.length_append, List.length_singleton] at hclosed hopened
  rw [hchunk] at hnoted
  rw [← List.append_assoc, hnoted, hplain]
  generalize run d false (x ++ [newline]) start {} = chunk at hclosed hopened
  obtain ⟨closed, s⟩ := chunk
  have hseen : ∀ p ∈ s.openedAt, p ≤ a.length := by
    intro p hp
    rcases hopened p hp with hnone | hlt
    · cases hnone
    · omega
  cases closed with
  | none =>
      have hlength : start + (x ++ note).length + 1 = a.length + 1 + note.length := by
        rw [List.length_append]
        omega
      dsimp only
      rw [hlength, hstart]
      exact found_behind hseen b
  | some q =>
      have hq := (hclosed q rfl).2
      refine (map_moved_of_le fun p' q' hfound => ?_).symm
      obtain ⟨p, hp, hpair⟩ := Option.map_eq_some_iff.1 hfound
      injection hpair with hp' hq'
      subst hp' hq'
      exact ⟨hseen p hp, by omega⟩

/-- What a scan finds with the comment behind a line it finds without, later by its length if it
stands behind the line. -/
theorem findMatching?_note (hd : ApartFromNote d) (hne : d.opener ≠ d.closer)
    (hback : a.getLast? ≠ some backslash) (hb : ∀ c ∈ b.head?, c = newline) (start : Nat) :
    findMatching? d (a ++ (note ++ b)) (moved a.length start)
      = (findMatching? d (a ++ b) start).map
        fun (p, q) => (moved a.length p, moved a.length q) := by
  rcases Nat.lt_or_ge a.length start with hlt | hle
  · rw [moved_of_lt hlt, findMatching?_behind a b hlt]
    refine Option.map_congr fun pair hfound => ?_
    obtain ⟨p, q⟩ := pair
    obtain ⟨hp, hq, -⟩ := findMatching?_bounds hne hfound
    have hp : moved a.length p = p + note.length := moved_of_lt (by omega)
    have hq : moved a.length q = q + note.length := moved_of_lt (by omega)
    simp [hp, hq]
  · rw [moved_of_le hle]
    cases b with
    | nil =>
        have hnote : Without d note := fun c hc => hd.note c (List.mem_append_left [newline] hc)
        rw [List.append_nil, List.append_nil, findMatching?_append_without hd.marks hnote hle,
          map_moved_of_le]
        intro p q hfound
        obtain ⟨-, hpq, hq⟩ := findMatching?_bounds hne hfound
        omega
    | cons c b =>
        obtain rfl := hb c rfl
        exact findMatching?_note_newline hd hback b hle

end Insertion

-- ========================================================== one line

/-- The comment behind a line is seen as one when the line is read by itself: no literal is open
at its end. -/
def SeesNote (line : Text) : Prop := (beforeLineComment? none false (line ++ note)).isSome = true

instance (line : Text) : Decidable (SeesNote line) := inferInstanceAs (Decidable (_ = true))

/-- A comment that is seen is one of the line's own, or it is the one behind the line. -/
theorem beforeLineComment?_note {code : Text} {quote : Option Char} {skip : Bool}
    (hquote : ∀ q ∈ quote, isQuote q = true)
    (h : beforeLineComment? quote skip (t ++ note) = some code) :
    beforeLineComment? quote skip t = some code ∨
      beforeLineComment? quote skip t = none ∧ code = t ++ [' '] := by
  induction t generalizing quote skip code with
  | nil =>
      cases quote with
      | none =>
          cases skip with
          | true => exact .inr ⟨rfl, (Option.some.inj h).symm⟩
          | false => exact .inr ⟨rfl, (Option.some.inj h).symm⟩
      | some q =>
          have hq := hquote q rfl
          simp only [isQuote, Bool.or_eq_true, beq_iff_eq] at hq
          rcases hq with (rfl | rfl) | rfl <;> cases skip <;> cases h
  | cons c t ih =>
      have hcons : ∀ {quote : Option Char} {skip : Bool} {code : Text},
          (∀ q ∈ quote, isQuote q = true) →
          (beforeLineComment? quote skip (t ++ note)).map (c :: ·) = some code →
            (beforeLineComment? quote skip t).map (c :: ·) = some code ∨
              (beforeLineComment? quote skip t).map (c :: ·) = none ∧ code = c :: t ++ [' '] := by
        intro quote skip code hquote h
        obtain ⟨code', hcode, rfl⟩ := Option.map_eq_some_iff.1 h
        rcases ih hquote hcode with hsame | ⟨hnone, rfl⟩
        · exact .inl (by rw [hsame]; rfl)
        · exact .inr ⟨by rw [hnone]; rfl, rfl⟩
      cases skip with
      | true => cases quote <;> exact hcons hquote h
      | false =>
          cases quote with
          | some q =>
              refine hcons (fun q' hq' => ?_) h
              split at hq'
              · cases hq'
              · exact hquote q' hq'
          | none =>
              have hhead : ((t ++ note).head? = some '/') = (t.head? = some '/') := by
                cases t with
                | nil => exact propext (iff_of_false (by decide) (by decide))
                | cons d t => rfl
              rw [List.cons_append] at h
              simp only [beforeLineComment?, hhead] at h ⊢
              split
              · next hc =>
                rw [if_pos hc] at h
                exact hcons (fun q hq => Option.some.inj hq ▸ hc) h
              · next hc =>
                rw [if_neg hc] at h
                split
                · next hmark =>
                  rw [if_pos hmark] at h
                  exact .inl h
                · next hmark =>
                  rw [if_neg hmark] at h
                  exact hcons hquote h

/-- The code of a line is what it is without the comment, up to blanks at its end. -/
theorem stripLineComment_note {line : Text} (h : SeesNote line) :
    ∃ gap, stripLineComment line = stripLineComment (line ++ note) ++ gap ∧
      ∀ c ∈ gap, isBlank c = true := by
  obtain ⟨code, hcode⟩ := Option.isSome_iff_exists.1 h
  have hcases := beforeLineComment?_note (by simp) hcode
  unfold stripLineComment
  rw [hcode]
  dsimp only
  rcases hcases with hsame | ⟨hnone, rfl⟩
  · rw [hsame]
    exact ⟨[], by simp, by simp⟩
  · rw [hnone]
    dsimp only
    have hend : trimEnd (line ++ [' ']) = trimEnd line := by
      unfold trimEnd dropEndWhile
      rw [List.reverse_append]
      rfl
    rw [hend]
    obtain ⟨gap, hsplit, hgap⟩ := exists_dropEndWhile_eq isBlank line
    exact ⟨gap, hsplit, hgap⟩

/-- What is neither a quote nor a slash may stand before a line. -/
theorem seesNote_append {v : Text} (hv : ∀ c ∈ v, isQuote c = false ∧ c ≠ '/') :
    SeesNote (v ++ t) ↔ SeesNote t := by
  unfold SeesNote
  induction v with
  | nil => exact Iff.rfl
  | cons c v ih =>
      rw [List.forall_mem_cons] at hv
      rw [← ih hv.2, List.cons_append, List.cons_append, beforeLineComment?, hv.1.1]
      simp [hv.1.2]

end GoSurvey.Source
