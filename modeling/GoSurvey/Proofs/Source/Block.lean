/-
Blocks of lines, fed to a scan one by one or scanned as one text.

Every line is fed with its newline. A newline ends a line comment, and
no mark of two characters goes over it; what does go over it, a literal
or a block comment, is part of what a scan keeps. So the scan of the text
up to a newline leaves the scan of what follows where the chunk leaves
it (`run_line`), and only the offsets differ, which are counted from the
start of the chunk in one case and of the text in the other.

The last newline, which the text does not have, makes no difference to
what is found (`run_newline_end`), since it is no delimiter.
-/
import GoSurvey.Proofs.Source.Nested
import GoSurvey.Proofs.Source.Position

namespace GoSurvey.Source

open Text DelimiterScan

variable {d : Delimiters}

-- ====================================================== one character

/-- A newline is taken for itself, and after it a scan is in no line comment. -/
theorem step_newline (s : DelimiterScan) (offset : Nat) (rest : Text) :
    (∃ s', step d s offset newline rest = .next s' ∧ s'.region ≠ .lineComment) ∨
      ∃ s', step d s offset newline rest = .closed s' := by
  have hcode : Region.code ≠ .lineComment := Region.noConfusion
  rw [step_eq]
  cases heffect : effect d s.region s.depth newline rest.head? with
  | enters region =>
      refine .inl ⟨{ s with region := region }, rfl, ?_⟩
      rintro rfl
      exact of_effect_eq_lineComment heffect rfl
  | marks region =>
      rcases of_effect_eq_marks heffect with ⟨hback, -⟩ | ⟨hmark, -⟩
      · exact absurd hback (by decide)
      · exact absurd hmark (by decide)
  | opens => exact .inl ⟨_, rfl, hcode⟩
  | closes => exact .inl ⟨_, rfl, hcode⟩
  | balances => exact .inr ⟨_, rfl⟩

/-- What goes over a newline is a literal: a mark of two characters that begins before it does not,
and so neither does a line comment. -/
theorem step_before_newline {s s' : DelimiterScan} {offset : Nat} {c : Char}
    (h : step d s offset c [newline] = .afterNext s') : s'.region ≠ .lineComment := by
  rcases of_step_afterNext h with ⟨-, hregion⟩ | ⟨-, hmark⟩
  · exact hregion
  · exact absurd hmark (by decide)

/-- The scan ends in code. -/
theorem step_closed_region {s s' : DelimiterScan} {offset : Nat} {c : Char} {rest : Text}
    (h : step d s offset c rest = .closed s') : s'.region = .code := by
  rw [(of_step_closed h).2]

-- =========================================================== one chunk

/-- The scan of a text up to a newline is the scan of that chunk, and what follows is scanned from
where the chunk leaves the scan. -/
theorem run_line (line after : Text) (skip : Bool) (offset : Nat) (s : DelimiterScan) :
    run d skip (line ++ newline :: after) offset s
      = match run d skip (line ++ [newline]) offset s with
        | (some q, s') => (some q, s')
        | (none, s') => run d false after (offset + line.length + 1) s' := by
  induction line generalizing skip offset s with
  | nil =>
      cases skip with
      | true => rfl
      | false =>
          rw [List.nil_append, List.nil_append, run, run,
            step_unmarked (by decide) (by decide) s offset after []]
          rcases step_newline (d := d) s offset [] with ⟨s', hs', -⟩ | ⟨s', hs'⟩
          · rw [hs']
            rfl
          · rw [hs']
  | cons c line ih =>
      have hoffset : offset + (c :: line).length + 1 = offset + 1 + line.length + 1 := by
        rw [List.length_cons]
        omega
      rw [hoffset, List.cons_append, List.cons_append]
      cases skip with
      | true => exact ih false _ s
      | false =>
          rw [run, run, step_congr (head?_append_cons after) s offset c]
          cases step d s offset c (line ++ [newline]) with
          | next s' => exact ih false _ s'
          | afterNext s' => exact ih true _ s'
          | closed s' => rfl

/-- A chunk that ends with a newline does not end in a line comment. -/
theorem run_line_region {line : Text} {skip : Bool} {offset : Nat} {s : DelimiterScan}
    (h : skip = true → line = [] → s.region ≠ .lineComment) :
    (run d skip (line ++ [newline]) offset s).2.region ≠ .lineComment := by
  induction line generalizing skip offset s with
  | nil =>
      cases skip with
      | true => exact h rfl rfl
      | false =>
          rw [List.nil_append, run]
          rcases step_newline (d := d) s offset [] with ⟨s', hs', hregion⟩ | ⟨s', hs'⟩
          · rw [hs']
            exact hregion
          · rw [hs']
            exact step_closed_region hs' ▸ Region.noConfusion
  | cons c line ih =>
      cases skip with
      | true => exact ih fun hskip => Bool.noConfusion hskip
      | false =>
          rw [List.cons_append, run]
          cases hstep : step d s offset c (line ++ [newline]) with
          | next s' => exact ih fun hskip => Bool.noConfusion hskip
          | afterNext s' =>
              refine ih fun _ hline => ?_
              rw [hline] at hstep
              exact step_before_newline hstep
          | closed s' => exact step_closed_region hstep ▸ Region.noConfusion

theorem feed_line (s : DelimiterScan) (line : Text) :
    feed d s (line ++ [newline]) 0 = run d false (line ++ [newline]) 0 s := by
  have hregion : (run d false (line ++ [newline]) 0 s).2.region ≠ .lineComment :=
    run_line_region fun hskip => Bool.noConfusion hskip
  unfold feed endChunk
  rw [List.drop_zero]
  exact Prod.ext rfl (if_neg hregion)

/-- A scan passes over code without delimiters. -/
theorem run_append_plain {t rest : Text} (hbare : Bare t)
    (hjoin : ∀ x ∈ t.getLast?, ∀ y ∈ rest.head?, NoMark x y) (hopener : d.opener ∉ t)
    (hcloser : d.closer ∉ t) (offset depth : Nat) (openedAt : Option Nat) :
    run d false (t ++ rest) offset ⟨.code, depth, openedAt⟩
      = run d false rest (offset + t.length) ⟨.code, depth, openedAt⟩ := by
  induction t generalizing offset with
  | nil => rfl
  | cons c t ih =>
      obtain ⟨hnext, hjoin'⟩ := hbare.noMark_append hjoin
      rw [List.mem_cons, not_or] at hopener hcloser
      rw [List.cons_append, run, step_bare depth offset openedAt _
        (hbare.quote c List.mem_cons_self) hnext, if_neg (Ne.symm hopener.1),
        if_neg fun h => hcloser.1 h.1.symm]
      dsimp only
      rw [ih (hbare.part (List.suffix_cons c t).isInfix) hjoin' hopener.2 hcloser.2,
        List.length_cons, Nat.add_right_comm offset 1]
      rfl

/-- Code without delimiters leaves a scan where it is. -/
theorem run_plain {line : Text} (hbare : Bare line) (hopener : d.opener ∉ line ++ [newline])
    (hcloser : d.closer ∉ line ++ [newline]) (offset depth : Nat) (openedAt : Option Nat) :
    run d false (line ++ [newline]) offset ⟨.code, depth, openedAt⟩
      = (none, ⟨.code, depth, openedAt⟩) := by
  have hend : Bare [newline] := by decide
  have hall : Bare (line ++ [newline]) := by
    refine hbare.append hend fun x _ y hy hmark => ?_
    rw [List.head?_cons, Option.mem_some_iff] at hy
    rw [← hy] at hmark
    exact absurd hmark.2 (by decide)
  have hrun : run d false (line ++ [newline] ++ []) offset ⟨.code, depth, openedAt⟩
      = run d false [] (offset + (line ++ [newline]).length) ⟨.code, depth, openedAt⟩ :=
    run_append_plain hall (by simp) hopener hcloser offset depth openedAt
  rw [List.append_nil] at hrun
  exact hrun

theorem feed_plain {line : Text} (hbare : Bare line) (hopener : d.opener ∉ line ++ [newline])
    (hcloser : d.closer ∉ line ++ [newline]) (depth : Nat) (openedAt : Option Nat) :
    feed d ⟨.code, depth, openedAt⟩ (line ++ [newline]) 0
      = (none, ⟨.code, depth, openedAt⟩) := by
  rw [feed_line]
  exact run_plain hbare hopener hcloser 0 depth openedAt

-- ========================================================= the last line

/-- A line that opens nothing is a block by itself. -/
theorem blockEnd_unopened {lines : List Text} {index : Nat} {line : Text}
    (hline : lines[index]? = some line)
    (hopened : (feed d {} (line ++ [newline]) 0).2.opened = false) :
    blockEnd d lines index = index := by
  have hdrop : lines.drop index = line :: lines.drop (index + 1) := by
    obtain ⟨hlt, hget⟩ := List.getElem?_eq_some_iff.1 hline
    rw [← hget, List.drop_eq_getElem_cons hlt]
  have hend : blockEndFrom d true (lines.drop index) index {} = .unopened := by
    rw [hdrop, blockEndFrom]
    dsimp only
    rw [hopened]
    rfl
  unfold blockEnd extractBlock?
  rw [hline, Option.map_some, hend]
  rfl

/-- A block whose lines leave the scan where the first of them did ends at the line that closes
it. -/
theorem blockEnd_closed {lines inside rest : List Text} {index : Nat} {first close : Text}
    {s : DelimiterScan} (hlines : lines.drop index = first :: (inside ++ close :: rest))
    (hfirst : feed d {} (first ++ [newline]) 0 = (none, s)) (hopened : s.opened = true)
    (hinside : ∀ line ∈ inside, feed d s (line ++ [newline]) 0 = (none, s))
    (hclose : (feed d s (close ++ [newline]) 0).1.isSome = true) :
    blockEnd d lines index = index + inside.length + 1 := by
  have hline : lines[index]? = some first := by
    rw [← List.head?_drop, hlines]
    rfl
  have hlater : ∀ from',
      blockEndFrom d false (inside ++ close :: rest) from' s
        = .closedAt (from' + inside.length) := by
    clear hlines
    induction inside with
    | nil =>
        intro from'
        rw [List.nil_append, blockEndFrom]
        simp only [Bool.false_and, Bool.false_eq_true, if_false, hclose, if_true]
        rfl
    | cons line inside ih =>
        intro from'
        rw [List.forall_mem_cons] at hinside
        rw [List.cons_append, blockEndFrom, hinside.1]
        simp only [Bool.false_and, Bool.false_eq_true, if_false, Option.isSome_none]
        rw [ih hinside.2, List.length_cons]
        exact congrArg BlockEnd.closedAt (by omega)
  have hend : blockEndFrom d true (lines.drop index) index {}
      = .closedAt (index + 1 + inside.length) := by
    rw [hlines, blockEndFrom, hfirst]
    dsimp only
    rw [hopened]
    exact hlater (index + 1)
  unfold blockEnd extractBlock?
  rw [hline, Option.map_some, hend]
  show index + 1 + inside.length = _
  omega

-- ============================================================ its newline

/-- A newline that is no delimiter opens and closes nothing. -/
theorem step_newline_plain (hopener : d.opener ≠ newline) (hcloser : d.closer ≠ newline)
    (s : DelimiterScan) (offset : Nat) (rest : Text) :
    ∃ s', step d s offset newline rest = .next s' ∧ s'.openedAt = s.openedAt := by
  obtain ⟨s', hopened, hnext | hafter⟩ := step_undelimited hopener.symm hcloser.symm s offset rest
  · exact ⟨s', hnext, hopened⟩
  · rcases of_step_afterNext hafter with ⟨hback, -⟩ | ⟨hmark, -⟩
    · exact absurd hback (by decide)
    · exact absurd hmark (by decide)

/-- A newline at the end of the text is no delimiter, so nothing else is found with it. -/
theorem run_newline_end (hopener : d.opener ≠ newline) (hcloser : d.closer ≠ newline) (text : Text)
    (skip : Bool) (offset : Nat) (s : DelimiterScan) :
    (run d skip (text ++ [newline]) offset s).1 = (run d skip text offset s).1 ∧
      (run d skip (text ++ [newline]) offset s).2.openedAt
        = (run d skip text offset s).2.openedAt := by
  induction text generalizing skip offset s with
  | nil =>
      cases skip with
      | true => exact ⟨rfl, rfl⟩
      | false =>
          obtain ⟨s', hs', hopened⟩ := step_newline_plain hopener hcloser s offset []
          have hend : run d false [newline] offset s = (none, s') := by
            rw [run, hs']
            rfl
          rw [List.nil_append, hend]
          exact ⟨rfl, hopened⟩
  | cons c text ih =>
      cases skip with
      | true => exact ih false _ s
      | false =>
          have hstep : step d s offset c (text ++ [newline]) = step d s offset c text := by
            cases text with
            | nil => exact step_congr_nil (by decide) (by decide) s offset c
            | cons e text => rfl
          rw [List.cons_append, run, run, hstep]
          cases step d s offset c text with
          | next s' => exact ih false _ s'
          | afterNext s' => exact ih true _ s'
          | closed s' => exact ⟨rfl, rfl⟩

-- ============================================= openers that were seen

/-- A scan that has seen its first opener before, if there is one. -/
def since (openedAt : Option Nat) (s : DelimiterScan) : DelimiterScan :=
  { s with openedAt := openedAt.or s.openedAt }

/-- The place of an opener that was seen before stays, and nothing else depends on it. -/
theorem run_since (openedAt : Option Nat) (skip : Bool) (text : Text) (offset : Nat)
    (s : DelimiterScan) :
    run d skip text offset (since openedAt s)
      = ((run d skip text offset s).1, since openedAt (run d skip text offset s).2) := by
  have hcarried : ∀ offset p, openedAt.or (some (p.getD offset))
      = some ((openedAt.or p).getD (offset + 0)) := fun _ p => by cases openedAt <;> rfl
  have hrun := run_mapOpenedAt (d := d) hcarried skip text offset s
  simp only [Nat.add_zero, Option.map_id_fun', id] at hrun
  exact hrun

/-- What a scan finds lies in its text. -/
theorem run_bounds (text : Text) (skip : Bool) (offset : Nat) (s : DelimiterScan) :
    (∀ q, (run d skip text offset s).1 = some q → offset ≤ q ∧ q < offset + text.length) ∧
      ∀ p, (run d skip text offset s).2.openedAt = some p →
        s.openedAt = some p ∨ offset ≤ p ∧ p < offset + text.length := by
  induction text generalizing skip offset s with
  | nil =>
      refine ⟨fun q hq => ?_, fun p hp => .inl ?_⟩
      · cases skip <;> cases hq
      · cases skip <;> exact hp
  | cons c rest ih =>
      have hlength : offset + (c :: rest).length = offset + 1 + rest.length := by
        rw [List.length_cons]
        omega
      rw [hlength]
      -- The scan of the rest, from where the first character leaves it.
      have hlater : ∀ (skip' : Bool) (s' : DelimiterScan),
          s'.openedAt = s.openedAt ∨ s'.openedAt = some offset →
          (∀ q, (run d skip' rest (offset + 1) s').1 = some q →
            offset ≤ q ∧ q < offset + 1 + rest.length) ∧
          ∀ p, (run d skip' rest (offset + 1) s').2.openedAt = some p →
            s.openedAt = some p ∨ offset ≤ p ∧ p < offset + 1 + rest.length := by
        intro skip' s' hs'
        obtain ⟨hclosed, hopened⟩ := ih skip' (offset + 1) s'
        refine ⟨fun q hq => ?_, fun p hp => ?_⟩
        · have hbounds := hclosed q hq
          omega
        · rcases hopened p hp with hp | hbounds
          · rcases hs' with hs' | hs'
            · exact .inl (hs' ▸ hp)
            · rw [hs'] at hp
              injection hp with hp
              exact .inr (by omega)
          · exact .inr (by omega)
      cases skip with
      | true => exact hlater false s (.inl rfl)
      | false =>
          rw [run]
          have hstep := step_openedAt (d := d) s offset c rest
          cases hcase : step d s offset c rest with
          | next s' =>
              rw [hcase] at hstep
              exact hlater false s' hstep
          | afterNext s' =>
              rw [hcase] at hstep
              exact hlater true s' hstep
          | closed s' =>
              rw [hcase] at hstep
              refine ⟨fun q hq => ?_, fun p hp => ?_⟩
              · injection hq with hq
                omega
              · rcases hstep with hstep | hstep
                · exact .inl (hstep ▸ hp)
                · have hp : some offset = some p := hstep ▸ hp
                  injection hp with hp
                  exact .inr (by omega)

-- ============================================================ all lines

/-- Where the scan of a text that begins at an offset, in the line of an index, leaves a block. -/
def endOf (index offset : Nat) (text : Text) : Option Nat × DelimiterScan → BlockEnd
  | (some q, _) => .closedAt (index + (text.take (q - offset)).count newline)
  | (none, s) => if s.opened then .unclosed else .unopened

/-- The scan of a chunk at an offset, from the scan of the chunk by itself. -/
theorem run_chunk (chunk : Text) (offset : Nat) (region : Region) (depth : Nat)
    (openedAt : Option Nat) :
    run d false chunk offset ⟨region, depth, openedAt⟩
      = ((run d false chunk 0 ⟨region, depth, none⟩).1.map (· + offset),
          since openedAt (movedBy offset (run d false chunk 0 ⟨region, depth, none⟩).2)) := by
  have hsince : (⟨region, depth, openedAt⟩ : DelimiterScan)
      = since openedAt (movedBy offset ⟨region, depth, none⟩) := by
    cases openedAt <;> rfl
  have hmoved := run_movedBy (d := d) offset false chunk 0 ⟨region, depth, none⟩
  rw [Nat.zero_add] at hmoved
  rw [hsince, run_since, hmoved]

/-- Feeding the lines leads to where the scan of their text does, be the offsets what they may. -/
theorem blockEndFrom_eq {lines : List Text} (hlines : ∀ line ∈ lines, newline ∉ line)
    (index offset : Nat) (region : Region) (depth : Nat) {fed whole : Option Nat}
    (hseen : fed.isSome = whole.isSome) :
    blockEndFrom d false lines index ⟨region, depth, fed⟩
      = endOf index offset (lines.flatMap (· ++ [newline]))
          (run d false (lines.flatMap (· ++ [newline])) offset ⟨region, depth, whole⟩) := by
  induction lines generalizing index offset region depth fed whole with
  | nil =>
      cases fed with
      | none =>
          cases whole with
          | none => rfl
          | some p => cases hseen
      | some p =>
          cases whole with
          | none => cases hseen
          | some p => rfl
  | cons line rest ih =>
      have htext : (line :: rest).flatMap (· ++ [newline])
          = line ++ newline :: rest.flatMap (· ++ [newline]) := by simp
      have hline := hlines line List.mem_cons_self
      have hrest : ∀ l ∈ rest, newline ∉ l := fun l hl => hlines l (List.mem_cons_of_mem line hl)
      have hbounds := (run_bounds (d := d) (line ++ [newline]) false 0 ⟨region, depth, none⟩).1
      have hfed := run_chunk (d := d) (line ++ [newline]) 0 region depth fed
      have hwhole := run_chunk (d := d) (line ++ [newline]) offset region depth whole
      have hsplit := run_line (d := d) line (rest.flatMap (· ++ [newline])) false offset
        ⟨region, depth, whole⟩
      rw [htext, blockEndFrom, feed_line, hsplit, hfed, hwhole]
      generalize run d false (line ++ [newline]) 0 ⟨region, depth, none⟩ = chunk at hbounds ⊢
      obtain ⟨closed, region', depth', openedAt⟩ := chunk
      cases closed with
      | some q =>
          have hq := (hbounds q rfl).2
          rw [List.length_append, List.length_singleton] at hq
          have htake : (line ++ newline :: rest.flatMap (· ++ [newline])).take q <+: line := by
            rw [List.take_append_of_le_length (by omega)]
            exact List.take_prefix q line
          have hcount : ((line ++ newline :: rest.flatMap (· ++ [newline])).take q).count newline
              = 0 := List.count_eq_zero.2 fun h => hline (htake.subset h)
          simp [endOf, hcount]
      | none =>
          have hseen' : (fed.or (openedAt.map (· + 0))).isSome
              = (whole.or (openedAt.map (· + offset))).isSome := by
            simp [hseen]
          have hstep := ih hrest (index + 1) (offset + line.length + 1) region' depth' hseen'
          refine hstep.trans ?_
          have hlater := (run_bounds (d := d) (rest.flatMap (· ++ [newline])) false
            (offset + line.length + 1)
            ⟨region', depth', whole.or (openedAt.map (· + offset))⟩).1
          dsimp only [since, movedBy, Option.map_none]
          generalize run d false (rest.flatMap (· ++ [newline])) (offset + line.length + 1)
            ⟨region', depth', whole.or (openedAt.map (· + offset))⟩ = later at hlater ⊢
          obtain ⟨closed, s⟩ := later
          cases closed with
          | none => rfl
          | some q =>
              have hq := (hlater q rfl).1
              obtain ⟨k, rfl⟩ := Nat.exists_eq_add_of_le hq
              have hcount := List.count_eq_zero.2 hline
              have hback : offset + line.length + 1 + k - offset = line.length + (k + 1) := by omega
              simp only [endOf, Nat.add_sub_cancel_left, hback, List.take_length_add_append,
                List.take_succ_cons, List.count_append, hcount, List.count_cons_self]
              congr 1
              omega

-- ================================================= the whole text

/-- Where the scan of a text sees its first opener. -/
def firstOpener? (d : Delimiters) (text : Text) : Option Nat := (feed d {} text 0).2.openedAt

/-- A block may begin with the opener at an offset: with `sameLine` that one has to stand in the
first line. -/
def MayOpen (sameLine : Bool) (text : Text) (opener : Nat) : Prop :=
  sameLine = true → newline ∉ text.take opener

theorem firstOpener?_eq (d : Delimiters) (text : Text) :
    firstOpener? d text = (run d false text 0 {}).2.openedAt := by
  unfold firstOpener? feed
  rw [List.drop_zero, endChunk_openedAt]

/-- A scan that counts openers has seen one. -/
def Counted (s : DelimiterScan) : Prop := 0 < s.depth → s.opened = true

theorem step_counted {s : DelimiterScan} (h : Counted s) (offset : Nat) (c : Char) (rest : Text) :
    Counted (step d s offset c rest).scan ∧
      ∀ s', step d s offset c rest = .closed s' → s'.opened = true := by
  rw [step_eq]
  cases heffect : effect d s.region s.depth c rest.head? with
  | enters region => exact ⟨h, nofun⟩
  | marks region => exact ⟨h, nofun⟩
  | opens => exact ⟨fun _ => rfl, nofun⟩
  | closes => exact ⟨fun hdepth => h (Nat.lt_of_lt_of_le hdepth (Nat.sub_le s.depth 1)), nofun⟩
  | balances =>
      have hdepth : s.depth = 1 := (effect_eq_balances_iff.1 heffect).2.1
      refine ⟨fun hzero => absurd hzero (Nat.lt_irrefl 0), ?_⟩
      rintro s' ⟨⟩
      exact h (by omega)

/-- Where the first opener is balanced there is one. -/
theorem opened_of_closed {text : Text} {skip : Bool} {offset q : Nat} {s : DelimiterScan}
    (hs : Counted s) (h : (run d skip text offset s).1 = some q) :
    (run d skip text offset s).2.opened = true := by
  induction text generalizing skip offset s with
  | nil => cases skip <;> cases h
  | cons c rest ih =>
      cases skip with
      | true => exact ih hs h
      | false =>
          obtain ⟨hcounted, hclosed⟩ := step_counted (d := d) hs offset c rest
          rw [run] at h ⊢
          cases hcase : step d s offset c rest with
          | next s' =>
              rw [hcase] at h hcounted
              exact ih hcounted h
          | afterNext s' =>
              rw [hcase] at h hcounted
              exact ih hcounted h
          | closed s' => exact hclosed s' hcase

/-- An opener is seen in the first line exactly if the first opener of the text stands there. -/
theorem opened_line_iff {line : Text} (hline : newline ∉ line) (after : Text) :
    (run d false (line ++ [newline]) 0 {}).2.opened = true ↔
      ∃ p, (run d false (line ++ newline :: after) 0 {}).2.openedAt = some p ∧
        newline ∉ (line ++ newline :: after).take p := by
  have hsplit := run_line (d := d) line after false 0 {}
  have hbounds := (run_bounds (d := d) (line ++ [newline]) false 0 {}).2
  generalize run d false (line ++ [newline]) 0 {} = chunk at hsplit hbounds ⊢
  obtain ⟨closed, s⟩ := chunk
  have hkept : ∀ p, s.openedAt = some p →
      (run d false (line ++ newline :: after) 0 {}).2.openedAt = some p := by
    intro p hp
    rw [hsplit]
    cases closed with
    | some q => exact hp
    | none =>
        have hsince : s = since (some p) s := by
          unfold since
          rw [← hp, Option.or_self]
        dsimp only
        rw [hsince, run_since]
        rfl
  constructor
  · intro h
    obtain ⟨p, hp⟩ := Option.isSome_iff_exists.1 h
    have hlt := hbounds p hp
    refine ⟨p, hkept p hp, fun hmem => ?_⟩
    rw [List.length_append, List.length_singleton] at hlt
    rcases hlt with hnone | hlt
    · cases hnone
    · rw [List.take_append_of_le_length (by omega)] at hmem
      exact hline (List.mem_of_mem_take hmem)
  · rintro ⟨p, hp, hfirst⟩
    cases hs : s.openedAt with
    | some p' =>
        unfold opened
        rw [hs]
        rfl
    | none =>
        -- The opener is seen after the chunk, so the newline of the chunk stands before it.
        rw [hsplit] at hp
        cases closed with
        | some q => rw [hs] at hp; cases hp
        | none =>
            rcases (run_bounds after false _ s).2 p hp with hseen | ⟨hle, -⟩
            · rw [hs] at hseen
              cases hseen
            · refine absurd ?_ hfirst
              have hmem : newline ∈ (line ++ newline :: after).take (line.length + 1) := by
                rw [List.take_length_add_append]
                simp
              exact (List.take_prefix_take_left (by omega)).subset hmem

/-- The first opener of a text may begin a block. -/
def Opens (d : Delimiters) (sameLine : Bool) (text : Text) : Prop :=
  ∃ p, firstOpener? d text = some p ∧ MayOpen sameLine text p

/-- What is found in a text is what the scan of it has seen and balanced. -/
theorem findMatching?_eq_some {text : Text} {p q : Nat} :
    findMatching? d text 0 = some (p, q) ↔
      firstOpener? d text = some p ∧ (run d false text 0 {}).1 = some q := by
  rw [findMatching?_eq_found, firstOpener?_eq, List.drop_zero]
  obtain ⟨closed, s⟩ := run d false text 0 {}
  cases closed with
  | none => simp [found]
  | some closer => simp [found]

/-- Where the scan of a text balances the first opener, that one has been seen. -/
theorem exists_firstOpener {text : Text} {q : Nat} (h : (run d false text 0 {}).1 = some q) :
    ∃ p, firstOpener? d text = some p := by
  rw [firstOpener?_eq]
  exact Option.isSome_iff_exists.1 (opened_of_closed (fun h => absurd h (Nat.lt_irrefl 0)) h)

/-- Nothing is found exactly if the scan of the text balances nothing. -/
theorem findMatching?_eq_none {text : Text} :
    findMatching? d text 0 = none ↔ (run d false text 0 {}).1 = none := by
  constructor
  · intro hnone
    cases hrun : (run d false text 0 {}).1 with
    | none => rfl
    | some q =>
        obtain ⟨p, hp⟩ := exists_firstOpener hrun
        rw [findMatching?_eq_some.2 ⟨hp, hrun⟩] at hnone
        cases hnone
  · intro hrun
    cases hfound : findMatching? d text 0 with
    | none => rfl
    | some span =>
        obtain ⟨-, hclosed⟩ := findMatching?_eq_some.1 hfound
        rw [hrun] at hclosed
        cases hclosed

section WholeText

variable (hopener : d.opener ≠ newline) (hcloser : d.closer ≠ newline) {first : Text}
  {rest : List Text} (hlines : ∀ line ∈ first :: rest, newline ∉ line) (index : Nat)

include hopener hcloser hlines

/-- Without a condition on the line of the opener the block ends with the scan of the text. -/
theorem blockEndFrom_text :
    blockEndFrom d false (first :: rest) index {}
      = match (run d false (joinLines (first :: rest)) 0 {}).1 with
        | some q => .closedAt (index + ((joinLines (first :: rest)).take q).count newline)
        | none =>
          if (firstOpener? d (joinLines (first :: rest))).isSome then .unclosed else .unopened := by
  have hnone : (none : Option Nat).isSome = (none : Option Nat).isSome := rfl
  have hfed := blockEndFrom_eq (d := d) hlines index 0 .code 0 hnone
  have hend := run_newline_end hopener hcloser (joinLines (first :: rest)) false 0 {}
  have hbounds := (run_bounds (d := d) (joinLines (first :: rest)) false 0 {}).1
  rw [flatMap_newline (List.cons_ne_nil first rest)] at hfed
  refine hfed.trans ?_
  rw [firstOpener?_eq]
  generalize run d false (joinLines (first :: rest)) 0 {} = r at hend hbounds ⊢
  generalize run d false (joinLines (first :: rest) ++ [newline]) 0 {} = r' at hend ⊢
  obtain ⟨closed, s⟩ := r
  obtain ⟨closed', s'⟩ := r'
  obtain ⟨rfl, hopened⟩ := hend
  cases closed' with
  | none =>
      dsimp only [endOf, opened]
      rw [← hopened]
      rfl
  | some q =>
      have hq := (hbounds q rfl).2
      dsimp only [endOf]
      rw [Nat.sub_zero, List.take_append_of_le_length (by omega)]

/-- The block has lines to look at exactly if the first opener of the text may begin it. -/
theorem blockEndFrom_opens (sameLine : Bool) :
    (Opens d sameLine (joinLines (first :: rest)) →
        blockEndFrom d sameLine (first :: rest) index {}
          = blockEndFrom d false (first :: rest) index {}) ∧
      (¬Opens d sameLine (joinLines (first :: rest)) →
        blockEndFrom d sameLine (first :: rest) index {} = .unopened) := by
  have htext := blockEndFrom_text hopener hcloser hlines index
  cases sameLine with
  | false =>
      refine ⟨fun _ => rfl, fun hnot => ?_⟩
      have hnone : firstOpener? d (joinLines (first :: rest)) = none := by
        by_contra hsome
        obtain ⟨p, hp⟩ := Option.ne_none_iff_exists'.1 hsome
        exact hnot ⟨p, hp, fun h => Bool.noConfusion h⟩
      rw [htext, hnone]
      cases hrun : (run d false (joinLines (first :: rest)) 0 {}).1 with
      | none => rfl
      | some q =>
          obtain ⟨p, hp⟩ := exists_firstOpener hrun
          rw [hnone] at hp
          cases hp
  | true =>
      have hline := hlines first List.mem_cons_self
      have hfull : first ++ newline :: rest.flatMap (· ++ [newline])
          = joinLines (first :: rest) ++ [newline] := by
        rw [← flatMap_newline (List.cons_ne_nil first rest)]
        simp
      have hend := (run_newline_end hopener hcloser (joinLines (first :: rest)) false 0 {}).2
      have hbounds := (run_bounds (d := d) (joinLines (first :: rest)) false 0 {}).2
      have hiff : (run d false (first ++ [newline]) 0 {}).2.opened = true ↔
          Opens d true (joinLines (first :: rest)) := by
        rw [opened_line_iff hline (rest.flatMap (· ++ [newline])), hfull, hend, ← firstOpener?_eq]
        refine exists_congr fun p => and_congr_right fun hp => ?_
        rw [firstOpener?_eq] at hp
        have hlt : p < (joinLines (first :: rest)).length := by
          rcases hbounds p hp with hnone | hlt
          · cases hnone
          · omega
        rw [List.take_append_of_le_length (Nat.le_of_lt hlt)]
        exact ⟨fun h _ => h, fun h => h rfl⟩
      rw [← hiff, blockEndFrom, blockEndFrom, feed_line]
      refine ⟨fun hopened => ?_, fun hnot => ?_⟩
      · simp [hopened]
      · simp [hnot]

end WholeText

/-- A block ends where the scan of the text from its first line on balances the first opener, if
that one may begin it; it goes on to the last line if the opener is never balanced, and it is its
first line alone otherwise. -/
theorem extractBlock?_wholeText (hopener : d.opener ≠ newline) (hcloser : d.closer ≠ newline)
    (sameLine : Bool) {lines : List Text} (hlines : ∀ line ∈ lines, newline ∉ line) {start : Nat}
    (hstart : start < lines.length) :
    ∃ b, extractBlock? d sameLine lines start = some b ∧
      b.content = linesText lines start b.endIndex ∧
      (∀ p q, findMatching? d (joinLines (lines.drop start)) 0 = some (p, q) →
        MayOpen sameLine (joinLines (lines.drop start)) p →
        b.endIndex = start + ((joinLines (lines.drop start)).take q).count newline) ∧
      (∀ p, findMatching? d (joinLines (lines.drop start)) 0 = none →
        firstOpener? d (joinLines (lines.drop start)) = some p →
        MayOpen sameLine (joinLines (lines.drop start)) p → b.endIndex = lines.length - 1) ∧
      (¬Opens d sameLine (joinLines (lines.drop start)) → b.endIndex = start) := by
  have hdrop : lines.drop start = lines[start] :: lines.drop (start + 1) :=
    List.drop_eq_getElem_cons hstart
  have hget : lines[start]? = some lines[start] := List.getElem?_eq_getElem hstart
  have hrest : ∀ line ∈ lines[start] :: lines.drop (start + 1), newline ∉ line := by
    rw [← hdrop]
    exact fun line hline => hlines line (List.mem_of_mem_drop hline)
  obtain ⟨hopens, hnot⟩ := blockEndFrom_opens hopener hcloser hrest start sameLine
  have htext := blockEndFrom_text hopener hcloser hrest start
  unfold extractBlock?
  rw [hget, Option.map_some]
  refine ⟨_, rfl, ?_⟩
  rw [← hdrop] at hopens hnot htext
  by_cases hmay : Opens d sameLine (joinLines (lines.drop start))
  · rw [hopens hmay, htext]
    obtain ⟨p, hp, hmay⟩ := hmay
    cases hrun : (run d false (joinLines (lines.drop start)) 0 {}).1 with
    | some q =>
        refine ⟨rfl, fun p' q' hfound _ => ?_, fun p' hnone => ?_, fun h => absurd ⟨p, hp, hmay⟩ h⟩
        · obtain ⟨-, hclosed⟩ := findMatching?_eq_some.1 hfound
          rw [hrun] at hclosed
          injection hclosed with hclosed
          rw [hclosed]
        · rw [findMatching?_eq_none, hrun] at hnone
          cases hnone
    | none =>
        rw [hp]
        refine ⟨(linesText_to_end lines start).symm, fun p' q' hfound => ?_, fun p' _ _ _ => rfl,
          fun h => absurd ⟨p, hp, hmay⟩ h⟩
        rw [findMatching?_eq_none.2 hrun] at hfound
        cases hfound
  · rw [hnot hmay]
    refine ⟨(linesText_self hget).symm, fun p q hfound hp => ?_, fun p _ hp hp' => ?_, fun _ => rfl⟩
    · exact absurd ⟨p, (findMatching?_eq_some.1 hfound).1, hp⟩ hmay
    · exact absurd ⟨p, hp, hp'⟩ hmay

/-- A group with a raw literal and a comment in it, both of which go over the end of a line. -/
def spannedLines : List Text := [")", "f(\x60(", ")\x60, /* )", "*/ \x27\x5c\x27\x27, g())", "("]

/-- The text from the second line on is closed in its third line. -/
theorem extractBlock?_spannedLines :
    parentheses.opener ≠ newline ∧ parentheses.closer ≠ newline ∧
      (∀ line ∈ spannedLines, newline ∉ line) ∧ 1 < spannedLines.length ∧
      findMatching? parentheses (joinLines (spannedLines.drop 1)) 0 = some (1, 26) ∧
      ∃ b, extractBlock? parentheses true spannedLines 1 = some b ∧
        b.content = linesText spannedLines 1 b.endIndex ∧ b.endIndex = 3 := by
  have hopener : parentheses.opener ≠ newline := by decide
  have hcloser : parentheses.closer ≠ newline := by decide
  have hlines : ∀ line ∈ spannedLines, newline ∉ line := by decide
  have hstart : 1 < spannedLines.length := by decide
  have hfound : findMatching? parentheses (joinLines (spannedLines.drop 1)) 0 = some (1, 26) := by
    decide
  obtain ⟨b, hb, hcontent, hclosed, -⟩ :=
    extractBlock?_wholeText hopener hcloser true hlines hstart
  refine ⟨hopener, hcloser, hlines, hstart, hfound, b, hb, hcontent, ?_⟩
  exact hclosed 1 26 hfound fun _ => by decide

end GoSurvey.Source
