/-
Functions with a comment behind one of their lines. Where the body of a
function opens is found brace by brace: a brace that follows a keyword of a
type opens that type, and the search goes on behind it. Behind the line all
this moves by the length of the comment and else stays as it is
(`findBodyOpenFrom_note`).

The line itself matters only while no body has opened. If it ends like a
keyword of a type, the comment comes between that and a brace in the next
line, and parts them; otherwise it parts nothing
(`occursIn_typeKeywordEnd_append`). If the body is still to open then, the
line belongs to the signature, and there the comment is stripped, provided
that it is seen as one (`signatureLine_note`).
-/
import GoSurvey.Proofs.Flow.Body
import GoSurvey.Proofs.Source.Note
import GoSurvey.Proofs.Source.TypeBrace

namespace GoSurvey.Source

open Text Pattern DelimiterScan

variable {a b x w : Text}

-- ==================================================== keywords of types

/-- The last word of a text ends like the keyword of a type. -/
def EndsLikeKeyword (t : Text) : Prop :=
  ∃ k ∈ typeWords, ∃ gap, (∀ c ∈ gap, isBlank c = true) ∧ k ++ gap <:+ t

/-- A longer text ends like a keyword as well. -/
theorem EndsLikeKeyword.of_suffix {t u : Text} (h : EndsLikeKeyword t) (hu : t <:+ u) :
    EndsLikeKeyword u := by
  obtain ⟨k, hk, gap, hgap, hend⟩ := h
  exact ⟨k, hk, gap, hgap, hend.trans hu⟩

/-- A text that ends with the comment does not end with a keyword. -/
theorem not_endsLikeKeyword_note (a : Text) : ¬EndsLikeKeyword (a ++ note) := by
  rintro ⟨k, hk, gap, hgap, hend⟩
  have hword : ∀ k ∈ typeWords, "note".toList.length ≤ k.length ∧ ¬"note".toList <:+ k := by decide
  obtain ⟨hlength, hnot⟩ := hword k hk
  have hnote : "note".toList <:+ a ++ note := List.suffix_append_of_suffix (by decide)
  rcases List.eq_nil_or_concat' gap with rfl | ⟨init, c, rfl⟩
  · rw [List.append_nil] at hend
    exact hnot (List.suffix_of_suffix_length_le hnote hend hlength)
  · obtain ⟨front, hfront⟩ := hend
    have hlast := congrArg List.getLast? hfront
    rw [← List.append_assoc, ← List.append_assoc, List.getLast?_concat,
      List.getLast?_append_of_ne_nil _ (by decide)] at hlast
    have hc : c = 'e' := Option.some.inj hlast
    have hblank := hgap c (by simp)
    rw [hc] at hblank
    exact absurd hblank (by decide)

/-- A keyword that is followed by nothing but blanks stands in the line in which the text before a
line does not end with one. -/
theorem occursIn_typeKeywordEnd_append (hx : ¬EndsLikeKeyword x)
    (hw : ∀ c ∈ w.head?, c = newline) :
    typeKeywordEnd.occursIn (x ++ w) = typeKeywordEnd.occursIn w := by
  rw [Bool.eq_iff_iff, occursIn_typeKeywordEnd, occursIn_typeKeywordEnd]
  constructor
  · rintro ⟨u, k, hk, gap, hgap, hsplit, hedge⟩
    rcases List.append_eq_append_iff.1 hsplit with ⟨v, rfl, hv⟩ | ⟨v, rfl, hv⟩
    · -- The keyword stands behind the first text.
      refine ⟨v, k, hk, gap, hgap, hv, fun c hc => ?_⟩
      apply hedge c
      rw [List.getLast?_append, hc]
      rfl
    · -- It would stand in the first text, with blanks after it.
      exfalso
      apply hx
      cases w with
      | nil =>
          rw [List.append_nil] at hv
          exact ⟨k, hk, gap, hgap, hv ▸ List.suffix_append u v⟩
      | cons c w =>
          obtain rfl := hw c rfl
          rcases List.append_eq_append_iff.1 hv with ⟨v', rfl, hv'⟩ | ⟨k', rfl, hk'⟩
          · refine ⟨k, hk, v', fun c hc => hgap c ?_, List.suffix_append u _⟩
            rw [hv']
            exact List.mem_append_left _ hc
          · cases k' with
            | nil => exact ⟨v, by rwa [List.append_nil] at hk, [], by simp, by simp⟩
            | cons d k' =>
                have hplain : ∀ k ∈ typeWords, newline ∉ k := by decide
                injection hk' with hd
                rw [← hd] at hk
                exact absurd (by simp) (hplain _ hk)
  · rintro ⟨u, k, hk, gap, hgap, rfl, hedge⟩
    refine ⟨x ++ u, k, hk, gap, hgap, by rw [List.append_assoc], fun c hc => ?_⟩
    cases u with
    | nil =>
        obtain ⟨⟨d, s, rfl, hd⟩, -⟩ := of_mem_typeWords hk
        have hnewline := hw d rfl
        rw [hnewline] at hd
        exact absurd hd (by decide)
    | cons d u =>
        rw [List.getLast?_append, List.getLast?_cons, Option.some_or] at hc
        rw [List.getLast?_cons] at hedge
        exact hedge c hc

/-- The window before a brace that stands behind a line. -/
theorem slice_behind (x w : Text) {start stop : Nat} (hstart : start ≤ x.length) :
    slice (x ++ w) start (x.length + stop) = x.drop start ++ w.take stop := by
  unfold slice
  rw [List.take_length_add_append, List.drop_append_of_le_length hstart]

/-- A brace opens a type with the comment behind a line if it does without. -/
theorem opensType_note {start offset : Nat}
    (hend : start ≤ a.length → a.length < offset → ¬EndsLikeKeyword a)
    (hb : ∀ c ∈ b.head?, c = newline) (hle : start ≤ offset) :
    opensType (a ++ (note ++ b)) (moved a.length start) (moved a.length offset)
      = opensType (a ++ b) start offset := by
  have hlength : note.length = 8 := rfl
  have hwindow : typeKeywordWindow = 16 := rfl
  unfold opensType
  rcases Nat.lt_or_ge a.length offset with hlt | hge
  · obtain ⟨k, rfl⟩ := Nat.exists_eq_add_of_lt hlt
    rw [moved_of_lt hlt]
    rcases Nat.lt_or_ge a.length (max start (a.length + k + 1 - typeKeywordWindow)) with
      hinside | hacross
    · -- The window lies behind the line.
      have hmoved : max (moved a.length start) (a.length + k + 1 + note.length - typeKeywordWindow)
          = max start (a.length + k + 1 - typeKeywordWindow) + note.length := by
        unfold moved
        split <;> omega
      rw [hmoved]
      congr 1
      unfold slice
      rw [List.drop_take, List.drop_take, drop_moved a b hinside]
      congr 1
      omega
    · have hstart : moved a.length start = start := moved_of_le (by omega)
      have hnoted : a.length + k + 1 + note.length = (a ++ note).length + (k + 1) := by
        rw [List.length_append]
        omega
      have hhead : ∀ c ∈ (b.take (k + 1)).head?, c = newline := by
        intro c hc
        rw [List.head?_take] at hc
        exact hb c (by simpa using hc)
      have hdrop : ∀ {t : Text} (n : Nat), ¬EndsLikeKeyword t → ¬EndsLikeKeyword (t.drop n) :=
        fun n ht h => ht (h.of_suffix (List.drop_suffix n _))
      rw [hstart, hnoted, ← List.append_assoc, Nat.add_assoc,
        slice_behind _ _ (by rw [List.length_append]; omega), slice_behind _ _ (by omega),
        occursIn_typeKeywordEnd_append (hdrop _ (not_endsLikeKeyword_note a)) hhead,
        occursIn_typeKeywordEnd_append (hdrop _ (hend (by omega) hlt)) hhead]
  · rw [moved_of_le hge, moved_of_le (Nat.le_trans hle hge)]
    unfold slice
    rw [List.take_append_of_le_length hge, List.take_append_of_le_length hge]

-- ================================================== in a part of a text

section Within

variable {d : Delimiters}

/-- A scan that ends in a text ends there whatever follows the text. -/
theorem run_of_append {q : Nat} {skip : Bool} {text post : Text} {offset : Nat}
    {s : DelimiterScan} (hcloser : d.closer ≠ '/')
    (h : (run d skip (text ++ post) offset s).1 = some q) (hq : q < offset + text.length) :
    run d skip text offset s = run d skip (text ++ post) offset s := by
  have hlater : ∀ {skip : Bool} {rest : Text} {s : DelimiterScan},
      (run d skip rest (offset + 1) s).1 = some q → offset < q :=
    fun h => ((run_bounds _ _ _ _).1 q h).1
  induction text generalizing skip offset s with
  | nil =>
      have hle := ((run_bounds post skip offset s).1 q h).1
      rw [List.length_nil] at hq
      omega
  | cons c rest ih =>
      have hnext : ∀ {skip : Bool} {s : DelimiterScan},
          (run d skip (rest ++ post) (offset + 1) s).1 = some q →
          run d skip rest (offset + 1) s = run d skip (rest ++ post) (offset + 1) s := by
        intro skip s h
        have hlength : offset + (c :: rest).length = offset + 1 + rest.length := by
          rw [List.length_cons]
          omega
        exact ih h (by omega) fun h => ((run_bounds _ _ _ _).1 q h).1
      cases skip with
      | true => exact hnext h
      | false =>
          rw [List.cons_append, DelimiterScan.run] at h
          rw [List.cons_append, DelimiterScan.run, DelimiterScan.run]
          cases rest with
          | cons e rest =>
              have hstep : step d s offset c (e :: rest ++ post) = step d s offset c (e :: rest) :=
                step_congr (show (e :: rest ++ post).head? = (e :: rest).head? from rfl) s offset c
              rw [hstep] at h ⊢
              cases hcase : step d s offset c (e :: rest) with
              | next s' => rw [hcase] at h; exact hnext h
              | afterNext s' => rw [hcase] at h; exact hnext h
              | closed s' => rfl
          | nil =>
              -- The scan ends with this character, which is no part of a mark.
              rw [List.length_singleton] at hq
              rw [List.nil_append] at h ⊢
              cases hcase : step d s offset c post with
              | next s' =>
                  rw [hcase] at h
                  have hlt := hlater h
                  omega
              | afterNext s' =>
                  rw [hcase] at h
                  have hlt := hlater h
                  omega
              | closed s' => rw [step_closed hcloser hcase []]

/-- A group that is found in a text that stands among others is a group of that text. -/
theorem findMatching?_within {pre group post : Text} {start p q : Nat} (hcloser : d.closer ≠ '/')
    (hstart : start ≤ group.length)
    (h : findMatching? d (pre ++ (group ++ post)) (start + pre.length) = some (p, q))
    (hq : q < group.length + pre.length) :
    ∃ p' q', p = p' + pre.length ∧ q = q' + pre.length ∧
      findMatching? d group start = some (p', q') := by
  have hdrop : (pre ++ (group ++ post)).drop (start + pre.length) = group.drop start ++ post := by
    rw [Nat.add_comm, List.drop_length_add_append, List.drop_append_of_le_length hstart]
  have hmoved := run_movedBy (d := d) pre.length false (group.drop start ++ post) start {}
  have hmoved : run d false (group.drop start ++ post) (start + pre.length) {} = _ := hmoved
  rw [findMatching?_eq_found, hdrop, hmoved] at h
  cases hrun : run d false (group.drop start ++ post) start {} with
  | mk closed s =>
      rw [hrun] at h
      cases closed with
      | none => cases h
      | some closer =>
          obtain ⟨opener, hopener, heq⟩ := Option.map_eq_some_iff.1 h
          rw [Prod.mk.injEq] at heq
          obtain ⟨p', hp', rfl⟩ := Option.map_eq_some_iff.1 hopener
          obtain ⟨rfl, rfl⟩ := heq
          have hin := run_of_append hcloser (congrArg Prod.fst hrun) (by
            show closer < start + (group.drop start).length
            rw [List.length_drop]
            dsimp only at hq
            omega)
          refine ⟨p', closer, rfl, rfl, ?_⟩
          rw [findMatching?_eq_found, hin, hrun]
          exact congrArg (Option.map fun opener => (opener, closer)) hp'

end Within

-- ==================================================== where a body opens

/-- A match ends with the closing delimiter. -/
theorem closer_of_findMatching? {d : Delimiters} {text : Text} {start p q : Nat}
    (h : findMatching? d text start = some (p, q)) : text[q]? = some d.closer := by
  rw [findMatching?_eq_found] at h
  have hclosed : (run d false (text.drop start) start {}).1 = some q := by
    generalize run d false (text.drop start) start {} = scan at h
    obtain ⟨closed, s⟩ := scan
    cases closed with
    | none => cases h
    | some q' =>
        obtain ⟨p', -, hsame⟩ := Option.map_eq_some_iff.1 h
        injection hsame with hp hq
        exact congrArg some hq
  obtain ⟨front, after, hsplit, rfl⟩ := exists_closer_of_run hclosed
  rw [← List.getElem?_drop, hsplit, List.getElem?_append_right (Nat.le_refl _), Nat.sub_self]
  rfl

/-- What stands behind the line begins with a newline, so no brace does. -/
theorem ne_of_getElem? (hb : ∀ c ∈ b.head?, c = newline) {offset : Nat} {c : Char}
    (h : (a ++ b)[offset]? = some c) (hc : c ≠ newline) : offset ≠ a.length := by
  rintro rfl
  rw [List.getElem?_append_right (Nat.le_refl _), Nat.sub_self, ← List.head?_eq_getElem?] at h
  exact hc (hb c h)

/-- The body of a function opens with the comment where it does without, later by its length if it
opens behind the line. The last word of the line makes a difference only if it does. -/
theorem findBodyOpenFrom_note (hback : a.getLast? ≠ some backslash)
    (hb : ∀ c ∈ b.head?, c = newline) {start fuel fuel' position : Nat}
    (hend : start ≤ a.length → (∀ opener ∈ findBodyOpenFrom (a ++ b) start fuel position,
      a.length ≤ opener) → ¬EndsLikeKeyword a) (hle : start ≤ position)
    (hfuel : (a ++ b).length < position + fuel)
    (hfuel' : (a ++ (note ++ b)).length < moved a.length position + fuel') :
    findBodyOpenFrom (a ++ (note ++ b)) (moved a.length start) fuel' (moved a.length position)
      = (findBodyOpenFrom (a ++ b) start fuel position).map (moved a.length) := by
  have hmatch := findMatching?_note apartFromNote_braces braces_ne hback hb
  have hstop : ∀ {text : Text} {start position fuel : Nat},
      findMatching? braces text position = none →
      findBodyOpenFrom text start fuel position = none := by
    intro text start position fuel hnone
    cases fuel with
    | zero => rfl
    | succ fuel =>
        rw [findBodyOpenFrom, hnone]
  induction fuel generalizing fuel' position with
  | zero =>
      have hnone : findMatching? braces (a ++ b) position = none := by
        apply Option.eq_none_iff_forall_ne_some.2
        rintro ⟨p, q⟩ hfound
        have hbounds := findMatching?_bounds braces_ne hfound
        omega
      have hnoted := hmatch position
      rw [hnone] at hnoted
      exact hstop hnoted
  | succ fuel ih =>
      cases hfound : findMatching? braces (a ++ b) position with
      | none =>
          have hnoted := hmatch position
          rw [hfound] at hnoted
          rw [hstop hnoted, hstop hfound]
          rfl
      | some found =>
          obtain ⟨p, q⟩ := found
          obtain ⟨hp, hq, -⟩ := findMatching?_bounds braces_ne hfound
          have hnoted := hmatch position
          rw [hfound, Option.map_some] at hnoted
          obtain ⟨hp', hq', hlast⟩ := findMatching?_bounds braces_ne hnoted
          have hcloser : q ≠ a.length :=
            ne_of_getElem? hb (closer_of_findMatching? hfound) (by decide)
          have hnext : moved a.length q + 1 = moved a.length (q + 1) := by
            unfold moved
            split <;> split <;> omega
          rw [findBodyOpenFrom, hfound] at hend
          dsimp only at hend
          have hbrace : start ≤ a.length → a.length < p → ¬EndsLikeKeyword a := by
            refine fun hstart hlt => hend hstart fun opener hopener => ?_
            split at hopener
            · have hlater := le_of_findBodyOpenFrom hopener
              omega
            · obtain rfl := Option.some.inj hopener
              omega
          cases fuel' with
          | zero => omega
          | succ fuel' =>
              rw [findBodyOpenFrom, findBodyOpenFrom, hnoted, hfound]
              dsimp only
              rw [opensType_note hbrace hb (by omega), hnext]
              split
              · next htype =>
                rw [if_pos htype] at hend
                exact ih hend (by omega) (by omega) (by omega)
              · rfl

/-- Nothing before the end of a text opens the body of the function that starts at an offset. -/
def OpensBehind (content : Text) (start : Nat) (a : Text) : Prop :=
  ∀ opener ∈ findBodyOpen? content start, a.length ≤ opener

/-- The search that begins where the function does comes to the same brace. -/
theorem findBodyOpen?_note (hback : a.getLast? ≠ some backslash)
    (hb : ∀ c ∈ b.head?, c = newline) {start : Nat}
    (hend : start ≤ a.length → OpensBehind (a ++ b) start a → ¬EndsLikeKeyword a) :
    findBodyOpen? (a ++ (note ++ b)) (moved a.length start)
      = (findBodyOpen? (a ++ b) start).map (moved a.length) :=
  findBodyOpenFrom_note hback hb hend (Nat.le_refl start) (by omega) (by omega)

/-- A brace in a part of a text opens a type there if it does in that part. -/
theorem opensType_within {pre group post : Text} {offset : Nat} (hoffset : offset ≤ group.length) :
    opensType (pre ++ (group ++ post)) pre.length (offset + pre.length)
      = opensType group 0 offset := by
  have hwindow : max pre.length (offset + pre.length - typeKeywordWindow)
      = pre.length + max 0 (offset - typeKeywordWindow) := by omega
  unfold opensType
  rw [hwindow, Nat.add_comm offset]
  unfold slice
  rw [List.take_length_add_append, List.drop_length_add_append,
    List.take_append_of_le_length hoffset]

/-- The body of a function opens in the text of the function where it opens in the whole text, if it
is also closed there. -/
theorem findBodyOpenFrom_within {pre group post : Text} {fuel fuel' position opener closer : Nat}
    (hposition : position ≤ group.length)
    (h : findBodyOpenFrom (pre ++ (group ++ post)) pre.length fuel (position + pre.length)
      = some opener)
    (hcloser : findMatching? braces (pre ++ (group ++ post)) opener = some (opener, closer))
    (hlt : closer < group.length + pre.length) (hfuel : group.length < position + fuel') :
    ∃ opener', opener = opener' + pre.length ∧
      findBodyOpenFrom group 0 fuel' position = some opener' := by
  induction fuel generalizing fuel' position with
  | zero => cases h
  | succ fuel ih =>
      cases fuel' with
      | zero => omega
      | succ fuel' =>
          rw [findBodyOpenFrom] at h
          cases hfound : findMatching? braces (pre ++ (group ++ post)) (position + pre.length) with
          | none =>
              rw [hfound] at h
              cases h
          | some found =>
              obtain ⟨p, q⟩ := found
              rw [hfound] at h
              dsimp only at h
              have hq : q < group.length + pre.length := by
                split at h
                · have hlater := le_of_findBodyOpenFrom h
                  have hbounds := findMatching?_bounds braces_ne hcloser
                  omega
                · obtain rfl := Option.some.inj h
                  have hsame := (findMatching?_from_opener braces_ne hfound).symm.trans hcloser
                  have heq := congrArg Prod.snd (Option.some.inj hsame)
                  dsimp only at heq
                  omega
              obtain ⟨p', q', rfl, rfl, hin⟩ :=
                findMatching?_within (d := braces) (by decide) hposition hfound hq
              have hbounds := findMatching?_bounds braces_ne hin
              rw [opensType_within (by omega)] at h
              rw [findBodyOpenFrom, hin]
              dsimp only
              split at h
              · next htype =>
                rw [if_pos htype]
                rw [Nat.add_right_comm] at h
                exact ih (by omega) h (by omega)
              · next htype =>
                rw [if_neg htype]
                exact ⟨p', (Option.some.inj h).symm, rfl⟩

/-- The comment is within its line, so every offset that has moved is in the line it was in. -/
theorem lineAt_note (a b : Text) (offset : Nat) :
    lineAt (a ++ (note ++ b)) (moved a.length offset) = lineAt (a ++ b) offset := by
  unfold lineAt
  congr 1
  rcases Nat.lt_or_ge a.length offset with hlt | hge
  · obtain ⟨k, rfl⟩ := Nat.exists_eq_add_of_lt hlt
    have hnoted : a.length + k + 1 + note.length = (a ++ note).length + (k + 1) := by
      rw [List.length_append]
      omega
    have hnone : note.count newline = 0 := by decide
    rw [moved_of_lt hlt, hnoted, ← List.append_assoc, List.take_length_add_append, Nat.add_assoc,
      List.take_length_add_append, List.count_append, List.count_append, List.count_append, hnone,
      Nat.add_zero]
  · rw [moved_of_le hge, List.take_append_of_le_length hge, List.take_append_of_le_length hge]

end GoSurvey.Source

namespace GoSurvey.Declaration

open Text Source Pattern DelimiterScan

-- ================================================ the next declaration

/-- No declaration begins across the place where two texts meet, if no word does. -/
theorem beginsDeclaration_append {x y : Text} (hy : ∀ c ∈ y.head?, isWord c = false) :
    BeginsDeclaration (x ++ y) ↔ BeginsDeclaration x ∨ BeginsDeclaration y := by
  constructor
  · rintro ⟨u, k, hk, v, hsplit, hedge⟩
    rcases List.append_eq_append_iff.1 hsplit with ⟨r, rfl, hr⟩ | ⟨r, rfl, hr⟩
    · exact .inr ⟨r, k, hk, v, hr, hedge⟩
    · cases r with
      | nil => exact .inr ⟨[], k, hk, v, hr.symm, hedge⟩
      | cons c r =>
          injection hr with hc hr
          subst hc
          rcases List.append_eq_append_iff.1 hr with ⟨v', rfl, hv'⟩ | ⟨k', rfl, hk'⟩
          · refine .inl ⟨u, k, hk, v', rfl, fun c hc => hedge c ?_⟩
            rw [hv', List.head?_append, hc]
            rfl
          · -- A word does not go over into what follows the first text.
            cases k' with
            | nil => exact .inl ⟨u, r, by rwa [List.append_nil] at hk, [], by simp, by simp⟩
            | cons d k' =>
                have hd := (of_mem_declarationWords hk).2 d (by simp)
                rw [hy d (by rw [hk']; rfl)] at hd
                cases hd
  · rintro (⟨u, k, hk, v, rfl, hedge⟩ | ⟨u, k, hk, v, rfl, hedge⟩)
    · refine ⟨u, k, hk, v ++ y, by simp, fun c hc => ?_⟩
      cases v with
      | nil => exact hy c hc
      | cons d v => exact hedge c hc
    · exact ⟨x ++ u, k, hk, v, by simp, hedge⟩

variable {a b : Text}

/-- Another declaration begins before a brace with the comment behind a line if it does without. -/
theorem nextDeclaration_note (hb : ∀ c ∈ b.head?, c = newline) {start stop : Nat}
    (hle : start ≤ stop) :
    nextDeclaration.occursIn
        (slice (a ++ (note ++ b)) (moved a.length start) (moved a.length stop))
      = nextDeclaration.occursIn (slice (a ++ b) start stop) := by
  rcases Nat.lt_or_ge a.length stop with hlt | hge
  · rcases Nat.lt_or_ge a.length start with hbehind | hacross
    · rw [moved_of_lt hlt, moved_of_lt hbehind]
      unfold slice
      rw [List.drop_take, List.drop_take, drop_moved a b hbehind]
      congr 2
      omega
    · obtain ⟨k, rfl⟩ := Nat.exists_eq_add_of_lt hlt
      have hnoted : a.length + k + 1 + note.length = (a ++ note).length + (k + 1) := by
        rw [List.length_append]
        omega
      have hhead : ∀ c ∈ (b.take (k + 1)).head?, isWord c = false := by
        intro c hc
        rw [List.head?_take] at hc
        rw [hb c (by simpa using hc)]
        decide
      have hnote : ¬BeginsDeclaration note := by
        rintro ⟨u, k, -, v, hsplit, -⟩
        have hnone : newline ∉ note := by decide
        exact hnone (hsplit ▸ List.mem_append_right u List.mem_cons_self)
      rw [moved_of_lt hlt, moved_of_le hacross, hnoted, ← List.append_assoc, Nat.add_assoc,
        slice_behind _ _ (by rw [List.length_append]; omega), slice_behind _ _ hacross,
        List.drop_append_of_le_length hacross, Bool.eq_iff_iff, occursIn_nextDeclaration,
        occursIn_nextDeclaration, beginsDeclaration_append hhead, beginsDeclaration_append hhead,
        beginsDeclaration_append fun c hc => by rw [head_note c hc]; decide]
      tauto
  · rw [moved_of_le hge, moved_of_le (Nat.le_trans hle hge)]
    unfold slice
    rw [List.take_append_of_le_length hge, List.take_append_of_le_length hge]

/-- The block of a function ends in the same line with the comment as without. -/
theorem endIndex_functionBlockAt_note (hback : a.getLast? ≠ some backslash)
    (hb : ∀ c ∈ b.head?, c = newline) {lines lines' : List Text}
    (hlength : lines'.length = lines.length) {offset : Nat}
    (hend : offset ≤ a.length → OpensBehind (a ++ b) offset a → ¬EndsLikeKeyword a) (index : Nat) :
    (functionBlockAt (a ++ (note ++ b)) lines' (moved a.length offset) index).endIndex
      = (functionBlockAt (a ++ b) lines offset index).endIndex := by
  unfold functionBlockAt
  dsimp only
  rw [findBodyOpen?_note hback hb hend]
  cases hopen : findBodyOpen? (a ++ b) offset with
  | none => rfl
  | some opener =>
      dsimp only [Option.map_some]
      rw [nextDeclaration_note hb (le_of_findBodyOpenFrom hopen)]
      split
      · rfl
      · rw [findMatching?_note apartFromNote_braces braces_ne hback hb]
        cases findMatching? braces (a ++ b) opener with
        | none =>
            show lines'.length - 1 = lines.length - 1
            rw [hlength]
        | some found =>
            obtain ⟨p, q⟩ := found
            show lineAt _ (moved a.length q) - 1 = lineAt _ q - 1
            rw [lineAt_note]

/-- Where nothing opens a body in the first lines of the block of a function, nothing does in the
content before the end of those lines. -/
theorem opensBehind_functionBlock {content p rest : Text} {index : Nat}
    (hindex : index < (Text.lines content).length)
    (hblock : (functionBlockAt content (Text.lines content)
      (textBefore (Text.lines content) index).length index).content = p ++ rest)
    (h : OpensBehind (p ++ rest) 0 p) :
    OpensBehind content (textBefore (Text.lines content) index).length
      (textBefore (Text.lines content) index ++ p) := by
  intro opener hopener
  obtain ⟨after, hcontent, htraced⟩ := Flow.tracedBody_functionBlock hindex
  rw [hblock] at hcontent htraced
  generalize textBefore (Text.lines content) index = before at hcontent htraced hopener
  generalize functionBody content before.length = body at htraced
  rw [Option.mem_def, hcontent] at hopener
  cases htraced with
  | absent hnone =>
      rw [hnone] at hopener
      cases hopener
  | @own head inside tail hsnippet hbody =>
      obtain rfl := Option.some.inj (hbody.opens.symm.trans hopener)
      have hlength := congrArg List.length hsnippet
      simp only [List.length_append, List.length_cons] at hlength
      have hopens : findBodyOpenFrom (before ++ ((p ++ rest) ++ after)) before.length
          ((before ++ ((p ++ rest) ++ after)).length + 1) (0 + before.length)
          = some (before ++ head).length := by
        rw [Nat.zero_add]
        exact hbody.opens
      have hlt :
          (before ++ head).length + 1 + inside.length < (p ++ rest).length + before.length := by
        simp only [List.length_append]
        omega
      obtain ⟨opener', hlater, hin⟩ := findBodyOpenFrom_within (Nat.zero_le _) hopens
        hbody.closes hlt (show (p ++ rest).length < 0 + ((p ++ rest).length + 1) by omega)
      have hle := h opener' hin
      rw [hlater, List.length_append]
      omega
  | @behind gap inside more hafter hbody =>
      obtain rfl := Option.some.inj (hbody.opens.symm.trans hopener)
      simp only [List.length_append]
      omega

-- ======================================================= the signature

/-- The lines of a text that begins before a line and ends behind it. -/
theorem exists_lines_around {pre post : Text} (hpre : pre = [] ∨ pre.getLast? = some newline)
    (hpost : ∀ c ∈ post.head?, c = newline) :
    ∃ above below : List Text, ∀ line, newline ∉ line →
      lines (pre ++ (line ++ post)) = above ++ line :: below := by
  have hbelow : ∃ below : List Text, ∀ line, newline ∉ line →
      lines (line ++ post) = line :: below := by
    cases post with
    | nil =>
        refine ⟨[], fun line hline => ?_⟩
        rw [List.append_nil]
        exact splitOn_of_not_mem hline
    | cons c post =>
        obtain rfl := hpost c rfl
        refine ⟨lines post, fun line hline => ?_⟩
        unfold lines
        rw [splitOn_append_cons, splitOn_of_not_mem hline]
        rfl
  obtain ⟨below, hbelow⟩ := hbelow
  rcases hpre with rfl | hlast
  · exact ⟨[], below, hbelow⟩
  · obtain ⟨init, rfl⟩ := List.getLast?_eq_some_iff.1 hlast
    refine ⟨lines init, below, fun line hline => ?_⟩
    rw [← hbelow line hline, List.append_assoc]
    exact splitOn_append_cons init (line ++ post)

/-- Lines on one line, without their comments. -/
def onOneLine (t : Text) : Text := trim (squeeze (join " " ((lines t).map stripLineComment)))

/-- The comment is stripped with the others before the lines are put on one. Blanks that stood
before it stay behind, and they are squeezed into the space that follows the line. -/
theorem onOneLine_note {pre line post : Text} (hpre : pre = [] ∨ pre.getLast? = some newline)
    (hline : newline ∉ line) (hpost : ∀ c ∈ post.head?, c = newline) (hsees : SeesNote line) :
    onOneLine (pre ++ ((line ++ note) ++ post)) = onOneLine (pre ++ (line ++ post)) := by
  have hnoted : newline ∉ line ++ note := by
    rw [List.mem_append, not_or]
    exact ⟨hline, by decide⟩
  obtain ⟨above, below, hlines⟩ := exists_lines_around hpre hpost
  obtain ⟨gap, hcode, hgap⟩ := stripLineComment_note hsees
  unfold onOneLine
  rw [hlines _ hnoted, hlines _ hline]
  simp only [List.map_append, List.map_cons]
  rw [join_around, join_around, hcode]
  generalize (above.map stripLineComment).flatMap (· ++ " ".toList) = p
  cases below with
  | nil =>
      rw [List.map_nil, List.flatMap_nil, List.append_nil, List.append_nil, trim_squeeze,
        trim_squeeze, ← List.append_assoc p, trim_append_blanks _ hgap]
  | cons next below =>
      have hspace := squeeze_append_blanks hgap (show isBlank ' ' = true by decide)
        (p ++ stripLineComment (line ++ note))
      have hnext : ∀ rest, " ".toList ++ rest = ' ' :: rest := fun rest => rfl
      rw [List.map_cons, List.flatMap_cons, List.append_assoc, hnext, List.append_assoc _ gap,
        ← List.append_assoc p, ← List.append_assoc p, hspace]

/-- The signature of a function is what it is without a comment behind one of its lines, if the
comment is seen as one or the body has opened before. -/
theorem signatureLine_note {pre line post : Text} (hpre : pre = [] ∨ pre.getLast? = some newline)
    (hline : newline ∉ line) (hpost : ∀ c ∈ post.head?, c = newline)
    (hback : (pre ++ line).getLast? ≠ some backslash)
    (hopens : OpensBehind (pre ++ (line ++ post)) 0 (pre ++ line) →
      ¬EndsLikeKeyword (pre ++ line) ∧ SeesNote line) :
    signatureLine (pre ++ ((line ++ note) ++ post)) = signatureLine (pre ++ (line ++ post)) := by
  have hsplit : pre ++ ((line ++ note) ++ post) = (pre ++ line) ++ (note ++ post) := by simp
  have hplain : pre ++ (line ++ post) = (pre ++ line) ++ post := by simp
  rw [hplain] at hopens
  have hopen := findBodyOpen?_note hback hpost fun _ h => (hopens h).1
  rw [moved_of_le (Nat.zero_le _)] at hopen
  unfold signatureLine
  rw [hplain]
  rw [hsplit, hopen]
  cases hfound : findBodyOpen? ((pre ++ line) ++ post) 0 with
  | none =>
      obtain ⟨-, hseen⟩ := hopens fun opener h => by rw [hfound] at h; cases h
      dsimp only [Option.map_none]
      rw [← hsplit, ← hplain, before_singleton, before_singleton]
      rcases hpre with rfl | hlast
      · have hfirst : ∀ t : Text, newline ∉ t → (t ++ post).takeWhile (· != newline) = t := by
          intro t ht
          rw [takeWhile_append_of_stop (by simpa using hpost)]
          exact List.takeWhile_eq_self_iff.2 (except_of_not_mem ht)
        have hnoted : newline ∉ line ++ note := by
          rw [List.mem_append, not_or]
          exact ⟨hline, by decide⟩
        have halone := @onOneLine_note [] line [] (.inl rfl) hline (by simp) hseen
        rw [List.append_nil, List.append_nil] at halone
        rw [List.nil_append, List.nil_append, hfirst _ hnoted, hfirst _ hline]
        exact halone
      · obtain ⟨init, rfl⟩ := List.getLast?_eq_some_iff.1 hlast
        have hinit : ∀ t : Text, (init ++ [newline] ++ t).takeWhile (· != newline)
            = (init ++ [newline]).takeWhile (· != newline) := by
          intro t
          rw [List.append_assoc, takeWhile_append_of_stop (by simp),
            takeWhile_append_of_stop (by simp)]
        rw [hinit, hinit]
  | some opener =>
      dsimp only [Option.map_some]
      rcases Nat.lt_or_ge (pre ++ line).length opener with hlt | hge
      · obtain ⟨-, hseen⟩ := hopens fun opener' h => by
          rw [hfound] at h
          injection h with h
          omega
        obtain ⟨k, rfl⟩ := Nat.exists_eq_add_of_lt hlt
        have hnoted : (pre ++ line).length + k + 1 + note.length
            = (pre ++ line ++ note).length + (k + 1) := by
          have hlength : (pre ++ line ++ note).length = (pre ++ line).length + note.length :=
            List.length_append
          omega
        have hhead : ∀ c ∈ (post.take (k + 1)).head?, c = newline := by
          intro c hc
          rw [List.head?_take] at hc
          exact hpost c (by simpa using hc)
        have hwritten := onOneLine_note hpre hline hhead hseen
        rw [moved_of_lt hlt, hnoted, ← List.append_assoc, List.take_length_add_append,
          Nat.add_assoc, List.take_length_add_append]
        simp only [List.append_assoc] at hwritten ⊢
        exact hwritten
      · rw [moved_of_le hge, List.take_append_of_le_length hge, List.take_append_of_le_length hge]

end GoSurvey.Declaration
