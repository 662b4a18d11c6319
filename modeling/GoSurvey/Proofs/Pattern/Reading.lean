/-
What a pattern means, apart from how it is tried. `readings p s` lists
the states to which a pattern may lead from a state, in the order in
which they are tried, and matching with a continuation is to take the
first of them from which the continuation goes on
(`attempt_eq_findSome?`). So a fact about matches is a fact about the
members of a list, and the continuations are gone. What has been
remembered before a reading has no part in it (`readings_behind`).

A reading only moves on: the place that it reaches is `advance` by the
text that was read (`exists_advance`). The `mem_readings` lemmas say for
each form of pattern what that text may be. What is remembered on the way
is the text of one of the groups of the pattern (`captured`). Both hold
of every reading since each form of pattern keeps them (`KeptByReading`).
-/
import GoSurvey.Text.Pattern

namespace GoSurvey

-- ============================================================ places

namespace Cursor

/-- The place after a text that stands ahead. -/
def advance (cur : Cursor) (w : Text) : Cursor :=
  ⟨w.getLast?.or cur.previous, cur.rest.drop w.length, cur.offset + w.length⟩

theorem advance_append (cur : Cursor) (v w : Text) :
    (cur.advance v).advance w = cur.advance (v ++ w) := by
  unfold advance
  rw [List.getLast?_append, Option.or_assoc, List.drop_drop, List.length_append, Nat.add_assoc]

theorem step_eq_advance (cur : Cursor) (c : Char) (rest : Text) (h : cur.rest = c :: rest) :
    cur.step c rest = cur.advance [c] := by
  unfold step advance
  rw [h]
  rfl

/-- A place after the next character is one after a text that begins with the character. -/
theorem step_advance {cur : Cursor} {c : Char} {rest : Text} (h : cur.rest = c :: rest) (w : Text) :
    (cur.step c rest).advance w = cur.advance (c :: w) := by
  rw [step_eq_advance cur c rest h, advance_append]
  rfl

/-- A place from which a character is ahead is the place itself or one after the character. -/
theorem exists_place_cons (P : Cursor → Prop) {cur : Cursor} {c : Char} {rest : Text}
    (h : cur.rest = c :: rest) :
    (∃ w, w <+: c :: rest ∧ P (cur.advance w)) ↔
      P cur ∨ ∃ w, w <+: rest ∧ P ((cur.step c rest).advance w) := by
  constructor
  · rintro ⟨w, hw, hplace⟩
    cases w with
    | nil => exact .inl hplace
    | cons d w =>
        obtain ⟨rfl, hrest⟩ := List.cons_prefix_cons.1 hw
        exact .inr ⟨w, hrest, step_advance h w ▸ hplace⟩
  · rintro (hplace | ⟨w, hw, hplace⟩)
    · exact ⟨[], List.nil_prefix, hplace⟩
    · exact ⟨c :: w, List.cons_prefix_cons.2 ⟨rfl, hw⟩, step_advance h w ▸ hplace⟩

/-- What is ahead of a place is the text up to a later place and what is ahead of that. -/
theorem rest_eq_append {cur : Cursor} {w : Text} (h : w <+: cur.rest) :
    cur.rest = w ++ (cur.advance w).rest := by
  obtain ⟨r, hr⟩ := h
  unfold advance
  rw [← hr, List.drop_left]

end Cursor

namespace Pattern

/-- The state after a text that stands ahead. -/
def State.advance (s : State) (w : Text) : State := ⟨s.cursor.advance w, s.captures⟩

theorem State.advance_append (s : State) (v w : Text) :
    (s.advance v).advance w = s.advance (v ++ w) := by
  unfold State.advance
  rw [Cursor.advance_append]

/-- The state in which a group has remembered what was read since another state. -/
def State.remember (s : State) (index : Nat) (since : State) : State :=
  { s with captures :=
      ⟨index, since.cursor.rest, s.cursor.offset - since.cursor.offset⟩ :: s.captures }

-- ========================================================== readings

/-- The states after the runs of a class, the longest run first. -/
def runReadings (cls : Char → Bool) (captures : List Capture) : Text → Cursor → List State
  | [], cur => [⟨cur, captures⟩]
  | c :: rest, cur =>
    if cls c then runReadings cls captures rest (cur.step c rest) ++ [⟨cur, captures⟩]
    else [⟨cur, captures⟩]

/-- The states after the runs of a class, the shortest run first. -/
def shortRunReadings (cls : Char → Bool) (captures : List Capture) : Text → Cursor → List State
  | [], cur => [⟨cur, captures⟩]
  | c :: rest, cur =>
    ⟨cur, captures⟩ ::
      if cls c then shortRunReadings cls captures rest (cur.step c rest) else []

/-- The states after repetitions, up to a number of them, the most repetitions first. -/
def repeatedReadings (body : State → List State) : Nat → State → List State
  | 0, s => [s]
  | n + 1, s =>
    ((body s).filter fun s' => decide (s.cursor.offset < s'.cursor.offset)).flatMap
      (repeatedReadings body n) ++ [s]

/-- The states to which a pattern may lead, in the order in which they are tried. -/
def readings : Pattern → State → List State
  | nothing, s => [s]
  | one cls, s =>
    match s.cursor.rest with
    | [] => []
    | c :: rest => if cls c then [{ s with cursor := s.cursor.step c rest }] else []
  | seq p q, s => (readings p s).flatMap (readings q)
  | choice p q, s => readings p s ++ readings q s
  | run cls, s => runReadings cls s.captures s.cursor.rest s.cursor
  | shortRun cls, s => shortRunReadings cls s.captures s.cursor.rest s.cursor
  | repeated p, s => repeatedReadings (readings p) s.cursor.rest.length s
  | group index p, s => (readings p s).map fun s' => s'.remember index s
  | place holds, s => if holds s.cursor then [s] else []
  | ahead p, s => if (readings p s).isEmpty then [] else [s]
  | notAhead p, s => if (readings p s).isEmpty then [s] else []

/-- Trying one list after another is trying them joined. -/
private theorem findSome?_flatMap {α β γ : Type} (f : α → List β) (k : β → Option γ)
    (l : List α) : (l.flatMap f).findSome? k = l.findSome? fun a => (f a).findSome? k := by
  induction l with
  | nil => rfl
  | cons a l ih =>
      rw [List.flatMap_cons, List.findSome?_append, ih, List.findSome?_cons]
      cases (f a).findSome? k <;> rfl

/-- Trying with the guard of a filter is trying what the filter leaves. -/
private theorem findSome?_filter_of {α γ : Type} (p : α → Bool) (k : α → Option γ)
    (l : List α) : (l.filter p).findSome? k = l.findSome? fun a => if p a then k a else none := by
  induction l with
  | nil => rfl
  | cons a l ih =>
      rw [List.filter_cons, List.findSome?_cons]
      cases p a with
      | false => exact ih
      | true =>
          rw [if_pos rfl, if_pos rfl, List.findSome?_cons, ih]

/-- To attempt a run is to go on with its readings in turn, the longest first. -/
theorem attemptRun_eq (cls : Char → Bool) (captures : List Capture) (k : Rest) :
    ∀ (t : Text) (cur : Cursor),
      attemptRun cls captures k t cur = (runReadings cls captures t cur).findSome? k := by
  intro t
  induction t with
  | nil =>
      intro cur
      rw [attemptRun, runReadings, List.findSome?_singleton]
  | cons c rest ih =>
      intro cur
      rw [attemptRun, runReadings]
      split
      · rw [ih, List.findSome?_append, List.findSome?_singleton]
        cases (runReadings cls captures rest (cur.step c rest)).findSome? k <;> rfl
      · rw [List.findSome?_singleton]

theorem attemptShortRun_eq (cls : Char → Bool) (captures : List Capture) (k : Rest) :
    ∀ (t : Text) (cur : Cursor),
      attemptShortRun cls captures k t cur
        = (shortRunReadings cls captures t cur).findSome? k := by
  intro t
  induction t with
  | nil =>
      intro cur
      rw [attemptShortRun, shortRunReadings, List.findSome?_singleton]
  | cons c rest ih =>
      intro cur
      rw [attemptShortRun, shortRunReadings, List.findSome?_cons]
      cases k ⟨cur, captures⟩ with
      | some s => rfl
      | none =>
          dsimp only
          split
          · exact ih _
          · rfl

/-- To attempt a repetition is to go on with its readings in turn, those with more rounds first. -/
theorem attemptRepeated_eq {attemptBody : State → Rest → Option State}
    {body : State → List State} (hbody : ∀ s k, attemptBody s k = (body s).findSome? k)
    (k : Rest) : ∀ (n : Nat) (s : State),
      attemptRepeated attemptBody k n s = (repeatedReadings body n s).findSome? k := by
  intro n
  induction n with
  | zero =>
      intro s
      rw [attemptRepeated, repeatedReadings, List.findSome?_singleton]
  | succ n ih =>
      intro s
      rw [attemptRepeated, repeatedReadings, List.findSome?_append, findSome?_flatMap,
        findSome?_filter_of, hbody, List.findSome?_singleton]
      simp only [ih, decide_eq_true_eq]
      cases (body s).findSome? _ <;> rfl

/-- The first reading is what is left of matching with nothing after it. -/
private theorem findSome?_some {α : Type} (l : List α) : l.findSome? some = l.head? := by
  cases l <;> rfl

/-- Matching takes the first reading from which the rest goes on. -/
theorem attempt_eq_findSome? (p : Pattern) :
    ∀ (s : State) (k : Rest), attempt p s k = (readings p s).findSome? k := by
  induction p with
  | nothing =>
      intro s k
      rw [attempt, readings, List.findSome?_singleton]
  | one cls =>
      intro s k
      rw [attempt, readings]
      cases s.cursor.rest with
      | nil => rfl
      | cons c rest =>
          dsimp only
          split
          · rw [List.findSome?_singleton]
          · rfl
  | seq p q ihp ihq =>
      intro s k
      rw [attempt, readings, findSome?_flatMap, ihp]
      simp only [ihq]
  | choice p q ihp ihq =>
      intro s k
      rw [attempt, readings, List.findSome?_append, ihp, ihq]
      cases (readings p s).findSome? k <;> rfl
  | run cls =>
      intro s k
      rw [attempt, readings, attemptRun_eq]
  | shortRun cls =>
      intro s k
      rw [attempt, readings, attemptShortRun_eq]
  | repeated p ih =>
      intro s k
      rw [attempt, readings, attemptRepeated_eq ih]
  | group index p ih =>
      intro s k
      rw [attempt, readings, ih, List.findSome?_map]
      rfl
  | place holds =>
      intro s k
      rw [attempt, readings]
      split
      · rw [List.findSome?_singleton]
      · rfl
  | ahead p ih =>
      intro s k
      rw [attempt, readings, ih, findSome?_some]
      cases readings p s with
      | nil => rfl
      | cons s' l =>
          rw [List.isEmpty_cons, if_neg Bool.false_ne_true, List.findSome?_singleton]
          rfl
  | notAhead p ih =>
      intro s k
      rw [attempt, readings, ih, findSome?_some]
      cases readings p s with
      | nil => rw [List.isEmpty_nil, if_pos rfl, List.findSome?_singleton]; rfl
      | cons s' l => rfl

-- ================================================ what the forms read

theorem mem_readings_one {cls : Char → Bool} {s s' : State} :
    s' ∈ readings (one cls) s
      ↔ ∃ c, [c] <+: s.cursor.rest ∧ cls c = true ∧ s' = s.advance [c] := by
  rw [readings]
  cases hrest : s.cursor.rest with
  | nil =>
      constructor
      · intro h
        cases h
      · intro h
        obtain ⟨c, hc, -⟩ := h
        exact absurd (List.prefix_nil.1 hc) (List.cons_ne_nil c [])
  | cons d rest =>
      constructor
      · intro h
        dsimp only at h
        split at h
        · next hd =>
          rw [List.mem_singleton] at h
          refine ⟨d, ⟨rest, rfl⟩, hd, ?_⟩
          rw [h, Cursor.step_eq_advance _ _ _ hrest]
          rfl
        · cases h
      · intro h
        obtain ⟨c, ⟨r, hr⟩, hc, rfl⟩ := h
        injection hr with hcd hr
        subst hcd
        dsimp only
        rw [if_pos hc, List.mem_singleton, Cursor.step_eq_advance _ _ _ hrest]
        rfl

theorem mem_readings_seq {p q : Pattern} {s s' : State} :
    s' ∈ readings (p ++ q) s ↔ ∃ m ∈ readings p s, s' ∈ readings q m :=
  List.mem_flatMap

/-- What one pattern after another reads, for patterns that are grouped in different ways. -/
theorem readings_append (p q : Pattern) :
    readings (p ++ q) = fun s => (readings p s).flatMap (readings q) := rfl

/-- It does not matter how patterns after one another are grouped. -/
theorem readings_assoc (p q r : Pattern) (s : State) :
    readings (p ++ q ++ r) s = readings (p ++ (q ++ r)) s :=
  List.flatMap_assoc

theorem mem_readings_choice {p q : Pattern} {s s' : State} :
    s' ∈ readings (choice p q) s ↔ s' ∈ readings p s ∨ s' ∈ readings q s :=
  List.mem_append

theorem mem_readings_optional {p : Pattern} {s s' : State} :
    s' ∈ readings (optional p) s ↔ s' ∈ readings p s ∨ s' = s := by
  unfold optional
  rw [mem_readings_choice, readings, List.mem_singleton]

theorem mem_readings_place {holds : Cursor → Bool} {s s' : State} :
    s' ∈ readings (place holds) s ↔ holds s.cursor = true ∧ s' = s := by
  rw [readings]
  split
  · next h =>
    rw [List.mem_singleton]
    exact ⟨fun h' => ⟨h, h'⟩, fun h' => h'.2⟩
  · next h => exact ⟨fun h' => absurd h' List.not_mem_nil, fun h' => absurd h'.1 h⟩

/-- A group reads what its pattern reads, and remembers it. -/
theorem mem_readings_group {index : Nat} {p : Pattern} {s s' : State} :
    s' ∈ readings (group index p) s ↔ ∃ m ∈ readings p s, s' = m.remember index s := by
  rw [readings, List.mem_map]
  constructor
  · intro h
    obtain ⟨m, hm, rfl⟩ := h
    exact ⟨m, hm, rfl⟩
  · intro h
    obtain ⟨m, hm, rfl⟩ := h
    exact ⟨m, hm, rfl⟩

/-- A text that is ahead after another text is ahead together with it. -/
theorem prefix_append_of_advance {cur : Cursor} {v w : Text} (hv : v <+: cur.rest)
    (hw : w <+: (cur.advance v).rest) : v ++ w <+: cur.rest := by
  rw [Cursor.rest_eq_append hv]
  exact (List.prefix_append_right_inj v).2 hw

/-- A text in two parts is ahead if its parts are, one after the other. -/
theorem prefix_of_prefix_append {cur : Cursor} {v w : Text} (h : v ++ w <+: cur.rest) :
    v <+: cur.rest ∧ w <+: (cur.advance v).rest := by
  have hv : v <+: cur.rest := (List.prefix_append v w).trans h
  rw [Cursor.rest_eq_append hv] at h
  exact ⟨hv, (List.prefix_append_right_inj v).1 h⟩

/-- A text in two parts is read by two patterns. -/
theorem advance_mem_readings_seq {p q : Pattern} {s : State} {v w : Text}
    (hp : s.advance v ∈ readings p s) (hq : (s.advance v).advance w ∈ readings q (s.advance v)) :
    s.advance (v ++ w) ∈ readings (p ++ q) s := by
  rw [← State.advance_append]
  exact mem_readings_seq.2 ⟨s.advance v, hp, hq⟩

theorem mem_runReadings {cls : Char → Bool} {captures : List Capture} {s' : State} :
    ∀ (t : Text) (cur : Cursor), cur.rest = t →
      (s' ∈ runReadings cls captures t cur
        ↔ ∃ w, w <+: t ∧ (∀ c ∈ w, cls c = true) ∧ s' = ⟨cur.advance w, captures⟩) := by
  intro t
  induction t with
  | nil =>
      intro cur _
      rw [runReadings, List.mem_singleton]
      constructor
      · rintro rfl
        exact ⟨[], List.prefix_rfl, fun _ h => absurd h List.not_mem_nil, rfl⟩
      · intro h
        obtain ⟨w, hw, -, rfl⟩ := h
        rw [List.prefix_nil.1 hw]
        rfl
  | cons c rest ih =>
      intro cur hcur
      rw [runReadings]
      constructor
      · intro h
        split at h
        · next hc =>
          rcases List.mem_append.1 h with h | h
          · obtain ⟨w, hw, hcls, rfl⟩ := (ih (cur.step c rest) rfl).1 h
            refine ⟨c :: w, List.cons_prefix_cons.2 ⟨rfl, hw⟩, ?_, ?_⟩
            · intro d hd
              rcases List.mem_cons.1 hd with rfl | hd
              · exact hc
              · exact hcls d hd
            · rw [Cursor.step_advance hcur]
          · rw [List.mem_singleton.1 h]
            exact ⟨[], List.nil_prefix, fun _ h => absurd h List.not_mem_nil, rfl⟩
        · rw [List.mem_singleton.1 h]
          exact ⟨[], List.nil_prefix, fun _ h => absurd h List.not_mem_nil, rfl⟩
      · intro h
        obtain ⟨w, hw, hcls, rfl⟩ := h
        cases w with
        | nil =>
            split
            · exact List.mem_append_right _ (List.mem_singleton_self _)
            · exact List.mem_singleton_self _
        | cons d w =>
            obtain ⟨rfl, hw'⟩ := List.cons_prefix_cons.1 hw
            rw [if_pos (hcls d List.mem_cons_self)]
            refine List.mem_append_left _ ((ih (cur.step d rest) rfl).2 ⟨w, hw', ?_, ?_⟩)
            · exact fun e he => hcls e (List.mem_cons_of_mem d he)
            · rw [Cursor.step_advance hcur]

/-- A run reads any number of characters of its class. -/
theorem mem_readings_run {cls : Char → Bool} {s s' : State} :
    s' ∈ readings (run cls) s
      ↔ ∃ w, w <+: s.cursor.rest ∧ (∀ c ∈ w, cls c = true) ∧ s' = s.advance w := by
  rw [readings]
  exact mem_runReadings s.cursor.rest s.cursor rfl

theorem mem_readings_run1 {cls : Char → Bool} {s s' : State} :
    s' ∈ readings (run1 cls) s
      ↔ ∃ w, w ≠ [] ∧ w <+: s.cursor.rest ∧ (∀ c ∈ w, cls c = true) ∧ s' = s.advance w := by
  have hseq : readings (run1 cls) s = readings (one cls ++ run cls) s := rfl
  rw [hseq, mem_readings_seq]
  constructor
  · intro h
    obtain ⟨m, hm, hs'⟩ := h
    obtain ⟨c, hc, hcls, rfl⟩ := mem_readings_one.1 hm
    obtain ⟨w, hw, hall, rfl⟩ := mem_readings_run.1 hs'
    refine ⟨c :: w, List.cons_ne_nil c w, prefix_append_of_advance hc hw, ?_, ?_⟩
    · intro d hd
      rcases List.mem_cons.1 hd with rfl | hd
      · exact hcls
      · exact hall d hd
    · rw [State.advance_append]
      rfl
  · intro h
    obtain ⟨w, hne, hw, hall, rfl⟩ := h
    cases w with
    | nil => exact absurd rfl hne
    | cons c w =>
        have ⟨hc, hw⟩ := prefix_of_prefix_append (v := [c]) hw
        refine ⟨s.advance [c], mem_readings_one.2 ⟨c, hc, hall c List.mem_cons_self, rfl⟩, ?_⟩
        refine mem_readings_run.2 ⟨w, hw, fun d hd => hall d (List.mem_cons_of_mem c hd), ?_⟩
        rw [State.advance_append]
        rfl

theorem mem_readings_lit {t : Text} : ∀ {s s' : State},
    s' ∈ readings (lit t) s ↔ t <+: s.cursor.rest ∧ s' = s.advance t := by
  induction t with
  | nil =>
      intro s s'
      have hlit : readings (lit []) s = [s] := rfl
      rw [hlit, List.mem_singleton]
      exact ⟨fun h => ⟨List.nil_prefix, h⟩, fun h => h.2⟩
  | cons c t ih =>
      intro s s'
      have hlit : readings (lit (c :: t)) s = readings (one (· == c) ++ lit t) s := rfl
      rw [hlit, mem_readings_seq]
      constructor
      · intro h
        obtain ⟨m, hm, hs'⟩ := h
        obtain ⟨d, hd, hcd, rfl⟩ := mem_readings_one.1 hm
        obtain rfl := beq_iff_eq.1 hcd
        obtain ⟨ht, rfl⟩ := ih.1 hs'
        exact ⟨prefix_append_of_advance hd ht, by rw [State.advance_append]; rfl⟩
      · intro h
        obtain ⟨ht, rfl⟩ := h
        have ⟨hc, ht⟩ := prefix_of_prefix_append (v := [c]) ht
        refine ⟨s.advance [c], mem_readings_one.2 ⟨c, hc, beq_self_eq_true c, rfl⟩, ih.2 ⟨ht, ?_⟩⟩
        rw [State.advance_append]
        rfl

-- ==================================================== readings move on

theorem exists_advance_shortRun {cls : Char → Bool} {captures : List Capture} {s' : State} :
    ∀ (t : Text) (cur : Cursor), cur.rest = t → s' ∈ shortRunReadings cls captures t cur →
      ∃ w, w <+: cur.rest ∧ (∀ c ∈ w, cls c = true) ∧ s' = ⟨cur.advance w, captures⟩ := by
  intro t
  induction t with
  | nil =>
      intro cur _ h
      rw [shortRunReadings, List.mem_singleton] at h
      exact ⟨[], List.nil_prefix, List.forall_mem_nil _, h⟩
  | cons c rest ih =>
      intro cur hcur h
      rw [shortRunReadings, List.mem_cons] at h
      rcases h with h | h
      · exact ⟨[], List.nil_prefix, List.forall_mem_nil _, h⟩
      · split at h
        · next hcls =>
          obtain ⟨w, hw, hall, rfl⟩ := ih (cur.step c rest) rfl h
          refine ⟨c :: w, ?_, List.forall_mem_cons.2 ⟨hcls, hall⟩, ?_⟩
          · rw [hcur]
            exact List.cons_prefix_cons.2 ⟨rfl, hw⟩
          · rw [Cursor.step_advance hcur]
        · cases h

/-- A relation between the states before and after a reading that every form of pattern keeps. The
forms that are not put together from others take a text, be it the empty one, and remember
nothing. -/
structure KeptByReading (R : Pattern → State → State → Prop) : Prop where
  takes : ∀ {p s w}, w <+: s.cursor.rest → R p s (s.advance w)
  seq : ∀ {p q s m s'}, m ∈ readings p s → R p s m → R q m s' → R (p ++ q) s s'
  left : ∀ {p q s s'}, R p s s' → R (choice p q) s s'
  right : ∀ {p q s s'}, R q s s' → R (choice p q) s s'
  again : ∀ {p s m s'}, m ∈ readings p s → R p s m → R (repeated p) m s' → R (repeated p) s s'
  group : ∀ {index p s m}, m ∈ readings p s → R p s m → R (group index p) s (m.remember index s)

/-- A relation that every form of pattern keeps holds of every reading. -/
theorem KeptByReading.of_mem {R : Pattern → State → State → Prop} (hR : KeptByReading R)
    {p : Pattern} : ∀ {s s' : State}, s' ∈ readings p s → R p s s' := by
  have hstay : ∀ {p : Pattern} {s s' : State}, s' = s → R p s s' := by
    rintro p s _ rfl
    exact hR.takes List.nil_prefix
  induction p with
  | nothing =>
      intro s s' h
      rw [readings, List.mem_singleton] at h
      exact hstay h
  | one cls =>
      intro s s' h
      obtain ⟨c, hc, -, rfl⟩ := mem_readings_one.1 h
      exact hR.takes hc
  | seq p q ihp ihq =>
      intro s s' h
      obtain ⟨m, hm, hs'⟩ := mem_readings_seq.1 h
      exact hR.seq hm (ihp hm) (ihq hs')
  | choice p q ihp ihq =>
      intro s s' h
      rcases mem_readings_choice.1 h with h | h
      · exact hR.left (ihp h)
      · exact hR.right (ihq h)
  | run cls =>
      intro s s' h
      obtain ⟨w, hw, -, rfl⟩ := mem_readings_run.1 h
      exact hR.takes hw
  | shortRun cls =>
      intro s s' h
      obtain ⟨w, hw, -, rfl⟩ := exists_advance_shortRun s.cursor.rest s.cursor rfl h
      exact hR.takes hw
  | repeated p ih =>
      have hrounds : ∀ (n : Nat) (s s' : State),
          s' ∈ repeatedReadings (readings p) n s → R (repeated p) s s' := by
        intro n
        induction n with
        | zero =>
            intro s s' h
            rw [repeatedReadings, List.mem_singleton] at h
            exact hstay h
        | succ n ihn =>
            intro s s' h
            rw [repeatedReadings, List.mem_append, List.mem_flatMap, List.mem_singleton] at h
            rcases h with ⟨m, hm, hs'⟩ | h
            · have hm := (List.mem_filter.1 hm).1
              exact hR.again hm (ih hm) (ihn m s' hs')
            · exact hstay h
      exact fun {s s'} h => hrounds _ s s' h
  | group index p ih =>
      intro s s' h
      obtain ⟨m, hm, rfl⟩ := mem_readings_group.1 h
      exact hR.group hm (ih hm)
  | place holds =>
      intro s s' h
      exact hstay (mem_readings_place.1 h).2
  | ahead p _ =>
      intro s s' h
      rw [readings] at h
      split at h
      · cases h
      · exact hstay (List.mem_singleton.1 h)
  | notAhead p _ =>
      intro s s' h
      rw [readings] at h
      split at h
      · exact hstay (List.mem_singleton.1 h)
      · cases h

/-- Two moves are one. -/
theorem advance_trans {a b c : Cursor} (hab : ∃ v, v <+: a.rest ∧ b = a.advance v)
    (hbc : ∃ w, w <+: b.rest ∧ c = b.advance w) : ∃ u, u <+: a.rest ∧ c = a.advance u := by
  obtain ⟨v, hv, rfl⟩ := hab
  obtain ⟨w, hw, rfl⟩ := hbc
  exact ⟨v ++ w, prefix_append_of_advance hv hw, Cursor.advance_append a v w⟩

/-- A reading takes a text that is ahead and stops after it. -/
theorem exists_advance {p : Pattern} {s s' : State} (h : s' ∈ readings p s) :
    ∃ w, w <+: s.cursor.rest ∧ s'.cursor = s.cursor.advance w := by
  have hkept : KeptByReading fun _ s s' =>
      ∃ w, w <+: s.cursor.rest ∧ s'.cursor = s.cursor.advance w := {
    takes := fun hw => ⟨_, hw, rfl⟩
    seq := fun _ => advance_trans
    left := id
    right := id
    again := fun _ => advance_trans
    group := fun _ hm => hm }
  exact hkept.of_mem h

-- ================================================= what is remembered

/-- The groups of a pattern with their numbers; what is tried ahead remembers nothing. -/
def groups : Pattern → List (Nat × Pattern)
  | seq p q => groups p ++ groups q
  | choice p q => groups p ++ groups q
  | repeated p => groups p
  | group index p => (index, p) :: groups p
  | _ => []

/-- A text that a pattern can read somewhere. -/
def Reads (p : Pattern) (w : Text) : Prop :=
  ∃ s s', s' ∈ readings p s ∧ w <+: s.cursor.rest ∧ s'.cursor = s.cursor.advance w

/-- The text that is remembered. -/
def Capture.text (c : Capture) : Text := c.rest.take c.length

/-- A remembered text that comes from a group of a pattern and lies in a text. -/
def Capture.FromGroup (c : Capture) (p : Pattern) (t : Text) : Prop :=
  ∃ q, (c.index, q) ∈ p.groups ∧ q.Reads c.text ∧ c.text <:+: t

/-- A remembered text lies in every text that contains the one it lies in. -/
theorem Capture.FromGroup.mono {c : Capture} {p p' : Pattern} {t t' : Text}
    (h : c.FromGroup p t) (hp : ∀ g ∈ p.groups, g ∈ p'.groups) (ht : t <:+: t') :
    c.FromGroup p' t' := by
  obtain ⟨q, hq, hreads, hin⟩ := h
  exact ⟨q, hp _ hq, hreads, hin.trans ht⟩

/-- What is ahead after a reading is the end of what was ahead before. -/
theorem rest_suffix {p : Pattern} {s s' : State} (h : s' ∈ readings p s) :
    s'.cursor.rest <:+ s.cursor.rest := by
  obtain ⟨w, -, hcur⟩ := exists_advance h
  rw [hcur]
  exact List.drop_suffix _ _

/-- What a group remembers is what was read since it began. -/
theorem remember_text {s m : State} {w : Text} (hw : w <+: s.cursor.rest)
    (hcur : m.cursor = s.cursor.advance w) :
    Capture.text ⟨0, s.cursor.rest, m.cursor.offset - s.cursor.offset⟩ = w := by
  obtain ⟨r, hr⟩ := hw
  unfold Capture.text
  rw [hcur, ← hr]
  unfold Cursor.advance
  dsimp only
  rw [Nat.add_sub_cancel_left, List.take_left]

/-- What is remembered after a reading is what was so before, and before it texts of the groups. -/
def Remembers (p : Pattern) (s s' : State) : Prop :=
  ∃ texts, s'.captures = texts ++ s.captures ∧ ∀ c ∈ texts, c.FromGroup p s.cursor.rest

theorem Remembers.of_eq {p : Pattern} {s s' : State} (h : s'.captures = s.captures) :
    Remembers p s s' :=
  ⟨[], h, fun _ hc => absurd hc List.not_mem_nil⟩

/-- One reading after another remembers the texts of both. -/
theorem Remembers.trans {p q r : Pattern} {s m s' : State} (hpm : Remembers p s m)
    (hqs : Remembers q m s') (hp : ∀ g ∈ p.groups, g ∈ r.groups)
    (hq : ∀ g ∈ q.groups, g ∈ r.groups) (hrest : m.cursor.rest <:+ s.cursor.rest) :
    Remembers r s s' := by
  obtain ⟨first, hfirst, hfrom⟩ := hpm
  obtain ⟨second, hsecond, hfrom'⟩ := hqs
  refine ⟨second ++ first, ?_, fun c hc => ?_⟩
  · rw [hsecond, hfirst, List.append_assoc]
  · rcases List.mem_append.1 hc with hc | hc
    · exact (hfrom' c hc).mono hq hrest.isInfix
    · exact (hfrom c hc).mono hp List.infix_rfl

/-- What a part of a pattern remembers, the pattern does. -/
theorem Remembers.mono {p r : Pattern} {s s' : State} (h : Remembers p s s')
    (hp : ∀ g ∈ p.groups, g ∈ r.groups) : Remembers r s s' := by
  obtain ⟨texts, htexts, hfrom⟩ := h
  exact ⟨texts, htexts, fun c hc => (hfrom c hc).mono hp List.infix_rfl⟩

theorem keptByReading_remembers : KeptByReading Remembers where
  takes := fun _ => .of_eq rfl
  seq := fun hm hpm hqs =>
    hpm.trans hqs (fun _ => List.mem_append_left _) (fun _ => List.mem_append_right _)
      (rest_suffix hm)
  left := fun h => h.mono fun _ => List.mem_append_left _
  right := fun h => h.mono fun _ => List.mem_append_right _
  again := fun hm hpm hqs => hpm.trans hqs (fun _ h => h) (fun _ h => h) (rest_suffix hm)
  group := by
    intro index p s m hm hremembers
    obtain ⟨texts, htexts, hfrom⟩ := hremembers
    obtain ⟨w, hw, hcur⟩ := exists_advance hm
    have htext := remember_text hw hcur
    refine ⟨⟨index, s.cursor.rest, m.cursor.offset - s.cursor.offset⟩ :: texts,
      congrArg (List.cons _) htexts, fun c hc => ?_⟩
    rcases List.mem_cons.1 hc with rfl | hc
    · refine ⟨p, List.mem_cons_self, ⟨s, m, hm, ?_, ?_⟩, ?_⟩
      · exact htext.symm ▸ hw
      · exact hcur.trans (congrArg s.cursor.advance htext.symm)
      · exact htext.symm ▸ hw.isInfix
    · exact (hfrom c hc).mono (fun _ => List.mem_cons_of_mem _) List.infix_rfl

/-- A reading remembers nothing but texts of the groups. -/
theorem captured {p : Pattern} {s s' : State} (h : s' ∈ readings p s) : Remembers p s s' :=
  keptByReading_remembers.of_mem h

-- ================================================ texts by their numbers

/-- The texts that are remembered, with their numbers. -/
def State.texts (s : State) : List (Nat × Text) := s.captures.map fun c => (c.index, c.text)

/-- A group adds what was read since it began to the texts. -/
theorem texts_remember {s m : State} {w : Text} (index : Nat) (hw : w <+: s.cursor.rest)
    (hcur : m.cursor = s.cursor.advance w) :
    (m.remember index s).texts = (index, w) :: m.texts := by
  unfold State.texts State.remember
  rw [List.map_cons]
  exact congrArg (fun t => (index, t) :: _) (remember_text hw hcur)

/-- A reading adds texts under the numbers of the groups. -/
theorem texts_of_reading {p : Pattern} {s s' : State} (h : s' ∈ readings p s) :
    ∃ new, s'.texts = new ++ s.texts ∧ ∀ x ∈ new, x.1 ∈ p.groups.map (·.1) := by
  obtain ⟨texts, htexts, hfrom⟩ := captured h
  refine ⟨texts.map fun c => (c.index, c.text), ?_, fun x hx => ?_⟩
  · unfold State.texts
    rw [htexts, List.map_append]
  · obtain ⟨c, hc, rfl⟩ := List.mem_map.1 hx
    obtain ⟨q, hq, -⟩ := hfrom c hc
    exact List.mem_map_of_mem hq

/-- What is remembered under a number stays, if no group of the pattern has the number. -/
theorem lookup_texts_of_reading {p : Pattern} {s s' : State} {index : Nat}
    (h : s' ∈ readings p s) (hindex : index ∉ p.groups.map (·.1)) :
    s'.texts.lookup index = s.texts.lookup index := by
  obtain ⟨new, hnew, hmem⟩ := texts_of_reading h
  have hnone : new.lookup index = none :=
    List.lookup_eq_none_iff.2 fun x hx => bne_iff_ne.2 fun heq => hindex (heq ▸ hmem x hx)
  rw [hnew, List.lookup_append, hnone, Option.none_or]

/-- A pattern without groups remembers nothing. -/
theorem texts_of_reading_none {p : Pattern} {s s' : State} (hp : p.groups = [])
    (h : s' ∈ readings p s) : s'.texts = s.texts := by
  obtain ⟨new, hnew, hmem⟩ := texts_of_reading h
  cases new with
  | nil => exact hnew
  | cons x new =>
      have hx := hmem x List.mem_cons_self
      rw [hp] at hx
      cases hx

-- ============================================ what was remembered before

/-- The state with texts remembered before those it has. -/
def State.behind (s : State) (before : List Capture) : State := ⟨s.cursor, s.captures ++ before⟩

/-- Earlier captures have no part in what a run reads. -/
theorem runReadings_behind (cls : Char → Bool) (captures before : List Capture) (t : Text)
    (cur : Cursor) :
    runReadings cls (captures ++ before) t cur
      = (runReadings cls captures t cur).map (State.behind · before) := by
  induction t generalizing cur with
  | nil => rfl
  | cons c rest ih =>
      rw [runReadings, runReadings]
      split
      · rw [ih, List.map_append]
        rfl
      · rfl

theorem shortRunReadings_behind (cls : Char → Bool) (captures before : List Capture) (t : Text)
    (cur : Cursor) :
    shortRunReadings cls (captures ++ before) t cur
      = (shortRunReadings cls captures t cur).map (State.behind · before) := by
  induction t generalizing cur with
  | nil => rfl
  | cons c rest ih =>
      rw [shortRunReadings, shortRunReadings, List.map_cons]
      split
      · rw [ih]
        rfl
      · rfl

theorem repeatedReadings_behind {body : State → List State} {before : List Capture}
    (hbody : ∀ s, body (s.behind before) = (body s).map (State.behind · before)) (n : Nat)
    (s : State) :
    repeatedReadings body n (s.behind before)
      = (repeatedReadings body n s).map (State.behind · before) := by
  induction n generalizing s with
  | zero => rfl
  | succ n ih =>
      rw [repeatedReadings, repeatedReadings, hbody, List.filter_map, List.flatMap_map,
        List.map_append, List.map_flatMap]
      simp only [ih]
      rfl

/-- What has been remembered before has no part in a reading. -/
theorem readings_behind (p : Pattern) (s : State) (before : List Capture) :
    readings p (s.behind before) = (readings p s).map (State.behind · before) := by
  induction p generalizing s with
  | nothing => rfl
  | one cls =>
      rw [readings, readings]
      show (match s.cursor.rest with | [] => _ | c :: rest => _) = _
      cases s.cursor.rest with
      | nil => rfl
      | cons c rest =>
          dsimp only
          split <;> rfl
  | seq p q ihp ihq =>
      rw [readings, readings, ihp, List.flatMap_map, List.map_flatMap]
      simp only [ihq]
  | choice p q ihp ihq => rw [readings, readings, ihp, ihq, List.map_append]
  | run cls => exact runReadings_behind cls s.captures before s.cursor.rest s.cursor
  | shortRun cls => exact shortRunReadings_behind cls s.captures before s.cursor.rest s.cursor
  | repeated p ih => exact repeatedReadings_behind ih _ s
  | group index p ih =>
      rw [readings, readings, ih, List.map_map, List.map_map]
      rfl
  | place holds =>
      rw [readings, readings]
      show (if holds s.cursor then _ else _) = _
      split <;> rfl
  | ahead p ih =>
      rw [readings, readings, ih, List.isEmpty_map]
      split <;> rfl
  | notAhead p ih =>
      rw [readings, readings, ih, List.isEmpty_map]
      split <;> rfl

end Pattern
end GoSurvey
