/-
Readings by the texts that they lead over. `Takes` says it of one reading,
so that what a pattern has read is put together from what its parts have
read; `CanRead` says of a pattern that it can read a text wherever that is
ahead, and is put together in the same way. The `takes_` and the
`canRead_` lemmas are the two directions for each form of pattern.
-/
import GoSurvey.Proofs.Pattern.Search

namespace GoSurvey.Pattern

variable {p q : Pattern} {s m s' : State}

-- =============================================== all but one character

/-- A text without a character is one of the class of all the others. -/
theorem except_of_not_mem {c : Char} {w : Text} (h : c ∉ w) : ∀ d ∈ w, except c d = true := by
  intro d hd
  refine bne_iff_ne.2 ?_
  rintro rfl
  exact h hd

theorem not_mem_of_except {c : Char} {w : Text} (h : ∀ d ∈ w, except c d = true) : c ∉ w :=
  fun hmem => bne_iff_ne.1 (h c hmem) rfl

-- ======================================================= what was read

/-- A reading leads over a text that is ahead. -/
structure Takes (s s' : State) (w : Text) : Prop where
  ahead : w <+: s.cursor.rest
  cursor : s'.cursor = s.cursor.advance w

theorem Takes.append {v w : Text} (hv : Takes s m v) (hw : Takes m s' w) :
    Takes s s' (v ++ w) := by
  have hahead := hw.ahead
  rw [hv.cursor] at hahead
  refine ⟨prefix_append_of_advance hv.ahead hahead, ?_⟩
  rw [hw.cursor, hv.cursor, Cursor.advance_append]

theorem exists_takes (h : s' ∈ readings p s) : ∃ w, Takes s s' w := by
  obtain ⟨w, hw, hcur⟩ := exists_advance h
  exact ⟨w, hw, hcur⟩

theorem takes_lit {t : Text} (h : s' ∈ readings (lit t) s) :
    Takes s s' t ∧ s'.texts = s.texts := by
  obtain ⟨ht, rfl⟩ := mem_readings_lit.1 h
  exact ⟨⟨ht, rfl⟩, rfl⟩

theorem takes_run {cls : Char → Bool} (h : s' ∈ readings (run cls) s) :
    ∃ w, (∀ c ∈ w, cls c = true) ∧ Takes s s' w ∧ s'.texts = s.texts := by
  obtain ⟨w, hw, hcls, rfl⟩ := mem_readings_run.1 h
  exact ⟨w, hcls, ⟨hw, rfl⟩, rfl⟩

/-- A group of a run remembers the run. -/
theorem takes_group {index : Nat} {cls : Char → Bool}
    (h : s' ∈ readings (group index (run1 cls)) s) :
    ∃ w, w ≠ [] ∧ (∀ c ∈ w, cls c = true) ∧ Takes s s' w ∧ s'.texts = (index, w) :: s.texts := by
  obtain ⟨m, hm, rfl⟩ := mem_readings_group.1 h
  obtain ⟨w, hne, hw, hcls, rfl⟩ := mem_readings_run1.1 hm
  exact ⟨w, hne, hcls, ⟨hw, rfl⟩, texts_remember index hw rfl⟩

theorem takes_shortGroup {index : Nat} {cls : Char → Bool}
    (h : s' ∈ readings (group index (shortRun cls)) s) :
    ∃ w, (∀ c ∈ w, cls c = true) ∧ Takes s s' w ∧ s'.texts = (index, w) :: s.texts := by
  obtain ⟨m, hm, rfl⟩ := mem_readings_group.1 h
  obtain ⟨w, hw, hcls, rfl⟩ := exists_advance_shortRun s.cursor.rest s.cursor rfl hm
  exact ⟨w, hcls, ⟨hw, rfl⟩, texts_remember index hw rfl⟩

theorem mem_readings_oneOf {ts : List Text} :
    s' ∈ readings (oneOf ts) s ↔ ∃ t ∈ ts, s' ∈ readings (lit t) s := by
  fun_induction oneOf ts with
  | case1 => simp [mem_readings_place]
  | case2 t => simp
  | case3 t ts _ ih => simp [mem_readings_choice, ih]

theorem takes_oneOf {ts : List Text} (h : s' ∈ readings (oneOf ts) s) :
    ∃ t ∈ ts, Takes s s' t ∧ s'.texts = s.texts := by
  obtain ⟨t, ht, hlit⟩ := mem_readings_oneOf.1 h
  exact ⟨t, ht, takes_lit hlit⟩

/-- Where something has been read from a place it is read from there whatever was remembered. -/
theorem exists_reading_of_cursor {t : State} (h : s' ∈ readings p s) (ht : t.cursor = s.cursor) :
    ∃ t' ∈ readings p t, t'.cursor = s'.cursor := by
  obtain ⟨cur, captures⟩ := s
  obtain ⟨cur', captures'⟩ := t
  subst ht
  have hs : readings p ⟨cur', captures⟩ = _ := readings_behind p ⟨cur', []⟩ captures
  have ht : readings p ⟨cur', captures'⟩ = _ := readings_behind p ⟨cur', []⟩ captures'
  rw [hs] at h
  obtain ⟨r, hr, rfl⟩ := List.mem_map.1 h
  refine ⟨r.behind captures', ?_, rfl⟩
  rw [ht]
  exact List.mem_map_of_mem hr

/-- A match in a content is a reading from a place of it. -/
theorem exists_reading_of_mem_findAll {content : Text} {m : Match} (hm : m ∈ p.findAll content) :
    ∃ w s, w <+: content ∧ m.start = w.length ∧
      s ∈ readings p ⟨(Cursor.start content).advance w, []⟩ ∧
      m = Match.ofState ((Cursor.start content).advance w) s := by
  obtain ⟨w, hw, hmatch, hstart⟩ := matchAt_of_mem_findAll hm
  obtain ⟨s, hs, hof⟩ := exists_reading_of_matchAt hmatch
  exact ⟨w, s, hw, hstart, hs, hof⟩

/-- The text of a match is what its reading leads over. -/
theorem text_ofState {cur : Cursor} {t : Text} (h : Takes ⟨cur, []⟩ s t) :
    (Match.ofState cur s).text = t := by
  obtain ⟨rest, hrest⟩ := h.ahead
  have hrest : t ++ rest = cur.rest := hrest
  show cur.rest.take (s.cursor.offset - cur.offset) = t
  rw [h.cursor, ← hrest]
  unfold Cursor.advance
  dsimp only
  rw [Nat.add_sub_cancel_left, List.take_left]

-- ==================================================== what can be read

/-- A pattern can read a text wherever it is ahead. -/
def CanRead (p : Pattern) (w : Text) : Prop :=
  ∀ s : State, w <+: s.cursor.rest → ∃ s' ∈ readings p s, s'.cursor = s.cursor.advance w

theorem CanRead.append {v w : Text} (hp : CanRead p v) (hq : CanRead q w) :
    CanRead (p ++ q) (v ++ w) := by
  intro s h
  obtain ⟨hv, hw⟩ := prefix_of_prefix_append h
  obtain ⟨m, hm, hcursor⟩ := hp s hv
  rw [← hcursor] at hw
  obtain ⟨s', hs', hcursor'⟩ := hq m hw
  refine ⟨s', mem_readings_seq.2 ⟨m, hm, hs'⟩, ?_⟩
  rw [hcursor', hcursor, Cursor.advance_append]

theorem canRead_lit (t : Text) : CanRead (lit t) t :=
  fun _ h => ⟨_, mem_readings_lit.2 ⟨h, rfl⟩, rfl⟩

theorem canRead_run {cls : Char → Bool} {w : Text} (hw : ∀ c ∈ w, cls c = true) :
    CanRead (run cls) w :=
  fun _ h => ⟨_, mem_readings_run.2 ⟨w, h, hw, rfl⟩, rfl⟩

/-- A short run may be as long as any other. -/
theorem canRead_shortRun {cls : Char → Bool} {w : Text} (hw : ∀ c ∈ w, cls c = true) :
    CanRead (shortRun cls) w := by
  have hmem : ∀ {t : Text} {cur : Cursor} {captures : List Capture}, cur.rest = t → w <+: t →
      ⟨cur.advance w, captures⟩ ∈ shortRunReadings cls captures t cur := by
    induction w with
    | nil =>
        intro t cur captures _ _
        cases t with
        | nil => exact List.mem_cons_self
        | cons c t => exact List.mem_cons_self
    | cons c w ih =>
        rintro t cur captures hcur ⟨rest, rfl⟩
        have hlater : ⟨(cur.step c (w ++ rest)).advance w, captures⟩
            ∈ shortRunReadings cls captures (w ++ rest) (cur.step c (w ++ rest)) :=
          ih (fun d hd => hw d (List.mem_cons_of_mem c hd)) rfl (List.prefix_append w rest)
        rw [List.cons_append, shortRunReadings, if_pos (hw c List.mem_cons_self),
          ← Cursor.step_advance hcur]
        exact List.mem_cons_of_mem _ hlater
  intro s h
  exact ⟨s.advance w, hmem rfl h, rfl⟩

theorem canRead_run1 {cls : Char → Bool} {w : Text} (hne : w ≠ [])
    (hw : ∀ c ∈ w, cls c = true) : CanRead (run1 cls) w :=
  fun _ h => ⟨_, mem_readings_run1.2 ⟨w, hne, h, hw, rfl⟩, rfl⟩

theorem CanRead.group {w : Text} (index : Nat) (h : CanRead p w) : CanRead (group index p) w := by
  intro s hs
  obtain ⟨m, hm, hcursor⟩ := h s hs
  exact ⟨_, mem_readings_group.2 ⟨m, hm, rfl⟩, hcursor⟩

theorem CanRead.optional {w : Text} (h : CanRead p w) : CanRead (optional p) w := by
  intro s hs
  obtain ⟨m, hm, hcursor⟩ := h s hs
  exact ⟨m, mem_readings_optional.2 (.inl hm), hcursor⟩

theorem canRead_optional_nil (p : Pattern) : CanRead (optional p) [] :=
  fun s _ => ⟨s, mem_readings_optional.2 (.inr rfl), rfl⟩

theorem canRead_group {cls : Char → Bool} {w : Text} (index : Nat) (hne : w ≠ [])
    (hw : ∀ c ∈ w, cls c = true) : CanRead (group index (run1 cls)) w :=
  (canRead_run1 hne hw).group index

/-- Texts that a pattern can read one by one it can read one after another. -/
theorem canRead_repeated {ws : List Text} (hne : ∀ w ∈ ws, w ≠ []) (hp : ∀ w ∈ ws, CanRead p w) :
    CanRead (repeated p) ws.flatten := by
  have hread : ∀ {n : Nat} {s : State}, ws.flatten.length ≤ n → ws.flatten <+: s.cursor.rest →
      ∃ s' ∈ repeatedReadings (readings p) n s, s'.cursor = s.cursor.advance ws.flatten := by
    induction ws with
    | nil =>
        intro n s _ _
        refine ⟨s, ?_, rfl⟩
        cases n <;> simp [repeatedReadings]
    | cons w ws ih =>
        intro n s hn h
        rw [List.forall_mem_cons] at hne hp
        have hpos := List.length_pos_iff.2 hne.1
        rw [List.flatten_cons, List.length_append] at hn
        obtain ⟨n, rfl⟩ : ∃ k, n = k + 1 := ⟨n - 1, by omega⟩
        obtain ⟨hw, hrest⟩ := prefix_of_prefix_append h
        obtain ⟨m, hm, hcursor⟩ := hp.1 s hw
        rw [← hcursor] at hrest
        have hn : ws.flatten.length ≤ n := by omega
        obtain ⟨s', hs', hcursor'⟩ := ih hne.2 hp.2 hn hrest
        have hlt : s.cursor.offset < m.cursor.offset := by
          rw [hcursor]
          show s.cursor.offset < s.cursor.offset + w.length
          omega
        refine ⟨s', ?_, ?_⟩
        · rw [repeatedReadings]
          refine List.mem_append_left _ (List.mem_flatMap.2 ⟨m, ?_, hs'⟩)
          exact List.mem_filter.2 ⟨hm, decide_eq_true hlt⟩
        · rw [hcursor', hcursor, Cursor.advance_append]
          rfl
  exact fun s h => hread h.length_le h

/-- A pattern can read on wherever a text is all that is ahead. -/
def ReadsRest (p : Pattern) (w : Text) : Prop :=
  ∀ s : State, s.cursor.rest = w → ∃ s', s' ∈ readings p s

theorem CanRead.readsRest {v : Text} (h : CanRead p v) (w : Text) : ReadsRest p (v ++ w) := by
  intro s hs
  obtain ⟨s', hs', -⟩ := h s ⟨w, hs.symm⟩
  exact ⟨s', hs'⟩

theorem ReadsRest.choice_left {w : Text} (h : ReadsRest p w) : ReadsRest (choice p q) w := by
  intro s hs
  obtain ⟨s', hs'⟩ := h s hs
  exact ⟨s', mem_readings_choice.2 (.inl hs')⟩

theorem ReadsRest.choice_right {w : Text} (h : ReadsRest q w) : ReadsRest (choice p q) w := by
  intro s hs
  obtain ⟨s', hs'⟩ := h s hs
  exact ⟨s', mem_readings_choice.2 (.inr hs')⟩

theorem readsRest_atEnd : ReadsRest Pattern.atEnd [] := by
  intro s hs
  refine ⟨s, mem_readings_place.2 ⟨?_, rfl⟩⟩
  unfold Cursor.atEnd
  rw [hs]
  rfl

theorem ReadsRest.append {v w : Text} (hp : CanRead p v) (hq : ReadsRest q w) :
    ReadsRest (p ++ q) (v ++ w) := by
  intro s hs
  obtain ⟨m, hm, hcursor⟩ := hp s ⟨w, hs.symm⟩
  have hrest : m.cursor.rest = w := by
    rw [hcursor]
    show s.cursor.rest.drop v.length = w
    rw [hs, List.drop_left]
  obtain ⟨s', hs'⟩ := hq m hrest
  exact ⟨s', mem_readings_seq.2 ⟨m, hm, hs'⟩⟩

end GoSurvey.Pattern
