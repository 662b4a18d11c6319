/-
The first reading of a pattern, which is the one that a match takes.
Where each part can read all it tries first, the parts together do
(`first_seq`), so that along a text whose shape is known the match is
known as well, without a look at what else could have been read.
-/
import GoSurvey.Proofs.Pattern.Search

namespace GoSurvey.Pattern

/-- What is ahead after a text is what follows it. -/
theorem rest_advance {cur : Cursor} {v w : Text} (h : cur.rest = v ++ w) :
    (cur.advance v).rest = w := by
  show cur.rest.drop v.length = w
  rw [h, List.drop_left]

/-- A word edge after a word is a place before no word character. -/
theorem atWordEdge_advance {cur : Cursor} {w : Text} (hne : w ≠ [])
    (hw : ∀ c ∈ w, Text.isWord c = true) :
    (cur.advance w).atWordEdge = true ↔
      ∀ c ∈ (cur.advance w).rest.head?, Text.isWord c = false := by
  obtain ⟨init, last, rfl⟩ : ∃ init last, w = init ++ [last] :=
    ⟨w.dropLast, w.getLast hne, (List.dropLast_concat_getLast hne).symm⟩
  have hlast : Text.isWord last = true := hw last (List.mem_append_right init List.mem_cons_self)
  have hprevious : (cur.advance (init ++ [last])).previous = some last := by
    unfold Cursor.advance
    rw [List.getLast?_concat]
    rfl
  unfold Cursor.atWordEdge
  rw [hprevious]
  cases (cur.advance (init ++ [last])).rest.head? with
  | none => simp [hlast]
  | some c => simp [hlast]

variable {s s' m : State} {p q : Pattern}

/-- The reading that is tried first. -/
def First (p : Pattern) (s s' : State) : Prop := (readings p s).head? = some s'

theorem First.mem (h : First p s s') : s' ∈ readings p s := List.mem_of_mem_head? h

theorem first_of_unique (hmem : s' ∈ readings p s) (hunique : ∀ m ∈ readings p s, m = s') :
    First p s s' := by
  unfold First
  cases hall : readings p s with
  | nil =>
      rw [hall] at hmem
      cases hmem
  | cons m rest =>
      rw [hall] at hunique
      rw [List.head?_cons, hunique m List.mem_cons_self]

/-- Where there is a reading, one is tried first. -/
theorem exists_first (h : s' ∈ readings p s) : ∃ m, First p s m := by
  unfold First
  cases hall : readings p s with
  | nil =>
      rw [hall] at h
      cases h
  | cons m rest => exact ⟨m, rfl⟩

theorem first_seq (hp : First p s m) (hq : First q m s') : First (p ++ q) s s' := by
  obtain ⟨rest, hrest⟩ := List.head?_eq_some_iff.1 hp
  show ((readings p s).flatMap (readings q)).head? = some s'
  rw [hrest, List.flatMap_cons, List.head?_append, hq]
  rfl

/-- After what is tried first, what can be read is read in some way. -/
theorem exists_first_seq (hp : First p s m) (hq : s' ∈ readings q m) :
    ∃ t ∈ readings q m, First (p ++ q) s t := by
  obtain ⟨t, ht⟩ := exists_first hq
  exact ⟨t, ht.mem, first_seq hp ht⟩

theorem first_lit {t : Text} (h : t <+: s.cursor.rest) : First (lit t) s (s.advance t) :=
  first_of_unique (mem_readings_lit.2 ⟨h, rfl⟩) fun _ hm => (mem_readings_lit.1 hm).2

theorem first_place {holds : Cursor → Bool} (h : holds s.cursor = true) :
    First (place holds) s s :=
  first_of_unique (mem_readings_place.2 ⟨h, rfl⟩) fun _ hm => (mem_readings_place.1 hm).2

theorem first_runReadings {cls : Char → Bool} {captures : List Capture} {w t : Text}
    (hw : ∀ c ∈ w, cls c = true) (ht : ∀ c ∈ t.head?, cls c = false) {cur : Cursor}
    (hcur : cur.rest = w ++ t) :
    (runReadings cls captures (w ++ t) cur).head? = some ⟨cur.advance w, captures⟩ := by
  induction w generalizing cur with
  | nil =>
      cases t with
      | nil => rfl
      | cons c t =>
          rw [List.nil_append, runReadings, if_neg (by rw [ht c rfl]; exact Bool.false_ne_true)]
          rfl
  | cons c w ih =>
      rw [List.cons_append] at hcur ⊢
      rw [runReadings, if_pos (hw c List.mem_cons_self), List.head?_append,
        ih (fun d hd => hw d (List.mem_cons_of_mem c hd)) rfl, Cursor.step_advance hcur]
      rfl

/-- A run is read up to where its class ends. -/
theorem first_run {cls : Char → Bool} {w t : Text} (hrest : s.cursor.rest = w ++ t)
    (hw : ∀ c ∈ w, cls c = true) (ht : ∀ c ∈ t.head?, cls c = false) :
    First (run cls) s (s.advance w) := by
  unfold First
  rw [readings, hrest]
  exact first_runReadings hw ht hrest

theorem readings_one {cls : Char → Bool} {c : Char} {t : Text} (hrest : s.cursor.rest = c :: t)
    (hc : cls c = true) : readings (one cls) s = [s.advance [c]] := by
  rw [readings, hrest]
  dsimp only
  rw [if_pos hc, Cursor.step_eq_advance _ _ _ hrest]
  rfl

theorem first_one {cls : Char → Bool} {c : Char} {t : Text} (hrest : s.cursor.rest = c :: t)
    (hc : cls c = true) : First (one cls) s (s.advance [c]) :=
  congrArg List.head? (readings_one hrest hc)

theorem first_run1 {cls : Char → Bool} {w t : Text} (hrest : s.cursor.rest = w ++ t) (hne : w ≠ [])
    (hw : ∀ c ∈ w, cls c = true) (ht : ∀ c ∈ t.head?, cls c = false) :
    First (run1 cls) s (s.advance w) := by
  obtain ⟨c, w, rfl⟩ := List.exists_cons_of_ne_nil hne
  rw [List.forall_mem_cons] at hw
  have hlater : (s.advance [c]).cursor.rest = w ++ t := rest_advance (v := [c]) hrest
  have hrun := first_run hlater hw.2 ht
  rw [State.advance_append] at hrun
  exact first_seq (first_one hrest hw.1) hrun

theorem first_group {index : Nat} (h : First p s m) :
    First (group index p) s (m.remember index s) := by
  unfold First at h ⊢
  rw [readings, List.head?_map, h]
  rfl

/-- A short run ends at the first place from which the rest can be read. -/
theorem head?_flatMap_shortRunReadings {cls : Char → Bool} {captures : List Capture}
    {f : State → List State} {w t : Text} {cur : Cursor} (hcur : cur.rest = w ++ t)
    (hw : ∀ c ∈ w, cls c = true)
    (hshorter : ∀ v, v <+: w → v ≠ w → f ⟨cur.advance v, captures⟩ = [])
    (hf : (f ⟨cur.advance w, captures⟩).head? = some s') :
    ((shortRunReadings cls captures (w ++ t) cur).flatMap f).head? = some s' := by
  induction w generalizing cur with
  | nil =>
      have hhere : (f ⟨cur, captures⟩).head? = some s' := hf
      cases t with
      | nil =>
          rw [List.nil_append, shortRunReadings, List.flatMap_cons, List.head?_append, hhere]
          rfl
      | cons c t =>
          rw [List.nil_append, shortRunReadings, List.flatMap_cons, List.head?_append, hhere]
          rfl
  | cons c w ih =>
      have hhere : f ⟨cur, captures⟩ = [] := hshorter [] List.nil_prefix (List.cons_ne_nil c w).symm
      rw [List.forall_mem_cons] at hw
      rw [List.cons_append] at hcur ⊢
      rw [shortRunReadings, if_pos hw.1, List.flatMap_cons, hhere,
        List.nil_append]
      refine ih rfl hw.2 (fun v hv hne => ?_) ?_
      · rw [Cursor.step_advance hcur]
        refine hshorter (c :: v) (List.cons_prefix_cons.2 ⟨rfl, hv⟩) fun h => hne ?_
        injection h
      · rw [Cursor.step_advance hcur]
        exact hf

/-- A group of a short run remembers the shortest text after which the rest can be read. -/
theorem first_shortGroup {index : Nat} {cls : Char → Bool} {w t : Text}
    (hrest : s.cursor.rest = w ++ t) (hne : w ≠ []) (hw : ∀ c ∈ w, cls c = true)
    (hshorter : ∀ v, v ≠ [] → v <+: w → v ≠ w →
      readings q ((s.advance v).remember index s) = [])
    (hq : First q ((s.advance w).remember index s) s') :
    First (group index (shortRun1 cls) ++ q) s s' := by
  obtain ⟨c, w, rfl⟩ := List.exists_cons_of_ne_nil hne
  rw [List.forall_mem_cons] at hw
  have hlater : (s.advance [c]).cursor.rest = w ++ t := rest_advance (v := [c]) hrest
  have hall : readings (group index (shortRun1 cls) ++ q) s
      = (shortRunReadings cls s.captures (w ++ t) (s.advance [c]).cursor).flatMap
          fun m => readings q (m.remember index s) := by
    show ((((readings (one cls) s).flatMap (readings (shortRun cls))).map
      fun m => m.remember index s).flatMap (readings q)) = _
    rw [readings_one hrest hw.1, List.flatMap_singleton, readings, hlater, List.flatMap_map]
    rfl
  unfold First
  rw [hall]
  refine head?_flatMap_shortRunReadings hlater hw.2 (fun v hv hne => ?_) ?_
  · have hread := hshorter (c :: v) (List.cons_ne_nil c v) (List.cons_prefix_cons.2 ⟨rfl, hv⟩)
      fun h => hne (List.cons.inj h).2
    show readings q (((s.advance [c]).advance v).remember index s) = []
    rw [State.advance_append]
    exact hread
  · show (readings q (((s.advance [c]).advance w).remember index s)).head? = some s'
    rw [State.advance_append]
    exact hq

theorem first_choice (h : First p s s') : First (choice p q) s s' := by
  show (readings p s ++ readings q s).head? = some s'
  rw [List.head?_append, h]
  rfl

theorem first_choice_of_nil (h : readings p s = []) (hq : First q s s') :
    First (choice p q) s s' := by
  show (readings p s ++ readings q s).head? = some s'
  rw [h, List.nil_append]
  exact hq

theorem first_optional (h : First p s s') : First (optional p) s s' := by
  show (readings p s ++ [s]).head? = some s'
  rw [List.head?_append, h]
  rfl

theorem first_optional_of_nil (h : readings p s = []) : First (optional p) s s := by
  show (readings p s ++ [s]).head? = some s
  rw [h]
  rfl

/-- Repetitions end where there is nothing more to repeat. -/
theorem head?_repeatedReadings_nil (h : readings p s = []) (n : Nat) :
    (repeatedReadings (readings p) n s).head? = some s := by
  cases n with
  | zero => rfl
  | succ n =>
      rw [repeatedReadings, h]
      rfl

theorem head?_repeatedReadings_cons {n : Nat} (hp : First p s m)
    (hlt : s.cursor.offset < m.cursor.offset)
    (h : (repeatedReadings (readings p) n m).head? = some s') :
    (repeatedReadings (readings p) (n + 1) s).head? = some s' := by
  obtain ⟨rest, hrest⟩ := List.head?_eq_some_iff.1 hp
  have hkeep : ((m :: rest).filter fun t => decide (s.cursor.offset < t.cursor.offset))
      = m :: rest.filter fun t => decide (s.cursor.offset < t.cursor.offset) :=
    List.filter_cons_of_pos (decide_eq_true hlt)
  rw [repeatedReadings, hrest, hkeep, List.flatMap_cons, List.append_assoc, List.head?_append, h]
  rfl

theorem first_ahead (h : First p s m) : First (ahead p) s s := by
  unfold First
  rw [readings]
  cases hall : readings p s with
  | nil =>
      unfold First at h
      rw [hall] at h
      cases h
  | cons => rfl

theorem readings_seq_nil (h : readings p s = []) : readings (p ++ q) s = [] := by
  show (readings p s).flatMap (readings q) = []
  rw [h]
  rfl

theorem readings_lit_nil {t : Text} (h : ¬t <+: s.cursor.rest) : readings (lit t) s = [] :=
  List.eq_nil_iff_forall_not_mem.2 fun _ hm => h (mem_readings_lit.1 hm).1

/-- The match at a place is the first reading from there. -/
theorem matchAt_of_first {cur : Cursor} (h : First p ⟨cur, []⟩ s') :
    p.matchAt cur = some (Match.ofState cur s') := by
  rw [matchAt_eq, h]
  rfl

theorem matchAt_of_nil {cur : Cursor} (h : readings p ⟨cur, []⟩ = []) : p.matchAt cur = none := by
  rw [matchAt_eq, h]
  rfl

/-- A search takes the match at the first place at which there is one. -/
theorem searchFrom_eq_some {found : Match} {u : Text} : ∀ {t : Text} {cur : Cursor}, cur.rest = t →
    u <+: t → p.matchAt (cur.advance u) = some found →
    (∀ v, v <+: u → v ≠ u → p.matchAt (cur.advance v) = none) →
    searchFrom p t cur = some found := by
  induction u with
  | nil =>
      intro t cur _ _ hfound _
      have hhere : p.matchAt cur = some found := hfound
      cases t with
      | nil => exact hhere
      | cons c t => rw [searchFrom, hhere]
  | cons c u ih =>
      intro t cur hcur hu hfound hbefore
      obtain ⟨rest, rfl⟩ := hu
      have hhere : p.matchAt cur = none := hbefore [] List.nil_prefix (List.cons_ne_nil c u).symm
      rw [List.cons_append] at hcur ⊢
      rw [searchFrom, hhere]
      refine ih rfl (List.prefix_append u rest) ?_ fun v hv hne => ?_
      · rw [Cursor.step_advance hcur]
        exact hfound
      · rw [Cursor.step_advance hcur]
        refine hbefore (c :: v) (List.cons_prefix_cons.2 ⟨rfl, hv⟩) fun h => hne ?_
        injection h

/-- After a match that reaches up to the end the end is all that is left to look at. -/
theorem findAllFrom_length : ∀ {t : Text} {cur : Cursor}, cur.rest = t →
    findAllFrom p t.length t cur = (p.matchAt (cur.advance t)).toList := by
  intro t
  induction t with
  | nil => exact fun _ => rfl
  | cons c t ih =>
      intro cur hcur
      rw [List.length_cons, findAllFrom, ih rfl, Cursor.step_advance hcur]

/-- A match that is the whole text is the only one if none is at its end. -/
theorem findAll_eq_singleton {found : Match} {t : Text} (hne : t ≠ [])
    (hfound : p.matchStart t = some found) (htext : found.text = t)
    (hend : p.matchAt ((Cursor.start t).advance t) = none) : p.findAll t = [found] := by
  obtain ⟨c, u, rfl⟩ := List.exists_cons_of_ne_nil hne
  have hfound : p.matchAt (Cursor.start (c :: u)) = some found := hfound
  unfold findAll
  rw [findAllFrom, hfound]
  dsimp only
  have hlater : findAllFrom p u.length u ((Cursor.start (c :: u)).step c u) = [] := by
    rw [findAllFrom_length (t := u) rfl, Cursor.step_advance rfl, hend]
    rfl
  rw [htext, List.length_cons, Nat.add_sub_cancel, hlater]

theorem search_eq_some {found : Match} {t u : Text} (hu : u <+: t)
    (hfound : p.matchAt ((Cursor.start t).advance u) = some found)
    (hbefore : ∀ v, v <+: u → v ≠ u → p.matchAt ((Cursor.start t).advance v) = none) :
    p.search t = some found :=
  searchFrom_eq_some rfl hu hfound hbefore

end GoSurvey.Pattern
