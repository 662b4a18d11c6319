/-
What searching with a pattern finds. Every match in a text is the first
reading at some place of it (`matchAt_of_mem_findAll`); the matches stand
in the order of their places, and none begins before the one before it
has ended (`findAll_pairwise`). A text remembered by a match lies in the
text that was searched and is one that a group of the pattern can read
(`group?_of_matchAt`). A text in which a pattern occurs contains the texts
without which it reads nothing (`Needs.infix_of_occursIn`).
-/
import GoSurvey.Proofs.Pattern.Reading

namespace GoSurvey.Pattern

-- ================================================= matches at a place

/-- The match that ends in a state. -/
def Match.ofState (cur : Cursor) (s : State) : Match :=
  ⟨cur.offset, cur.rest.take (s.cursor.offset - cur.offset), s.texts⟩

/-- The text of a group is what was remembered last under its number. -/
theorem group_ofState (cur : Cursor) (s : State) (index : Nat) :
    (Match.ofState cur s).group index = (s.texts.lookup index).getD [] := rfl

/-- The match at a place is the first reading from there. -/
theorem matchAt_eq (p : Pattern) (cur : Cursor) :
    p.matchAt cur = (readings p ⟨cur, []⟩).head?.map (Match.ofState cur) := by
  unfold matchAt
  rw [attempt_eq_findSome?]
  cases readings p ⟨cur, []⟩ <;> rfl

/-- A place in a text is at the start of a line if nothing or a newline stands before it. -/
theorem atLineStart_advance {t w : Text} :
    ((Cursor.start t).advance w).atLineStart = true ↔ w = [] ∨ w.getLast? = some Text.newline := by
  unfold Cursor.atLineStart Cursor.advance Cursor.start
  rw [Bool.or_eq_true, beq_iff_eq, beq_iff_eq, Option.or_none, Nat.zero_add]
  exact or_congr_left List.length_eq_zero_iff

/-- A match is one of the readings. -/
theorem exists_reading_of_matchAt {p : Pattern} {cur : Cursor} {m : Match}
    (h : p.matchAt cur = some m) :
    ∃ s ∈ readings p ⟨cur, []⟩, m = Match.ofState cur s := by
  rw [matchAt_eq] at h
  obtain ⟨s, hs, rfl⟩ := Option.map_eq_some_iff.1 h
  exact ⟨s, List.mem_of_mem_head? hs, rfl⟩

/-- A match starts at its place. -/
theorem start_of_matchAt {p : Pattern} {cur : Cursor} {m : Match}
    (h : p.matchAt cur = some m) : m.start = cur.offset := by
  obtain ⟨s, -, rfl⟩ := exists_reading_of_matchAt h
  rfl

/-- Where there is a reading, there is a match. -/
theorem isSome_matchAt {p : Pattern} {cur : Cursor} {s : State}
    (h : s ∈ readings p ⟨cur, []⟩) : (p.matchAt cur).isSome = true := by
  rw [matchAt_eq]
  cases hr : readings p ⟨cur, []⟩ with
  | nil =>
      rw [hr] at h
      cases h
  | cons => rfl

/-- There is a match at a place exactly if there is a reading from it. -/
theorem isSome_matchAt_iff {p : Pattern} {cur : Cursor} :
    (p.matchAt cur).isSome = true ↔ ∃ s, s ∈ readings p ⟨cur, []⟩ := by
  constructor
  · intro h
    obtain ⟨m, hm⟩ := Option.isSome_iff_exists.1 h
    obtain ⟨s, hs, -⟩ := exists_reading_of_matchAt hm
    exact ⟨s, hs⟩
  · rintro ⟨s, hs⟩
    exact isSome_matchAt hs

/-- A text that a match has remembered is one that a group of its number can read, and it lies in
what is ahead of the place of the match. -/
theorem group?_of_matchAt {p : Pattern} {cur : Cursor} {m : Match} {index : Nat} {t : Text}
    (h : p.matchAt cur = some m) (ht : m.group? index = some t) :
    ∃ q, (index, q) ∈ p.groups ∧ q.Reads t ∧ t <:+: cur.rest := by
  obtain ⟨s, hs, rfl⟩ := exists_reading_of_matchAt h
  obtain ⟨before, after, htexts, -⟩ := List.lookup_eq_some_iff.1 ht
  have hmem : (index, t) ∈ (Match.ofState cur s).captures := by
    rw [htexts]
    exact List.mem_append_right before List.mem_cons_self
  obtain ⟨c, hc, heq⟩ := List.mem_map.1 hmem
  injection heq with hindex htext
  subst hindex
  subst htext
  obtain ⟨texts, htexts, hfrom⟩ := captured hs
  rw [List.append_nil] at htexts
  exact hfrom c (htexts ▸ hc)

/-- A text that a match has remembered lies in what is ahead of the place of the match, and so
does the empty text that stands in for none. -/
theorem group_infix_of_matchAt {p : Pattern} {cur : Cursor} {m : Match} (index : Nat)
    (h : p.matchAt cur = some m) : m.group index <:+: cur.rest := by
  unfold Match.group
  cases ht : m.group? index with
  | none => exact List.nil_infix
  | some t =>
      obtain ⟨-, -, -, hin⟩ := group?_of_matchAt h ht
      exact hin

-- ================================================== the first match

/-- What a search finds is the match at some place. -/
theorem matchAt_of_searchFrom {p : Pattern} {m : Match} : ∀ {t : Text} {cur : Cursor},
    cur.rest = t → searchFrom p t cur = some m →
    ∃ w, w <+: t ∧ p.matchAt (cur.advance w) = some m := by
  intro t
  induction t with
  | nil =>
      intro cur _ h
      exact ⟨[], List.nil_prefix, h⟩
  | cons c t ih =>
      intro cur hcur h
      rw [Cursor.exists_place_cons (fun cur => p.matchAt cur = some m) hcur]
      rw [searchFrom] at h
      cases hhere : p.matchAt cur with
      | some m' =>
          rw [hhere] at h
          exact .inl h
      | none =>
          rw [hhere] at h
          exact .inr (ih rfl h)

/-- A match at a place in a text starts there. -/
theorem start_of_matchAt_advance {p : Pattern} {t w : Text} {m : Match}
    (h : p.matchAt ((Cursor.start t).advance w) = some m) : m.start = w.length :=
  (start_of_matchAt h).trans (Nat.zero_add _)

theorem matchAt_of_search {p : Pattern} {t : Text} {m : Match} (h : p.search t = some m) :
    ∃ w, w <+: t ∧ p.matchAt ((Cursor.start t).advance w) = some m ∧ m.start = w.length := by
  obtain ⟨w, hw, hmatch⟩ := @matchAt_of_searchFrom p m t (Cursor.start t) rfl h
  exact ⟨w, hw, hmatch, start_of_matchAt_advance hmatch⟩

/-- A search finds something exactly if there is a match at some place. -/
theorem isSome_searchFrom {p : Pattern} : ∀ (t : Text) (cur : Cursor), cur.rest = t →
    ((searchFrom p t cur).isSome = true
      ↔ ∃ w, w <+: t ∧ (p.matchAt (cur.advance w)).isSome = true) := by
  intro t
  induction t with
  | nil =>
      intro cur _
      rw [searchFrom]
      constructor
      · exact fun h => ⟨[], List.prefix_rfl, h⟩
      · rintro ⟨w, hw, h⟩
        rw [List.prefix_nil.1 hw] at h
        exact h
  | cons c rest ih =>
      intro cur hcur
      rw [searchFrom, Cursor.exists_place_cons (fun cur => (p.matchAt cur).isSome = true)
        hcur, ← ih (cur.step c rest) rfl]
      cases p.matchAt cur with
      | some m => exact ⟨fun _ => .inl rfl, fun _ => rfl⟩
      | none => exact (or_iff_right Bool.false_ne_true).symm

/-- A pattern occurs in a text exactly if there is a reading from some place of it. -/
theorem occursIn_iff {p : Pattern} {t : Text} : p.occursIn t = true
    ↔ ∃ w s, w <+: t ∧ s ∈ readings p ⟨(Cursor.start t).advance w, []⟩ := by
  unfold occursIn search
  rw [isSome_searchFrom t (Cursor.start t) rfl]
  simp only [isSome_matchAt_iff, exists_and_left]

-- ============================================= what has to be there

/-- A pattern reads nothing unless a text stands ahead, at the place or after it. -/
def Needs (p : Pattern) (t : Text) : Prop :=
  ∀ s s', s' ∈ readings p s → t <:+: s.cursor.rest

theorem needs_lit (t : Text) : Needs (lit t) t := by
  intro s s' h
  exact (mem_readings_lit.1 h).1.isInfix

/-- Whatever comes after it, a pattern needs what it needs. -/
theorem Needs.append {p : Pattern} {t : Text} (h : Needs p t) (q : Pattern) : Needs (p ++ q) t := by
  intro s s' hs
  obtain ⟨m, hm, -⟩ := mem_readings_seq.1 hs
  exact h s m hm

/-- So it does behind another one, which only moves on in the text. -/
theorem Needs.behind {q : Pattern} {t : Text} (h : Needs q t) (p : Pattern) : Needs (p ++ q) t := by
  intro s s' hs
  obtain ⟨m, hm, hs⟩ := mem_readings_seq.1 hs
  exact (h m s' hs).trans (rest_suffix hm).isInfix

/-- A text in which a pattern occurs contains what the pattern needs. -/
theorem Needs.infix_of_occursIn {p : Pattern} {t line : Text} (h : Needs p t)
    (hline : p.occursIn line = true) : t <:+: line := by
  obtain ⟨w, s, -, hs⟩ := occursIn_iff.1 hline
  exact (h _ s hs).trans (List.drop_suffix w.length line).isInfix

-- ================================================= all the matches

/-- Every match is found at some place. -/
theorem matchAt_of_mem_findAllFrom {p : Pattern} {m : Match} :
    ∀ (t : Text) (skip : Nat) (cur : Cursor), cur.rest = t → m ∈ findAllFrom p skip t cur →
      ∃ w, w <+: t ∧ p.matchAt (cur.advance w) = some m := by
  intro t
  induction t with
  | nil =>
      intro skip cur _ h
      rw [findAllFrom] at h
      split at h
      · exact ⟨[], List.nil_prefix, Option.mem_toList.1 h⟩
      · cases h
  | cons c rest ih =>
      intro skip cur hcur h
      rw [Cursor.exists_place_cons (fun cur => p.matchAt cur = some m) hcur]
      cases skip with
      | succ n => exact .inr (ih n (cur.step c rest) rfl h)
      | zero =>
          rw [findAllFrom] at h
          cases hmatch : p.matchAt cur with
          | none =>
              rw [hmatch] at h
              exact .inr (ih 0 (cur.step c rest) rfl h)
          | some first =>
              rw [hmatch] at h
              rcases List.mem_cons.1 h with rfl | h
              · exact .inl rfl
              · exact .inr (ih _ (cur.step c rest) rfl h)

/-- A match starts after what is to be passed over. -/
theorem start_le_of_mem_findAllFrom {p : Pattern} {m : Match} :
    ∀ (t : Text) (skip : Nat) (cur : Cursor), m ∈ findAllFrom p skip t cur →
      cur.offset + skip ≤ m.start := by
  intro t
  induction t with
  | nil =>
      intro skip cur h
      rw [findAllFrom] at h
      split at h
      · next hskip =>
        have hstart := start_of_matchAt (Option.mem_toList.1 h)
        omega
      · cases h
  | cons c rest ih =>
      intro skip cur h
      cases skip with
      | succ n =>
          have hle : (cur.step c rest).offset + n ≤ m.start := ih n (cur.step c rest) h
          have hoff : (cur.step c rest).offset = cur.offset + 1 := rfl
          omega
      | zero =>
          rw [findAllFrom] at h
          have hoff : (cur.step c rest).offset = cur.offset + 1 := rfl
          cases hmatch : p.matchAt cur with
          | none =>
              rw [hmatch] at h
              have hle := ih 0 (cur.step c rest) h
              omega
          | some first =>
              rw [hmatch] at h
              rcases List.mem_cons.1 h with rfl | h
              · have hstart := start_of_matchAt hmatch
                omega
              · have hle := ih _ (cur.step c rest) h
                omega

/-- A match at a place is found unless one before it reaches beyond the place. -/
theorem mem_findAllFrom_of_matchAt {p : Pattern} {m : Match} :
    ∀ (t : Text) (skip : Nat) (cur : Cursor) (w : Text), cur.rest = t → w <+: t →
      skip ≤ w.length → p.matchAt (cur.advance w) = some m →
      (∀ m' ∈ findAllFrom p skip t cur,
        ¬(m'.start < cur.offset + w.length ∧ cur.offset + w.length < m'.stop)) →
      m ∈ findAllFrom p skip t cur := by
  intro t
  induction t with
  | nil =>
      intro skip cur w _ hw hskip hm _
      obtain rfl := List.prefix_nil.1 hw
      rw [findAllFrom, if_pos (Nat.le_zero.1 hskip)]
      exact Option.mem_toList.2 hm
  | cons c rest ih =>
      intro skip cur w hcur hw hskip hm hfree
      -- A place after the next character is one of the rest.
      have hlater : ∀ (skip' : Nat) (w' : Text), w = c :: w' → skip' ≤ w'.length →
          (∀ m' ∈ findAllFrom p skip' rest (cur.step c rest),
            m' ∈ findAllFrom p skip (c :: rest) cur) →
          m ∈ findAllFrom p skip' rest (cur.step c rest) := by
        intro skip' w' hww' hskip' hsub
        subst hww'
        have hw' : w' <+: rest := (List.cons_prefix_cons.1 hw).2
        have hm' : p.matchAt ((cur.step c rest).advance w') = some m := by
          rw [Cursor.step_advance hcur]
          exact hm
        refine ih skip' (cur.step c rest) w' rfl hw' hskip' hm' fun m' hmem hover => ?_
        have hoff : (cur.step c rest).offset = cur.offset + 1 := rfl
        refine hfree m' (hsub m' hmem) ?_
        rw [List.length_cons]
        omega
      cases skip with
      | succ n =>
          cases w with
          | nil => exact absurd hskip (Nat.not_succ_le_zero n)
          | cons d w' =>
              obtain ⟨rfl, -⟩ := List.cons_prefix_cons.1 hw
              exact hlater n w' rfl (Nat.le_of_succ_le_succ hskip) fun m' hm' => hm'
      | zero =>
          cases hmatch : p.matchAt cur with
          | none =>
              have hnext : findAllFrom p 0 (c :: rest) cur
                  = findAllFrom p 0 rest (cur.step c rest) := by
                rw [findAllFrom, hmatch]
              rw [hnext] at hlater ⊢
              cases w with
              | nil =>
                  have hhere : p.matchAt cur = some m := hm
                  rw [hmatch] at hhere
                  cases hhere
              | cons d w' =>
                  obtain ⟨rfl, -⟩ := List.cons_prefix_cons.1 hw
                  exact hlater 0 w' rfl (Nat.zero_le _) fun m' hm' => hm'
          | some first =>
              have hnext : findAllFrom p 0 (c :: rest) cur
                  = first :: findAllFrom p (first.text.length - 1) rest (cur.step c rest) := by
                rw [findAllFrom, hmatch]
              rw [hnext] at hlater hfree ⊢
              cases w with
              | nil =>
                  have hhere : p.matchAt cur = some m := hm
                  rw [hmatch] at hhere
                  injection hhere with hhere
                  exact hhere ▸ List.mem_cons_self
              | cons d w' =>
                  obtain ⟨rfl, -⟩ := List.cons_prefix_cons.1 hw
                  have hstart := start_of_matchAt hmatch
                  have hover := hfree first List.mem_cons_self
                  unfold Match.stop at hover
                  rw [List.length_cons] at hover
                  refine List.mem_cons_of_mem _ (hlater _ w' rfl (by omega) fun m' hm' => ?_)
                  exact List.mem_cons_of_mem _ hm'

/-- A match ends before the next one starts, and it starts before it even if it is empty. -/
def Precedes (m m' : Match) : Prop := m.start < m'.start ∧ m.stop ≤ m'.start

theorem findAllFrom_pairwise {p : Pattern} :
    ∀ (t : Text) (skip : Nat) (cur : Cursor), (findAllFrom p skip t cur).Pairwise Precedes := by
  intro t
  induction t with
  | nil =>
      intro skip cur
      rw [findAllFrom]
      split
      · cases p.matchAt cur with
        | none => exact .nil
        | some m => exact List.pairwise_singleton _ _
      · exact .nil
  | cons c rest ih =>
      intro skip cur
      cases skip with
      | succ n => exact ih n (cur.step c rest)
      | zero =>
          rw [findAllFrom]
          cases hmatch : p.matchAt cur with
          | none => exact ih 0 (cur.step c rest)
          | some m =>
              refine List.pairwise_cons.2 ⟨fun m' hm' => ?_, ih _ (cur.step c rest)⟩
              have hle := start_le_of_mem_findAllFrom rest _ _ hm'
              have hoff : (cur.step c rest).offset = cur.offset + 1 := rfl
              have hstart := start_of_matchAt hmatch
              unfold Precedes Match.stop
              omega

/-- Every match in a text is the match at a place of it. -/
theorem matchAt_of_mem_findAll {p : Pattern} {t : Text} {m : Match} (h : m ∈ p.findAll t) :
    ∃ w, w <+: t ∧ p.matchAt ((Cursor.start t).advance w) = some m ∧ m.start = w.length := by
  obtain ⟨w, hw, hm⟩ := matchAt_of_mem_findAllFrom t 0 (Cursor.start t) rfl h
  exact ⟨w, hw, hm, start_of_matchAt_advance hm⟩

/-- A match at a place of a text is found unless one before it reaches beyond the place. -/
theorem mem_findAll_of_matchAt {p : Pattern} {t w : Text} {m : Match} (hw : w <+: t)
    (hm : p.matchAt ((Cursor.start t).advance w) = some m)
    (hfree : ∀ m' ∈ p.findAll t, ¬(m'.start < w.length ∧ w.length < m'.stop)) :
    m ∈ p.findAll t := by
  refine mem_findAllFrom_of_matchAt t 0 (Cursor.start t) w rfl hw (Nat.zero_le _) hm ?_
  have hoff : (Cursor.start t).offset + w.length = w.length := Nat.zero_add _
  rw [hoff]
  exact hfree

/-- The matches in a text follow one another. -/
theorem findAll_pairwise (p : Pattern) (t : Text) : (p.findAll t).Pairwise Precedes :=
  findAllFrom_pairwise t 0 (Cursor.start t)

/-- Of two matches in a text one precedes the other, unless they are the same. -/
theorem eq_or_precedes {p : Pattern} {t : Text} {m m' : Match} (hm : m ∈ p.findAll t)
    (hm' : m' ∈ p.findAll t) : m = m' ∨ Precedes m m' ∨ Precedes m' m := by
  let R : Match → Match → Prop := fun a b => a = b ∨ Precedes a b ∨ Precedes b a
  have hforth : (p.findAll t).Pairwise R := (findAll_pairwise p t).imp fun h => .inr (.inl h)
  have hback : (p.findAll t).Pairwise (flip R) := (findAll_pairwise p t).imp fun h => .inr (.inr h)
  exact List.Pairwise.forall_of_forall_of_flip (fun _ _ => .inl rfl) hforth hback hm hm'

/-- What a match in a text remembers lies in the text. -/
theorem group_infix_of_mem_findAll {p : Pattern} {t : Text} {m : Match} (index : Nat)
    (h : m ∈ p.findAll t) : m.group index <:+: t := by
  obtain ⟨w, -, hm, -⟩ := matchAt_of_mem_findAll h
  exact (group_infix_of_matchAt index hm).trans (List.drop_suffix _ _).isInfix

end GoSurvey.Pattern
