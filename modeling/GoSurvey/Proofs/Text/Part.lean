/-
Parts of a text. Whatever trimming and cutting leave lies in the text
that they were given: trimming at the end leaves a beginning, cutting at
a mark leaves what stands on its two sides.

The first line of a text is what stands before its first newline, and so
it is not longer than any line that the text begins with
(`firstLine_isPrefix`), even after the text has been trimmed
(`firstLine_trim`).
-/
import GoSurvey.Proofs.Text.Pieces
import Mathlib.Data.Bool.AllAny
import Mathlib.Data.List.TakeWhile

namespace GoSurvey.Text

-- =============================================================== trims

/-- What is trimmed off are blanks on the two sides. -/
theorem exists_trim_eq (t : Text) :
    ∃ lead trail, t = lead ++ (trim t ++ trail) ∧ (∀ c ∈ lead, isBlank c = true) ∧
      ∀ c ∈ trail, isBlank c = true := by
  have hlead := List.takeWhile_append_dropWhile (p := isBlank) (l := t)
  have htrail := List.takeWhile_append_dropWhile (p := isBlank)
    (l := (t.dropWhile isBlank).reverse)
  refine ⟨t.takeWhile isBlank, ((t.dropWhile isBlank).reverse.takeWhile isBlank).reverse,
    ?_, fun c hc => List.mem_takeWhile_imp hc, fun c hc => ?_⟩
  · have hback : trim t ++ ((t.dropWhile isBlank).reverse.takeWhile isBlank).reverse
        = t.dropWhile isBlank := by
      unfold trim stripWhile dropEndWhile
      rw [← List.reverse_append, htrail, List.reverse_reverse]
    rw [hback, hlead]
  · exact List.mem_takeWhile_imp (List.mem_reverse.1 hc)

theorem dropEndWhile_ne_nil {cls : Char → Bool} {t : Text} (h : ∃ c ∈ t, cls c = false) :
    dropEndWhile cls t ≠ [] := by
  obtain ⟨c, hc, hcls⟩ := h
  intro hnil
  have hall := List.dropWhile_eq_nil_iff.1 (List.reverse_eq_nil_iff.1 hnil)
  rw [hall c (List.mem_reverse.2 hc)] at hcls
  cases hcls

/-- Only the end of a text is trimmed at the end, if something visible is in it. -/
theorem dropEndWhile_append {cls : Char → Bool} {t u : Text} (hu : ∃ c ∈ u, cls c = false) :
    dropEndWhile cls (t ++ u) = t ++ dropEndWhile cls u := by
  have hne := dropEndWhile_ne_nil hu
  unfold dropEndWhile at hne ⊢
  rw [Ne, List.reverse_eq_nil_iff] at hne
  rw [List.reverse_append, List.dropWhile_append, if_neg (by rwa [List.isEmpty_iff]),
    List.reverse_append, List.reverse_reverse]

theorem dropEndWhile_cons {cls : Char → Bool} {c : Char} (hc : cls c = false) (t : Text) :
    dropEndWhile cls (c :: t) = c :: dropEndWhile cls t := by
  unfold dropEndWhile
  rw [List.reverse_cons, List.dropWhile_append]
  split
  · next hnone =>
    rw [List.isEmpty_iff.1 hnone, List.dropWhile_cons_of_neg (by simp [hc])]
    rfl
  · rw [List.reverse_append]
    rfl

theorem exists_dropEndWhile_eq (cls : Char → Bool) (t : Text) :
    ∃ trail, t = dropEndWhile cls t ++ trail ∧ ∀ c ∈ trail, cls c = true := by
  have hback := List.takeWhile_append_dropWhile (p := cls) (l := t.reverse)
  refine ⟨(t.reverse.takeWhile cls).reverse, ?_, fun c hc => ?_⟩
  · unfold dropEndWhile
    rw [← List.reverse_append, hback, List.reverse_reverse]
  · exact List.mem_takeWhile_imp (List.mem_reverse.1 hc)

theorem getLast?_dropEndWhile {cls : Char → Bool} {t : Text} :
    ∀ c ∈ (dropEndWhile cls t).getLast?, cls c = false := by
  intro c hc
  unfold dropEndWhile at hc
  rw [List.getLast?_reverse] at hc
  have hfirst := List.head?_dropWhile_not cls t.reverse
  rw [hc] at hfirst
  simpa using hfirst

/-- Blanks at the end hold no mark that ends visibly. -/
theorem infix_append_blanks {mark t trail : Text} (hne : mark ≠ [])
    (hlast : ∀ c ∈ mark.getLast?, isBlank c = false) (htrail : ∀ c ∈ trail, isBlank c = true) :
    mark <:+: t ++ trail ↔ mark <:+: t := by
  refine ⟨?_, fun h => h.trans (List.prefix_append t trail).isInfix⟩
  rintro ⟨u, v, huv⟩
  have hbegin : u ++ mark <+: t ++ trail := ⟨v, huv⟩
  rcases List.prefix_or_prefix_of_prefix hbegin (List.prefix_append t trail) with h | ⟨q, hq⟩
  · exact (List.suffix_append u mark).isInfix.trans h.isInfix
  · have hq' : q <+: trail := (List.prefix_append_right_inj t).1 (hq ▸ hbegin)
    obtain ⟨c, hc⟩ := Option.ne_none_iff_exists'.1 fun hnone =>
      hne (List.getLast?_eq_none_iff.1 hnone)
    have hend : (t ++ q).getLast? = some c := by rw [hq, List.getLast?_append, hc, Option.some_or]
    cases hqlast : q.getLast? with
    | none =>
        rw [List.getLast?_eq_none_iff.1 hqlast, List.append_nil] at hq
        exact ⟨u, [], by rw [List.append_nil, hq]⟩
    | some d =>
        rw [List.getLast?_append, hqlast, Option.some_or] at hend
        obtain rfl := Option.some.inj hend
        have hblank := htrail d (hq'.subset (List.mem_of_getLast? hqlast))
        rw [hlast d hc] at hblank
        cases hblank

-- ================================================================ cuts

theorem cut?_eq_some {mark t : Text} : ∀ {a b : Text}, cut? mark t = some (a, b) →
    t = a ++ (mark ++ b) := by
  induction t with
  | nil =>
      intro a b h
      unfold cut? at h
      split at h
      · next hmark =>
        obtain rfl := List.isEmpty_iff.1 hmark
        injection h with h
        injection h with ha hb
        rw [← ha, ← hb]
        rfl
      · cases h
  | cons c rest ih =>
      intro a b h
      unfold cut? at h
      split at h
      · next hmark =>
        obtain ⟨more, hmore⟩ := startsWith_iff.1 hmark
        injection h with h
        injection h with ha hb
        rw [← ha, ← hb, ← hmore, List.drop_left]
        rfl
      · obtain ⟨⟨a', b'⟩, hcut, heq⟩ := Option.map_eq_some_iff.1 h
        injection heq with ha hb
        rw [← ha, ← hb, ih hcut]
        rfl

theorem cut?_eq_none_iff {mark t : Text} : cut? mark t = none ↔ ¬mark <:+: t := by
  induction t with
  | nil =>
      unfold cut?
      rw [List.infix_nil, ← List.isEmpty_iff]
      split
      · next hnil => exact iff_of_false (fun h => by cases h) fun h => h hnil
      · next hnil => exact iff_of_true rfl hnil
  | cons c t ih =>
      unfold cut?
      rw [List.infix_cons_iff, ← startsWith_iff]
      split
      · next hmark => exact iff_of_false (fun h => by cases h) fun h => h (.inl hmark)
      · next hmark =>
        rw [Option.map_eq_none_iff, ih, not_or]
        exact ⟨fun h => ⟨hmark, h⟩, fun h => h.2⟩

theorem contains_iff {mark t : Text} : contains mark t = true ↔ mark <:+: t := by
  induction t with
  | nil => rw [contains, List.isEmpty_iff, List.infix_nil]
  | cons c t ih =>
      rw [contains, Bool.or_eq_true, ih, List.infix_cons_iff, startsWith_iff]

theorem before_cons (mark : Text) (c : Char) (t : Text) :
    before mark (c :: t) = if startsWith mark (c :: t) then [] else c :: before mark t := by
  unfold before
  rw [cut?]
  split
  · rfl
  · cases cut? mark t <;> rfl

theorem before_of_cut? {mark t a b : Text} (h : cut? mark t = some (a, b)) : before mark t = a := by
  unfold before
  rw [h]
  rfl

theorem before_of_not_isInfix {mark t : Text} (h : ¬mark <:+: t) : before mark t = t := by
  unfold before
  rw [cut?_eq_none_iff.2 h]
  rfl

/-- What follows a text with the mark makes no difference. -/
theorem before_append_of_isInfix {mark t : Text} (h : mark <:+: t) (u : Text) :
    before mark (t ++ u) = before mark t := by
  induction t with
  | nil =>
      obtain rfl := List.infix_nil.1 h
      cases u with
      | nil => rfl
      | cons c u => exact before_cons [] c u
  | cons c t ih =>
      have hbegins : mark <+: c :: t → startsWith mark (c :: (t ++ u)) = true :=
        fun hmark => startsWith_iff.2 (hmark.trans (List.prefix_append (c :: t) u))
      rw [List.cons_append, before_cons, before_cons]
      by_cases hmark : mark <+: c :: t
      · rw [if_pos (hbegins hmark), if_pos (startsWith_iff.2 hmark)]
      · have hinside : mark <:+: t := (List.infix_cons_iff.1 h).resolve_left hmark
        have hlonger : ¬startsWith mark (c :: (t ++ u)) = true := by
          rw [startsWith_iff]
          intro hthere
          apply hmark
          refine List.prefix_of_prefix_length_le hthere (List.prefix_append (c :: t) u) ?_
          exact Nat.le_succ_of_le hinside.length_le
        rw [if_neg hlonger, if_neg (fun h => hmark (startsWith_iff.1 h)), ih hinside]

/-- The text up to a character. -/
theorem before_singleton (c : Char) (t : Text) : before [c] t = t.takeWhile (· != c) := by
  induction t with
  | nil => rfl
  | cons d rest ih =>
      unfold before at ih ⊢
      unfold cut?
      by_cases hd : c = d
      · subst hd
        simp [startsWith]
      · have hmark : ¬startsWith [c] (d :: rest) = true := by
          rw [startsWith_iff, List.cons_prefix_cons]
          exact fun h => hd h.1
        have htake : (d :: rest).takeWhile (· != c) = d :: rest.takeWhile (· != c) :=
          List.takeWhile_cons_of_pos (bne_iff_ne.2 (Ne.symm hd))
        rw [if_neg hmark, htake, ← ih]
        cases cut? [c] rest <;> rfl

/-- What follows makes no difference where it begins with something outside the class. -/
theorem takeWhile_append_of_stop {cls : Char → Bool} {t u : Text}
    (hu : ∀ c ∈ u.head?, cls c = false) : (t ++ u).takeWhile cls = t.takeWhile cls := by
  have hnone : u.takeWhile cls = [] := by
    cases u with
    | nil => rfl
    | cons c u => exact List.takeWhile_cons_of_neg (by simp [hu c rfl])
  rw [List.takeWhile_append, hnone, List.append_nil]
  split
  · next hlength =>
    exact ((List.takeWhile_prefix cls).eq_of_length hlength).symm
  · rfl

theorem before_append_cons (c : Char) (t u : Text) : before [c] (t ++ c :: u) = before [c] t := by
  rw [before_singleton, before_singleton, takeWhile_append_of_stop]
  rintro d ⟨⟩
  exact bne_self_eq_false c

/-- What follows a text with the character makes no difference. -/
theorem before_append_of_mem {c : Char} {t : Text} (h : c ∈ t) (u : Text) :
    before [c] (t ++ u) = before [c] t := by
  obtain ⟨v, w, rfl⟩ := List.append_of_mem h
  rw [List.append_assoc, List.cons_append, before_append_cons, before_append_cons]

/-- A text without the character is passed over. -/
theorem before_append_of_not_mem {c : Char} {t : Text} (h : c ∉ t) (u : Text) :
    before [c] (t ++ u) = t ++ before [c] u := by
  rw [before_singleton, before_singleton, List.takeWhile_append_of_pos]
  exact fun d hd => bne_iff_ne.2 fun hsame => h (hsame ▸ hd)

theorem before_of_not_mem {c : Char} {t : Text} (h : c ∉ t) : before [c] t = t := by
  have hall := before_append_of_not_mem h []
  rw [List.append_nil] at hall
  exact hall.trans (List.append_nil t)

/-- After the text before a character comes the character. -/
theorem exists_before_eq {c : Char} {t : Text} (h : c ∈ t) :
    ∃ more, t = before [c] t ++ c :: more := by
  obtain ⟨v, w, rfl, hnot⟩ := List.eq_append_cons_of_mem h
  rw [before_append_cons, before_of_not_mem hnot]
  exact ⟨w, rfl⟩

-- ====================================================== the first line

/-- The first line of a text that begins with a line is in that line. -/
theorem firstLine_isPrefix {line more p : Text} (hmore : ∀ c ∈ more.head?, c = newline)
    (hp : p <+: line ++ more) (hnot : newline ∉ p) : p <+: line := by
  rcases List.prefix_or_prefix_of_prefix hp (List.prefix_append line more) with h | ⟨q, rfl⟩
  · exact h
  · have hq : q <+: more := (List.prefix_append_right_inj line).1 hp
    cases q with
    | nil => exact (List.append_nil line).symm ▸ List.prefix_rfl
    | cons c q =>
        obtain ⟨rest, rfl⟩ := hq
        exact absurd (List.mem_append_right line (hmore c rfl ▸ List.mem_cons_self)) hnot

/-- A line without a mark is passed over, if the mark stands in one line. -/
theorem before_next_line {mark t : Text} (hne : mark ≠ []) (hline : newline ∉ mark)
    (h : ¬mark <:+: t) (u : Text) :
    before mark (t ++ newline :: u) = t ++ newline :: before mark u := by
  have hstart : ∀ {v : Text}, ¬mark <+: v → ¬startsWith mark (v ++ newline :: u) = true := by
    intro v hv hmark
    refine hv (firstLine_isPrefix (fun c hc => ?_) (startsWith_iff.1 hmark) hline)
    exact (Option.some.inj hc).symm
  induction t with
  | nil =>
      have hnil : ¬mark <+: [] := fun hmark => hne (List.prefix_nil.1 hmark)
      have hstart' := hstart hnil
      rw [List.nil_append] at hstart' ⊢
      rw [before_cons, if_neg hstart']
      rfl
  | cons c t ih =>
      have hc : ¬mark <+: c :: t := fun hmark => h hmark.isInfix
      have ht : ¬mark <:+: t := fun hmark => h (List.infix_cons hmark)
      have hstart' := hstart hc
      rw [List.cons_append] at hstart' ⊢
      rw [before_cons, if_neg hstart', ih ht]
      rfl

/-- The first line of a trimmed text lies in the line that the text begins with, unless that is
blank. -/
theorem firstLine_trim {line more : Text} (hmore : ∀ c ∈ more.head?, c = newline)
    (hline : trim line ≠ []) : before [newline] (trim (line ++ more)) <:+: line := by
  have hne : line.dropWhile isBlank ≠ [] := by
    intro h
    unfold trim stripWhile at hline
    rw [h] at hline
    exact hline rfl
  have hstart : trim (line ++ more) <+: line.dropWhile isBlank ++ more := by
    unfold trim stripWhile
    rw [List.dropWhile_append, if_neg (by rwa [List.isEmpty_iff])]
    exact dropEndWhile_isPrefix isBlank _
  have hnot : newline ∉ (trim (line ++ more)).takeWhile (· != newline) :=
    fun hmem => bne_iff_ne.1 (List.mem_takeWhile_imp (p := (· != newline)) hmem) rfl
  rw [before_singleton]
  have hin := firstLine_isPrefix hmore ((List.takeWhile_prefix _).trans hstart) hnot
  exact hin.isInfix.trans (List.dropWhile_suffix isBlank).isInfix

end GoSurvey.Text
