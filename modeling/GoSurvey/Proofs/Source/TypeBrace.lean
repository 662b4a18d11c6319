/-
The braces of types. A brace belongs to a type if a keyword stands before
it (`FollowsKeyword`), and a window of a few characters is enough to see
that in text with single spaces (`opensType_iff`).

A `Fragment` is a text in which every brace is one of a type. The search
for a function body steps over the groups of such a text, so it comes to
the brace after it (`findBodyOpen?_fragment`).
-/
import GoSurvey.Proofs.Pattern.Search
import GoSurvey.Proofs.Source.Nested
import GoSurvey.Source.Body

namespace GoSurvey.Source

open Text Pattern

-- ==================================================== keywords of types

/-- The keywords whose braces are those of a type. -/
def typeWords : List Text := ["interface", "struct"]

/-- A text ends in the keyword of a type, as a word of its own. -/
def EndsInKeyword (t : Text) : Prop :=
  ∃ k ∈ typeWords, k <:+ t ∧ ∀ c ∈ (t.take (t.length - k.length)).getLast?, isWord c = false

/-- A text ends in the keyword of a type or in one and a space. -/
def FollowsKeyword (t : Text) : Prop :=
  EndsInKeyword t ∨ t.getLast? = some ' ' ∧ EndsInKeyword t.dropLast

instance (t : Text) : Decidable (EndsInKeyword t) :=
  decidable_of_iff (∃ k ∈ typeWords, k <:+ t ∧
      ((t.take (t.length - k.length)).getLast?.all fun c => !isWord c) = true)
    (by simp [EndsInKeyword, Option.all_eq_true])

instance (t : Text) : Decidable (FollowsKeyword t) := inferInstanceAs (Decidable (_ ∨ _))

theorem endsInKeyword_iff {t : Text} : EndsInKeyword t
    ↔ ∃ u, ∃ k ∈ typeWords, t = u ++ k ∧ ∀ c ∈ u.getLast?, isWord c = false := by
  constructor
  · rintro ⟨k, hk, ⟨u, rfl⟩, hedge⟩
    rw [List.length_append, Nat.add_sub_cancel, List.take_left] at hedge
    exact ⟨u, k, hk, rfl, hedge⟩
  · rintro ⟨u, k, hk, rfl, hedge⟩
    refine ⟨k, hk, List.suffix_append u k, ?_⟩
    rw [List.length_append, Nat.add_sub_cancel, List.take_left]
    exact hedge

theorem followsKeyword_iff {t : Text} : FollowsKeyword t
    ↔ ∃ u, ∃ k ∈ typeWords, ∃ b, (b = [] ∨ b = [' ']) ∧ t = u ++ (k ++ b) ∧
      ∀ c ∈ u.getLast?, isWord c = false := by
  constructor
  · rintro (h | ⟨hlast, h⟩)
    · obtain ⟨u, k, hk, rfl, hedge⟩ := endsInKeyword_iff.1 h
      exact ⟨u, k, hk, [], .inl rfl, by rw [List.append_nil], hedge⟩
    · obtain ⟨init, rfl⟩ := List.getLast?_eq_some_iff.1 hlast
      rw [List.dropLast_concat] at h
      obtain ⟨u, k, hk, rfl, hedge⟩ := endsInKeyword_iff.1 h
      exact ⟨u, k, hk, [' '], .inr rfl, List.append_assoc u k _, hedge⟩
  · rintro ⟨u, k, hk, b, rfl | rfl, rfl, hedge⟩
    · exact .inl (endsInKeyword_iff.2 ⟨u, k, hk, by rw [List.append_nil], hedge⟩)
    · refine .inr ⟨by simp, ?_⟩
      rw [← List.append_assoc, List.dropLast_concat]
      exact endsInKeyword_iff.2 ⟨u, k, hk, rfl, hedge⟩

/-- A keyword begins and ends with a word character and is shorter than the window by more than a
space. -/
theorem of_mem_typeWords {k : Text} (hk : k ∈ typeWords) :
    (∃ c s, k = c :: s ∧ isWord c = true) ∧ (∃ c s, k = s ++ [c] ∧ isWord c = true) ∧
      k.length + 1 < typeKeywordWindow := by
  have hwords : ∀ k ∈ typeWords, k.all isWord = true ∧ k ≠ [] ∧
      k.length + 1 < typeKeywordWindow := by decide +kernel
  obtain ⟨hall, hne, hlength⟩ := hwords k hk
  have hword := List.all_eq_true.1 hall
  refine ⟨?_, ?_, hlength⟩
  · obtain ⟨c, s, rfl⟩ := List.exists_cons_of_ne_nil hne
    exact ⟨c, s, rfl, hword c List.mem_cons_self⟩
  · refine ⟨k.getLast hne, k.dropLast, (List.dropLast_concat_getLast hne).symm, ?_⟩
    exact hword _ (List.getLast_mem hne)

/-- What is put before a keyword does not matter unless the two run together. -/
theorem FollowsKeyword.append {t u : Text} (hu : FollowsKeyword u)
    (hjoin : ∀ x ∈ t.getLast?, ∀ y ∈ u.head?, ¬(isWord x = true ∧ isWord y = true)) :
    FollowsKeyword (t ++ u) := by
  obtain ⟨v, k, hk, b, hb, rfl, hedge⟩ := followsKeyword_iff.1 hu
  refine followsKeyword_iff.2 ⟨t ++ v, k, hk, b, hb, (List.append_assoc t v _).symm, fun x hx => ?_⟩
  rw [List.getLast?_append] at hx
  cases v with
  | nil =>
      obtain ⟨⟨c, s, rfl, hc⟩, -⟩ := of_mem_typeWords hk
      exact Bool.eq_false_iff.2 fun hword => hjoin x hx c rfl ⟨hword, hc⟩
  | cons c v =>
      rw [List.getLast?_cons, Option.some_or] at hx
      rw [List.getLast?_cons] at hedge
      exact hedge x hx

-- ============================================================ the window

theorem mem_readings_typeKeywordEnd {s s' : State} (h : s' ∈ readings typeKeywordEnd s) :
    ∃ k ∈ typeWords, ∃ b, k ++ b = s.cursor.rest ∧ (∀ c ∈ b, isBlank c = true) ∧
      s.cursor.atWordEdge = true := by
  unfold typeKeywordEnd at h
  simp only [readings_assoc] at h
  obtain ⟨s₁, hs₁, h⟩ := mem_readings_seq.1 h
  obtain ⟨s₂, hs₂, h⟩ := mem_readings_seq.1 h
  obtain ⟨s₃, hs₃, h⟩ := mem_readings_seq.1 h
  obtain ⟨hedge, rfl⟩ := mem_readings_place.1 hs₁
  have hkey : ∃ k ∈ typeWords, s₂ ∈ readings (lit k) s₁ := by
    rcases mem_readings_choice.1 hs₂ with h | h
    · exact ⟨_, List.mem_cons_self, h⟩
    · exact ⟨_, List.mem_cons_of_mem _ List.mem_cons_self, h⟩
  obtain ⟨k, hk, hkey⟩ := hkey
  obtain ⟨hkrest, rfl⟩ := mem_readings_lit.1 hkey
  obtain ⟨b, hbrest, hb, rfl⟩ := mem_readings_run.1 hs₃
  obtain ⟨hend, -⟩ := mem_readings_place.1 h
  have hrest := Cursor.rest_eq_append (prefix_append_of_advance hkrest hbrest)
  rw [← Cursor.advance_append] at hrest
  -- A newline that ends the text is a blank as well.
  unfold Cursor.atEnd at hend
  rw [Bool.or_eq_true, List.isEmpty_iff, beq_iff_eq] at hend
  rcases hend with hend | hend
  · refine ⟨k, hk, b, ?_, hb, hedge⟩
    rw [hrest]
    exact (List.append_right_eq_self.2 hend).symm
  · refine ⟨k, hk, b ++ [newline], ?_, fun c hc => ?_, hedge⟩
    · rw [hrest, ← List.append_assoc]
      exact congrArg (k ++ b ++ ·) hend.symm
    · rcases List.mem_append.1 hc with hc | hc
      · exact hb c hc
      · rw [List.mem_singleton.1 hc]
        decide

/-- The keyword is found exactly if blanks at most stand after it. -/
theorem occursIn_typeKeywordEnd {t : Text} : typeKeywordEnd.occursIn t = true
    ↔ ∃ u, ∃ k ∈ typeWords, ∃ b, (∀ c ∈ b, isBlank c = true) ∧ t = u ++ (k ++ b) ∧
      ∀ c ∈ u.getLast?, isWord c = false := by
  have hedge : ∀ {u k b : Text}, k ∈ typeWords → t = u ++ (k ++ b) →
      (((Cursor.start t).advance u).atWordEdge = true ↔ ∀ c ∈ u.getLast?, isWord c = false) := by
    intro u k b hk ht
    obtain ⟨⟨c, s, rfl, hc⟩, -⟩ := of_mem_typeWords hk
    have hrest : ((Cursor.start t).advance u).rest = c :: (s ++ b) := by
      rw [ht]
      exact List.drop_left
    unfold Cursor.atWordEdge
    rw [hrest, List.head?_cons, Option.map_some, Option.getD_some, hc]
    show (((u.getLast?.or none).map isWord).getD false != true) = true ↔ _
    cases u.getLast? <;> simp
  rw [occursIn_iff]
  constructor
  · rintro ⟨u, s, ⟨after, rfl⟩, h⟩
    obtain ⟨k, hk, b, hrest, hb, hplace⟩ := mem_readings_typeKeywordEnd h
    have hafter : k ++ b = after := hrest.trans List.drop_left
    subst hafter
    exact ⟨u, k, hk, b, hb, rfl, (hedge hk rfl).1 hplace⟩
  · rintro ⟨u, k, hk, b, hb, rfl, hplace⟩
    have hplace := (hedge hk rfl).2 hplace
    let s : State := ⟨(Cursor.start (u ++ (k ++ b))).advance u, []⟩
    have hahead : s.cursor.rest = k ++ b := List.drop_left
    have hrest : k ++ b <+: s.cursor.rest := hahead ▸ List.prefix_rfl
    obtain ⟨hkrest, hbrest⟩ := prefix_of_prefix_append hrest
    refine ⟨u, s.advance (k ++ b), List.prefix_append _ _, ?_⟩
    unfold typeKeywordEnd
    simp only [readings_assoc]
    refine mem_readings_seq.2 ⟨s, mem_readings_place.2 ⟨hplace, rfl⟩, ?_⟩
    refine advance_mem_readings_seq ?_ ?_
    · refine mem_readings_choice.2 ?_
      rcases List.mem_cons.1 hk with rfl | hk
      · exact .inl (mem_readings_lit.2 ⟨hkrest, rfl⟩)
      · rw [List.mem_singleton.1 hk] at hkrest ⊢
        exact .inr (mem_readings_lit.2 ⟨hkrest, rfl⟩)
    · refine mem_readings_seq.2 ⟨_, mem_readings_run.2 ⟨b, hbrest, hb, rfl⟩, ?_⟩
      refine mem_readings_place.2 ⟨?_, rfl⟩
      have hend : ((s.advance k).advance b).cursor.rest = [] := by
        show (((u ++ (k ++ b)).drop u.length).drop k.length).drop b.length = []
        rw [List.drop_left, List.drop_left, List.drop_length]
      unfold Cursor.atEnd
      rw [hend]
      rfl

/-- Blanks at the end of a text with single spaces are a space at most. -/
theorem Inline.blanks_end {t b : Text} (h : Inline (t ++ b)) (hb : ∀ c ∈ b, isBlank c = true) :
    b = [] ∨ b = [' '] := by
  have hspace : ∀ c ∈ b, c = ' ' := fun c hc => h.blank c (List.mem_append_right t hc) (hb c hc)
  cases b with
  | nil => exact .inl rfl
  | cons c b =>
      obtain rfl := hspace c List.mem_cons_self
      cases b with
      | nil => exact .inr rfl
      | cons d b =>
          obtain rfl := hspace d (by simp)
          have hpair := (h.part (List.suffix_append t _).isInfix).mayFollow ' ' rfl
          exact absurd ⟨rfl, rfl⟩ hpair.1

/-- In text with single spaces a brace is taken for that of a type exactly if it follows the keyword
of one, however far before the brace the text begins. -/
theorem opensType_iff {t : Text} (pre post : Text) (ht : Inline t) :
    opensType (pre ++ (t ++ post)) pre.length (pre.length + t.length) = true
      ↔ FollowsKeyword t := by
  have hwindow : slice (pre ++ (t ++ post))
      (max pre.length (pre.length + t.length - typeKeywordWindow)) (pre.length + t.length)
        = t.drop (t.length - typeKeywordWindow) := by
    unfold slice
    rw [← List.append_assoc, ← List.length_append, List.take_left, List.drop_append]
    have hle : pre.length ≤ max pre.length (pre.length + t.length - typeKeywordWindow) :=
      Nat.le_max_left _ _
    rw [List.length_append, List.drop_eq_nil_of_le hle, List.nil_append]
    congr 1
    omega
  unfold opensType
  rw [hwindow, occursIn_typeKeywordEnd, followsKeyword_iff]
  generalize hn : t.length - typeKeywordWindow = n
  constructor
  · rintro ⟨u, k, hk, b, hb, hdrop, hedge⟩
    have hall : t = (t.take n ++ u) ++ (k ++ b) := by
      rw [List.append_assoc, ← hdrop, List.take_append_drop]
    have hb : b = [] ∨ b = [' '] := by
      rw [hall, ← List.append_assoc] at ht
      exact ht.blanks_end hb
    refine ⟨t.take n ++ u, k, hk, b, hb, hall, fun c hc => ?_⟩
    cases u with
    | cons d u =>
        rw [List.getLast?_append, List.getLast?_cons, Option.some_or] at hc
        rw [List.getLast?_cons] at hedge
        exact hedge c hc
    | nil =>
        -- A keyword does not fill the window, so the text begins where the window does.
        obtain ⟨-, -, hlength⟩ := of_mem_typeWords hk
        have hb : b.length ≤ 1 := by rcases hb with rfl | rfl <;> simp
        have hdrop := congrArg List.length hdrop
        simp only [List.length_drop, List.nil_append, List.length_append] at hdrop
        have hzero : n = 0 := by omega
        rw [hzero] at hc
        cases hc
  · rintro ⟨u, k, hk, b, hb, rfl, hedge⟩
    obtain ⟨-, -, hlength⟩ := of_mem_typeWords hk
    have hlength' : b.length ≤ 1 := by rcases hb with rfl | rfl <;> simp
    have hle : n ≤ u.length := by
      rw [List.length_append, List.length_append] at hn
      omega
    refine ⟨u.drop n, k, hk, b, ?_, List.drop_append_of_le_length hle, fun c hc => ?_⟩
    · rcases hb with rfl | rfl
      · simp
      · intro c hc
        rw [List.mem_singleton.1 hc]
        decide
    · rw [List.getLast?_drop] at hc
      split at hc
      · cases hc
      · exact hedge c hc

-- =========================================================== fragments

/-- Whether a character may stand after another without the two running together. -/
def Apart (before after : Char) : Prop :=
  MayFollow before after ∧ ¬(isWord before = true ∧ isWord after = true)

theorem apart_space_left {y : Char} (hy : isBlank y = false) : Apart ' ' y := by
  refine ⟨⟨fun h => ?_, by simp⟩, fun h => absurd h.1 (by decide)⟩
  rw [h.2] at hy
  cases hy

theorem apart_space_right {x : Char} (hx : isBlank x = false) : Apart x ' ' := by
  refine ⟨⟨fun h => ?_, by simp⟩, fun h => absurd h.2 (by decide)⟩
  rw [h.1] at hx
  cases hx

/-- The marks of a signature, which are apart from whatever stands beside them. -/
def signatureMarks : List Char := ['(', ')', ',']

theorem of_mem_signatureMarks {c : Char} (hc : c ∈ signatureMarks) :
    c ≠ ' ' ∧ c ≠ '/' ∧ c ≠ '*' ∧ isWord c = false := by
  simp only [signatureMarks, List.mem_cons, List.not_mem_nil, or_false] at hc
  rcases hc with rfl | rfl | rfl <;> decide

theorem apart_mark_left {x : Char} (hx : x ∈ signatureMarks) (y : Char) : Apart x y := by
  obtain ⟨hspace, hslash, -, hword⟩ := of_mem_signatureMarks hx
  refine ⟨⟨fun h => hspace h.1, fun h => hslash h.1⟩, fun h => ?_⟩
  rw [hword] at h
  cases h.1

theorem apart_mark_right {y : Char} (hy : y ∈ signatureMarks) (x : Char) : Apart x y := by
  obtain ⟨hspace, hslash, hstar, hword⟩ := of_mem_signatureMarks hy
  refine ⟨⟨fun h => hspace h.2, fun h => h.2.elim hslash hstar⟩, fun h => ?_⟩
  rw [hword] at h
  cases h.2

/-- Code on one line with balanced brackets in which every brace is that of a type. -/
structure Fragment (t : Text) : Prop where
  inline : Inline t
  nested : isNested t = true
  typeBraces : ∀ n < t.length, t[n]? = some '{' → FollowsKeyword (t.take n)

instance (t : Text) : Decidable (Fragment t) :=
  decidable_of_iff (Inline t ∧ isNested t = true ∧
      ∀ n < t.length, t[n]? = some '{' → FollowsKeyword (t.take n))
    ⟨fun h => ⟨h.1, h.2.1, h.2.2⟩, fun h => ⟨h.inline, h.nested, h.typeBraces⟩⟩

theorem Fragment.append {t u : Text} (ht : Fragment t) (hu : Fragment u)
    (hjoin : ∀ x ∈ t.getLast?, ∀ y ∈ u.head?, Apart x y) : Fragment (t ++ u) := by
  refine ⟨ht.inline.append hu.inline fun x hx y hy => (hjoin x hx y hy).1,
    (isNested_append ht.nested).trans hu.nested, fun n hn hbrace => ?_⟩
  rcases Nat.lt_or_ge n t.length with hlt | hge
  · rw [List.getElem?_append_left hlt] at hbrace
    rw [List.take_append_of_le_length (Nat.le_of_lt hlt)]
    exact ht.typeBraces n hlt hbrace
  · rw [List.getElem?_append_right hge] at hbrace
    have hlt : n - t.length < u.length := (List.getElem?_eq_some_iff.1 hbrace).1
    rw [List.take_append, List.take_of_length_le hge]
    refine (hu.typeBraces _ hlt hbrace).append fun x hx y hy => ?_
    refine (hjoin x hx y ?_).2
    have hpos : n - t.length ≠ 0 := by
      intro hzero
      rw [hzero] at hy
      cases hy
    rwa [List.head?_take, if_neg hpos] at hy

theorem Fragment.parenthesized {t : Text} (h : Fragment t) : Fragment ('(' :: (t ++ [')'])) := by
  have hopen : Inline ['('] := by decide
  have hclose : Inline [')'] := by decide
  have hinner : Inline (t ++ [')']) := by
    refine h.inline.append hclose fun x _ y hy => ?_
    obtain rfl : ')' = y := Option.some.inj hy
    exact (apart_mark_right (by decide) x).1
  refine ⟨?_, ?_, fun n hn hbrace => ?_⟩
  · refine hopen.append hinner fun x hx y _ => ?_
    obtain rfl : '(' = x := Option.some.inj hx
    exact (apart_mark_left (by decide) y).1
  · rw [isNested_group (show closerOf? '(' = some ')' from rfl) h.nested]
    rfl
  · cases n with
    | zero => cases hbrace
    | succ n =>
        rw [List.getElem?_cons_succ] at hbrace
        have hlt : n < t.length := by
          rcases Nat.lt_or_ge n t.length with hlt | hge
          · exact hlt
          · rw [List.getElem?_append_right hge] at hbrace
            obtain ⟨hlt, hbrace⟩ := List.getElem?_eq_some_iff.1 hbrace
            rw [List.getElem_singleton] at hbrace
            cases hbrace
        rw [List.getElem?_append_left hlt] at hbrace
        rw [List.take_succ_cons, List.take_append_of_le_length (Nat.le_of_lt hlt)]
        refine FollowsKeyword.append (t := ['(']) (h.typeBraces n hlt hbrace) fun x hx y _ => ?_
        obtain rfl : '(' = x := Option.some.inj hx
        exact (apart_mark_left (by decide) y).2

theorem fragment_of_isWord {t : Text} (h : ∀ c ∈ t, isWord c = true) : Fragment t := by
  refine ⟨inline_of_isWord h, isNested_of_plain fun c hc => ?_, fun n hn hbrace => ?_⟩
  · have hc := h c hc
    constructor
    · cases hopen : closerOf? c with
      | none => rfl
      | some closer =>
          rcases closerOf?_eq_some_iff.1 hopen with ⟨rfl, -⟩ | ⟨rfl, -⟩ | ⟨rfl, -⟩ <;>
            exact absurd hc (by decide)
    · refine Bool.eq_false_iff.2 fun hclose => ?_
      rcases isClosing_iff.1 hclose with rfl | rfl | rfl <;> exact absurd hc (by decide)
  · exact absurd (h _ (List.mem_of_getElem? hbrace)) (by decide)

theorem fragment_space : Fragment [' '] := by decide

-- ============================================================ the body

section Body

variable {t body : Text} (pre post : Text)

/-- After a space that follows no keyword a brace is not that of a type. -/
theorem not_followsKeyword_space (h : ¬EndsInKeyword t) : ¬FollowsKeyword (t ++ [' ']) := by
  intro hfollows
  obtain ⟨u, k, hk, b, rfl | rfl, heq, hedge⟩ := followsKeyword_iff.1 hfollows
  · obtain ⟨-, ⟨c, s, rfl, hc⟩, -⟩ := of_mem_typeWords hk
    rw [List.append_nil, ← List.append_assoc] at heq
    obtain rfl : ' ' = c := by simpa using congrArg List.getLast? heq
    exact absurd hc (by decide)
  · rw [← List.append_assoc, List.append_left_inj] at heq
    exact h (endsInKeyword_iff.2 ⟨u, k, hk, heq, hedge⟩)

/-- From a place in the fragment on, the first brace is found with its group, which is that of a
type. -/
theorem findMatching?_typeBrace {u v w : Text} (ht : Fragment t) (huv : t = u ++ (v ++ '{' :: w))
    (hfirst : '{' ∉ v) :
    ∃ inner after, w = inner ++ '}' :: after ∧
      findMatching? braces (pre ++ (t ++ post)) (pre.length + u.length)
        = some (pre.length + (u ++ v).length, pre.length + (u ++ v).length + inner.length + 1) ∧
      opensType (pre ++ (t ++ post)) pre.length (pre.length + (u ++ v).length) = true := by
  have hgroup : t = (u ++ v) ++ '{' :: w := by rw [huv, List.append_assoc]
  obtain ⟨inner, after, rfl, hinner⟩ :=
    exists_group (show closerOf? '{' = some '}' from rfl) (hgroup ▸ ht.nested)
  have hfollows : FollowsKeyword (u ++ v) := by
    have hbrace := ht.typeBraces (u ++ v).length
    rw [hgroup, List.take_left] at hbrace
    exact hbrace (by simp) (by simp)
  refine ⟨inner, after, rfl, ?_, ?_⟩
  · have hbefore : Bare (v ++ ['{']) :=
      ht.inline.bare.part ⟨u, inner ++ '}' :: after, by simp [huv]⟩
    have hinside : Bare (inner ++ ['}']) :=
      ht.inline.bare.part ⟨u ++ v ++ ['{'], after, by simp [huv]⟩
    have htext : pre ++ (t ++ post)
        = (pre ++ u) ++ (v ++ '{' :: (inner ++ '}' :: (after ++ post))) := by
      simp [huv]
    have hskip := findMatching?_unopened (d := braces) (pre ++ u)
      (inner ++ '}' :: (after ++ post)) hbefore hfirst
    have hfound := findMatching?_group (d := braces) (pre ++ u ++ v) (after ++ post) rfl hinside
      hinner
    rw [← List.length_append, htext, hskip, ← List.length_append, ← List.append_assoc]
    refine hfound.trans ?_
    simp only [List.length_append, Nat.add_assoc]
  · have htext : pre ++ (t ++ post)
        = pre ++ ((u ++ v) ++ '{' :: (inner ++ '}' :: (after ++ post))) := by simp [huv]
    rw [htext]
    have hbefore : Inline (u ++ v) := ht.inline.part (hgroup ▸ (List.prefix_append _ _).isInfix)
    exact (opensType_iff pre _ hbefore).2 hfollows

/-- The rounds of the search step over the groups of what is left of the fragment. -/
theorem findBodyOpenFrom_fragment (ht : Fragment t) (hspace : Inline (t ++ [' ', '{']))
    (hkeyword : ¬EndsInKeyword t)
    (hbody : findMatching? braces ('{' :: (body ++ ['}'])) 0 = some (0, body.length + 1))
    {fuel : Nat} {u v : Text} (huv : t = u ++ v) (hfuel : v.length < fuel) :
    findBodyOpenFrom (pre ++ (t ++ ' ' :: '{' :: (body ++ '}' :: post))) pre.length fuel
      (pre.length + u.length) = some (pre.length + t.length + 1) := by
  induction fuel generalizing u v with
  | zero => cases hfuel
  | succ fuel ih =>
      rw [findBodyOpenFrom]
      by_cases hbrace : '{' ∈ v
      · obtain ⟨v₁, w, rfl, hfirst⟩ := List.eq_append_cons_of_mem hbrace
        obtain ⟨inner, after, rfl, hfound, htype⟩ := findMatching?_typeBrace pre
          (' ' :: '{' :: (body ++ '}' :: post)) ht huv hfirst
        rw [hfound]
        dsimp only
        rw [if_pos htype]
        have hrest : t = (u ++ v₁ ++ '{' :: (inner ++ ['}'])) ++ after := by simp [huv]
        have hlater := ih hrest (by simp at hfuel; omega)
        have hoffset : pre.length + (u ++ v₁ ++ '{' :: (inner ++ ['}'])).length
            = pre.length + (u ++ v₁).length + inner.length + 1 + 1 := by
          simp only [List.length_append, List.length_cons, List.length_nil]
          omega
        rw [← hoffset]
        exact hlater
      · -- The next brace is that of the body.
        have hspaced : Inline (t ++ [' ']) := hspace.part ⟨[], ['{'], by simp⟩
        have hbefore : Bare ((v ++ [' ']) ++ ['{']) := hspace.bare.part ⟨u, [], by simp [huv]⟩
        have hskip := findMatching?_unopened (d := braces) (t := v ++ [' ']) (pre ++ u)
          (body ++ '}' :: post) hbefore (by simpa [braces] using hbrace)
        have hfound := findMatching?_of_group (d := braces) (by decide) hbody
          (pre ++ t ++ [' ']) post
        have htext : pre ++ (t ++ ' ' :: '{' :: (body ++ '}' :: post))
            = (pre ++ u) ++ ((v ++ [' ']) ++ '{' :: (body ++ '}' :: post)) := by simp [huv]
        have htext' : pre ++ (t ++ ' ' :: '{' :: (body ++ '}' :: post))
            = (pre ++ t ++ [' ']) ++ ('{' :: (body ++ ['}']) ++ post) := by simp
        have hopener : pre.length + u.length + (v ++ [' ']).length
            = (pre ++ t ++ [' ']).length := by
          simp only [huv, List.length_append]
          omega
        have hplain : opensType (pre ++ (t ++ ' ' :: '{' :: (body ++ '}' :: post))) pre.length
            (pre.length + t.length + 1) = false := by
          have hiff := opensType_iff pre ('{' :: (body ++ '}' :: post)) hspaced
          rw [List.append_assoc, List.length_append, ← Nat.add_assoc] at hiff
          exact Bool.eq_false_iff.2 fun h => not_followsKeyword_space hkeyword (hiff.1 h)
        rw [← htext, List.length_append, hopener, htext', hfound, ← htext'] at hskip
        rw [hskip]
        dsimp only
        rw [Nat.zero_add, List.length_append, List.length_append, List.length_singleton, hplain]
        rfl

/-- The body of a function opens after its signature. -/
theorem findBodyOpen?_fragment (ht : Fragment t) (hspace : Inline (t ++ [' ', '{']))
    (hkeyword : ¬EndsInKeyword t)
    (hbody : findMatching? braces ('{' :: (body ++ ['}'])) 0 = some (0, body.length + 1)) :
    findBodyOpen? (pre ++ (t ++ ' ' :: '{' :: (body ++ '}' :: post))) pre.length
      = some (pre.length + t.length + 1) := by
  unfold findBodyOpen?
  refine findBodyOpenFrom_fragment (u := []) pre post ht hspace hkeyword hbody rfl ?_
  simp only [List.length_append]
  omega

end Body

end GoSurvey.Source
