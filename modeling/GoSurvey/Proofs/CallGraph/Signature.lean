/-
How functions begin. The call graph reads the beginning of a function
with two patterns, `signature` in the whole text and `signatureLine` in
each line. What either of them reads up to the bracket after the name is
a `Head`, which differs between the two in no more than what counts as
space.

A text begins with one head at most (`Head.unique`), since each part of a
head ends where its class of characters does. So where the first pattern
matches, the second does unless the receiver goes over the end of the
line, and then both read the same name (`line_of_signature`).
-/
import GoSurvey.CallGraph.Extract
import GoSurvey.Proofs.Pattern.Search
import GoSurvey.Proofs.Text.Pieces

namespace GoSurvey.CallGraph

open Text Source Pattern

-- =============================================================== heads

/-- A text that is the receiver before the name of a function, or that is empty where there is
none. -/
inductive ReceiverPart (space : Char → Bool) : Option Text → Text → Prop where
  | none : ReceiverPart space none []
  | some {r g : Text} (hr : ∀ c ∈ r, except ')' c = true) (hg : ∀ c ∈ g, space c = true) :
      ReceiverPart space (some r) ('(' :: (r ++ ')' :: g))

/-- The keyword that a function begins with. -/
def funcKeyword : Text := "func"

/-- A text that is the beginning of a function, from the keyword to the bracket after the name. -/
inductive Head (space : Char → Bool) (receiver : Option Text) (name : Text) : Text → Prop where
  | mk {g part g' : Text} {c : Char} (hne : g ≠ []) (hg : ∀ d ∈ g, space d = true)
      (hpart : ReceiverPart space receiver part) (hname : name ≠ [])
      (hword : ∀ d ∈ name, isWord d = true) (hg' : ∀ d ∈ g', space d = true)
      (hc : c = '[' ∨ c = '(') :
      Head space receiver name (funcKeyword ++ (g ++ (part ++ (name ++ (g' ++ [c])))))

/-- A head with less that counts as space is one with more. -/
theorem Head.mono {space space' : Char → Bool} (hspace : ∀ c, space c = true → space' c = true)
    {receiver : Option Text} {name h : Text} (hh : Head space receiver name h) :
    Head space' receiver name h := by
  obtain ⟨hne, hg, hpart, hname, hword, hg', hc⟩ := hh
  have hspaces : ∀ {g : Text}, (∀ d ∈ g, space d = true) → ∀ d ∈ g, space' d = true :=
    fun hg d hd => hspace d (hg d hd)
  refine .mk hne (hspaces hg) ?_ hname hword (hspaces hg') hc
  cases hpart with
  | none => exact .none
  | some hr hg => exact .some hr (hspaces hg)

/-- After the name comes something that is no word character. -/
theorem exists_cons_after {g' t : Text} {c : Char} (hg' : ∀ d ∈ g', isBlank d = true)
    (hc : c = '[' ∨ c = '(') : ∃ d s, g' ++ c :: t = d :: s ∧ isWord d = false := by
  cases g' with
  | nil => rcases hc with rfl | rfl <;> exact ⟨_, t, rfl, by decide⟩
  | cons d g' =>
      refine ⟨d, g' ++ c :: t, rfl, ?_⟩
      cases hword : isWord d with
      | false => rfl
      | true =>
          have hblank := hg' d List.mem_cons_self
          rw [not_isBlank_of_isWord hword] at hblank
          cases hblank

theorem isBlank_of_bracket {c : Char} (hc : c = '[' ∨ c = '(') : isBlank c = false := by
  rcases hc with rfl | rfl <;> decide

/-- A name, the space after it and the bracket are read from a text in one way. -/
theorem name_unique {n₁ n₂ g₁ g₂ t₁ t₂ : Text} {c₁ c₂ : Char}
    (hn₁ : ∀ d ∈ n₁, isWord d = true) (hn₂ : ∀ d ∈ n₂, isWord d = true)
    (hg₁ : ∀ d ∈ g₁, isBlank d = true) (hg₂ : ∀ d ∈ g₂, isBlank d = true)
    (hc₁ : c₁ = '[' ∨ c₁ = '(') (hc₂ : c₂ = '[' ∨ c₂ = '(')
    (h : n₁ ++ (g₁ ++ c₁ :: t₁) = n₂ ++ (g₂ ++ c₂ :: t₂)) : n₁ = n₂ ∧ g₁ = g₂ ∧ c₁ = c₂ := by
  obtain ⟨d₁, s₁, hs₁, hd₁⟩ := exists_cons_after (t := t₁) hg₁ hc₁
  obtain ⟨d₂, s₂, hs₂, hd₂⟩ := exists_cons_after (t := t₂) hg₂ hc₂
  rw [hs₁, hs₂] at h
  obtain ⟨hname, hrest⟩ := run_unique hd₁ hd₂ hn₁ hn₂ h
  rw [← hs₁, ← hs₂] at hrest
  obtain ⟨hspace, hlast⟩ :=
    run_unique (isBlank_of_bracket hc₁) (isBlank_of_bracket hc₂) hg₁ hg₂ hrest
  injection hlast with hc
  exact ⟨hname, hspace, hc⟩

/-- A name begins with something that is no blank. -/
theorem exists_cons_name {name u : Text} (hname : name ≠ []) (hword : ∀ d ∈ name, isWord d = true) :
    ∃ d s, name ++ u = d :: s ∧ isWord d = true ∧ isBlank d = false := by
  cases name with
  | nil => exact absurd rfl hname
  | cons d name =>
      have hd := hword d List.mem_cons_self
      exact ⟨d, name ++ u, rfl, hd, not_isBlank_of_isWord hd⟩

/-- What a receiver and a name begin with is no blank. -/
theorem exists_cons_part {space : Char → Bool} {receiver : Option Text} {part name u : Text}
    (hpart : ReceiverPart space receiver part) (hname : name ≠ [])
    (hword : ∀ d ∈ name, isWord d = true) :
    ∃ d s, part ++ (name ++ u) = d :: s ∧ isBlank d = false := by
  cases hpart with
  | none =>
      obtain ⟨d, s, hs, -, hd⟩ := exists_cons_name (u := u) hname hword
      exact ⟨d, s, hs, hd⟩
  | some => exact ⟨'(', _, rfl, by decide⟩

/-- A receiver is read from a text in one way. -/
theorem part_unique {r₁ r₂ : Option Text} {part₁ part₂ n₁ n₂ u₁ u₂ : Text}
    (hpart₁ : ReceiverPart isBlank r₁ part₁) (hpart₂ : ReceiverPart isBlank r₂ part₂)
    (hname₁ : n₁ ≠ []) (hword₁ : ∀ d ∈ n₁, isWord d = true)
    (hname₂ : n₂ ≠ []) (hword₂ : ∀ d ∈ n₂, isWord d = true)
    (h : part₁ ++ (n₁ ++ u₁) = part₂ ++ (n₂ ++ u₂)) :
    r₁ = r₂ ∧ part₁ = part₂ ∧ n₁ ++ u₁ = n₂ ++ u₂ := by
  obtain ⟨d₁, s₁, hs₁, hd₁, hblank₁⟩ := exists_cons_name (u := u₁) hname₁ hword₁
  obtain ⟨d₂, s₂, hs₂, hd₂, hblank₂⟩ := exists_cons_name (u := u₂) hname₂ hword₂
  have hopen : isWord '(' = false := by decide
  cases hpart₁ with
  | none =>
      cases hpart₂ with
      | none => exact ⟨rfl, rfl, h⟩
      | some =>
          rw [List.nil_append, hs₁] at h
          injection h with hd
          rw [hd, hopen] at hd₁
          cases hd₁
  | @some r₁ g₁ hr₁ hg₁ =>
      cases hpart₂ with
      | none =>
          rw [List.nil_append, hs₂] at h
          injection h with hd
          rw [← hd, hopen] at hd₂
          cases hd₂
      | @some r₂ g₂ hr₂ hg₂ =>
          rw [hs₁, hs₂] at h
          simp only [List.cons_append, List.append_assoc] at h
          injection h with _ h
          have hclose : except ')' ')' = false := rfl
          obtain ⟨hr, hrest⟩ := run_unique hclose hclose hr₁ hr₂ h
          injection hrest with _ hrest
          obtain ⟨hg, hnames⟩ := run_unique hblank₁ hblank₂ hg₁ hg₂ hrest
          subst hr
          subst hg
          exact ⟨rfl, rfl, by rw [hs₁, hs₂, hnames]⟩

/-- A text begins with one head at most. -/
theorem Head.unique {r₁ r₂ : Option Text} {n₁ n₂ h₁ h₂ t : Text} (hh₁ : Head isBlank r₁ n₁ h₁)
    (hh₂ : Head isBlank r₂ n₂ h₂) (ht₁ : h₁ <+: t) (ht₂ : h₂ <+: t) :
    r₁ = r₂ ∧ n₁ = n₂ ∧ h₁ = h₂ := by
  obtain ⟨t₁, rfl⟩ := ht₁
  obtain ⟨t₂, ht⟩ := ht₂
  obtain @⟨g₁, part₁, g₁', c₁, -, hg₁, hpart₁, hname₁, hword₁, hg₁', hc₁⟩ := hh₁
  obtain @⟨g₂, part₂, g₂', c₂, -, hg₂, hpart₂, hname₂, hword₂, hg₂', hc₂⟩ := hh₂
  simp only [List.append_assoc, List.singleton_append] at ht
  have ht := List.append_cancel_left ht
  obtain ⟨d₁, s₁, hs₁, hd₁⟩ :=
    exists_cons_part (u := g₁' ++ c₁ :: t₁) hpart₁ hname₁ hword₁
  obtain ⟨d₂, s₂, hs₂, hd₂⟩ :=
    exists_cons_part (u := g₂' ++ c₂ :: t₂) hpart₂ hname₂ hword₂
  rw [hs₁, hs₂] at ht
  obtain ⟨hg, hparts⟩ := run_unique hd₂ hd₁ hg₂ hg₁ ht
  rw [← hs₁, ← hs₂] at hparts
  obtain ⟨hr, hpart, hnames⟩ :=
    part_unique hpart₂ hpart₁ hname₂ hword₂ hname₁ hword₁ hparts
  obtain ⟨hname, hg', hc⟩ := name_unique hword₂ hword₁ hg₂' hg₁' hc₂ hc₁ hnames
  exact ⟨hr.symm, hname.symm, by rw [hg, hpart, hname, hg', hc]⟩

-- ================================================= readings of heads

/-- A pattern that reads receivers in parentheses and remembers some texts of them. -/
def ReadsReceiver (space : Char → Bool) (texts : Text → List (Nat × Text)) (p : Pattern) : Prop :=
  ∀ s s', s' ∈ readings p s → ∃ r g, (∀ c ∈ r, except ')' c = true) ∧
    (∀ c ∈ g, space c = true) ∧ '(' :: (r ++ ')' :: g) <+: s.cursor.rest ∧
    s'.cursor = s.cursor.advance ('(' :: (r ++ ')' :: g)) ∧ s'.texts = texts r ++ s.texts

/-- Parentheses around anything that reads a receiver, with space behind them. -/
theorem readsReceiver_parentheses {space : Char → Bool} {texts : Text → List (Nat × Text)}
    {inner : Pattern} (hinner : ∀ s s', s' ∈ readings inner s → ∃ r,
      r <+: s.cursor.rest ∧ (∀ c ∈ r, except ')' c = true) ∧
      s'.cursor = s.cursor.advance r ∧ s'.texts = texts r ++ s.texts) :
    ReadsReceiver space texts ("(" ++ inner ++ ")" ++ run space) := by
  intro s s' h
  simp only [readings_assoc] at h
  obtain ⟨s₁, hs₁, h⟩ := mem_readings_seq.1 h
  obtain ⟨s₂, hs₂, h⟩ := mem_readings_seq.1 h
  obtain ⟨s₃, hs₃, h⟩ := mem_readings_seq.1 h
  obtain ⟨hopen, rfl⟩ := mem_readings_lit.1 hs₁
  obtain ⟨r, hrrest, hr, hcur, htexts⟩ := hinner _ _ hs₂
  obtain ⟨hclose, rfl⟩ := mem_readings_lit.1 hs₃
  obtain ⟨g, hgrest, hg, rfl⟩ := mem_readings_run.1 h
  simp only [State.advance, hcur] at hclose hgrest
  have hrest := prefix_append_of_advance hopen
    (prefix_append_of_advance hrrest (prefix_append_of_advance hclose hgrest))
  refine ⟨r, g, hr, hg, hrest, ?_, htexts⟩
  simp only [State.advance, hcur, Cursor.advance_append, List.append_assoc]
  rfl

/-- What the front of a head reads, up to the name, and what it remembers. -/
theorem mem_readings_front {space : Char → Bool} {texts : Text → List (Nat × Text)} {p : Pattern}
    (hp : ReadsReceiver space texts p) {index : Nat} {tail : Pattern} {s s' : State}
    (h : s' ∈ readings
      (lit funcKeyword ++ (run1 space ++ (optional p ++ (group index word ++ tail)))) s) :
    ∃ g part name receiver m, g ≠ [] ∧ (∀ d ∈ g, space d = true) ∧
      ReceiverPart space receiver part ∧ name ≠ [] ∧ (∀ d ∈ name, isWord d = true) ∧
      funcKeyword ++ (g ++ (part ++ name)) <+: s.cursor.rest ∧
      m.cursor = s.cursor.advance (funcKeyword ++ (g ++ (part ++ name))) ∧
      m.texts = (index, name) :: ((receiver.map texts).getD [] ++ s.texts) ∧
      s' ∈ readings tail m := by
  obtain ⟨s₁, hs₁, h⟩ := mem_readings_seq.1 h
  obtain ⟨s₂, hs₂, h⟩ := mem_readings_seq.1 h
  obtain ⟨s₃, hs₃, h⟩ := mem_readings_seq.1 h
  obtain ⟨s₄, hs₄, htail⟩ := mem_readings_seq.1 h
  obtain ⟨hfunc, rfl⟩ := mem_readings_lit.1 hs₁
  obtain ⟨g, hne, hgrest, hg, rfl⟩ := mem_readings_run1.1 hs₂
  have hfront : funcKeyword ++ g <+: s.cursor.rest := prefix_append_of_advance hfunc hgrest
  have hstate : (s.advance funcKeyword).advance g = s.advance (funcKeyword ++ g) :=
    State.advance_append s funcKeyword g
  rw [hstate] at hs₃
  obtain ⟨s₅, hs₅, rfl⟩ := mem_readings_group.1 hs₄
  obtain ⟨name, hname, hnamerest, hword, rfl⟩ := mem_readings_run1.1 hs₅
  -- The receiver is read or passed over; either way it is the part between.
  have hpart : ∃ receiver part, ReceiverPart space receiver part ∧
      part <+: (s.cursor.advance (funcKeyword ++ g)).rest ∧
      s₃.cursor = (s.cursor.advance (funcKeyword ++ g)).advance part ∧
      s₃.texts = (receiver.map texts).getD [] ++ s.texts := by
    rcases mem_readings_optional.1 hs₃ with hread | rfl
    · obtain ⟨r, g', hr, hg', hrest, hcur, htexts⟩ := hp _ _ hread
      exact ⟨some r, _, .some hr hg', hrest, hcur, htexts⟩
    · exact ⟨none, [], .none, List.nil_prefix, rfl, rfl⟩
  obtain ⟨receiver, part, hreceiver, hpartrest, hcur, htexts⟩ := hpart
  rw [hcur] at hnamerest
  refine ⟨g, part, name, receiver, _, hne, hg, hreceiver, hname, hword, ?_, ?_, ?_, htail⟩
  · have hall := prefix_append_of_advance (prefix_append_of_advance hfront hpartrest)
      (Cursor.advance_append _ (funcKeyword ++ g) part ▸ hnamerest)
    simpa only [List.append_assoc] using hall
  · show s₃.cursor.advance name = _
    rw [hcur, Cursor.advance_append, Cursor.advance_append]
    simp only [List.append_assoc]
  · have hremember := texts_remember (s := s₃) (m := s₃.advance name) index (hcur ▸ hnamerest) rfl
    rw [hremember]
    exact congrArg (List.cons _) htexts

-- =================================================== the line pattern

/-- The receiver in a signature line. -/
def lineReceiver : Pattern := "(" ++ run (except ')') ++ ")" ++ blanks

/-- What follows the name in a signature line. -/
def lineTail : Pattern := blanks ++ one fun c => c == '[' || c == '('

theorem readings_signatureLine (s : State) :
    readings signatureLine s = readings (atStart ++ (lit funcKeyword ++ (run1 isBlank ++
      (optional lineReceiver ++ (group 1 word ++ lineTail))))) s := by
  unfold signatureLine lineReceiver lineTail
  simp only [readings_assoc]
  rfl

theorem mem_readings_lineTail {s s' : State} :
    s' ∈ readings lineTail s ↔ ∃ g c, (∀ d ∈ g, isBlank d = true) ∧ (c = '[' ∨ c = '(') ∧
      g ++ [c] <+: s.cursor.rest ∧ s' = s.advance (g ++ [c]) := by
  unfold lineTail
  rw [mem_readings_seq]
  constructor
  · intro h
    obtain ⟨m, hm, hs'⟩ := h
    obtain ⟨g, hgrest, hg, rfl⟩ := mem_readings_run.1 hm
    obtain ⟨c, hcrest, hc, rfl⟩ := mem_readings_one.1 hs'
    rw [Bool.or_eq_true, beq_iff_eq, beq_iff_eq] at hc
    exact ⟨g, c, hg, hc, prefix_append_of_advance hgrest hcrest, State.advance_append s g [c]⟩
  · intro h
    obtain ⟨g, c, hg, hc, hrest, rfl⟩ := h
    obtain ⟨hgrest, hcrest⟩ := prefix_of_prefix_append hrest
    refine ⟨s.advance g, mem_readings_run.2 ⟨g, hgrest, hg, rfl⟩, ?_⟩
    refine mem_readings_one.2 ⟨c, hcrest, ?_, (State.advance_append s g [c]).symm⟩
    rw [Bool.or_eq_true, beq_iff_eq, beq_iff_eq]
    exact hc

theorem readsReceiver_line : ReadsReceiver isBlank (fun _ => []) lineReceiver := by
  refine readsReceiver_parentheses fun s s' h => ?_
  obtain ⟨r, hrest, hr, rfl⟩ := mem_readings_run.1 h
  exact ⟨r, hrest, hr, rfl, rfl⟩

/-- A receiver that is ahead is read. -/
theorem advance_mem_readings_receiver {receiver : Option Text} {part : Text} {s : State}
    (hpart : ReceiverPart isBlank receiver part) (hrest : part <+: s.cursor.rest) :
    s.advance part ∈ readings (optional lineReceiver) s := by
  refine mem_readings_optional.2 ?_
  cases hpart with
  | none => exact .inr rfl
  | @some r g hr hg =>
      have hparts : '(' :: (r ++ ')' :: g) = "(" ++ (r ++ (")" ++ g)) := rfl
      rw [hparts] at hrest ⊢
      obtain ⟨hopen, hrest⟩ := prefix_of_prefix_append hrest
      obtain ⟨hrrest, hrest⟩ := prefix_of_prefix_append hrest
      obtain ⟨hclose, hgrest⟩ := prefix_of_prefix_append hrest
      refine .inl ?_
      unfold lineReceiver
      simp only [readings_assoc]
      refine advance_mem_readings_seq (mem_readings_lit.2 ⟨hopen, rfl⟩) ?_
      refine advance_mem_readings_seq (mem_readings_run.2 ⟨r, hrrest, hr, rfl⟩) ?_
      refine advance_mem_readings_seq (mem_readings_lit.2 ⟨hclose, rfl⟩) ?_
      exact mem_readings_run.2 ⟨g, hgrest, hg, rfl⟩

/-- A signature line begins with a head, whose name it is that is remembered. -/
theorem head_of_signatureLine {line : Text} {m : Match}
    (h : signatureLine.matchStart line = some m) :
    ∃ receiver head, Head isBlank receiver (m.group 1) head ∧ head <+: line := by
  obtain ⟨s, hs, rfl⟩ := exists_reading_of_matchAt h
  rw [readings_signatureLine] at hs
  obtain ⟨s₁, hs₁, hs⟩ := mem_readings_seq.1 hs
  obtain ⟨-, rfl⟩ := mem_readings_place.1 hs₁
  obtain ⟨g, part, name, receiver, s₂, hne, hg, hpart, hname, hword, hrest, hcur, htexts, htail⟩ :=
    mem_readings_front readsReceiver_line hs
  obtain ⟨g', c, hg', hc, hrest', rfl⟩ := mem_readings_lineTail.1 htail
  rw [hcur] at hrest'
  have hgroup : (Match.ofState (Cursor.start line) (s₂.advance (g' ++ [c]))).group 1 = name := by
    show ((s₂.texts).lookup 1).getD [] = name
    rw [htexts]
    rfl
  rw [hgroup]
  refine ⟨receiver, _, .mk hne hg hpart hname hword hg' hc, ?_⟩
  have hall : (funcKeyword ++ (g ++ (part ++ name))) ++ (g' ++ [c]) <+: line :=
    prefix_append_of_advance hrest hrest'
  simpa only [List.append_assoc] using hall

/-- A line that begins with a head is a signature line, and its name is remembered. -/
theorem exists_match_of_head {line : Text} {receiver : Option Text} {name head : Text}
    (hhead : Head isBlank receiver name head) (hline : head <+: line) :
    ∃ m, signatureLine.matchStart line = some m ∧ m.group 1 = name := by
  have hread : ∃ s, s ∈ readings signatureLine ⟨Cursor.start line, []⟩ := by
    obtain @⟨g, part, g', c, hne, hg, hpart, hname, hword, hg', hc⟩ := hhead
    have hline : _ <+: (Cursor.start line).rest := hline
    obtain ⟨hfunc, hline⟩ := prefix_of_prefix_append hline
    obtain ⟨hgrest, hline⟩ := prefix_of_prefix_append hline
    obtain ⟨hpartrest, hline⟩ := prefix_of_prefix_append hline
    obtain ⟨hnamerest, htailrest⟩ := prefix_of_prefix_append hline
    let s₁ : State := ((⟨Cursor.start line, []⟩ : State).advance funcKeyword).advance g
    let s₂ : State := ((s₁.advance part).advance name).remember 1 (s₁.advance part)
    have hnameread : s₂ ∈ readings (group 1 word) (s₁.advance part) :=
      mem_readings_group.2 ⟨_, mem_readings_run1.2 ⟨name, hname, hnamerest, hword, rfl⟩, rfl⟩
    have htailread : s₂.advance (g' ++ [c]) ∈ readings lineTail s₂ :=
      mem_readings_lineTail.2 ⟨g', c, hg', hc, htailrest, rfl⟩
    refine ⟨s₂.advance (g' ++ [c]), ?_⟩
    rw [readings_signatureLine]
    refine mem_readings_seq.2 ⟨_, mem_readings_place.2 ⟨rfl, rfl⟩, ?_⟩
    refine mem_readings_seq.2 ⟨_, mem_readings_lit.2 ⟨hfunc, rfl⟩, ?_⟩
    refine mem_readings_seq.2 ⟨s₁, mem_readings_run1.2 ⟨g, hne, hgrest, hg, rfl⟩, ?_⟩
    refine mem_readings_seq.2 ⟨_, advance_mem_readings_receiver hpart hpartrest, ?_⟩
    exact mem_readings_seq.2 ⟨s₂, hnameread, htailread⟩
  obtain ⟨s, hs⟩ := hread
  obtain ⟨m, hm⟩ := Option.isSome_iff_exists.1 (isSome_matchAt hs)
  obtain ⟨receiver', head', hhead', hline'⟩ := head_of_signatureLine hm
  exact ⟨m, hm, (hhead'.unique hhead hline' hline).2.1⟩

-- =================================================== the text pattern

/-- What counts as space in a signature. -/
def isGap (c : Char) : Bool := c == ' ' || c == '\t'

theorem isBlank_of_isGap {c : Char} (h : isGap c = true) : isBlank c = true := by
  unfold isGap at h
  rw [Bool.or_eq_true, beq_iff_eq, beq_iff_eq] at h
  rcases h with rfl | rfl <;> decide

/-- What follows the name in a signature. -/
def signatureTail : Pattern :=
  gap ++ (Declaration.typeParameters ++ (gap ++ (parenthesized 3
    ++ optional (choice (gap ++ parenthesized 4) (gap ++ group 5 resultType)))))

theorem readings_signature (s : State) :
    readings signature s = readings (lineStart ++ (lit funcKeyword ++ (run1 isGap ++
      (optional (parenthesized 1 ++ gap) ++ (group 2 word ++ signatureTail))))) s := by
  unfold signature signatureTail
  simp only [readings_assoc]
  rfl

theorem readsReceiver_signature :
    ReadsReceiver isGap (fun r => [(1, r)]) (parenthesized 1 ++ gap) := by
  refine readsReceiver_parentheses fun s s' h => ?_
  obtain ⟨m, hm, rfl⟩ := mem_readings_group.1 h
  obtain ⟨r, hrest, hr, rfl⟩ := mem_readings_run.1 hm
  exact ⟨r, hrest, hr, rfl, texts_remember 1 hrest rfl⟩

/-- After the name of a signature comes a bracket, and no text before the third is remembered. -/
theorem of_mem_readings_signatureTail {s s' : State} (h : s' ∈ readings signatureTail s) :
    (∃ g c, (∀ d ∈ g, isGap d = true) ∧ (c = '[' ∨ c = '(') ∧ g ++ [c] <+: s.cursor.rest) ∧
      ∃ new, s'.texts = new ++ s.texts ∧ ∀ x ∈ new, x.1 ∈ [3, 4, 5] := by
  refine ⟨?_, texts_of_reading h⟩
  obtain ⟨s₁, hs₁, h⟩ := mem_readings_seq.1 h
  obtain ⟨s₂, hs₂, h⟩ := mem_readings_seq.1 h
  obtain ⟨g, hgrest, hg, rfl⟩ := mem_readings_run.1 hs₁
  rcases mem_readings_optional.1 hs₂ with hbracket | rfl
  · unfold bracketed at hbracket
    simp only [readings_assoc] at hbracket
    obtain ⟨s₃, hs₃, -⟩ := mem_readings_seq.1 hbracket
    obtain ⟨hopen, -⟩ := mem_readings_lit.1 hs₃
    exact ⟨g, '[', hg, .inl rfl, prefix_append_of_advance hgrest hopen⟩
  · obtain ⟨s₃, hs₃, h⟩ := mem_readings_seq.1 h
    obtain ⟨g', hgrest', hg', rfl⟩ := mem_readings_run.1 hs₃
    obtain ⟨s₄, hs₄, -⟩ := mem_readings_seq.1 h
    unfold parenthesized at hs₄
    simp only [readings_assoc] at hs₄
    obtain ⟨s₅, hs₅, -⟩ := mem_readings_seq.1 hs₄
    obtain ⟨hopen, -⟩ := mem_readings_lit.1 hs₅
    refine ⟨g ++ g', '(', ?_, .inr rfl, ?_⟩
    · intro d hd
      rcases List.mem_append.1 hd with hd | hd
      · exact hg d hd
      · exact hg' d hd
    · rw [List.append_assoc]
      exact prefix_append_of_advance hgrest (prefix_append_of_advance hgrest' hopen)

/-- A signature stands at the start of a line and begins with a head, the receiver and the name of
which are remembered. -/
theorem head_of_signature {cur : Cursor} {m : Match} (h : signature.matchAt cur = some m) :
    cur.atLineStart = true ∧
      ∃ head, Head isGap (m.group? 1) (m.group 2) head ∧ head <+: cur.rest := by
  obtain ⟨s, hs, rfl⟩ := exists_reading_of_matchAt h
  rw [readings_signature] at hs
  obtain ⟨s₁, hs₁, hs⟩ := mem_readings_seq.1 hs
  obtain ⟨hstart, rfl⟩ := mem_readings_place.1 hs₁
  obtain ⟨g, part, name, receiver, s₂, hne, hg, hpart, hname, hword, hrest, hcur, htexts, htail⟩ :=
    mem_readings_front readsReceiver_signature hs
  obtain ⟨⟨g', c, hg', hc, hrest'⟩, new, hnew, hindex⟩ := of_mem_readings_signatureTail htail
  rw [hcur] at hrest'
  have hnone : ∀ index, index ∉ [3, 4, 5] → new.lookup index = none := by
    intro index hnot
    refine List.lookup_eq_none_iff.2 fun x hx => ?_
    exact bne_iff_ne.2 fun heq => hnot (heq ▸ hindex x hx)
  have hgroup? : (Match.ofState cur s).group? 1 = receiver := by
    show s.texts.lookup 1 = receiver
    rw [hnew, htexts, List.lookup_append, hnone 1 (by decide)]
    cases receiver <;> rfl
  have hgroup : (Match.ofState cur s).group 2 = name := by
    rw [group_ofState, hnew, htexts, List.lookup_append, hnone 2 (by decide)]
    rfl
  rw [hgroup?, hgroup]
  refine ⟨hstart, _, .mk hne hg hpart hname hword hg' hc, ?_⟩
  have hall : (funcKeyword ++ (g ++ (part ++ name))) ++ (g' ++ [c]) <+: cur.rest :=
    prefix_append_of_advance hrest hrest'
  simpa only [List.append_assoc] using hall

/-- A signature stands at the start of the text or after a newline. -/
theorem start_of_signature {content w : Text} {m : Match}
    (hm : signature.matchAt ((Cursor.start content).advance w) = some m) :
    w = [] ∨ w.getLast? = some newline := by
  obtain ⟨hstart, -⟩ := head_of_signature hm
  exact atLineStart_advance.1 hstart

-- ==================================================== the two patterns

/-- A head is in one line if its receiver is. -/
theorem Head.newline_mem_iff {receiver : Option Text} {name head : Text}
    (hh : Head isGap receiver name head) : newline ∈ head ↔ newline ∈ receiver.getD [] := by
  obtain @⟨g, part, g', c, -, hg, hpart, -, hword, hg', hc⟩ := hh
  have hgap : ∀ {g : Text}, (∀ d ∈ g, isGap d = true) → newline ∉ g :=
    fun hg hmem => absurd (hg _ hmem) (by decide)
  have hname : newline ∉ name := fun hmem => absurd (hword _ hmem) (by decide)
  have hfunc : newline ∉ funcKeyword := by decide
  have hbracket : newline ≠ c := by rcases hc with rfl | rfl <;> decide
  have hpart : newline ∈ part ↔ newline ∈ receiver.getD [] := by
    cases hpart with
    | none => exact Iff.rfl
    | @some r g _ hg =>
        have hopen : newline ≠ '(' := by decide
        have hclose : newline ≠ ')' := by decide
        simp only [List.mem_cons, List.mem_append, hopen, hclose, hgap hg, false_or, or_false,
          Option.getD_some]
  simp only [List.mem_append, List.mem_singleton, hfunc, hgap hg, hname, hgap hg', hbracket,
    false_or, or_false, hpart]

/-- Where a signature begins, the line is a signature line with the same name, or else the receiver
goes over the end of the line. -/
theorem line_of_signature {content w : Text} (hw : w <+: content) {m : Match}
    (hm : signature.matchAt ((Cursor.start content).advance w) = some m) :
    ∃ line, (lines content)[w.count newline]? = some line ∧
      (newline ∉ m.group 1 → (signatureLine.matchStart line).isSome = true) ∧
      ∀ m', signatureLine.matchStart line = some m' →
        newline ∉ m.group 1 ∧ m'.group 1 = m.group 2 := by
  obtain ⟨-, head, hhead, hrest⟩ := head_of_signature hm
  have hplace := start_of_signature hm
  obtain ⟨after, rfl⟩ := hw
  have hafter : ((Cursor.start (w ++ after)).advance w).rest = after := List.drop_left
  rw [hafter] at hrest
  obtain ⟨line, hline, hbegin, hnot, hmax⟩ := exists_line after hplace
  have hblank := hhead.mono fun _ => isBlank_of_isGap
  refine ⟨line, hline, ?_, ?_⟩
  · intro hreceiver
    have hin : newline ∉ head := fun hmem => hreceiver (hhead.newline_mem_iff.1 hmem)
    obtain ⟨m', hm', -⟩ := exists_match_of_head hblank (hmax head hrest hin)
    exact Option.isSome_iff_exists.2 ⟨m', hm'⟩
  · intro m' hm'
    obtain ⟨receiver', head', hhead', hbegin'⟩ := head_of_signatureLine hm'
    obtain ⟨-, hname, hsame⟩ := hhead'.unique hblank (hbegin'.trans hbegin) hrest
    refine ⟨fun hmem => ?_, hname⟩
    have hmem : newline ∈ head' := hsame ▸ hhead.newline_mem_iff.2 hmem
    exact hnot (hbegin'.subset hmem)

end GoSurvey.CallGraph
