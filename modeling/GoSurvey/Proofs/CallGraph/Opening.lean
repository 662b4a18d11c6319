/-
How functions begin, up to the parenthesis that opens the parameter list.
An `Opening` is a head with the type parameters after it. The patterns
that read a signature differ in what counts as space and in what they
remember; up to that parenthesis they read an opening in one way
(`first_front`), so from the same place they read the same.

A squeezed opening is an opening (`Opening.squeeze`).
-/
import GoSurvey.Proofs.CallGraph.Extract
import GoSurvey.Proofs.Pattern.First
import GoSurvey.Proofs.Pattern.Step
import GoSurvey.Proofs.Text.Squeeze

namespace GoSurvey.CallGraph

open Text Source Pattern

-- ============================================================ openings

/-- A text that is the type parameters of a function, or that is empty where there are none. -/
inductive TypePart : Text → Prop where
  | none : TypePart []
  | some {inner : Text} (h : ∀ c ∈ inner, except ']' c = true) : TypePart ('[' :: (inner ++ [']']))

/-- A text that is the beginning of a function, up to the parenthesis of its parameters. -/
inductive Opening (space : Char → Bool) (receiver : Option Text) (name : Text) : Text → Prop where
  | mk {g part g' types g'' : Text} (hne : g ≠ []) (hg : ∀ d ∈ g, space d = true)
      (hpart : ReceiverPart space receiver part) (hname : name ≠ [])
      (hword : ∀ d ∈ name, isWord d = true) (hg' : ∀ d ∈ g', space d = true)
      (htypes : TypePart types) (hg'' : ∀ d ∈ g'', space d = true) :
      Opening space receiver name
        (funcKeyword ++ (g ++ ((part ++ name) ++ (g' ++ (types ++ (g'' ++ ['(']))))))

variable {space : Char → Bool} {receiver : Option Text} {name o : Text}

/-- An opening with less that counts as space is one with more. -/
theorem Opening.mono {space' : Char → Bool} (hspace : ∀ c, space c = true → space' c = true)
    (h : Opening space receiver name o) : Opening space' receiver name o := by
  obtain ⟨hne, hg, hpart, hname, hword, hg', htypes, hg''⟩ := h
  have hspaces : ∀ {g : Text}, (∀ d ∈ g, space d = true) → ∀ d ∈ g, space' d = true :=
    fun hg d hd => hspace d (hg d hd)
  refine .mk hne (hspaces hg) ?_ hname hword (hspaces hg') htypes (hspaces hg'')
  cases hpart with
  | none => exact .none
  | some hr hg => exact .some hr (hspaces hg)

theorem isBlank_eq_false_of_mem {w : Text} (hw : ∀ c ∈ w, isWord c = true) :
    ∀ c ∈ w, isBlank c = false := fun c hc => not_isBlank_of_isWord (hw c hc)

/-- A class that leaves out a character does so in a squeezed text. -/
theorem except_squeeze {c : Char} (hc : isBlank c = false) {w : Text}
    (hw : ∀ d ∈ w, except c d = true) : ∀ d ∈ squeeze w, except c d = true :=
  except_of_not_mem fun hmem => not_mem_of_except hw ((mem_squeeze hc).1 hmem)

/-- The receiver, the name and what follows them are squeezed one after another. -/
theorem squeeze_receiverPart {part rest : Text} (hpart : ReceiverPart isBlank receiver part)
    (hrest : ∀ c ∈ rest.head?, isBlank c = false) :
    ∃ part', ReceiverPart isBlank (receiver.map squeeze) part' ∧
      squeeze (part ++ rest) = part' ++ squeeze rest := by
  have hclose : isBlank ')' = false := by decide
  cases hpart with
  | none => exact ⟨[], .none, rfl⟩
  | @some r g hr hg =>
      refine ⟨_, .some (except_squeeze hclose hr) (isBlank_of_mem_squeeze hg), ?_⟩
      simp only [List.cons_append, List.append_assoc]
      rw [squeeze_cons (show isBlank '(' = false by decide), squeeze_append_cons hclose,
        squeeze_append hrest]

/-- A squeezed opening is the opening of the same function. -/
theorem Opening.squeeze (h : Opening isBlank receiver name o) (rest : Text) :
    ∃ o', Opening isBlank (receiver.map Text.squeeze) name o' ∧
      Text.squeeze (o ++ rest) = o' ++ Text.squeeze rest := by
  obtain @⟨g, part, g', types, g'', hne, hg, hpart, hname, hword, hg', htypes, hg''⟩ := h
  have hopen : isBlank '(' = false := by decide
  have hfunc : ∀ c ∈ funcKeyword, isBlank c = false := List.all_iff_forall_prop.1 (by decide)
  have hfirst : ∀ u, ∀ c ∈ (name ++ u : Text).head?, isBlank c = false := by
    intro u c hc
    rw [List.head?_append_of_ne_nil _ hname] at hc
    exact isBlank_eq_false_of_mem hword c (List.mem_of_head? hc)
  have hpartFirst : ∀ u, ∀ c ∈ (part ++ (name ++ u) : Text).head?, isBlank c = false := by
    intro u c hc
    cases hpart with
    | none => exact hfirst u c hc
    | some =>
        obtain rfl : '(' = c := Option.some.inj hc
        exact hopen
  -- What follows the name, with its spaces in one run where there are no type parameters.
  have htail : ∃ g₁ types' g₂, (∀ d ∈ g₁, isBlank d = true) ∧ TypePart types' ∧
      (∀ d ∈ g₂, isBlank d = true) ∧
      Text.squeeze (g' ++ (types ++ (g'' ++ '(' :: rest)))
        = g₁ ++ (types' ++ (g₂ ++ '(' :: Text.squeeze rest)) := by
    cases htypes with
    | none =>
        refine ⟨Text.squeeze (g' ++ g''), [], [], ?_, .none, by simp, ?_⟩
        · refine isBlank_of_mem_squeeze fun c hc => ?_
          exact (List.mem_append.1 hc).elim (hg' c) (hg'' c)
        · rw [List.nil_append, ← List.append_assoc, squeeze_append_cons hopen]
          rfl
    | @some inner hinner =>
        have hclose : isBlank ']' = false := by decide
        refine ⟨_, _, _, isBlank_of_mem_squeeze hg', .some (except_squeeze hclose hinner),
          isBlank_of_mem_squeeze hg'', ?_⟩
        simp only [List.cons_append, List.append_assoc, List.nil_append]
        rw [squeeze_append_cons (show isBlank '[' = false by decide), squeeze_append_cons hclose,
          squeeze_append_cons hopen]
  obtain ⟨g₁, types', g₂, hg₁, htypes', hg₂, htail⟩ := htail
  obtain ⟨part', hpart', hsqueeze⟩ := squeeze_receiverPart hpart
    (hfirst (g' ++ (types ++ (g'' ++ '(' :: rest))))
  have hg₀ : Text.squeeze g ≠ [] := fun hnil => hne (squeeze_eq_nil.1 hnil)
  refine ⟨_, .mk hg₀ (isBlank_of_mem_squeeze hg) hpart' hname hword hg₁ htypes' hg₂, ?_⟩
  simp only [List.append_assoc, List.singleton_append]
  rw [squeeze_append_of_no_blank hfunc, squeeze_append (hpartFirst _), hsqueeze,
    squeeze_append_of_no_blank (isBlank_eq_false_of_mem hword), htail]

/-- Between the name and the parenthesis a text is divided in one way. -/
theorem typePart_unique {g₁ g₂ types₁ types₂ g₁' g₂' u₁ u₂ : Text}
    (hg₁ : ∀ d ∈ g₁, isBlank d = true) (hg₂ : ∀ d ∈ g₂, isBlank d = true)
    (htypes₁ : TypePart types₁) (htypes₂ : TypePart types₂)
    (hg₁' : ∀ d ∈ g₁', isBlank d = true) (hg₂' : ∀ d ∈ g₂', isBlank d = true)
    (h : g₁ ++ (types₁ ++ (g₁' ++ '(' :: u₁)) = g₂ ++ (types₂ ++ (g₂' ++ '(' :: u₂))) :
    g₁ ++ (types₁ ++ g₁') = g₂ ++ (types₂ ++ g₂') := by
  have hopen : isBlank '(' = false := by decide
  have hbracket : isBlank '[' = false := by decide
  have hboth : ∀ {g g' : Text}, (∀ d ∈ g, isBlank d = true) → (∀ d ∈ g', isBlank d = true) →
      ∀ d ∈ g ++ g', isBlank d = true :=
    fun hg hg' d hd => (List.mem_append.1 hd).elim (hg d) (hg' d)
  cases htypes₁ with
  | none =>
      rw [List.nil_append, ← List.append_assoc] at h
      cases htypes₂ with
      | none =>
          rw [List.nil_append, ← List.append_assoc] at h
          exact (run_unique hopen hopen (hboth hg₁ hg₁') (hboth hg₂ hg₂') h).1
      | some =>
          obtain ⟨-, hrest⟩ := run_unique hopen hbracket (hboth hg₁ hg₁') hg₂ h
          exact absurd (List.cons.inj hrest).1 (by decide)
  | @some inner₁ hinner₁ =>
      cases htypes₂ with
      | none =>
          rw [List.nil_append, ← List.append_assoc g₂] at h
          obtain ⟨-, hrest⟩ := run_unique hbracket hopen hg₁ (hboth hg₂ hg₂') h
          exact absurd (List.cons.inj hrest).1 (by decide)
      | @some inner₂ hinner₂ =>
          have hclose : except ']' ']' = false := rfl
          obtain ⟨rfl, hrest⟩ := run_unique hbracket hbracket hg₁ hg₂ h
          have hinside : inner₁ ++ [']'] ++ (g₁' ++ '(' :: u₁)
              = inner₂ ++ [']'] ++ (g₂' ++ '(' :: u₂) := (List.cons.inj hrest).2
          rw [List.append_assoc, List.append_assoc] at hinside
          obtain ⟨rfl, hlast⟩ := run_unique hclose hclose hinner₁ hinner₂ hinside
          obtain ⟨rfl, -⟩ := run_unique hopen hopen hg₁' hg₂' (List.cons.inj hlast).2
          rfl

/-- After the name of an opening comes something that is no word character. -/
theorem exists_cons_types {g types g' u : Text} (hg : ∀ d ∈ g, isBlank d = true)
    (htypes : TypePart types) (hg' : ∀ d ∈ g', isBlank d = true) :
    ∃ c v, g ++ (types ++ (g' ++ '(' :: u)) = c :: v ∧ isWord c = false := by
  cases g with
  | cons c g => exact ⟨c, _, rfl, not_isWord_of_isBlank (hg c List.mem_cons_self)⟩
  | nil =>
      cases htypes with
      | some => exact ⟨'[', _, rfl, by decide⟩
      | none =>
          cases g' with
          | cons c g' => exact ⟨c, _, rfl, not_isWord_of_isBlank (hg' c List.mem_cons_self)⟩
          | nil => exact ⟨'(', _, rfl, by decide⟩

/-- A text begins with one opening at most. -/
theorem Opening.unique {r₁ r₂ : Option Text} {n₁ n₂ o₁ o₂ t : Text} (h₁ : Opening isBlank r₁ n₁ o₁)
    (h₂ : Opening isBlank r₂ n₂ o₂) (ht₁ : o₁ <+: t) (ht₂ : o₂ <+: t) : n₁ = n₂ ∧ o₁ = o₂ := by
  obtain ⟨t₁, rfl⟩ := ht₁
  obtain ⟨t₂, ht⟩ := ht₂
  obtain @⟨g₁, part₁, g₁', types₁, g₁'', -, hg₁, hpart₁, hname₁, hword₁, hg₁', htypes₁, hg₁''⟩ := h₁
  obtain @⟨g₂, part₂, g₂', types₂, g₂'', -, hg₂, hpart₂, hname₂, hword₂, hg₂', htypes₂, hg₂''⟩ := h₂
  simp only [List.append_assoc, List.singleton_append] at ht
  have ht := List.append_cancel_left ht
  obtain ⟨d₁, s₁, hs₁, hd₁⟩ :=
    exists_cons_part (u := g₁' ++ (types₁ ++ (g₁'' ++ '(' :: t₁))) hpart₁ hname₁ hword₁
  obtain ⟨d₂, s₂, hs₂, hd₂⟩ :=
    exists_cons_part (u := g₂' ++ (types₂ ++ (g₂'' ++ '(' :: t₂))) hpart₂ hname₂ hword₂
  rw [hs₁, hs₂] at ht
  obtain ⟨rfl, hparts⟩ := run_unique hd₂ hd₁ hg₂ hg₁ ht
  rw [← hs₁, ← hs₂] at hparts
  obtain ⟨-, rfl, hnames⟩ := part_unique hpart₂ hpart₁ hname₂ hword₂ hname₁ hword₁ hparts
  obtain ⟨c₁, v₁, hv₁, hc₁⟩ := exists_cons_types (u := t₁) hg₁' htypes₁ hg₁''
  obtain ⟨c₂, v₂, hv₂, hc₂⟩ := exists_cons_types (u := t₂) hg₂' htypes₂ hg₂''
  rw [hv₁, hv₂] at hnames
  obtain ⟨rfl, hrest⟩ := run_unique hc₂ hc₁ hword₂ hword₁ hnames
  rw [← hv₁, ← hv₂] at hrest
  have htypes := typePart_unique hg₂' hg₁' htypes₂ htypes₁ hg₂'' hg₁'' hrest
  have hend : g₁' ++ (types₁ ++ (g₁'' ++ ['('])) = g₂' ++ (types₂ ++ (g₂'' ++ ['('])) := by
    have hsame := congrArg (· ++ ['(']) htypes.symm
    simpa only [List.append_assoc] using hsame
  exact ⟨rfl, by rw [hend]⟩

-- ================================================== reading openings

/-- A pattern of openings without the parenthesis, from one of the space after the keyword and one
of what stands between that and the space after the name. -/
def front (space : Char → Bool) (start middle : Pattern) : Pattern :=
  lit funcKeyword ++ (start ++ (middle ++ (run space ++ (Declaration.typeParameters ++ run space))))

theorem eq_false_of_not_isBlank (hspace : ∀ c, space c = true → isBlank c = true) {c : Char}
    (hc : isBlank c = false) : space c = false := by
  cases h : space c with
  | false => rfl
  | true =>
      rw [hspace c h] at hc
      cases hc

/-- What stands between the name of a function and its parameters is read in one way. -/
theorem first_typePart (hspace : ∀ c, space c = true → isBlank c = true) {s : State}
    {g types g' rest : Text}
    (hg : ∀ d ∈ g, space d = true) (htypes : TypePart types) (hg' : ∀ d ∈ g', space d = true)
    (hrest : s.cursor.rest = g ++ (types ++ (g' ++ '(' :: rest))) :
    First (run space ++ (Declaration.typeParameters ++ run space)) s
      (s.advance (g ++ (types ++ g'))) := by
  have hopen : ∀ c ∈ ('(' :: rest).head?, space c = false := by
    intro c hc
    obtain rfl : '(' = c := Option.some.inj hc
    exact eq_false_of_not_isBlank hspace (by decide)
  cases htypes with
  | none =>
      have hall : s.cursor.rest = (g ++ g') ++ '(' :: rest := by rw [hrest]; simp
      have hboth : ∀ d ∈ g ++ g', space d = true := fun d hd =>
        (List.mem_append.1 hd).elim (hg d) (hg' d)
      have hlater : (s.advance (g ++ g')).cursor.rest = [] ++ '(' :: rest := rest_advance hall
      have hnone : readings "[" (s.advance (g ++ g')) = [] := by
        refine readings_lit_nil ?_
        rw [hlater]
        rintro ⟨u, hu⟩
        exact absurd (List.cons.inj hu).1 (by decide)
      have hskip : First Declaration.typeParameters (s.advance (g ++ g')) (s.advance (g ++ g')) :=
        first_optional_of_nil (readings_seq_nil (readings_seq_nil hnone))
      exact first_seq (first_run hall hboth hopen)
        (first_seq hskip (first_run hlater (List.forall_mem_nil _) hopen))
  | @some inner hinner =>
      have hbracket : ∀ c ∈ ('[' :: (inner ++ [']'] ++ (g' ++ '(' :: rest))).head?,
          space c = false := by
        intro c hc
        obtain rfl : '[' = c := Option.some.inj hc
        exact eq_false_of_not_isBlank hspace (by decide)
      have h₁ := rest_advance hrest
      have h₂ : ((s.advance g).advance ['[']).cursor.rest
          = inner ++ (']' :: (g' ++ '(' :: rest)) := by
        refine rest_advance (v := ['[']) (h₁.trans ?_)
        simp
      have h₃ := rest_advance h₂
      have h₄ : ((((s.advance g).advance ['[']).advance inner).advance [']']).cursor.rest
          = g' ++ '(' :: rest := rest_advance h₃
      have hclose : ∀ c ∈ (']' :: (g' ++ '(' :: rest)).head?, except ']' c = false := by
        intro c hc
        obtain rfl : ']' = c := Option.some.inj hc
        rfl
      have hread : First bracketed (s.advance g)
          ((((s.advance g).advance ['[']).advance inner).advance [']']) :=
        first_seq (first_seq (first_lit ⟨_, h₁.symm⟩) (first_run h₂ hinner hclose))
          (first_lit ⟨_, h₃.symm⟩)
      have hlast : First (run space) _ _ := first_run h₄ hg' hopen
      have hall : First (run space ++ (Declaration.typeParameters ++ run space)) s _ :=
        first_seq (first_run hrest hg hbracket) (first_seq (first_optional hread) hlast)
      simpa only [State.advance_append, List.append_assoc, List.cons_append, List.nil_append]
        using hall

/-- What is read between the name and the parenthesis. -/
theorem takes_typePart {s s' : State}
    (h : s' ∈ readings (run space ++ (Declaration.typeParameters ++ run space)) s) :
    ∃ g types g', (∀ d ∈ g, space d = true) ∧ TypePart types ∧ (∀ d ∈ g', space d = true) ∧
      Takes s s' (g ++ (types ++ g')) := by
  obtain ⟨s₁, hs₁, h⟩ := mem_readings_seq.1 h
  obtain ⟨s₂, hs₂, h⟩ := mem_readings_seq.1 h
  obtain ⟨g, hg, hgap, -⟩ := takes_run hs₁
  obtain ⟨g', hg', hgap', -⟩ := takes_run h
  rcases mem_readings_optional.1 hs₂ with hread | rfl
  · unfold bracketed at hread
    obtain ⟨a, ha, hclose⟩ := mem_readings_seq.1 hread
    obtain ⟨b, hopen, ha⟩ := mem_readings_seq.1 ha
    obtain ⟨inner, hinner, hinside, -⟩ := takes_run ha
    have htypes := ((takes_lit hopen).1.append hinside).append (takes_lit hclose).1
    exact ⟨g, _, g', hg, .some hinner, hg', hgap.append (htypes.append hgap')⟩
  · exact ⟨g, [], g', hg, .none, hg', hgap.append hgap'⟩

/-- An opening is read part by part, up to the parenthesis. -/
theorem first_front (hspace : ∀ c, space c = true → isBlank c = true) {start middle : Pattern}
    {s m : State}
    {g part g' types g'' rest : Text} (hg' : ∀ d ∈ g', space d = true) (htypes : TypePart types)
    (hg'' : ∀ d ∈ g'', space d = true)
    (hrest : s.cursor.rest
      = funcKeyword ++ (g ++ (part ++ (g' ++ (types ++ (g'' ++ '(' :: rest))))))
    (hstart : First start (s.advance funcKeyword) ((s.advance funcKeyword).advance g))
    (hmiddle : First middle ((s.advance funcKeyword).advance g) m)
    (hcursor : m.cursor = ((s.advance funcKeyword).advance g).cursor.advance part) :
    ∃ s', First (front space start middle) s s' ∧ s'.texts = m.texts ∧
      s'.cursor = s.cursor.advance (funcKeyword ++ (g ++ (part ++ (g' ++ (types ++ g''))))) := by
  have hahead : m.cursor.rest = g' ++ (types ++ (g'' ++ '(' :: rest)) := by
    rw [hcursor]
    exact rest_advance (rest_advance (rest_advance hrest))
  refine ⟨_, first_seq (first_lit ⟨_, hrest.symm⟩) (first_seq hstart (first_seq hmiddle
    (first_typePart hspace hg' htypes hg'' hahead))), rfl, ?_⟩
  show m.cursor.advance _ = _
  rw [hcursor]
  simp only [State.advance, Cursor.advance_append, List.append_assoc]

/-- A pattern reads the space after the keyword, all of it. -/
def ReadsSpace (space : Char → Bool) (p : Pattern) : Prop :=
  ∀ {s : State} {g t : Text}, g ≠ [] → (∀ d ∈ g, space d = true) → s.cursor.rest = g ++ t →
    (∀ c ∈ t.head?, space c = false) → First p s (s.advance g)

theorem readsSpace_run (space : Char → Bool) : ReadsSpace space (run space) :=
  fun _ hg hrest ht => first_run hrest hg ht

theorem readsSpace_run1 (space : Char → Bool) : ReadsSpace space (run1 space) :=
  fun hne hg hrest ht => first_run1 hrest hne hg ht

/-- A pattern reads the receiver and the name, and remembers some texts of them. -/
def ReadsName (space : Char → Bool) (receiver : Option Text) (name : Text)
    (texts : List (Nat × Text)) (p : Pattern) : Prop :=
  ∀ {s : State} {part t : Text}, ReceiverPart space receiver part →
    s.cursor.rest = part ++ (name ++ t) → (∀ c ∈ t.head?, isWord c = false) →
    ∃ s', First p s s' ∧ s'.cursor = s.cursor.advance (part ++ name) ∧ s'.texts = texts ++ s.texts

/-- What such patterns read of an opening is all but its parenthesis. -/
theorem first_opening (hspace : ∀ c, space c = true → isBlank c = true) {start middle : Pattern}
    {texts : List (Nat × Text)} (hstart : ReadsSpace space start)
    (hmiddle : ReadsName space receiver name texts middle) (h : Opening space receiver name o)
    {s : State} {rest : Text} (hrest : s.cursor.rest = o ++ rest) :
    ∃ s', First (front space start middle) s s' ∧ s'.cursor = s.cursor.advance o.dropLast ∧
      s'.texts = texts ++ s.texts := by
  obtain @⟨g, part, g', types, g'', hne, hg, hpart, hname, hword, hg', htypes, hg''⟩ := h
  have hall : s.cursor.rest = funcKeyword ++ (g ++ ((part ++ name)
      ++ (g' ++ (types ++ (g'' ++ '(' :: rest))))) := by rw [hrest]; simp
  have hpartFirst : ∀ c ∈ ((part ++ name) ++ (g' ++ (types ++ (g'' ++ '(' :: rest)))).head?,
      space c = false := by
    intro c hc
    obtain ⟨d, u, hd, hblank⟩ := exists_cons_part
      (u := g' ++ (types ++ (g'' ++ '(' :: rest))) hpart hname hword
    rw [List.append_assoc, hd] at hc
    obtain rfl : d = c := Option.some.inj hc
    exact eq_false_of_not_isBlank hspace hblank
  have hblanks : ∀ {g : Text}, (∀ d ∈ g, space d = true) → ∀ d ∈ g, isBlank d = true :=
    fun hg d hd => hspace d (hg d hd)
  have hnameEnd : ∀ c ∈ (g' ++ (types ++ (g'' ++ '(' :: rest))).head?, isWord c = false := by
    intro c hc
    obtain ⟨d, v, hv, hword⟩ := exists_cons_types (u := rest) (hblanks hg') htypes (hblanks hg'')
    rw [hv] at hc
    obtain rfl : d = c := Option.some.inj hc
    exact hword
  have hfunc := rest_advance hall
  have hspaced := hstart (s := s.advance funcKeyword) hne hg hfunc hpartFirst
  obtain ⟨m, hm, hcursor, htexts⟩ := hmiddle (s := (s.advance funcKeyword).advance g) hpart
    ((rest_advance hfunc).trans (List.append_assoc _ _ _)) hnameEnd
  obtain ⟨s', hs', htexts', hcursor'⟩ :=
    first_front hspace hg' htypes hg'' hall hspaced hm hcursor
  refine ⟨s', hs', ?_, htexts'.trans htexts⟩
  rw [hcursor']
  congr 1
  simp only [← List.append_assoc, List.dropLast_concat]

theorem Opening.eq_dropLast (h : Opening space receiver name o) : o = o.dropLast ++ ['('] := by
  obtain ⟨-, -, -, -, -, -, -, -⟩ := h
  simp only [← List.append_assoc, List.dropLast_concat]

theorem Opening.exists_cons (h : Opening space receiver name o) :
    ∃ c u, o = c :: u ∧ isBlank c = false := by
  obtain ⟨-, -, -, -, -, -, -, -⟩ := h
  exact ⟨'f', _, rfl, by decide⟩

/-- After an opening without its parenthesis that parenthesis is ahead. -/
theorem Opening.ahead (h : Opening space receiver name o) {cur : Cursor} {rest : Text}
    (hrest : cur.rest = o ++ rest) : (cur.advance o.dropLast).rest = '(' :: rest := by
  refine rest_advance (hrest.trans ?_)
  conv => lhs; rw [h.eq_dropLast]
  rw [List.append_assoc]
  rfl

-- ============================================== a receiver and the name

/-- The receiver as it is remembered, if there is one. -/
def receiverTexts (receiver : Option Text) : List (Nat × Text) :=
  (receiver.map fun r => [(1, r)]).getD []

/-- The receiver, if there is one, and the name, with both remembered. -/
def received (space : Char → Bool) : Pattern :=
  optional (parenthesized 1 ++ run space) ++ group 2 word

theorem first_name {s : State} (hname : name ≠ []) (hword : ∀ d ∈ name, isWord d = true) {t : Text}
    (hrest : s.cursor.rest = name ++ t) (ht : ∀ c ∈ t.head?, isWord c = false) :
    ∃ s', First (group 2 word) s s' ∧ s'.cursor = s.cursor.advance name ∧
      s'.texts = (2, name) :: s.texts := by
  refine ⟨_, first_group (first_run1 hrest hname hword ht), rfl, ?_⟩
  exact texts_remember 2 ⟨t, hrest.symm⟩ rfl

theorem readsName_received (hspace : ∀ c, space c = true → isBlank c = true)
    (hname : name ≠ []) (hword : ∀ d ∈ name, isWord d = true) :
    ReadsName space receiver name ((2, name) :: receiverTexts receiver) (received space) := by
  intro s part t hpart hrest ht
  obtain ⟨e, u, he, -, hblank⟩ := exists_cons_name (u := t) hname hword
  cases hpart with
  | none =>
      have hnone : readings "(" s = [] := by
        refine readings_lit_nil ?_
        rw [hrest]
        rintro ⟨v, hv⟩
        obtain ⟨c, w, hc, hcword, -⟩ := exists_cons_name (u := t) hname hword
        rw [List.nil_append, hc] at hv
        obtain rfl : '(' = c := (List.cons.inj hv).1
        exact absurd hcword (by decide)
      obtain ⟨s', hs', hcursor, htexts⟩ := first_name hname hword hrest ht
      have hskip : readings (parenthesized 1 ++ run space) s = [] :=
        readings_seq_nil (readings_seq_nil (readings_seq_nil hnone))
      exact ⟨s', first_seq (first_optional_of_nil hskip) hs', hcursor, htexts⟩
  | @some r g hr hg =>
      have hrest : s.cursor.rest = ['('] ++ (r ++ ([')'] ++ (g ++ (name ++ t)))) := by
        rw [hrest]
        simp
      have h₁ : (s.advance ['(']).cursor.rest = _ := rest_advance hrest
      have h₂ : ((s.advance ['(']).advance r).cursor.rest = _ := rest_advance h₁
      have h₃ : (((s.advance ['(']).advance r).advance [')']).cursor.rest = _ := rest_advance h₂
      have hclose : ∀ c ∈ ([')'] ++ (g ++ (name ++ t))).head?, except ')' c = false := by
        intro c hc
        obtain rfl : ')' = c := Option.some.inj hc
        rfl
      have hend : ∀ c ∈ (name ++ t).head?, space c = false := by
        intro c hc
        rw [he] at hc
        obtain rfl : e = c := Option.some.inj hc
        exact eq_false_of_not_isBlank hspace hblank
      let s₁ := s.advance ['(']
      let s₂ := (s₁.advance r).remember 1 s₁
      have hread : First (parenthesized 1 ++ run space) s ((s₂.advance [')']).advance g) :=
        first_seq (first_seq (first_seq (first_lit ⟨_, hrest.symm⟩)
          (first_group (first_run h₁ hr hclose))) (first_lit ⟨_, h₂.symm⟩)) (first_run h₃ hg hend)
      have hremember : s₂.texts = (1, r) :: s.texts := texts_remember 1 ⟨_, h₁.symm⟩ rfl
      obtain ⟨s', hs', hcursor, htexts⟩ :=
        first_name (s := (s₂.advance [')']).advance g) hname hword (rest_advance h₃) ht
      refine ⟨s', first_seq (first_optional hread) hs', ?_, ?_⟩
      · rw [hcursor]
        show ((((s.cursor.advance ['(']).advance r).advance [')']).advance g).advance name = _
        simp only [Cursor.advance_append]
        congr 1
        simp
      · rw [htexts]
        show (2, name) :: s₂.texts = _
        rw [hremember]
        rfl

end GoSurvey.CallGraph
