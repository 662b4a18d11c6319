/-
Interfaces with their methods on lines of their own, below the comments
of each. The line of a method is code on one line with balanced brackets
(`clause_methodLine`), and so are its parameters and its result by
themselves; a comment is any text without a newline. What the braces of
types open is closed in the same line, and what stands in comments is not
looked at, so the lines are the pieces of the body, each of them gives a
comment or a method, and the methods come back as they were printed
(`parseInterface?_interfaceText`).
-/
import GoSurvey.Proofs.Declaration.TypeText
import GoSurvey.Proofs.Text.Part
import GoSurvey.Proofs.Text.Squeeze

namespace GoSurvey.Declaration

open Text Source Pattern DelimiterScan

-- ============================================================ code on a line

/-- Code on one line that is not cut: no literal, comment or semicolon is in it, and its brackets
are balanced. -/
structure LineCode (t : Text) : Prop extends Bare t where
  nested : isNested t = true
  line : newline ∉ t
  semicolon : ';' ∉ t

/-- The type of a parameter or the result of a method. -/
structure Clause (t : Text) : Prop extends LineCode t, Trimmed t

instance (t : Text) : Decidable (Clause t) :=
  decidable_of_iff (Bare t ∧ isNested t = true ∧ newline ∉ t ∧ ';' ∉ t ∧ Trimmed t)
    ⟨fun ⟨hbare, hnested, hnewline, hsemicolon, htrimmed⟩ =>
        ⟨⟨hbare, hnested, hnewline, hsemicolon⟩, htrimmed⟩,
      fun h => ⟨h.toBare, h.nested, h.line, h.semicolon, h.toTrimmed⟩⟩

variable {t u : Text} {c : Char}

/-- Two pieces of code are one if no mark arises where they meet. -/
theorem LineCode.append (ht : LineCode t) (hu : LineCode u)
    (hjoin : ∀ x ∈ t.getLast?, ∀ y ∈ u.head?, NoMark x y) : LineCode (t ++ u) where
  toBare := ht.toBare.append hu.toBare hjoin
  nested := (isNested_append ht.nested).trans hu.nested
  line := fun h => (List.mem_append.1 h).elim ht.line hu.line
  semicolon := fun h => (List.mem_append.1 h).elim ht.semicolon hu.semicolon

theorem lineCode_of_isWord (h : ∀ c ∈ t, isWord c = true) : LineCode t where
  toBare := (inline_of_isWord h).bare
  nested := (fragment_of_isWord h).nested
  line := fun hmem => absurd (h newline hmem) (by decide)
  semicolon := fun hmem => absurd (h ';' hmem) (by decide)

/-- A space or a comma makes no mark with what stands after it. -/
theorem LineCode.cons (hc : c = ' ' ∨ c = ',') (ht : LineCode t) : LineCode (c :: t) := by
  have hone : LineCode [c] := by
    rcases hc with rfl | rfl <;> exact ⟨by decide, by decide, by decide, by decide⟩
  refine hone.append (t := [c]) ht ?_
  rintro x ⟨⟩ y - hmark
  rcases hc with rfl | rfl <;> exact absurd hmark.1 (by decide)

/-- Parentheses around code open nothing, since they close in the same line. -/
theorem LineCode.parenthesized (h : LineCode t) : LineCode ('(' :: (t ++ [')'])) where
  toBare := by
    have hclose : Bare (t ++ [')']) := h.toBare.append (by decide) (by
      rintro x - y ⟨⟩ ⟨-, hmark⟩
      exact absurd hmark (by decide))
    refine Bare.append (t := ['(']) (by decide) hclose ?_
    rintro x ⟨⟩ y - hmark
    exact absurd hmark.1 (by decide)
  nested := isNested_group rfl h.nested
  line := by simpa [newline] using h.line
  semicolon := by simpa using h.semicolon

-- ======================================================= the lines of a method

/-- The line of a comment above a method. -/
def methodComment (c : Text) : Text := "// ".toList ++ c

/-- The line of a method: its name, its parameters, and its result if it has one. -/
def methodLine (m : InterfaceMethod) : Text :=
  m.name ++ '(' :: (join ", " (m.parameters.map parameterText) ++ ')' ::
    enclose " " m.returnType "")

/-- The lines of a method: its comments, and below them the method. -/
def methodLines (indent : Text) (m : InterfaceMethod) : List Text :=
  m.comments.map (fun c => indent ++ methodComment c) ++ [indent ++ methodLine m]

/-- The text of an interface with the lines of its methods between its braces. -/
def interfaceText (indent name : Text) (methods : List InterfaceMethod) : Text :=
  typeText "interface" name (methods.flatMap (methodLines indent))

/-- A method whose parts can stand on lines of their own: its name is a word, its parameters have
names, and its comments are trimmed. -/
structure IsPrintable (m : InterfaceMethod) : Prop where
  name : isWordText m.name = true
  parameters : ∀ p ∈ m.parameters, NamedItem p ∧ Clause p.type
  result : Clause m.returnType
  comments : ∀ c ∈ m.comments, Trimmed c ∧ newline ∉ c

instance (m : InterfaceMethod) : Decidable (IsPrintable m) :=
  decidable_of_iff (isWordText m.name = true ∧ (∀ p ∈ m.parameters, NamedItem p ∧ Clause p.type) ∧
      Clause m.returnType ∧ ∀ c ∈ m.comments, Trimmed c ∧ newline ∉ c)
    ⟨fun ⟨hname, hparameters, hresult, hcomments⟩ => ⟨hname, hparameters, hresult, hcomments⟩,
      fun h => ⟨h.name, h.parameters, h.result, h.comments⟩⟩

variable {m : InterfaceMethod} {methods : List InterfaceMethod} {indent comment : Text}

theorem lineCode_parameterText {p : Parameter} (hp : NamedItem p) (htype : Clause p.type) :
    LineCode (parameterText p) := by
  obtain ⟨-, hword⟩ := isWordText_iff.1 hp.word
  refine (lineCode_of_isWord hword).append (.cons (.inl rfl) htype.toLineCode) ?_
  rintro x - y ⟨⟩ ⟨-, hmark⟩
  exact absurd hmark (by decide)

theorem lineCode_join {items : List Text} (h : ∀ t ∈ items, LineCode t) :
    LineCode (join ", " items) := by
  induction items with
  | nil => exact lineCode_of_isWord (List.forall_mem_nil _)
  | cons item items ih =>
      rw [List.forall_mem_cons] at h
      cases items with
      | nil => exact h.1
      | cons next items =>
          have hrest : LineCode (',' :: ' ' :: join ", " (next :: items)) :=
            .cons (.inr rfl) (.cons (.inl rfl) (ih h.2))
          have htext : join ", " (item :: next :: items)
              = item ++ ',' :: ' ' :: join ", " (next :: items) := by simp [join]
          rw [htext]
          refine h.1.append hrest ?_
          rintro x - y ⟨⟩ ⟨-, hmark⟩
          exact absurd hmark (by decide)

theorem lineCode_parameters (h : IsPrintable m) :
    LineCode (join ", " (m.parameters.map parameterText)) := by
  refine lineCode_join fun t ht => ?_
  obtain ⟨p, hp, rfl⟩ := List.mem_map.1 ht
  exact lineCode_parameterText (h.parameters p hp).1 (h.parameters p hp).2

/-- What follows the parameters is a space and the result, or nothing. -/
theorem enclose_result (t : Text) : enclose " " t "" = if t.isEmpty then [] else ' ' :: t := by
  unfold enclose
  split
  · rfl
  · exact List.append_nil (' ' :: t)

theorem lineCode_result (h : Clause t) : LineCode (enclose " " t "") := by
  rw [enclose_result]
  split
  · exact lineCode_of_isWord (List.forall_mem_nil _)
  · exact .cons (.inl rfl) h.toLineCode

/-- A printed method is code in one line, trimmed, as all its parts are. -/
theorem clause_methodLine (h : IsPrintable m) : Clause (methodLine m) := by
  obtain ⟨hne, hword⟩ := isWordText_iff.1 h.name
  have hsignature : LineCode (m.name ++ '(' :: (join ", " (m.parameters.map parameterText) ++
      [')'])) := by
    refine (lineCode_of_isWord hword).append (lineCode_parameters h).parenthesized ?_
    rintro x - y ⟨⟩ ⟨-, hmark⟩
    exact absurd hmark (by decide)
  have htext : methodLine m = (m.name ++ '(' :: (join ", " (m.parameters.map parameterText) ++
      [')'])) ++ enclose " " m.returnType "" := by
    simp [methodLine]
  have hlast : (m.name ++ '(' :: (join ", " (m.parameters.map parameterText) ++ [')'])).getLast?
      = some ')' := by
    rw [← List.cons_append, ← List.append_assoc, List.getLast?_concat]
  refine { toLineCode := ?_, first := fun c hc => ?_, last := fun c hc => ?_ }
  · rw [htext]
    refine hsignature.append (lineCode_result h.result) fun x hx y _ hmark => ?_
    rw [hlast] at hx
    obtain rfl := Option.some.inj hx
    exact absurd hmark.1 (by decide)
  · unfold methodLine at hc
    rw [List.head?_append_of_ne_nil _ hne] at hc
    exact not_isBlank_of_isWord (hword c (List.mem_of_head? hc))
  · rw [htext, enclose_result] at hc
    split at hc
    · rw [List.append_nil, hlast] at hc
      obtain rfl := Option.some.inj hc
      decide
    · next hresult =>
      rw [Bool.not_eq_true, List.isEmpty_eq_false_iff] at hresult
      rw [List.getLast?_append_of_ne_nil _ (List.cons_ne_nil _ _),
        ← List.singleton_append, List.getLast?_append_of_ne_nil _ hresult] at hc
      exact h.result.last c hc

-- ================================================= indented lines, scanned

theorem lineCode_indent (h : IsIndent t) : LineCode t where
  toBare := h.bare
  nested := by
    refine isNested_of_plain fun c hc => ⟨?_, Bool.eq_false_iff.2 fun hclose => ?_⟩
    · refine Option.eq_none_iff_forall_ne_some.2 fun closer hcloser => ?_
      rcases closerOf?_eq_some_iff.1 hcloser with ⟨rfl, -⟩ | ⟨rfl, -⟩ | ⟨rfl, -⟩ <;>
        exact h.not_mem (by decide) hc
    · rcases isClosing_iff.1 hclose with rfl | rfl | rfl <;> exact h.not_mem (by decide) hc
  line := h.newline_not_mem
  semicolon := h.not_mem (by decide)

theorem LineCode.indented (hindent : IsIndent indent) (h : LineCode t) : LineCode (indent ++ t) :=
  (lineCode_indent hindent).append h fun _ hx _ _ hmark =>
    hindent.not_mem (by decide) (hmark.1 ▸ List.mem_of_mem_getLast? hx)

/-- A scan for braces passes over code whose brackets are balanced. -/
theorem LineCode.passedOver (h : LineCode t) : PassedOver t := by
  refine ⟨h.line, fun after offset depth p hdepth => ?_⟩
  have hend : Bare (t ++ [newline]) := h.toBare.append (by decide) (by
    rintro x - y ⟨⟩ ⟨-, hmark⟩
    exact absurd hmark (by decide))
  have hline := run_nested after (d := braces) rfl hend h.nested hdepth p offset
  have hjoins : ∀ x ∈ [newline].getLast?, ∀ y ∈ after.head?, NoMark x y := by
    rintro x ⟨⟩ y -
    exact fun hmark => absurd hmark.1 (by decide)
  exact hline.trans (run_append_plain (by decide) hjoins (by decide) (by decide) _ depth (some p))

/-- A scan for braces passes over the line of a comment, whatever stands in the comment. -/
theorem passedOver_methodComment (hindent : IsIndent indent) (h : newline ∉ comment) :
    PassedOver (indent ++ methodComment comment) := by
  have hspace : newline ∉ ' ' :: comment := by simpa [newline] using h
  have hline : newline ∉ methodComment comment := by simpa [methodComment, newline] using h
  have hslash : Bare (indent ++ ['/']) := (lineCode_indent hindent).toBare.append (by decide)
    fun _ hx _ _ hmark => hindent.not_mem (by decide) (hmark.1 ▸ List.mem_of_mem_getLast? hx)
  refine ⟨fun hmem => (List.mem_append.1 hmem).elim (lineCode_indent hindent).line hline,
    fun after offset depth p hdepth => ?_⟩
  have hcomment : (indent ++ methodComment comment) ++ newline :: after
      = indent ++ '/' :: ('/' :: (' ' :: comment) ++ newline :: after) := by simp [methodComment]
  have hmark : ∀ offset, run braces false ('/' :: ('/' :: (' ' :: comment) ++ newline :: after))
      offset ⟨.code, depth, some p⟩
        = run braces false ((' ' :: comment) ++ newline :: after) (offset + 2)
            ⟨.lineComment, depth, some p⟩ := fun _ => rfl
  have hlength : (indent ++ methodComment comment).length
      = indent.length + 2 + (' ' :: comment).length := by
    simp [methodComment]
    omega
  have hfront := run_nested (d := braces) ('/' :: (' ' :: comment) ++ newline :: after) rfl hslash
    (lineCode_indent hindent).nested hdepth p offset
  rw [hcomment, hlength]
  refine hfront.trans ?_
  rw [hmark, run_lineComment depth (some p) hspace]
  congr 1
  omega

/-- The search for the end of the interface passes over the lines of a method. -/
theorem passedOver_methodLines (hindent : IsIndent indent) (h : IsPrintable m) :
    ∀ line ∈ methodLines indent m, PassedOver line := by
  intro line hline
  rcases List.mem_append.1 hline with hline | hline
  · obtain ⟨c, hc, rfl⟩ := List.mem_map.1 hline
    exact passedOver_methodComment hindent (h.comments c hc).2
  · obtain rfl := List.mem_singleton.1 hline
    exact ((clause_methodLine h).toLineCode.indented hindent).passedOver

-- ============================================== indented lines, as pieces

theorem linePieces_methodComment (indent comment : Text) :
    linePieces (indent ++ methodComment comment) = [indent ++ methodComment comment] := by
  have hmark : contains lineMark (indent ++ methodComment comment) = true :=
    contains_iff.2 ⟨indent, ' ' :: comment, by simp [methodComment, lineMark]⟩
  unfold linePieces
  rw [if_pos hmark]

theorem LineCode.linePieces_eq (h : LineCode t) (hblank : isBlankText t = false) :
    linePieces t = [t] := by
  have hmark : ¬contains lineMark t = true := fun hmem =>
    absurd (h.toBare.part (contains_iff.1 hmem)) (by decide)
  unfold linePieces
  rw [if_neg hmark, splitOn_of_not_mem h.semicolon, List.filter_singleton, hblank]
  rfl

theorem exists_methodLine_eq (h : IsPrintable m) :
    ∃ c t, methodLine m = c :: t ∧ isWord c = true := by
  obtain ⟨hne, hword⟩ := isWordText_iff.1 h.name
  obtain ⟨c, name, hname⟩ := List.exists_cons_of_ne_nil hne
  unfold methodLine
  rw [hname]
  exact ⟨c, _, rfl, hword c (hname ▸ List.mem_cons_self)⟩

theorem linePieces_methodLines (hindent : IsIndent indent) (h : IsPrintable m) :
    (methodLines indent m).flatMap linePieces = methodLines indent m := by
  have hblank : isBlankText (indent ++ methodLine m) = false := by
    obtain ⟨c, t, hline, hc⟩ := exists_methodLine_eq h
    rw [hline, isBlankText, List.all_append, List.all_cons, not_isBlank_of_isWord hc,
      Bool.false_and, Bool.and_false]
  have hcomments : (m.comments.map fun c => indent ++ methodComment c).flatMap linePieces
      = m.comments.map fun c => indent ++ methodComment c := by
    rw [List.flatMap_map]
    simp only [linePieces_methodComment]
    exact List.map_eq_flatMap.symm
  unfold methodLines
  rw [List.flatMap_append, hcomments, List.flatMap_singleton,
    ((clause_methodLine h).toLineCode.indented hindent).linePieces_eq hblank]

-- ============================================================ what is read

/-- The line of a comment is trimmed to the mark and the comment. -/
theorem lineComment?_methodComment (hindent : IsIndent indent) (h : Trimmed comment) :
    (trim (indent ++ methodComment comment)).isEmpty = false ∧
      lineComment? (trim (indent ++ methodComment comment)) = some comment := by
  rw [trim_blanks_append hindent.blank]
  cases comment with
  | nil => decide
  | cons c t =>
      have htrimmed : Trimmed (methodComment (c :: t)) := by
        refine ⟨by rintro d ⟨⟩; decide, fun d hd => ?_⟩
        unfold methodComment at hd
        rw [List.getLast?_append_of_ne_nil _ (List.cons_ne_nil c t)] at hd
        exact h.last d hd
      have hmark : startsWith lineMark (methodComment (c :: t)) = true := rfl
      have hrest : (methodComment (c :: t)).drop 2 = ' ' :: c :: t := rfl
      refine ⟨by rw [htrimmed.trim_eq]; rfl, ?_⟩
      unfold lineComment?
      dsimp only
      rw [htrimmed.trim_eq, htrimmed.trim_eq, if_pos hmark, hrest,
        trim_cons_of_isBlank (by decide), h.trim_eq]

/-- Comments wait for the method below them. -/
theorem methodsFrom_methodComments (hindent : IsIndent indent) {comments : List Text}
    (h : ∀ c ∈ comments, Trimmed c) (pending rest : List Text) :
    methodsFrom pending ((comments.map fun c => indent ++ methodComment c) ++ rest)
      = methodsFrom (pending ++ comments) rest := by
  induction comments generalizing pending with
  | nil => rw [List.map_nil, List.nil_append, List.append_nil]
  | cons c comments ih =>
      rw [List.forall_mem_cons] at h
      obtain ⟨hempty, hcomment⟩ := lineComment?_methodComment hindent h.1
      rw [List.map_cons, List.cons_append, methodsFrom]
      simp only [hempty, Bool.false_eq_true, if_false, hcomment]
      rw [ih h.2, List.append_assoc, List.singleton_append]

/-- The head of a method ends just after the parenthesis of its parameters. -/
theorem matchStart_methodLine (h : IsPrintable m) :
    ∃ found, methodPattern.matchStart (methodLine m) = some found ∧ found.group 1 = m.name ∧
      found.stop - 1 = m.name.length := by
  obtain ⟨hne, hword⟩ := isWordText_iff.1 h.name
  let s₀ : State := ⟨Cursor.start (methodLine m), []⟩
  let s₁ : State := (s₀.advance m.name).remember 1 s₀
  let s₂ : State := s₁.advance ['(']
  have hs₀ : s₀.cursor.rest = m.name ++ ('(' :: (join ", " (m.parameters.map parameterText) ++
      ')' :: enclose " " m.returnType "")) := rfl
  have hs₁ : s₁.cursor.rest = '(' :: (join ", " (m.parameters.map parameterText) ++
      ')' :: enclose " " m.returnType "") := rest_advance hs₀
  have hname : First (group 1 word) s₀ s₁ := by
    refine first_group (first_run1 hs₀ hne hword ?_)
    rintro d ⟨⟩
    decide
  have hgap : First blanks s₁ s₁ := by
    refine first_run (w := []) hs₁ (List.forall_mem_nil _) ?_
    rintro d ⟨⟩
    decide
  have hopen : First (lit "(") s₁ s₂ := first_lit ⟨_, hs₁.symm⟩
  have hfirst : First methodPattern s₀ s₂ :=
    first_seq (first_seq (first_seq (first_place rfl) hname) hgap) hopen
  have htexts : s₁.texts = [(1, m.name)] := texts_remember 1 ⟨_, hs₀.symm⟩ rfl
  refine ⟨_, matchAt_of_first hfirst, ?_, ?_⟩
  · show (s₁.texts.lookup 1).getD [] = m.name
    rw [htexts]
    rfl
  · have hoffset : s₂.cursor.offset = m.name.length + 1 := by
      show 0 + m.name.length + 1 = m.name.length + 1
      rw [Nat.zero_add]
    have hlength : m.name.length + 1 ≤ (methodLine m).length := by
      unfold methodLine
      rw [List.length_append, List.length_cons]
      omega
    show 0 + ((methodLine m).take (s₂.cursor.offset - 0)).length - 1 = m.name.length
    rw [hoffset, List.length_take, Nat.sub_zero, Nat.min_eq_left hlength]
    omega

/-- The line of a method gives the method. -/
theorem parseMethod?_methodLine (h : IsPrintable m) (comments : List Text) :
    parseMethod? (methodLine m) comments = some { m with comments := comments } := by
  obtain ⟨found, hfound, hname, hstop⟩ := matchStart_methodLine h
  have hinside : Bare (join ", " (m.parameters.map parameterText) ++ [')']) :=
    (lineCode_parameters h).parenthesized.toBare.part (List.suffix_cons '(' _).isInfix
  obtain ⟨opener, closer, hgroup, hlist, hrest⟩ := exists_findMatching?_group (d := parentheses)
    m.name (enclose " " m.returnType "") rfl hinside (lineCode_parameters h).nested
  have hparameters : parseParameters (join ", " (m.parameters.map parameterText)) = m.parameters :=
    parseParameters_printed fun p hp => (h.parameters p hp).1
  have hmatching : findMatching? parentheses (methodLine m) (found.stop - 1)
      = some (opener, closer) := hstop ▸ hgroup
  have hslice : slice (methodLine m) (opener + 1) closer
      = join ", " (m.parameters.map parameterText) := hlist
  have hafter : (methodLine m).drop (closer + 1) = enclose " " m.returnType "" := hrest
  unfold parseMethod?
  rw [hfound, Option.bind_eq_bind, Option.bind_some, hmatching, Option.bind_eq_bind,
    Option.bind_some]
  dsimp only
  rw [hname, hslice, hparameters, hafter, h.result.toTrimmed.trim_enclose]

/-- The lines of a method give the method, and what follows is read without its comments. -/
theorem methodsFrom_methodLines (hindent : IsIndent indent) (h : IsPrintable m)
    (rest : List Text) :
    methodsFrom [] (methodLines indent m ++ rest) = m :: methodsFrom [] rest := by
  have hclause := clause_methodLine h
  obtain ⟨c, t, hline, hc⟩ := exists_methodLine_eq h
  have htrim : trim (indent ++ methodLine m) = methodLine m := by
    rw [trim_blanks_append hindent.blank, hclause.toTrimmed.trim_eq]
  have hempty : (methodLine m).isEmpty = false := by
    rw [hline]
    rfl
  have hcomment : lineComment? (methodLine m) = none := by
    refine Option.eq_none_iff_forall_ne_some.2 fun text htext => ?_
    have hslash := head?_of_lineComment? htext
    rw [hclause.toTrimmed.trim_eq, hline] at hslash
    obtain rfl : c = '/' := Option.some.inj hslash
    exact absurd hc (by decide)
  unfold methodLines
  rw [List.append_assoc, methodsFrom_methodComments hindent fun c hc => (h.comments c hc).1,
    List.nil_append, List.singleton_append, methodsFrom]
  simp only [htrim, hempty, Bool.false_eq_true, if_false, hcomment,
    stripLineComment_bare hclause.toBare, parseMethod?_methodLine h]

/-- The methods of an interface come back as they were printed, each with its own comments. -/
theorem parseInterface?_interfaceText (hindent : IsIndent indent) {name : Text}
    (hname : isWordText name = true) (h : ∀ m ∈ methods, IsPrintable m) (line : Nat)
    (comments : List Text) :
    ∃ d, parseInterface? (interfaceText indent name methods) line comments = some d ∧
      d.methods = methods ∧ (name ≠ "interface".toList → d.name = name) := by
  have hlines : ∀ line ∈ methods.flatMap (methodLines indent), PassedOver line := by
    intro line hline
    obtain ⟨m, hm, hline⟩ := List.mem_flatMap.1 hline
    exact passedOver_methodLines hindent (h m hm) line hline
  have hpieces : bodyPieces (interfaceText indent name methods)
      = methods.flatMap (methodLines indent) := by
    unfold interfaceText
    rw [bodyPieces_typeText isKeyword_interface hname hlines, List.flatMap_assoc]
    exact List.flatMap_congr fun m hm => linePieces_methodLines hindent (h m hm)
  have hmethods : methodsFrom [] (methods.flatMap (methodLines indent)) = methods := by
    clear hlines hpieces
    induction methods with
    | nil => rfl
    | cons m methods ih =>
        rw [List.forall_mem_cons] at h
        rw [List.flatMap_cons, methodsFrom_methodLines hindent h.1, ih h.2]
  obtain ⟨found, hfound, hgroup⟩ := search_typeText isKeyword_interface hname
    (methods.flatMap (methodLines indent))
  have hsearch : (nameBefore "interface").search (interfaceText indent name methods)
      = some found := hfound
  refine ⟨⟨found.group 1, methods, line, interfaceText indent name methods, comments⟩, ?_, rfl,
    hgroup⟩
  unfold parseInterface?
  rw [hsearch, Option.map_some, hpieces, hmethods]

/-- A method with brackets of every kind in its types, and with braces, a quote and a semicolon in
its comments. -/
def visitMethod : InterfaceMethod where
  name := "Visit"
  parameters := [⟨"path", "[]string"⟩, ⟨"f", "func(k int, v interface\x7b\x7d) (bool, error)"⟩]
  returnType := "map[string]struct\x7b\x7d"
  comments := ["Visit isn\x27t done; \x7d", "", "\x60\x7b // see Close"]

/-- A method without parameters, result or comments. -/
def closeMethod : InterfaceMethod := ⟨"Close", [], [], []⟩

theorem parseInterface?_visitMethod :
    IsIndent "\t" ∧ isWordText "Walker" = true ∧
      (∀ m ∈ [visitMethod, closeMethod], IsPrintable m) ∧
      ∃ d, parseInterface? (interfaceText "\t" "Walker" [visitMethod, closeMethod]) 1 [] = some d ∧
        d.methods = [visitMethod, closeMethod] ∧ d.name = "Walker" := by
  have hindent : IsIndent "\t" := by decide
  have hname : isWordText "Walker" = true := by decide
  have hall : ∀ m ∈ [visitMethod, closeMethod], IsPrintable m := by decide
  obtain ⟨d, hd, hmethods, hdname⟩ := parseInterface?_interfaceText hindent hname hall 1 []
  exact ⟨hindent, hname, hall, d, hd, hmethods, hdname (by decide)⟩

end GoSurvey.Declaration
