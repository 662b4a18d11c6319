/-
Functions as they are printed, and the reading of one of them. The
signature of a printed function is on one line and all its braces are
those of types (`FunctionText.signature_fragment`), so the search for the
body passes over it, cleaning it up leaves it as it is
(`signatureLine_text`), and its head is read part by part
(`functionHead_signature`).
-/
import GoSurvey.Declaration.Structure
import GoSurvey.Proofs.Declaration.ParameterList
import GoSurvey.Proofs.Pattern.First
import GoSurvey.Proofs.Source.Position

namespace GoSurvey.Declaration

open Text Source Pattern

/-- A function that is to be printed; a receiver or a result that is empty is none. -/
structure FunctionText where
  receiver : Text
  name : Text
  parameters : List Parameter
  result : Text
  body : Text
  deriving DecidableEq, Repr

namespace FunctionText

/-- The signature up to its parameter list. -/
def head (f : FunctionText) : Text := "func " ++ enclose "(" f.receiver ") " ++ f.name

/-- The parameters between their parentheses. -/
def parameterList (f : FunctionText) : Text := join ", " (f.parameters.map parameterText)

/-- The signature, which stands on one line. -/
def signature (f : FunctionText) : Text :=
  f.head ++ "(" ++ f.parameterList ++ ")" ++ enclose " " f.result ""

/-- The function with its body between braces. -/
def text (f : FunctionText) : Text := f.signature ++ " \x7b" ++ f.body ++ "\x7d"

/-- The declaration of the function in a line. -/
def decl (f : FunctionText) (line : Nat) : FunctionDecl where
  name := f.name
  parameters := f.parameters
  returnType := f.result
  line := line
  snippet := f.text
  comments := []
  receiver := f.receiver

end FunctionText

/-- A part of a signature: code on one line with balanced brackets and the braces of types, that
neither begins nor ends with a space. -/
structure Phrase (t : Text) : Prop extends Fragment t, Trimmed t

instance (t : Text) : Decidable (Phrase t) :=
  decidable_of_iff (Fragment t ∧ Trimmed t)
    ⟨fun h => ⟨h.1, h.2⟩, fun h => ⟨h.toFragment, h.toTrimmed⟩⟩

/-- What is asked of a function that is to be printed. -/
structure FunctionText.WellFormed (f : FunctionText) : Prop where
  receiver : Phrase f.receiver
  parentheses : '(' ∉ f.receiver ∧ ')' ∉ f.receiver
  name : isWordText f.name = true
  parameters : ∀ p ∈ f.parameters, WellNamed p
  result : Phrase f.result
  keyword : ¬EndsInKeyword f.result
  body : findMatching? braces ('{' :: (f.body ++ ['}'])) 0 = some (0, f.body.length + 1)

instance (f : FunctionText) : Decidable f.WellFormed :=
  decidable_of_iff (Phrase f.receiver ∧ ('(' ∉ f.receiver ∧ ')' ∉ f.receiver) ∧
      isWordText f.name = true ∧ (∀ p ∈ f.parameters, WellNamed p) ∧ Phrase f.result ∧
      ¬EndsInKeyword f.result ∧
      findMatching? braces ('{' :: (f.body ++ ['}'])) 0 = some (0, f.body.length + 1))
    ⟨fun h => ⟨h.1, h.2.1, h.2.2.1, h.2.2.2.1, h.2.2.2.2.1, h.2.2.2.2.2.1, h.2.2.2.2.2.2⟩,
      fun h => ⟨h.receiver, h.parentheses, h.name, h.parameters, h.result, h.keyword, h.body⟩⟩

namespace FunctionText

variable {f : FunctionText}

-- ======================================================= the signature

theorem parameterList_fragment (hf : f.WellFormed) : Fragment f.parameterList := by
  refine fragment_join fun t ht => ?_
  obtain ⟨p, hp, rfl⟩ := List.mem_map.1 ht
  exact parameterText_listPart (hf.parameters p hp)

theorem head_fragment (hf : f.WellFormed) : Fragment f.head := by
  have hfunc : Fragment "func " := by decide
  obtain ⟨-, hword⟩ := isWordText_iff.1 hf.name
  have hname : Fragment f.name := fragment_of_isWord hword
  have hnotBlank : ∀ c ∈ f.name.head?, isBlank c = false :=
    fun c hc => not_isBlank_of_isWord (hword c (List.mem_of_head? hc))
  unfold head enclose
  split
  · rw [List.append_nil]
    refine hfunc.append hname fun x hx y hy => ?_
    obtain rfl : ' ' = x := Option.some.inj hx
    exact apart_space_left (hnotBlank y hy)
  · have hreceiver := hf.receiver.toFragment.parenthesized
    have hspaced : Fragment ('(' :: (f.receiver ++ [')']) ++ [' ']) := by
      refine hreceiver.append fragment_space fun x hx y hy => ?_
      obtain rfl : ' ' = y := Option.some.inj hy
      rw [← List.cons_append, List.getLast?_concat] at hx
      obtain rfl : ')' = x := Option.some.inj hx
      exact apart_space_right (by decide)
    have hfront : Fragment ("func " ++ ('(' :: (f.receiver ++ [')']) ++ [' '])) :=
      hfunc.append hspaced fun x hx y hy => by
        obtain rfl : '(' = y := Option.some.inj hy
        exact apart_mark_right (by decide) x
    have hall : Fragment ("func " ++ ('(' :: (f.receiver ++ [')']) ++ [' ']) ++ f.name) := by
      refine hfront.append hname fun x hx y hy => ?_
      rw [← List.append_assoc, List.getLast?_concat] at hx
      obtain rfl : ' ' = x := Option.some.inj hx
      exact apart_space_left (hnotBlank y hy)
    simpa using hall

/-- What follows the parameters: a space and the result, if there is one. -/
theorem result_fragment (hf : f.WellFormed) : Fragment (enclose " " f.result "") := by
  unfold enclose
  split
  · exact fragment_of_isWord fun c hc => absurd hc List.not_mem_nil
  · have hspaced : Fragment (' ' :: f.result) := by
      refine fragment_space.append hf.result.toFragment fun x hx y hy => ?_
      obtain rfl : ' ' = x := Option.some.inj hx
      exact apart_space_left (hf.result.first y hy)
    simpa using hspaced

theorem signature_eq (f : FunctionText) :
    f.signature = f.head ++ '(' :: (f.parameterList ++ ')' :: enclose " " f.result "") := by
  simp [signature]

theorem signature_fragment (hf : f.WellFormed) : Fragment f.signature := by
  have hparameters := (parameterList_fragment hf).parenthesized
  have hfront : Fragment (f.head ++ '(' :: (f.parameterList ++ [')'])) :=
    (head_fragment hf).append hparameters fun x hx y hy => by
      obtain rfl : '(' = y := Option.some.inj hy
      exact apart_mark_right (by decide) x
  have hall := hfront.append (result_fragment hf) fun x hx y hy => by
    rw [← List.cons_append, ← List.append_assoc, List.getLast?_concat] at hx
    obtain rfl : ')' = x := Option.some.inj hx
    exact apart_mark_left (by decide) y
  rw [signature_eq]
  simpa using hall

/-- A signature begins with its keyword and ends with a parenthesis or with the result. -/
theorem signature_trimmed (hf : f.WellFormed) : Trimmed f.signature := by
  refine ⟨fun c hc => ?_, fun c hc => ?_⟩
  · unfold signature head at hc
    obtain rfl : 'f' = c := Option.some.inj hc
    decide
  · unfold signature enclose at hc
    split at hc
    · rw [List.append_nil, show (")" : Text) = [')'] from rfl, List.getLast?_concat] at hc
      obtain rfl : ')' = c := Option.some.inj hc
      decide
    · next hne =>
      rw [List.isEmpty_iff] at hne
      refine hf.result.last c ?_
      rw [show ("" : Text) = [] from rfl, List.append_nil, ← List.append_assoc,
        List.getLast?_append_of_ne_nil _ hne] at hc
      exact hc

/-- Up to the brace of the body there are single spaces. -/
theorem signature_spaced (hf : f.WellFormed) : Inline (f.signature ++ [' ', '{']) := by
  have hbrace : Inline [' ', '{'] := by decide
  refine (signature_fragment hf).inline.append hbrace fun x hx y hy => ?_
  obtain rfl : ' ' = y := Option.some.inj hy
  exact (apart_space_right ((signature_trimmed hf).last x hx)).1

/-- A signature ends in a keyword only where its result does. -/
theorem signature_keyword (hf : f.WellFormed) : ¬EndsInKeyword f.signature := by
  intro h
  obtain ⟨u, k, hk, heq, hedge⟩ := endsInKeyword_iff.1 h
  obtain ⟨-, ⟨c, s, rfl, hc⟩, -⟩ := of_mem_typeWords hk
  rw [signature_eq] at heq
  unfold enclose at heq
  -- Without a result a parenthesis is last, with one the keyword cannot reach over the space.
  split at heq
  · have hlast := congrArg List.getLast? heq
    rw [← List.append_assoc, List.getLast?_concat, ← List.cons_append, ← List.append_assoc,
      List.getLast?_concat] at hlast
    obtain rfl := Option.some.inj hlast
    exact absurd hc (by decide)
  · have hspace : ∀ k ∈ typeWords, ' ' ∉ k := by decide
    have hparts : (f.head ++ '(' :: (f.parameterList ++ [')'])) ++ ' ' :: f.result
        = u ++ (s ++ [c]) := by simpa using heq
    rcases List.append_eq_append_iff.1 hparts with ⟨v, hv, hresult⟩ | ⟨v, hv, hkey⟩
    · cases v with
      | nil => exact hspace _ hk (by rw [← List.nil_append (s ++ [c]), ← hresult]; simp)
      | cons d v =>
          injection hresult with hd hresult
          refine hf.keyword (endsInKeyword_iff.2 ⟨v, s ++ [c], hk, hresult, fun e he => ?_⟩)
          refine hedge e ?_
          rw [hv, List.getLast?_append_of_ne_nil _ (List.cons_ne_nil _ _), List.getLast?_cons]
          rw [Option.mem_def.1 he]
          rfl
    · exact hspace _ hk (by rw [hkey]; simp)

theorem text_eq (f : FunctionText) :
    f.text = f.signature ++ ' ' :: '{' :: (f.body ++ ['}']) := by
  simp [text]

/-- The brace of the body is found wherever the function stands. -/
theorem findBodyOpen?_text (hf : f.WellFormed) (pre post : Text) :
    findBodyOpen? (pre ++ (f.text ++ post)) pre.length
      = some (pre.length + f.signature.length + 1) := by
  have hfound := findBodyOpen?_fragment pre post (signature_fragment hf)
    (signature_spaced hf) (signature_keyword hf) hf.body
  rw [text_eq]
  simpa using hfound

theorem signatureLine_text (hf : f.WellFormed) : signatureLine f.text = f.signature := by
  have hopen := findBodyOpen?_text hf [] []
  simp only [List.nil_append, List.append_nil, List.length_nil, Nat.zero_add] at hopen
  have hinline : Inline (f.signature ++ [' ']) :=
    (signature_spaced hf).part ⟨[], ['{'], by simp⟩
  have htake : f.text.take (f.signature.length + 1) = f.signature ++ [' '] := by
    rw [text_eq, List.take_length_add_append]
    rfl
  have hlines : lines (f.signature ++ [' ']) = [f.signature ++ [' ']] :=
    splitOn_of_not_mem hinline.newline_not_mem
  unfold signatureLine
  rw [hopen]
  dsimp only
  rw [htake, hlines, List.map_singleton, stripLineComment_inline hinline]
  show trim (squeeze (f.signature ++ [' '])) = f.signature
  rw [squeeze_inline hinline]
  exact (signature_trimmed hf).trim_concat (by decide)

end FunctionText

-- ======================================================== the head's parts

/-- A receiver without parentheses in it is read up to its closing one, with the space after it. -/
theorem first_receiver {s : State} {r rest : Text} (hr : ')' ∉ r)
    (hrest : s.cursor.rest = '(' :: (r ++ ')' :: ' ' :: rest))
    (hnext : ∀ c ∈ rest.head?, isBlank c = false) :
    ∃ s', First (optional ("(" ++ group 1 (run (except ')')) ++ ")" ++ blanks)) s s' ∧
      s'.cursor = s.cursor.advance ('(' :: (r ++ [')', ' '])) ∧ s'.texts = (1, r) :: s.texts := by
  have hinside : (s.advance "(").cursor.rest = r ++ ')' :: ' ' :: rest := rest_advance hrest
  have hexcept : ∀ c ∈ r, except ')' c = true := by
    intro c hc
    have hne : c ≠ ')' := fun h => hr (h ▸ hc)
    simpa [except] using hne
  let read : State := ((s.advance "(").advance r).remember 1 (s.advance "(")
  have hclosing : read.cursor.rest = ')' :: ' ' :: rest := rest_advance hinside
  have hspace : (read.advance ")").cursor.rest = [' '] ++ rest := rest_advance hclosing
  have hopen : First "(" s (s.advance "(") := first_lit ⟨_, hrest.symm⟩
  have hgroup : First (group 1 (run (except ')'))) (s.advance "(") read :=
    first_group (first_run hinside hexcept (by simp [except]))
  have hclose : First ")" read (read.advance ")") := first_lit ⟨_, hclosing.symm⟩
  have hblanks : First blanks (read.advance ")") ((read.advance ")").advance [' ']) :=
    first_run hspace (List.forall_mem_singleton.2 rfl) hnext
  refine ⟨_, first_optional (first_seq (first_seq (first_seq hopen hgroup) hclose) hblanks), ?_, ?_⟩
  · show (((s.cursor.advance "(").advance r).advance ")").advance [' '] = _
    simp only [Cursor.advance_append]
    congr 1
    simp
  · exact texts_remember 1 ⟨_, hinside.symm⟩ rfl

/-- What stands before a name begins with no blank, as the name itself. -/
theorem head?_receiverPart {r rest : Text} {c : Char} (hc : isWord c = true) :
    ∀ d ∈ (enclose "(" r ") " ++ c :: rest).head?, isBlank d = false := by
  intro d hd
  unfold enclose at hd
  split at hd
  · obtain rfl : c = d := Option.some.inj hd
    exact not_isBlank_of_isWord hc
  · obtain rfl : '(' = d := Option.some.inj hd
    decide

theorem first_receiverPart {s : State} {r rest : Text} {c : Char} (hs : s.texts = [])
    (hr : ')' ∉ r) (hc : isWord c = true)
    (hrest : s.cursor.rest = enclose "(" r ") " ++ c :: rest) :
    ∃ s', First (optional ("(" ++ group 1 (run (except ')')) ++ ")" ++ blanks)) s s' ∧
      s'.cursor = s.cursor.advance (enclose "(" r ") ") ∧ (s'.texts.lookup 1).getD [] = r := by
  unfold enclose at hrest ⊢
  split at hrest
  · next hempty =>
    rw [List.isEmpty_iff] at hempty
    subst hempty
    refine ⟨s, first_optional_of_nil ?_, rfl, by rw [hs]; rfl⟩
    refine readings_seq_nil (readings_seq_nil (readings_seq_nil (readings_lit_nil ?_)))
    rw [hrest]
    rintro ⟨u, hu⟩
    obtain rfl : '(' = c := (List.cons.inj hu).1
    exact absurd hc (by decide)
  · next hempty =>
    have hrest : s.cursor.rest = '(' :: (r ++ ')' :: ' ' :: c :: rest) := by
      rw [hrest]
      simp
    obtain ⟨s', hfirst, hcursor, htexts⟩ := first_receiver hr hrest fun d hd => by
      obtain rfl : c = d := Option.some.inj hd
      exact not_isBlank_of_isWord hc
    rw [if_neg hempty]
    refine ⟨s', hfirst, ?_, by rw [htexts]; rfl⟩
    rw [hcursor]
    congr 1

/-- At the parameters nothing is left to be read but the parenthesis ahead. -/
theorem first_parameters {s : State} {t : Text} (hs : s.cursor.rest = '(' :: t) :
    First blanks s s ∧ First typeParameters s s ∧ First (ahead "(") s s := by
  have hblank : ∀ c ∈ ('(' :: t).head?, isBlank c = false := by
    intro c hc
    obtain rfl : '(' = c := Option.some.inj hc
    decide
  have hbracket : ¬"[".toList <+: s.cursor.rest := by
    rw [hs]
    rintro ⟨u, hu⟩
    exact absurd (List.cons.inj hu).1 (by decide)
  refine ⟨first_run (w := []) hs (List.forall_mem_nil _) hblank, ?_, ?_⟩
  · exact first_optional_of_nil (readings_seq_nil (readings_seq_nil (readings_lit_nil hbracket)))
  · exact first_ahead (first_lit ⟨t, hs.symm⟩)

/-- The head of a function is read part by part, up to the parenthesis of its parameters. -/
theorem first_functionHead {s : State} {r name t : Text} (hs : s.texts = [])
    (hstart : s.cursor.atStart = true) (hr : ')' ∉ r) (hname : isWordText name = true)
    (hrest : s.cursor.rest = "func" ++ ([' '] ++ (enclose "(" r ") " ++ (name ++ '(' :: t)))) :
    ∃ s', First functionHead s s' ∧
      s'.cursor = s.cursor.advance ("func " ++ enclose "(" r ") " ++ name) ∧
      (s'.texts.lookup 1).getD [] = r ∧ (s'.texts.lookup 2).getD [] = name := by
  obtain ⟨hne, hword⟩ := isWordText_iff.1 hname
  obtain ⟨c, name, rfl⟩ := List.exists_cons_of_ne_nil hne
  have hc : isWord c = true := hword c List.mem_cons_self
  -- The states after the keyword, the space, the receiver and the name, with what is ahead.
  let s₁ := s.advance "func"
  let s₂ := s₁.advance [' ']
  have hs₁ : s₁.cursor.rest = [' '] ++ (enclose "(" r ") " ++ (c :: name ++ '(' :: t)) :=
    rest_advance hrest
  have hs₂ : s₂.cursor.rest = enclose "(" r ") " ++ (c :: name ++ '(' :: t) := rest_advance hs₁
  have hspace : First blanks s₁ s₂ :=
    first_run hs₁ (List.forall_mem_singleton.2 rfl) (head?_receiverPart hc)
  obtain ⟨s₃, hreceiver, hcursor, htexts⟩ := first_receiverPart (s := s₂) hs hr hc hs₂
  have hs₃ : s₃.cursor.rest = c :: name ++ '(' :: t := by
    rw [hcursor]
    exact rest_advance hs₂
  let s₄ := (s₃.advance (c :: name)).remember 2 s₃
  have hs₄ : s₄.cursor.rest = '(' :: t := rest_advance hs₃
  have hread : First (group 2 word) s₃ s₄ := by
    refine first_group (first_run1 hs₃ hne hword fun d hd => ?_)
    obtain rfl : '(' = d := Option.some.inj hd
    decide
  obtain ⟨hnone, htypes, hahead⟩ := first_parameters hs₄
  have hfront : First (atStart ++ "func" ++ blanks) s s₂ :=
    first_seq (first_seq (first_place hstart) (first_lit ⟨_, hrest.symm⟩)) hspace
  have hnamed := first_seq (first_seq hfront hreceiver) hread
  refine ⟨s₄, first_seq (first_seq (first_seq (first_seq hnamed hnone) htypes) hnone) hahead,
    ?_, ?_⟩
  · show s₃.cursor.advance (c :: name) = _
    rw [hcursor]
    show (((s.cursor.advance "func").advance [' ']).advance _).advance _ = _
    simp only [Cursor.advance_append]
    rfl
  · have hcaptures : s₄.texts = (2, c :: name) :: s₃.texts := texts_remember 2 ⟨_, hs₃.symm⟩ rfl
    rw [hcaptures]
    exact ⟨htexts, rfl⟩

theorem functionHead_signature {f : FunctionText} (hf : f.WellFormed) :
    ∃ m, functionHead.matchStart f.signature = some m ∧ m.stop = f.head.length ∧
      m.group 2 = f.name ∧ m.group 1 = f.receiver := by
  have hrest : f.signature = "func" ++ ([' '] ++ (enclose "(" f.receiver ") "
      ++ (f.name ++ '(' :: (f.parameterList ++ ')' :: enclose " " f.result "")))) := by
    have hfunc : ("func " : Text) = "func" ++ [' '] := rfl
    rw [FunctionText.signature_eq]
    unfold FunctionText.head
    rw [hfunc]
    simp only [List.append_assoc]
  obtain ⟨s, hfirst, hcursor, hreceiver, hname⟩ :=
    first_functionHead (s := ⟨Cursor.start f.signature, []⟩) rfl rfl hf.parentheses.2 hf.name hrest
  refine ⟨_, matchAt_of_first hfirst, ?_, hname, hreceiver⟩
  have hoffset : s.cursor.offset = f.head.length := by
    rw [hcursor]
    exact Nat.zero_add _
  show 0 + (f.signature.take (s.cursor.offset - 0)).length = f.head.length
  rw [hoffset, FunctionText.signature_eq, Nat.sub_zero, List.take_left, Nat.zero_add]

-- ======================================================== the whole text

theorem last_ne_brace {t : Text} (h : isNested t = true) :
    ∀ c ∈ t.getLast?, (c == '{') = false := by
  intro c hc
  obtain ⟨init, rfl⟩ := List.getLast?_eq_some_iff.1 hc
  cases hbrace : c == '{' with
  | false => rfl
  | true =>
      obtain rfl := beq_iff_eq.1 hbrace
      obtain ⟨inner, after, heq, -⟩ := exists_group (show closerOf? '{' = some '}' from rfl) h
      simp at heq

/-- The result is what is left of the end of a signature. -/
theorem returnType_result {f : FunctionText} (hf : f.WellFormed) :
    trim (dropEndWhile (· == '{') (trim (enclose " " f.result ""))) = f.result := by
  rw [hf.result.toTrimmed.trim_enclose, dropEndWhile_eq_self (last_ne_brace hf.result.nested),
    hf.result.toTrimmed.trim_eq]

/-- The parentheses of the parameters are found, and what stands in and after them. -/
theorem parameterList_signature {f : FunctionText} (hf : f.WellFormed) :
    ∃ opener closer, findMatching? parentheses f.signature f.head.length = some (opener, closer) ∧
      slice f.signature (opener + 1) closer = f.parameterList ∧
      f.signature.drop (closer + 1) = enclose " " f.result "" := by
  have hinside : Bare (f.parameterList ++ [')']) :=
    (FunctionText.signature_fragment hf).inline.bare.part
      ⟨f.head ++ ['('], enclose " " f.result "", by rw [f.signature_eq]; simp⟩
  rw [f.signature_eq]
  exact exists_findMatching?_group (d := parentheses) f.head (enclose " " f.result "") rfl hinside
    (FunctionText.parameterList_fragment hf).nested

/-- A printed function is read back. -/
theorem parseFunction?_text {f : FunctionText} (hf : f.WellFormed) (line : Nat)
    (comments : List Text) :
    parseFunction? f.text line comments = some { f.decl line with comments := comments } := by
  obtain ⟨m, hm, hstop, hname, hreceiver⟩ := functionHead_signature hf
  obtain ⟨opener, closer, hfound, hlist, hrest⟩ := parameterList_signature hf
  have hparameters : parseParameters f.parameterList = f.parameters :=
    parseParameters_printed fun p hp => (hf.parameters p hp).item
  unfold parseFunction?
  dsimp only
  rw [FunctionText.signatureLine_text hf, hm, Option.map_some, hstop, hfound]
  dsimp only
  rw [hlist, hrest, hparameters, returnType_result hf, hname, hreceiver,
    hf.receiver.toTrimmed.trim_eq]
  rfl

end GoSurvey.Declaration
