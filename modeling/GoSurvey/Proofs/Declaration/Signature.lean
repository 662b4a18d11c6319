/-
The signature of a function as it is written in a file. Where it is on
one line and has no line comment in it, the extractor reads it squeezed:
the name is that of the opening, the parameters are those of the squeezed
list, and what follows the list, squeezed, is the result
(`parseFunction?_signatureText`).
-/
import GoSurvey.Declaration.Structure
import GoSurvey.Proofs.CallGraph.Opening
import GoSurvey.Proofs.Declaration.Pass
import GoSurvey.Proofs.Source.Squeeze

namespace GoSurvey.Declaration

open Text Source Pattern CallGraph

-- ===================================================== as it is written

/-- The signature of a function as it is written: up to the brace of its body, or the first line
where there is none. -/
def signatureText (f : FunctionDecl) : Text :=
  match findBodyOpen? f.snippet 0 with
  | some opener => f.snippet.take opener
  | none => before [newline] f.snippet

/-- After a signature comes a brace, or the end of the line or of the text. -/
theorem exists_after_signatureText (f : FunctionDecl) :
    ∃ rest, f.snippet = signatureText f ++ rest ∧ ∀ c ∈ rest.head?, c = newline ∨ c = '{' := by
  unfold signatureText
  cases hopen : findBodyOpen? f.snippet 0 with
  | some opener =>
      refine ⟨f.snippet.drop opener, (List.take_append_drop opener _).symm, fun c hc => .inr ?_⟩
      rw [List.head?_drop, brace_of_findBodyOpenFrom hopen] at hc
      exact (Option.some.inj hc).symm
  | none =>
      dsimp only
      rw [before_singleton]
      refine ⟨_, List.takeWhile_append_dropWhile.symm, fun c hc => .inl ?_⟩
      have hfirst := List.head?_dropWhile_not (· != newline) f.snippet
      rw [Option.mem_def.1 hc] at hfirst
      simpa using hfirst

/-- Of all constructs only that of a function declares one. -/
theorem eq_function_of_readConstruct {content trimmed : Text} {lines : List Text}
    {index offset : Nat} {construct : Construct} {f : FunctionDecl}
    (hf : .ofFunction f ∈ (readConstruct content lines index offset trimmed construct).1) :
    construct = .function := by
  cases construct with
  | imports => simp [readConstruct] at hf
  | struct => simp [readConstruct] at hf
  | interface => simp [readConstruct] at hf
  | type =>
      obtain ⟨spec, -, hspec⟩ := List.mem_filterMap.1 hf
      exact absurd rfl ((typeSpec?_line hspec).2 f)
  | constants => simp [readConstruct] at hf
  | packageVars => simp [readConstruct] at hf
  | function => rfl

/-- A function is read from its text, which is that of its block. -/
theorem parseFunction?_of_readConstruct {content trimmed : Text} {lines : List Text}
    {index offset last : Nat} {construct : Construct} {found : List Declaration}
    (hread : readConstruct content lines index offset trimmed construct = (found, last))
    {f : FunctionDecl} (hf : .ofFunction f ∈ found) :
    (∃ comments, parseFunction? f.snippet (index + 1) comments = some f) ∧
      f.snippet = (functionBlockAt content lines offset index).content := by
  have hfound : found = (readConstruct content lines index offset trimmed construct).1 := by
    rw [hread]
  subst hfound
  obtain rfl := eq_function_of_readConstruct hf
  unfold readConstruct at hf
  dsimp only at hf
  obtain ⟨g, hg, heq⟩ := Option.map_eq_some_iff.1 (Option.mem_toList.1 hf)
  injection heq with heq
  subst heq
  obtain ⟨-, hsnippet⟩ := parseFunction?_line hg
  rw [hsnippet]
  exact ⟨⟨_, hg⟩, rfl⟩

/-- A function is read from its text, which stands in the content from the start of its line on. -/
theorem exists_function_text {content file : Text} {f : FunctionDecl}
    (hf : f ∈ (structureOf content file).functions) :
    ∃ comments w rest, parseFunction? f.snippet f.line comments = some f ∧
      content = w ++ (f.snippet ++ rest) ∧ (∀ c ∈ rest.head?, c = newline) ∧
      f.line = w.count newline + 1 ∧ (w = [] ∨ w.getLast? = some newline) := by
  obtain ⟨x, hx, hfound⟩ := exists_construct (mem_declarations_of_mem_functions hf)
  have hplaced := constructsOf_wellPlaced hx
  have hle := hplaced.le
  have hlt := hplaced.lt
  obtain ⟨-, hline, hsnippet⟩ := hplaced.function f hfound
  obtain ⟨line, construct, hread⟩ := exists_isReadFrom hx
  obtain ⟨⟨comments, hparse⟩, -⟩ := parseFunction?_of_readConstruct hread.read hfound
  have hfirst : x.first < (Text.lines content).length := by omega
  obtain ⟨rest, hrest, hnewline⟩ :=
    joinLines_take ((Text.lines content).drop x.first) (x.last - x.first)
  rw [← linesText_eq_take hle, ← hsnippet] at hrest
  refine ⟨comments, textBefore (Text.lines content) x.first, rest, hline ▸ hparse, ?_, hnewline, ?_,
    textBefore_start _ _⟩
  · rw [← hrest, textBefore_append hfirst, joinLines_lines]
  · rw [hline, count_textBefore (fun _ => not_newline_of_mem_lines) (Nat.le_of_lt hfirst)]

-- ================================================ on one line, squeezed

theorem length_assignTypes (pending : List Text) (parts : List ParameterPart) :
    (assignTypes pending parts).length = pending.length + parts.length := by
  induction parts generalizing pending with
  | nil => simp [assignTypes]
  | cons part parts ih =>
      cases part with
      | named name type =>
          simp only [assignTypes, List.length_append, List.length_map, List.length_cons, ih,
            List.length_nil]
          omega
      | bare text =>
          simp only [assignTypes, ih, List.length_append, List.length_cons, List.length_nil]
          omega
      | type text =>
          simp only [assignTypes, List.length_append, List.length_map, List.length_cons, ih,
            List.length_nil]
          omega

/-- There are as many parameters as parts of the list. -/
theorem length_parseParameters (params : Text) :
    (parseParameters params).length = (splitTopLevel ',' params).length := by
  unfold parseParameters
  rw [length_assignTypes, List.length_map, List.length_nil, Nat.zero_add]

theorem readings_functionHead_front (s : State) :
    readings functionHead s = readings (atStart ++ (front isBlank (run isBlank) (received isBlank)
      ++ ahead "(")) s := by
  unfold functionHead front received parenthesized
  simp only [readings_append, List.flatMap_assoc]
  rfl

/-- The name of a function is a word. -/
theorem isWord_of_parseFunction? {content : Text} {line : Nat} {comments : List Text}
    {f : FunctionDecl} (h : parseFunction? content line comments = some f) :
    f.name ≠ [] ∧ ∀ c ∈ f.name, isWord c = true := by
  obtain ⟨m, hm, rfl⟩ := Option.map_eq_some_iff.1 h
  obtain ⟨s, hs, rfl⟩ := exists_reading_of_matchAt hm
  unfold functionHead at hs
  simp only [readings_append, List.flatMap_assoc, List.mem_flatMap] at hs
  obtain ⟨s₁, -, s₂, -, s₃, -, s₄, -, s₅, hname, s₆, hs₆, s₇, hs₇, s₈, hs₈, hs⟩ := hs
  obtain ⟨w, hne, hword, -, htexts⟩ := takes_group hname
  have hlater : s.texts = (2, w) :: s₄.texts := by
    rw [texts_of_reading_none rfl hs, texts_of_reading_none rfl hs₈, texts_of_reading_none rfl hs₇,
      texts_of_reading_none rfl hs₆, htexts]
  have hgroup : (s.texts.lookup 2).getD [] = w := by
    rw [hlater]
    rfl
  have hnamed : ∀ {f : FunctionDecl}, f.name = (s.texts.lookup 2).getD [] →
      f.name ≠ [] ∧ ∀ c ∈ f.name, isWord c = true := by
    intro f hf
    rw [hf, hgroup]
    exact ⟨hne, hword⟩
  split
  exact hnamed rfl

/-- Along an opening the head of a function is read up to the parenthesis, with its name. -/
theorem functionHead_opening {receiver : Option Text} {name o : Text} (rest : Text)
    (ho : Opening isBlank receiver name o) :
    ∃ m, functionHead.matchStart (o ++ rest) = some m ∧ m.stop + 1 = o.length ∧
      m.group 2 = name := by
  obtain ⟨hname, hword⟩ : name ≠ [] ∧ ∀ d ∈ name, isWord d = true := by
    obtain ⟨-, -, -, hname, hword, -, -, -⟩ := ho
    exact ⟨hname, hword⟩
  obtain ⟨s, hs, hcursor, htexts⟩ := first_opening (s := ⟨Cursor.start (o ++ rest), []⟩)
    (fun _ => id) (readsSpace_run isBlank) (readsName_received (fun _ => id) hname hword) ho rfl
  have hahead : s.cursor.rest = '(' :: rest := by
    rw [hcursor]
    exact ho.ahead rfl
  have hall : First (atStart ++ (front isBlank (run isBlank) (received isBlank) ++ ahead "("))
      ⟨Cursor.start (o ++ rest), []⟩ s :=
    first_seq (first_place rfl) (first_seq hs (first_ahead (first_lit ⟨rest, hahead.symm⟩)))
  unfold First at hall
  rw [← readings_functionHead_front] at hall
  refine ⟨_, matchAt_of_first hall, ?_, ?_⟩
  · have hlength := congrArg List.length ho.eq_dropLast
    rw [List.length_append, List.length_singleton] at hlength
    have hoffset : s.cursor.offset = o.dropLast.length := by
      rw [hcursor]
      exact Nat.zero_add _
    show 0 + ((o ++ rest).take (s.cursor.offset - 0)).length + 1 = o.length
    rw [hoffset, List.length_take, List.length_append]
    omega
  · rw [group_ofState, htexts]
    rfl

/-- What is read of a signature on one line. -/
theorem parseFunction?_signatureText {f : FunctionDecl} {comments : List Text}
    (hparse : parseFunction? f.snippet f.line comments = some f)
    (hline : newline ∉ signatureText f)
    (hcode : stripLineComment (signatureText f) = signatureText f)
    {receiver : Option Text} {name o params result : Text} (ho : Opening isBlank receiver name o)
    (hwritten : signatureText f = o ++ (params ++ ')' :: result))
    {pre post : Text} (hfound : findMatching? parentheses (pre ++ '(' :: (params ++ ')' :: post))
      pre.length = some (pre.length, pre.length + 1 + params.length)) :
    f.name = name ∧ f.parameters = parseParameters (squeeze params) ∧
      f.returnType = trim (dropEndWhile (· == '{') (squeeze (trim result))) := by
  have hparams : newline ∉ params := fun hmem =>
    hline (hwritten ▸ List.mem_append_right o (List.mem_append_left _ hmem))
  obtain ⟨o', ho', hsqueeze⟩ := ho.squeeze (params ++ ')' :: result)
  have hdrop := ho'.eq_dropLast
  -- The signature as it is read.
  have hsignature : ∃ rest, signatureLine f.snippet = o' ++ (squeeze params ++ ')' :: rest) ∧
      trim rest = squeeze (trim result) := by
    have hlines : lines (signatureText f) = [signatureText f] := splitOn_of_not_mem hline
    have hread : signatureLine f.snippet = trim (squeeze (signatureText f)) := by
      show trim (squeeze (join " " ((lines (signatureText f)).map stripLineComment))) = _
      rw [hlines, List.map_singleton, hcode]
      rfl
    obtain ⟨trail, htrail, hblank⟩ := exists_dropEndWhile_eq isBlank (squeeze result)
    refine ⟨dropEndWhile isBlank (squeeze result), ?_, ?_⟩
    · obtain ⟨c, u, hc, hplain⟩ := ho'.exists_cons
      rw [hread, hwritten, hsqueeze, squeeze_append_cons (by decide)]
      unfold trim stripWhile
      rw [hc, List.cons_append, List.dropWhile_cons_of_neg (by simp [hplain]), ← List.cons_append,
        dropEndWhile_append ⟨')', by simp, by decide⟩,
        dropEndWhile_append ⟨')', List.mem_cons_self, by decide⟩,
        dropEndWhile_cons (show isBlank ')' = false by decide)]
    · rw [← trim_squeeze]
      conv => rhs; rw [htrail]
      exact (trim_append_blanks _ hblank).symm
  obtain ⟨rest, hsignature, hrest⟩ := hsignature
  obtain ⟨m, hm, hstop, hgroup⟩ := functionHead_opening (squeeze params ++ ')' :: rest) ho'
  have hlist : findMatching? parentheses (signatureLine f.snippet) m.stop
      = some (m.stop, m.stop + 1 + (squeeze params).length) := by
    have hlength := congrArg List.length hdrop
    rw [List.length_append, List.length_singleton] at hlength
    have hbefore : m.stop = o'.dropLast.length := by omega
    have hsqueezed := findMatching?_squeeze (d := parentheses) (by decide) (by decide) (by decide)
      o'.dropLast rest hparams hfound
    have htext : o' ++ (squeeze params ++ ')' :: rest)
        = o'.dropLast ++ '(' :: (squeeze params ++ ')' :: rest) := by
      conv => lhs; rw [hdrop]
      rw [List.append_assoc]
      rfl
    rw [hsignature, hbefore, htext]
    exact hsqueezed
  have hslice : slice (signatureLine f.snippet) (m.stop + 1) (m.stop + 1 + (squeeze params).length)
      = squeeze params := by
    rw [hsignature, hstop]
    exact slice_append o' (squeeze params) (')' :: rest)
  have hafter : (signatureLine f.snippet).drop (m.stop + 1 + (squeeze params).length + 1)
      = rest := by
    have hsplit : o' ++ (squeeze params ++ ')' :: rest)
        = (o' ++ (squeeze params ++ [')'])) ++ rest := by simp
    have hlength : m.stop + 1 + (squeeze params).length + 1
        = (o' ++ (squeeze params ++ [')'])).length := by
      simp only [List.length_append, List.length_singleton]
      omega
    rw [hsignature, hsplit, hlength, List.drop_left]
  unfold parseFunction? at hparse
  dsimp only at hparse
  rw [hsignature, hm, ← hsignature, Option.map_some, hlist] at hparse
  have hf := Option.some.inj hparse
  dsimp only at hf
  rw [hslice, hafter, hrest] at hf
  rw [← hf]
  exact ⟨hgroup, rfl, rfl⟩

end GoSurvey.Declaration
