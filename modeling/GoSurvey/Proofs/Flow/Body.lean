/-
Whose body is traced. The lookup of a function takes the first brace
after the signature that opens no type, wherever that brace is; the
extractor looks at the same brace, but stops if another declaration
begins before it. So the body of a function is a part of its text as long
as no other declaration begins before the brace, and it is a text behind
the one line of the function if one does (`body_of_declaration`).
-/
import GoSurvey.Proofs.Declaration.Signature
import GoSurvey.Proofs.Flow.Lookup

namespace GoSurvey

-- ================================================ the next declaration

namespace Declaration

open Text Source Pattern

/-- The words that begin a declaration after another one. -/
def declarationWords : List Text := ["func", "type", "var", "const", "import"]

/-- A line of a text, not the first one, begins with the word of a declaration. -/
def BeginsDeclaration (t : Text) : Prop :=
  ∃ u, ∃ k ∈ declarationWords, ∃ v, t = u ++ newline :: (k ++ v) ∧ ∀ c ∈ v.head?, isWord c = false

theorem of_mem_declarationWords {k : Text} (hk : k ∈ declarationWords) :
    k ≠ [] ∧ ∀ c ∈ k, isWord c = true := by
  have hwords : ∀ k ∈ declarationWords, k ≠ [] ∧ k.all isWord = true := by decide +kernel
  exact ⟨(hwords k hk).1, List.all_eq_true.1 (hwords k hk).2⟩

theorem occursIn_nextDeclaration {t : Text} :
    nextDeclaration.occursIn t = true ↔ BeginsDeclaration t := by
  -- After a newline and a word, the edge of the word is where no word character follows.
  have hedge : ∀ {k v : Text} {s : State}, k ∈ declarationWords →
      s.cursor.rest = newline :: (k ++ v) →
      (((s.advance [newline]).advance k).cursor.atWordEdge = true ↔
        ∀ c ∈ v.head?, isWord c = false) := by
    intro k v s hk hrest
    obtain ⟨hne, hword⟩ := of_mem_declarationWords hk
    have hrest₁ : (s.cursor.advance [newline]).rest = k ++ v := rest_advance hrest
    have hrest₂ : ((s.cursor.advance [newline]).advance k).rest = v := rest_advance hrest₁
    show ((s.cursor.advance [newline]).advance k).atWordEdge = true ↔ _
    rw [atWordEdge_advance hne hword, hrest₂]
  rw [occursIn_iff]
  constructor
  · rintro ⟨u, s, ⟨after, rfl⟩, h⟩
    unfold nextDeclaration at h
    simp only [readings_assoc] at h
    obtain ⟨s₁, hs₁, h⟩ := mem_readings_seq.1 h
    obtain ⟨s₂, hs₂, h⟩ := mem_readings_seq.1 h
    obtain ⟨c, hc, hnewline, rfl⟩ := mem_readings_one.1 hs₁
    obtain rfl := beq_iff_eq.1 hnewline
    obtain ⟨k, hk, hlit⟩ := mem_readings_oneOf.1 hs₂
    obtain ⟨hkrest, rfl⟩ := mem_readings_lit.1 hlit
    obtain ⟨hplace, -⟩ := mem_readings_place.1 h
    obtain ⟨v, hv⟩ := prefix_append_of_advance hc hkrest
    have hafter : ((Cursor.start (u ++ after)).advance u).rest = after := List.drop_left
    rw [List.append_assoc] at hv
    refine ⟨u, k, hk, v, congrArg (u ++ ·) (hafter.symm.trans hv.symm), ?_⟩
    exact (hedge hk hv.symm).1 hplace
  · rintro ⟨u, k, hk, v, rfl, hv⟩
    let s : State := ⟨(Cursor.start (u ++ newline :: (k ++ v))).advance u, []⟩
    have hrest : s.cursor.rest = newline :: (k ++ v) := List.drop_left
    have hplace := (hedge hk hrest).2 hv
    have hnewline : [newline] <+: s.cursor.rest := ⟨k ++ v, hrest.symm⟩
    have hkrest : k <+: (s.advance [newline]).cursor.rest :=
      ⟨v, (rest_advance (v := [newline]) hrest).symm⟩
    refine ⟨u, (s.advance [newline]).advance k, List.prefix_append _ _, ?_⟩
    unfold nextDeclaration
    simp only [readings_assoc]
    refine mem_readings_seq.2 ⟨s.advance [newline], ?_, ?_⟩
    · exact mem_readings_one.2 ⟨newline, hnewline, beq_self_eq_true newline, rfl⟩
    · refine mem_readings_seq.2 ⟨(s.advance [newline]).advance k, ?_, ?_⟩
      · exact mem_readings_oneOf.2 ⟨k, hk, mem_readings_lit.2 ⟨hkrest, rfl⟩⟩
      · exact mem_readings_place.2 ⟨hplace, rfl⟩

/-- A function is what its block is read as, which begins in its line. -/
theorem exists_functionBlock {content file : Text} {f : FunctionDecl}
    (hf : f ∈ (structureOf content file).functions) :
    ∃ index, index < (Text.lines content).length ∧ f.line = index + 1 ∧
      f.snippet = (functionBlockAt content (Text.lines content)
        (textBefore (Text.lines content) index).length index).content := by
  obtain ⟨x, hx, hfound⟩ := exists_construct (mem_declarations_of_mem_functions hf)
  have hplaced := constructsOf_wellPlaced hx
  obtain ⟨-, hline, -⟩ := hplaced.function f hfound
  obtain ⟨line, construct, hread⟩ := exists_isReadFrom hx
  obtain ⟨-, hsnippet⟩ := parseFunction?_of_readConstruct hread.read hfound
  exact ⟨x.first, Nat.lt_of_le_of_lt hplaced.le hplaced.lt, hline, hsnippet⟩

end Declaration

-- ============================================================ the body

namespace Flow

open Text Source Pattern Declaration

/-- The body of the function that starts at an offset opens after a text and has a text inside its
braces. -/
structure HasBody (content : Text) (start : Nat) (pre inside : Text) : Prop where
  opens : findBodyOpen? content start = some pre.length
  closes : findMatching? braces content pre.length
    = some (pre.length, pre.length + 1 + inside.length)

theorem HasBody.functionBody {content pre inside post : Text} {start : Nat}
    (h : HasBody content start pre inside) (hcontent : content = pre ++ '{' :: (inside ++ post)) :
    functionBody content start = trim inside := by
  unfold Source.functionBody
  rw [h.opens]
  dsimp only
  rw [h.closes]
  dsimp only
  rw [hcontent, slice_after_cons]

/-- Where a body opens, there is one, and it is that of a text from where the search started on. -/
theorem exists_body {before text : Text} {opener : Nat}
    (h : findBodyOpen? (before ++ text) before.length = some opener) :
    ∃ head inside rest, text = head ++ '{' :: (inside ++ '}' :: rest) ∧
      opener = (before ++ head).length ∧
      HasBody (before ++ text) before.length (before ++ head) inside := by
  obtain ⟨hle, closer, hcloser⟩ := of_findBodyOpenFrom h
  obtain ⟨hlt, hbrace⟩ := List.getElem?_eq_some_iff.1 (brace_of_findBodyOpenFrom h)
  have hpre : before <+: (before ++ text).take opener :=
    List.prefix_take_iff.2 ⟨List.prefix_append before text, hle⟩
  obtain ⟨head, hhead⟩ := hpre
  have hlength : opener = (before ++ head).length := by
    rw [hhead, List.length_take_of_le (Nat.le_of_lt hlt)]
  have hsplit : before ++ text = (before ++ head) ++ '{' :: (before ++ text).drop (opener + 1) := by
    rw [hhead, ← hbrace, ← List.drop_eq_getElem_cons hlt, List.take_append_drop]
  have hfound := hcloser
  rw [hsplit, hlength] at hfound
  obtain ⟨inside, rest, hrest, -, rfl⟩ :=
    exists_group_of_findMatching? (d := braces) (by decide) (by decide) hfound
  refine ⟨head, inside, rest, ?_, hlength, ?_, ?_⟩
  · rw [hlength, hrest, List.append_assoc] at hsplit
    exact List.append_cancel_left hsplit
  · rw [← hlength]
    exact h
  · rw [← hlength]
    rw [← hlength] at hcloser
    exact hcloser

/-- The body that is traced for a function whose text stands between two others. -/
inductive TracedBody (before snippet after : Text) : (body : Text) → Prop where
  /-- No body opens from the function on. -/
  | absent (h : findBodyOpen? (before ++ (snippet ++ after)) before.length = none) :
    TracedBody before snippet after []
  /-- The body stands in the text of the function. -/
  | own {head inside tail : Text} (hsnippet : snippet = head ++ '{' :: (inside ++ '}' :: tail))
    (hbody : HasBody (before ++ (snippet ++ after)) before.length (before ++ head) inside)
    (hhead : ¬BeginsDeclaration head) : TracedBody before snippet after (trim inside)
  /-- The text of the function is one line, and the body stands behind it, with a declaration
  begun in between. -/
  | behind {gap inside rest : Text} (hafter : after = gap ++ '{' :: (inside ++ '}' :: rest))
    (hbody : HasBody (before ++ (snippet ++ after)) before.length (before ++ (snippet ++ gap))
      inside)
    (hsnippet : newline ∉ snippet) (hgap : BeginsDeclaration (snippet ++ gap)) :
    TracedBody before snippet after (trim inside)

variable {content : Text} {index : Nat}

/-- The lines up to that of the closer of a body hold the body. -/
theorem linesText_to_closer {head inside rest : Text}
    (hindex : index < (Text.lines content).length)
    (htext : joinLines ((Text.lines content).drop index)
      = head ++ '{' :: (inside ++ '}' :: rest)) :
    ∃ tail after, rest = tail ++ after ∧ linesText (Text.lines content) index
        (lineAt content ((textBefore (Text.lines content) index ++ head).length + 1
          + inside.length) - 1)
      = head ++ '{' :: (inside ++ '}' :: tail) := by
  have hcontent := textBefore_append hindex
  rw [joinLines_lines, htext] at hcontent
  generalize hcloser : (textBefore (Text.lines content) index ++ head).length + 1 + inside.length
    = closer
  generalize hlast : lineAt content closer - 1 = last
  rw [List.length_append] at hcloser
  have hle : index ≤ last := hlast ▸ le_lineAt hindex (by omega)
  have hlt : last < (Text.lines content).length := by
    have hbound := lineAt_le_length content closer
    omega
  obtain ⟨more, hmore, hnewline⟩ :=
    joinLines_take ((Text.lines content).drop index) (last - index)
  rw [← linesText_eq_take hle, htext] at hmore
  generalize hlines : linesText (Text.lines content) index last = snippet at hmore
  have hgroup : head ++ '{' :: (inside ++ '}' :: rest)
      = (head ++ '{' :: (inside ++ ['}'])) ++ rest := by simp
  rw [hgroup] at hmore
  rcases List.append_eq_append_iff.1 hmore with ⟨tail, htail, hafter⟩ | ⟨cut, hcut, hrest⟩
  · refine ⟨tail, more, hafter, htail.trans ?_⟩
    simp
  -- Otherwise the closer would stand in a line after the last one.
  · cases cut with
    | nil =>
        refine ⟨[], rest, rfl, ?_⟩
        rw [hcut, List.append_nil]
    | cons c cut =>
        exfalso
        rw [hrest] at hnewline
        obtain rfl : c = newline := hnewline c rfl
        have hnext : last + 1 < (Text.lines content).length := by
          apply Nat.lt_of_not_le
          intro hend
          have hall := linesText_to_end (Text.lines content) index
          rw [show (Text.lines content).length - 1 = last by omega, hlines, htext, hgroup, hcut]
            at hall
          have hlength := congrArg List.length hall
          simp only [List.length_append, List.length_cons] at hlength
          omega
        have hbefore := textBefore_linesText hle hlt
        rw [hlines] at hbefore
        have hend : cut ≠ [] := by
          rintro rfl
          have hlast := congrArg List.getLast? hcut
          rw [List.getLast?_concat, ← List.cons_append, ← List.append_assoc,
            List.getLast?_concat] at hlast
          exact absurd hlast (by decide)
        have hpos := List.length_pos_iff.2 hend
        have hcutLength := congrArg List.length hcut
        simp only [List.length_append, List.length_cons, List.length_nil] at hcutLength
        have hlater : last + 1 ≤ lineAt content closer - 1 := by
          apply le_lineAt hnext
          rw [hbefore]
          simp only [List.length_append, List.length_cons, List.length_nil]
          omega
        omega

/-- Where another declaration begins, a newline stands before it: a text in which one begins goes
on behind the first line. -/
theorem exists_gap_of_nextDeclaration {line more head tail : Text} (hmem : newline ∉ line)
    (hbegins : nextDeclaration.occursIn head = true) (h : line ++ more = head ++ tail) :
    ∃ gap, head = line ++ gap ∧ more = gap ++ tail := by
  rcases List.append_eq_append_iff.1 h with ⟨gap, hgap, hrest⟩ | ⟨gap, hgap, -⟩
  · exact ⟨gap, hgap, hrest⟩
  · obtain ⟨u, k, -, v, hu, -⟩ := occursIn_nextDeclaration.1 hbegins
    refine absurd ?_ hmem
    rw [hgap, hu]
    simp

/-- The body that the lookup takes from the start of a line on stands in the block of a function
there, or behind it. -/
theorem tracedBody_functionBlock (hindex : index < (Text.lines content).length) :
    ∃ after, content = textBefore (Text.lines content) index ++ ((functionBlockAt content
        (Text.lines content) (textBefore (Text.lines content) index).length index).content
          ++ after) ∧
      TracedBody (textBefore (Text.lines content) index) (functionBlockAt content
        (Text.lines content) (textBefore (Text.lines content) index).length index).content after
        (functionBody content (textBefore (Text.lines content) index).length) := by
  have hcontent := textBefore_append hindex
  rw [joinLines_lines] at hcontent
  obtain ⟨line, hline⟩ : ∃ line, (Text.lines content)[index]? = some line :=
    ⟨_, List.getElem?_eq_getElem hindex⟩
  have hmem : newline ∉ line := not_newline_of_mem_lines (List.mem_of_getElem? hline)
  obtain ⟨more, hmore, hnewline⟩ :=
    linesText_begins hline (show index ≤ (Text.lines content).length - 1 by omega)
  rw [linesText_to_end] at hmore
  unfold functionBlockAt
  dsimp only
  cases hopen : findBodyOpen? content (textBefore (Text.lines content) index).length with
  | none =>
      dsimp only
      rw [hline, Option.getD_some]
      have hwhole : content = textBefore (Text.lines content) index ++ (line ++ more) := by
        rw [← hmore, hcontent]
      have hbody : functionBody content (textBefore (Text.lines content) index).length = [] := by
        unfold functionBody
        rw [hopen]
      rw [hbody]
      refine ⟨more, hwhole, .absent ?_⟩
      rw [← hwhole]
      exact hopen
  | some opener =>
      generalize hbefore : textBefore (Text.lines content) index = before at *
      rw [← hcontent] at hopen
      obtain ⟨head, inside, rest, htext, hopener, hbody⟩ := exists_body hopen
      have hslice : slice content before.length opener = head := by
        rw [← hcontent, htext, hopener, List.length_append]
        exact slice_append before head _
      have htraced : functionBody content before.length = trim inside := by
        rw [hcontent] at hbody
        apply hbody.functionBody
        rw [← hcontent, htext, List.append_assoc]
      dsimp only
      rw [hslice, htraced]
      by_cases hbegins : nextDeclaration.occursIn head = true
      · rw [if_pos hbegins]
        dsimp only
        rw [hline, Option.getD_some]
        obtain ⟨gap, hhead, hgap⟩ := exists_gap_of_nextDeclaration hmem hbegins (hmore ▸ htext)
        refine ⟨more, by rw [← hmore, hcontent], .behind hgap ?_ hmem ?_⟩
        · rw [← hmore, ← hhead]
          exact hbody
        · rw [← hhead]
          exact occursIn_nextDeclaration.1 hbegins
      · rw [if_neg hbegins]
        have hcloses := hbody.closes
        rw [hcontent, ← hopener] at hcloses
        rw [hcloses]
        dsimp only
        obtain ⟨tail, after, rfl, htail⟩ := linesText_to_closer hindex htext
        rw [hbefore, ← hopener] at htail
        rw [htail]
        have hwhole : content
            = before ++ ((head ++ '{' :: (inside ++ '}' :: tail)) ++ after) := by
          rw [← hcontent, htext]
          simp
        refine ⟨after, hwhole, .own rfl ?_ fun h => hbegins (occursIn_nextDeclaration.2 h)⟩
        rw [← hwhole]
        rw [hcontent] at hbody
        exact hbody

-- ======================================================== the lookup

/-- Another declaration begins between the start of a function and the brace of its body. -/
def RunsOn (content : Text) (start : Nat) : Prop :=
  ∃ opener, findBodyOpen? content start = some opener ∧
    BeginsDeclaration (slice content start opener)

/-- The body of a function that no other declaration begins in is a part of its text. -/
theorem TracedBody.isInfix {before snippet after body : Text}
    (h : TracedBody before snippet after body)
    (hown : ¬RunsOn (before ++ (snippet ++ after)) before.length) : body <:+: snippet := by
  cases h with
  | absent => exact List.nil_infix
  | @own head inside tail hsnippet =>
      refine (trim_isInfix inside).trans ⟨head ++ ['{'], '}' :: tail, ?_⟩
      rw [hsnippet]
      simp
  | @behind gap inside rest hafter hbody hsnippet hgap =>
      refine absurd ⟨_, hbody.opens, ?_⟩ hown
      have hcontent : before ++ (snippet ++ after)
          = before ++ ((snippet ++ gap) ++ '{' :: (inside ++ '}' :: rest)) := by
        rw [hafter, List.append_assoc]
      rw [hcontent, List.length_append, slice_append]
      exact hgap

/-- At the line of a declaration the lookup takes the body from the start of the line on. -/
theorem body_of_findFunction? {name file : Text} {s : FunctionSource}
    (hs : findFunction? content name file = some s)
    (hindex : index < (Text.lines content).length) (hline : s.line = index + 1) :
    s.body = functionBody content (textBefore (Text.lines content) index).length := by
  obtain ⟨m, hm, rfl⟩ := Option.map_eq_some_iff.1 hs
  have hcount : (textBefore (Text.lines content) index).count newline = index :=
    count_textBefore (fun _ => not_newline_of_mem_lines) (Nat.le_of_lt hindex)
  have hnumber : lineAt content m.start
      = (textBefore (Text.lines content) index).count newline + 1 := by
    rw [hcount, ← hline]
    split <;> rfl
  obtain ⟨hstart, -⟩ :=
    exists_match_of_line hm (textBefore_begins hindex) (textBefore_start _ _) hnumber
  rw [← hstart]
  split <;> rfl

/-- Where a function is looked up at the line of a declaration, its body is that of the
declaration, a part of its text, unless another declaration begins before the brace: then the text
is one line and the body stands behind it. -/
theorem body_of_declaration {content name file file' : Text} {f : FunctionDecl} {s : FunctionSource}
    (hf : f ∈ (structureOf content file).functions)
    (hs : findFunction? content name file' = some s) (hline : s.line = f.line) :
    ∃ before after, content = before ++ (f.snippet ++ after) ∧
      f.line = before.count newline + 1 ∧ (before = [] ∨ before.getLast? = some newline) ∧
      TracedBody before f.snippet after s.body ∧
      (¬RunsOn content before.length → s.body <:+: f.snippet) := by
  obtain ⟨index, hindex, hfline, hsnippet⟩ := exists_functionBlock hf
  obtain ⟨after, hcontent, htraced⟩ := tracedBody_functionBlock hindex
  rw [← body_of_findFunction? hs hindex (hline.trans hfline), ← hsnippet] at htraced
  rw [← hsnippet] at hcontent
  refine ⟨_, after, hcontent, ?_, textBefore_start _ _, htraced, fun hown => ?_⟩
  · rw [hfline, count_textBefore (fun _ => not_newline_of_mem_lines) (Nat.le_of_lt hindex)]
  · refine htraced.isInfix ?_
    rw [← hcontent]
    exact hown

/-- A function without a body before one with a body. -/
def declaredOnly : Text :=
  "package p\n\nfunc Load(id int) string\n\nfunc Save() \x7b\n\tstore()\n\x7d\n"

/-- The first function of that file as it is declared. -/
def declaredLoad : FunctionDecl where
  name := "Load"
  parameters := [⟨"id", "int"⟩]
  returnType := "string"
  line := 3
  snippet := "func Load(id int) string"
  comments := []
  receiver := []

/-- The first function of that file as it is looked up: with the body of the second. -/
def tracedLoad : FunctionSource where
  file := "m.go"
  line := 3
  signature := "func Load(id int)"
  params := "id int"
  returns := "string"
  body := "store()"

theorem body_of_declaration_borrowed :
    declaredLoad ∈ (structureOf declaredOnly "m.go").functions ∧
      findFunction? declaredOnly "Load" "m.go" = some tracedLoad ∧
      (∃ before after, declaredOnly = before ++ (declaredLoad.snippet ++ after) ∧
        3 = before.count newline + 1 ∧ (before = [] ∨ before.getLast? = some newline) ∧
        TracedBody before declaredLoad.snippet after "store()".toList ∧
        (¬RunsOn declaredOnly before.length →
          "store()".toList <:+: declaredLoad.snippet)) ∧
      ¬"store()".toList <:+: declaredLoad.snippet := by
  have hf : declaredLoad ∈ (structureOf declaredOnly "m.go").functions := by decide +kernel
  have hs : findFunction? declaredOnly "Load" "m.go" = some tracedLoad := by decide +kernel
  exact ⟨hf, hs, body_of_declaration hf hs rfl, by decide +kernel⟩

end Flow

end GoSurvey
