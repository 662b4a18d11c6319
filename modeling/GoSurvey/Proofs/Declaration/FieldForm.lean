/-
Fields by the form in which they are written. A declared field does not
say whether its name is written or is that of an embedded type. `readPiece`
is one step of the reading of a body and keeps the form; without the forms
a run of it is what a struct is declared with (`readPieces_fields`), and a
run over the pieces of several lines is a run over those of each line after
the other (`readPieces_append`).

A line that is one piece and declares one field at most begins with its
name, if that is written (`name_of_line`).
-/
import GoSurvey.Proofs.Declaration.TypeText
import GoSurvey.Proofs.Declaration.ValueLine

namespace GoSurvey.Declaration

open Text Source Pattern

-- ==================================================== one piece, all pieces

/-- How a field is written. -/
inductive FieldForm where
  /-- A name and a type. -/
  | named
  /-- A type alone. -/
  | embedded
  deriving DecidableEq, Repr

/-- What the pieces read so far leave to the next: the braces of an inner struct that are still
open, and the comments since the last field. -/
structure MemberState where
  nested : Int := 0
  pending : List Text := []
  deriving DecidableEq, Repr

/-- The fields that are written in code, with the comments above them, and how many braces of an
inner struct they leave open. -/
def readMember (pending : List Text) (code : Text) :
    Option (List (FieldForm × StructField) × Int) :=
  match fieldPattern.matchStart code with
  | some m =>
    let written := trim (m.group 2)
    let opens := endsWith "\x7b" written
    let type := if opens then trim written.dropLast else written
    some ((namesOf (m.group 1)).map fun name => (.named, ⟨name, type, m.group 3, pending⟩),
      if opens then braceBalance code else 0)
  | none =>
    (embeddedPattern.matchStart code).map fun m =>
      let type := trim (before [backtick] code)
      ([(.embedded, ⟨lastPiece '.' (m.group 1), type, m.group 2, pending⟩)], 0)

/-- The fields of one piece of a body, and what is left to the next piece. -/
def readPiece (s : MemberState) (raw : Text) : List (FieldForm × StructField) × MemberState :=
  let text := trim raw
  if s.nested ≠ 0 then ([], { s with nested := s.nested + braceBalance text })
  else if text.isEmpty then ([], s)
  else
    match lineComment? text with
    | some comment => ([], { s with pending := s.pending ++ [comment] })
    | none =>
      match readMember s.pending (stripLineComment text) with
      | some (fields, nested) => (fields, ⟨nested, []⟩)
      | none => ([], s)

/-- The fields of pieces of a body, and what is left to those after them. -/
def readPieces : MemberState → List Text → List (FieldForm × StructField) × MemberState
  | s, [] => ([], s)
  | s, piece :: rest =>
    let first := readPiece s piece
    let more := readPieces first.2 rest
    (first.1 ++ more.1, more.2)

/-- The names that are written, those of embedded types left out. -/
def writtenNames (fields : List (FieldForm × StructField)) : List Text :=
  (fields.filter (·.1 = .named)).map (·.2.name)

theorem writtenNames_append (fields more : List (FieldForm × StructField)) :
    writtenNames (fields ++ more) = writtenNames fields ++ writtenNames more := by
  unfold writtenNames
  rw [List.filter_append, List.map_append]

theorem writtenNames_named (names : List Text) (f : Text → StructField)
    (hf : ∀ name, (f name).name = name) :
    writtenNames (names.map fun name => (.named, f name)) = names := by
  induction names with
  | nil => rfl
  | cons name names ih =>
      unfold writtenNames at ih ⊢
      rw [List.map_cons, List.filter_cons_of_pos (by rfl), List.map_cons, ih, hf]

theorem readPieces_append (s : MemberState) (pieces more : List Text) :
    readPieces s (pieces ++ more)
      = ((readPieces s pieces).1 ++ (readPieces (readPieces s pieces).2 more).1,
          (readPieces (readPieces s pieces).2 more).2) := by
  induction pieces generalizing s with
  | nil => rfl
  | cons piece pieces ih =>
      rw [List.cons_append, readPieces, readPieces, ih]
      dsimp only
      rw [List.append_assoc]

theorem readPieces_singleton (s : MemberState) (piece : Text) :
    readPieces s [piece] = readPiece s piece := Prod.ext (List.append_nil _) rfl

/-- A piece that is no comment gives what is written in its code. -/
theorem readPiece_code {s : MemberState} {raw : Text} (hnested : s.nested = 0)
    (hempty : ¬(trim raw).isEmpty = true) (hcomment : lineComment? (trim raw) = none) :
    readPiece s raw
      = match readMember s.pending (stripLineComment (trim raw)) with
        | some (fields, nested) => (fields, ⟨nested, []⟩)
        | none => ([], s) := by
  unfold readPiece
  dsimp only
  rw [if_neg (not_not_intro hnested), if_neg hempty, hcomment]

/-- Without their forms the fields are those that a struct is declared with. -/
theorem readPieces_fields (nested : Int) (pending pieces : List Text) :
    (readPieces ⟨nested, pending⟩ pieces).1.map (·.2) = fieldsFrom nested pending pieces := by
  -- What one step gives is put before what the later ones give.
  have hstep : ∀ {s : MemberState} {piece : Text} {rest : List Text}
      {r : List (FieldForm × StructField) × MemberState}, readPiece s piece = r →
        (readPieces s (piece :: rest)).1.map (·.2)
          = r.1.map (·.2) ++ (readPieces r.2 rest).1.map (·.2) := by
    rintro s piece rest r rfl
    exact List.map_append
  fun_induction fieldsFrom nested pending pieces with
  | case1 => rfl
  | case2 nested pending raw rest text hnested ih =>
      have hpiece : readPiece ⟨nested, pending⟩ raw
          = ([], ⟨nested + braceBalance text, pending⟩) := if_pos hnested
      rw [hstep hpiece]
      exact ih
  | case3 nested pending raw rest text hnested hempty ih =>
      obtain rfl := Decidable.not_not.1 hnested
      have hpiece : readPiece ⟨0, pending⟩ raw = ([], ⟨0, pending⟩) := if_pos hempty
      rw [hstep hpiece]
      exact ih
  | case4 nested pending raw rest text hnested hempty comment hcomment ih =>
      obtain rfl := Decidable.not_not.1 hnested
      have hpiece : readPiece ⟨0, pending⟩ raw = ([], ⟨0, pending ++ [comment]⟩) := by
        unfold readPiece
        dsimp only
        rw [if_neg hnested, if_neg hempty, hcomment]
      rw [hstep hpiece]
      exact ih
  | case5 nested pending raw rest text hnested hempty hcomment code m hm written opens type ih =>
      obtain rfl := Decidable.not_not.1 hnested
      have hmember : readMember pending code
          = some ((namesOf (m.group 1)).map fun name => (.named, ⟨name, type, m.group 3, pending⟩),
              if opens then braceBalance code else 0) := by
        unfold readMember
        rw [hm]
      have hpiece := @readPiece_code ⟨0, pending⟩ raw rfl hempty hcomment
      rw [hmember] at hpiece
      rw [hstep hpiece, List.map_map, ih]
      rfl
  | case6 nested pending raw rest text hnested hempty hcomment code hfield m hm ih =>
      obtain rfl := Decidable.not_not.1 hnested
      have hmember : readMember pending code
          = some ([(.embedded, ⟨lastPiece '.' (m.group 1), trim (before [backtick] code),
              m.group 2, pending⟩)], 0) := by
        unfold readMember
        rw [hfield, hm]
        rfl
      have hpiece := @readPiece_code ⟨0, pending⟩ raw rfl hempty hcomment
      rw [hmember] at hpiece
      rw [hstep hpiece, ih]
      rfl
  | case7 nested pending raw rest text hnested hempty hcomment code hfield hembedded ih =>
      obtain rfl := Decidable.not_not.1 hnested
      have hmember : readMember pending code = none := by
        unfold readMember
        rw [hfield, hembedded]
        rfl
      have hpiece := @readPiece_code ⟨0, pending⟩ raw rfl hempty hcomment
      rw [hmember] at hpiece
      rw [hstep hpiece]
      exact ih

/-- The fields of a struct with their forms. -/
def formedFields (content : Text) : List (FieldForm × StructField) :=
  (readPieces {} (bodyPieces content)).1

theorem fields_of_parseStruct? {content : Text} {line : Nat} {comments : List Text}
    {d : StructDecl} (h : parseStruct? content line comments = some d) :
    d.fields = (formedFields content).map (·.2) := by
  obtain ⟨m, -, rfl⟩ := Option.map_eq_some_iff.1 h
  exact (readPieces_fields 0 [] (bodyPieces content)).symm

-- ============================================================== one line

/-- The line of a field begins with a list of names and a blank. -/
theorem field_line {code : Text} {m : Match} (hm : fieldPattern.matchStart code = some m) :
    ∃ names b more, NameList names (m.group 1) ∧ isBlank b = true ∧
      code = m.group 1 ++ b :: more := by
  obtain ⟨s, hs, rfl⟩ := exists_reading_of_matchAt hm
  unfold fieldPattern at hs
  simp only [readings_assoc, readings_atStart] at hs
  obtain ⟨s₁, hlist, hs⟩ := mem_readings_seq.1 hs
  obtain ⟨s₂, hs₂, rfl⟩ := mem_readings_group.1 hlist
  obtain ⟨names, list, hlist, htaken⟩ := takes_nameList hs₂
  obtain ⟨s₃, hgap, -⟩ := mem_readings_seq.1 hs
  obtain ⟨gap, hne, hgapRest, hgap, -⟩ := mem_readings_run1.1 hgap
  obtain ⟨b, gap, rfl⟩ := List.exists_cons_of_ne_nil hne
  have htexts : (s₂.remember 1 ⟨Cursor.start code, []⟩).texts = [(1, list)] := by
    rw [texts_remember 1 htaken.ahead htaken.cursor, texts_of_reading_none rfl hs₂]
    rfl
  have hgroup : (Match.ofState (Cursor.start code) s).group 1 = list := by
    rw [group_ofState, lookup_texts_of_reading hs (by decide), htexts]
    rfl
  have hcode : code = list ++ s₂.cursor.rest := by
    have hrest := Cursor.rest_eq_append htaken.ahead
    rw [← htaken.cursor] at hrest
    exact hrest
  have hrest : s₂.cursor.rest = b :: (gap ++ (s₂.cursor.advance (b :: gap)).rest) :=
    Cursor.rest_eq_append hgapRest
  rw [hrest] at hcode
  rw [hgroup]
  exact ⟨names, b, _, hlist, hgap b List.mem_cons_self, hcode⟩

/-- A piece with written names begins with a list of them and a blank. -/
theorem names_of_readPiece {s : MemberState} {raw : Text}
    (h : writtenNames (readPiece s raw).1 ≠ []) :
    ∃ list b more, NameList (writtenNames (readPiece s raw).1) list ∧ isBlank b = true ∧
      trim raw = list ++ b :: more := by
  by_cases hcode : s.nested = 0 ∧ ¬(trim raw).isEmpty = true ∧ lineComment? (trim raw) = none
  · obtain ⟨hnested, hempty, hcomment⟩ := hcode
    rw [readPiece_code hnested hempty hcomment] at h ⊢
    unfold readMember at h ⊢
    cases hm : fieldPattern.matchStart (stripLineComment (trim raw)) with
    | some m =>
        obtain ⟨names, b, more, hnames, hb, hcode⟩ := field_line hm
        obtain ⟨comment, hcomment⟩ := stripLineComment_isPrefix (trim raw)
        dsimp only
        rw [writtenNames_named _ _ fun _ => rfl, namesOf_nameList hnames]
        refine ⟨_, b, more ++ comment, hnames, hb, ?_⟩
        rw [← hcomment, hcode]
        simp
    | none =>
        rw [hm] at h
        cases hembedded : embeddedPattern.matchStart (stripLineComment (trim raw)) with
        | some m => rw [hembedded] at h; exact absurd rfl h
        | none => rw [hembedded] at h; exact absurd rfl h
  · refine absurd ?_ h
    unfold readPiece
    dsimp only
    split
    · rfl
    · next hnested =>
      split
      · rfl
      · next hempty =>
        split
        · rfl
        · next hcomment => exact absurd ⟨Decidable.not_not.1 hnested, hempty, hcomment⟩ hcode

/-- A line without a semicolon that declares one field at most has no written name, or begins with
it. -/
theorem name_of_line {s : MemberState} {line : Text} (hsemicolon : ';' ∉ line)
    (hone : (writtenNames (readPieces s (linePieces line)).1).length ≤ 1) :
    writtenNames (readPieces s (linePieces line)).1 = [] ∨
      ∃ name b more, writtenNames (readPieces s (linePieces line)).1 = [name] ∧
        isWordText name = true ∧ isBlank b = true ∧ trim line = name ++ b :: more := by
  have hpieces : linePieces line = [line] ∨ linePieces line = [] := by
    unfold linePieces
    split
    · exact .inl rfl
    · rw [splitOn_of_not_mem hsemicolon, List.filter_singleton]
      cases isBlankText line with
      | false => exact .inl rfl
      | true => exact .inr rfl
  rcases hpieces with hpieces | hpieces
  · rw [hpieces, readPieces_singleton] at hone ⊢
    by_cases hnone : writtenNames (readPiece s line).1 = []
    · exact .inl hnone
    · obtain ⟨list, b, more, hnames, hb, hline⟩ := names_of_readPiece hnone
      generalize writtenNames (readPiece s line).1 = names at hone hnames ⊢
      obtain ⟨hname, hmore⟩ := hnames
      cases hmore with
      | nil =>
          rw [List.append_nil] at hline
          exact .inr ⟨_, b, more, rfl, hname, hb, hline⟩
      | cons => exact absurd hone (by simp)
  · rw [hpieces]
    exact .inl rfl

end GoSurvey.Declaration
