/-
Structs with a line for each of their fields. The braces that are found
are those around the fields, whatever stands in the tags
(`passedOver_fieldLine`), and between them stand the lines of the fields.
So the fields come back as they are written, but for those whose line is
cut within the tag (`parseStruct?_structText`).
-/
import GoSurvey.Proofs.Declaration.FieldLine
import GoSurvey.Proofs.Declaration.TypeText

namespace GoSurvey.Declaration

open Text Source Pattern DelimiterScan

-- ======================================================= the text of a struct

/-- The text of a struct with a line for each of its fields. -/
def structText (name : Text) (fields : List StructField) : Text :=
  joinLines (("type ".toList ++ (name ++ " struct \x7b".toList)) :: fields.map fieldLine ++ [['}']])

variable {f : StructField} {fields : List StructField} {name : Text}

theorem structText_eq (name : Text) (fields : List StructField) :
    structText name fields = typeText "struct" name (fields.map fieldLine) := rfl

/-- A scan for braces passes over the line of a field, whatever stands in its tag. -/
theorem passedOver_fieldLine (h : IsTagged f) : PassedOver (fieldLine f) := by
  refine ⟨h.newline_not_mem, fun after offset depth p _ => ?_⟩
  have hopener : braces.opener ∉ fieldCode f := h.spaced.not_mem (by decide) (by decide)
  have hcloser : braces.closer ∉ fieldCode f := h.spaced.not_mem (by decide) (by decide)
  have hline : fieldLine f ++ newline :: after
      = fieldCode f ++ backtick :: (f.tag ++ backtick :: (newline :: after)) := by
    simp [fieldLine]
  have hlength : (fieldLine f).length = (fieldCode f).length + (f.tag.length + 2) := by
    simp only [fieldLine, List.length_append, List.length_cons, List.length_nil]
  have hnewline : ∀ offset, run braces false (newline :: after) offset ⟨.code, depth, some p⟩
      = run braces false after (offset + 1) ⟨.code, depth, some p⟩ := fun offset =>
    run_append_plain (t := [newline]) (by decide) (by
      rintro x ⟨⟩ y _ hmark
      exact absurd hmark.1 (by decide)) (by decide) (by decide) offset depth (some p)
  rw [hline, run_append_plain h.spaced.bare (h.spaced.joins _) hopener hcloser,
    run_rawLiteral depth (some p) h.raw, hnewline, hlength]
  congr 1
  omega

/-- A struct is cut into the pieces of the lines of its fields. -/
theorem bodyPieces_structText (hname : isWordText name = true) (h : ∀ f ∈ fields, IsTagged f) :
    bodyPieces (structText name fields) = fields.flatMap fun f => linePieces (fieldLine f) := by
  have hlines : ∀ line ∈ fields.map fieldLine, PassedOver line := by
    intro line hline
    obtain ⟨f, hf, rfl⟩ := List.mem_map.1 hline
    exact passedOver_fieldLine (h f hf)
  rw [structText_eq, bodyPieces_typeText isKeyword_struct hname hlines, List.flatMap_map]

/-- A struct with a line for each of its fields is read. -/
theorem exists_parseStruct? (hname : isWordText name = true) (h : ∀ f ∈ fields, IsTagged f)
    (line : Nat) (comments : List Text) :
    ∃ d, parseStruct? (structText name fields) line comments = some d ∧
      d.fields = fieldsFrom 0 [] (fields.flatMap fun f => linePieces (fieldLine f)) := by
  obtain ⟨m, hm, -⟩ := search_typeText isKeyword_struct hname (fields.map fieldLine)
  unfold parseStruct?
  rw [structText_eq, hm, Option.map_some, ← structText_eq, bodyPieces_structText hname h]
  exact ⟨_, rfl, rfl⟩

/-- The fields of a struct come back with their names, types and tags if none of the tags is torn;
no field comes back with a torn tag. -/
theorem parseStruct?_structText (hname : isWordText name = true) (h : ∀ f ∈ fields, IsTagged f)
    (line : Nat) (comments : List Text) :
    ∃ d, parseStruct? (structText name fields) line comments = some d ∧
      ((∀ f ∈ fields, ¬IsTorn f) → d.fields = fields) ∧
      ∀ f ∈ fields, IsTorn f → ∀ g ∈ d.fields, g.tag ≠ f.tag := by
  obtain ⟨d, hd, hfields⟩ := exists_parseStruct? hname h line comments
  refine ⟨d, hd, fun hwhole => ?_, fun f hf htorn g hg => ?_⟩
  · rw [hfields]
    clear hd hfields
    induction fields with
    | nil => rfl
    | cons f fields ih =>
        rw [List.forall_mem_cons] at h hwhole
        rw [List.flatMap_cons, linePieces_fieldLine h.1 hwhole.1, List.singleton_append,
          fieldsFrom_fieldLine h.1, ih h.2 hwhole.2]
  · rw [hfields] at hg
    obtain ⟨piece, hpiece, htag⟩ := exists_piece_of_mem_fieldsFrom hg
    obtain ⟨f', hf', hpiece⟩ := List.mem_flatMap.1 hpiece
    rw [htag]
    rcases tagOf_of_mem_linePieces (h f' hf') hpiece with ⟨hsame, hmark⟩ | hnot
    · intro htags
      rw [hsame] at htags
      rw [htags, htorn.2] at hmark
      cases hmark
    · exact fun htags => hnot (htags ▸ htorn.1)

/-- A field with two options in its tag, as a mapping to a database table has them. -/
def keyField : StructField := ⟨"ID", "int", "gorm:\x22column:id;primaryKey\x22", []⟩

/-- A field with braces, a quote, a semicolon and the mark of a comment in its tag. -/
def hostsField : StructField := ⟨"Hosts", "[]*net.Addr", "default:\x22\x7d\x7b\x22; //\x22", []⟩

theorem parseStruct?_keyField :
    isWordText "User" = true ∧ (∀ f ∈ [hostsField, keyField], IsTagged f) ∧
      ¬IsTorn hostsField ∧ IsTorn keyField ∧
      (∃ d, parseStruct? (structText "User" [hostsField]) 1 [] = some d ∧ d.fields = [hostsField]) ∧
      ∃ d, parseStruct? (structText "User" [hostsField, keyField]) 1 [] = some d ∧
        d.fields ≠ [hostsField, keyField] := by
  have hname : isWordText "User" = true := by decide
  have hall : ∀ f ∈ [hostsField, keyField], IsTagged f := by decide
  have hwhole : ¬IsTorn hostsField := by decide
  have htorn : IsTorn keyField := by decide
  have hhosts : ∀ f ∈ [hostsField], IsTagged f := by decide
  obtain ⟨d, hd, hback, -⟩ := parseStruct?_structText hname hhosts 1 []
  obtain ⟨d', hd', -, hlost⟩ := parseStruct?_structText hname hall 1 []
  have hmem : keyField ∈ [hostsField, keyField] := by simp
  refine ⟨hname, hall, hwhole, htorn, ⟨d, hd, hback (List.forall_mem_singleton.2 hwhole)⟩, d', hd',
    fun hsame => ?_⟩
  exact hlost keyField hmem htorn keyField (hsame ▸ hmem) rfl

end GoSurvey.Declaration
