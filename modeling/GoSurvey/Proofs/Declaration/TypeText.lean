/-
Structs and interfaces that are written with their members on lines of
their own. A scan that is inside the braces passes over each line of a
member whatever stands in it (`PassedOver`), so the braces that are found
are those around the members (`findMatching?_typeText`), and what the
body is cut into are the pieces of these lines (`bodyPieces_typeText`).
-/
import GoSurvey.Proofs.Declaration.ParameterList
import GoSurvey.Proofs.Declaration.TypeName
import GoSurvey.Proofs.Source.Squeeze

namespace GoSurvey.Declaration

open Text Source Pattern DelimiterScan

-- ========================================================= the text of a type

/-- The text of a type with lines between its braces. -/
def typeText (keyword name : Text) (members : List Text) : Text :=
  joinLines (("type ".toList ++ (name ++ ' ' :: (keyword ++ " \x7b".toList))) :: members ++ [['}']])

/-- What stands in such a text before its opening brace. -/
def typeHead (keyword name : Text) : Text := "type ".toList ++ (name ++ ' ' :: (keyword ++ [' ']))

/-- Lines, each with the newline that ends it. -/
def endedLines (members : List Text) : Text := members.flatMap (· ++ [newline])

/-- The pieces of a line of a body. -/
def linePieces (line : Text) : List Text :=
  if contains lineMark line then [line]
  else (splitOn ';' line).filter fun piece => !isBlankText piece

/-- A line that a scan for braces passes over where some are open. -/
structure PassedOver (line : Text) : Prop where
  newline_not_mem : newline ∉ line
  run : ∀ (after : Text) (offset depth p : Nat), 0 < depth →
    run braces false (line ++ newline :: after) offset ⟨.code, depth, some p⟩
      = run braces false after (offset + line.length + 1) ⟨.code, depth, some p⟩

variable {keyword name : Text} {members : List Text}

theorem typeText_eq (keyword name : Text) (members : List Text) :
    typeText keyword name members
      = typeHead keyword name ++ '{' :: (newline :: (endedLines members ++ ['}'])) := by
  unfold typeText typeHead endedLines joinLines
  rw [join_around, List.flatMap_cons]
  simp

theorem lines_endedLines (h : ∀ line ∈ members, PassedOver line) :
    lines (newline :: endedLines members) = [] :: (members ++ [[]]) := by
  have hjoin : newline :: endedLines members = join [newline] (([] :: members) ++ [[]]) := by
    rw [join_around, List.flatMap_cons]
    simp [endedLines]
  unfold lines
  rw [hjoin]
  refine splitOn_join (by simp) fun piece hpiece => ?_
  simp only [List.cons_append, List.mem_cons, List.mem_append, List.not_mem_nil, or_false]
    at hpiece
  rcases hpiece with rfl | hline | rfl
  · exact List.not_mem_nil
  · exact (h piece hline).newline_not_mem
  · exact List.not_mem_nil

-- ================================================ before the opening brace

/-- What stands before the opening brace of a type of a name. -/
inductive IsTypeHead (keyword name : Text) : Text → Prop where
  | mk {g₁ g₂ g₃ : Text} (hne₁ : g₁ ≠ []) (h₁ : ∀ c ∈ g₁, isBlank c = true) (hne₂ : g₂ ≠ [])
      (h₂ : ∀ c ∈ g₂, isBlank c = true) (h₃ : ∀ c ∈ g₃, isBlank c = true) :
      IsTypeHead keyword name ("type".toList ++ (g₁ ++ (name ++ (g₂ ++ (keyword ++ g₃)))))

theorem isTypeHead_typeHead (keyword name : Text) :
    IsTypeHead keyword name (typeHead keyword name) := by
  have hspace : ∀ c ∈ [' '], isBlank c = true := List.forall_mem_singleton.2 (by decide)
  exact .mk (List.cons_ne_nil _ _) hspace (List.cons_ne_nil _ _) hspace hspace

namespace IsTypeHead

variable {head : Text}

/-- The characters of a head are those of words, and blanks. -/
theorem plain (h : IsTypeHead keyword name head) (hkeyword : IsKeyword keyword)
    (hname : isWordText name = true) : ∀ c ∈ head, isWord c = true ∨ isBlank c = true := by
  obtain @⟨g₁, g₂, g₃, -, h₁, -, h₂, h₃⟩ := h
  obtain ⟨-, hword⟩ := isWordText_iff.1 hname
  have htype : ∀ c ∈ "type".toList, isWord c = true := List.all_eq_true.1 (by decide)
  intro c hc
  simp only [List.mem_append] at hc
  rcases hc with hc | hc | hc | hc | hc | hc
  · exact .inl (htype c hc)
  · exact .inr (h₁ c hc)
  · exact .inl (hword c hc)
  · exact .inr (h₂ c hc)
  · exact .inl (hkeyword.word c hc)
  · exact .inr (h₃ c hc)

theorem not_mem (h : IsTypeHead keyword name head) (hkeyword : IsKeyword keyword)
    (hname : isWordText name = true) {c : Char} (hword : isWord c = false)
    (hblank : isBlank c = false) : c ∉ head := by
  intro hc
  rcases h.plain hkeyword hname c hc with hc | hc
  · rw [hword] at hc
    cases hc
  · rw [hblank] at hc
    cases hc

/-- A head begins no literal and no comment. -/
theorem bare (h : IsTypeHead keyword name head) (hkeyword : IsKeyword keyword)
    (hname : isWordText name = true) : Bare (head ++ ['{']) := by
  refine bare_of_no_slash fun c hc => ?_
  rcases List.mem_append.1 hc with hc | hc
  · refine ⟨?_, fun hslash => h.not_mem hkeyword hname (by decide) (by decide) (hslash ▸ hc)⟩
    rcases h.plain hkeyword hname c hc with hword | hblank
    · exact isQuote_eq_false_of_isWord hword
    · exact not_isQuote_of_isBlank hblank
  · obtain rfl := List.mem_singleton.1 hc
    decide

/-- Behind `type` a head has the name with the keyword after it. -/
theorem named (h : IsTypeHead keyword name head) (hname : isWordText name = true) (rest : Text) :
    ∃ gap u, gap ≠ [] ∧ (∀ c ∈ gap, isBlank c = true) ∧ Named keyword name u ∧
      head ++ '{' :: rest = "type".toList ++ (gap ++ u) := by
  obtain @⟨g₁, g₂, g₃, hne₁, h₁, hne₂, h₂, h₃⟩ := h
  obtain ⟨hne, hword⟩ := isWordText_iff.1 hname
  have hafter : ∀ c ∈ (g₃ ++ '{' :: rest).head?, isWord c = false := by
    cases g₃ with
    | nil =>
        rintro c ⟨⟩
        decide
    | cons b g₃ =>
        rintro c ⟨⟩
        exact not_isWord_of_isBlank (h₃ b List.mem_cons_self)
  refine ⟨g₁, name ++ ([] ++ (g₂ ++ (keyword ++ (g₃ ++ '{' :: rest)))), hne₁, h₁,
    ⟨hne, hword, _, .mk .none hne₂ h₂ hafter, rfl⟩, ?_⟩
  simp only [List.append_assoc, List.nil_append]

end IsTypeHead

-- ============================================================ its braces

theorem run_endedLines (h : ∀ line ∈ members, PassedOver line) (after : Text)
    (offset depth p : Nat) (hdepth : 0 < depth) :
    run braces false (endedLines members ++ after) offset ⟨.code, depth, some p⟩
      = run braces false after (offset + (endedLines members).length) ⟨.code, depth, some p⟩ := by
  induction members generalizing offset with
  | nil => rfl
  | cons line members ih =>
      rw [List.forall_mem_cons] at h
      have hline : endedLines (line :: members) = (line ++ [newline]) ++ endedLines members := rfl
      have hcons : endedLines (line :: members) ++ after
          = line ++ newline :: (endedLines members ++ after) := by simp [hline]
      rw [hcons, h.1.run _ _ _ _ hdepth, ih h.2, hline, List.length_append, List.length_append,
        List.length_singleton, Nat.add_assoc, Nat.add_assoc, Nat.add_assoc]

/-- The braces that are found are those around the members. -/
theorem findMatching?_typeText (hkeyword : IsKeyword keyword) (hname : isWordText name = true)
    (h : ∀ line ∈ members, PassedOver line) :
    findMatching? braces (typeText keyword name members) 0
      = some ((typeHead keyword name).length,
          (typeHead keyword name).length + 1 + (newline :: endedLines members).length) := by
  have hhead := isTypeHead_typeHead keyword name
  have hbare : Bare (typeHead keyword name) :=
    (hhead.bare hkeyword hname).part (List.prefix_append _ _).isInfix
  have hnot : ∀ {d : Char}, isWord d = false → isBlank d = false → d ∉ typeHead keyword name :=
    hhead.not_mem hkeyword hname
  have hslash : '/' ∉ typeHead keyword name := hnot (by decide) (by decide)
  have hopen : ∀ rest offset, run braces false ('{' :: newline :: rest) offset {}
      = run braces false rest (offset + 2) ⟨.code, 1, some offset⟩ := fun rest offset => rfl
  rw [findMatching?_eq_found, List.drop_zero, typeText_eq,
    run_append_plain hbare (fun x hx y _ hmark => hslash (hmark.1 ▸ List.mem_of_mem_getLast? hx))
      (hnot (by decide) (by decide)) (hnot (by decide) (by decide)),
    hopen, run_endedLines h _ _ _ _ Nat.one_pos]
  refine congrArg some (Prod.ext (Nat.zero_add _) ?_)
  show 0 + (typeHead keyword name).length + 2 + (endedLines members).length
    = (typeHead keyword name).length + 1 + ((endedLines members).length + 1)
  omega

/-- The pieces of a text are those of the lines between its braces. -/
theorem bodyPieces_eq {head body : Text}
    (h : findMatching? braces (head ++ '{' :: (body ++ ['}'])) 0
      = some (head.length, head.length + 1 + body.length)) :
    bodyPieces (head ++ '{' :: (body ++ ['}'])) = (lines body).flatMap linePieces := by
  unfold bodyPieces
  rw [h]
  dsimp only
  rw [slice_after_cons]
  rfl

/-- The body is cut into the pieces of the lines of the members. -/
theorem bodyPieces_typeText (hkeyword : IsKeyword keyword) (hname : isWordText name = true)
    (h : ∀ line ∈ members, PassedOver line) :
    bodyPieces (typeText keyword name members) = members.flatMap linePieces := by
  have hempty : linePieces [] = [] := rfl
  have hbraces := findMatching?_typeText hkeyword hname h
  rw [typeText_eq, ← List.cons_append] at hbraces
  rw [typeText_eq, ← List.cons_append, bodyPieces_eq hbraces, lines_endedLines h,
    List.flatMap_cons, List.flatMap_append, List.flatMap_singleton, hempty, List.nil_append,
    List.append_nil]

-- ============================================================== its name

/-- The name is found before the keyword; only a type that is named as the keyword is lost to
`type`. -/
theorem search_typeText (hkeyword : IsKeyword keyword) (hname : isWordText name = true)
    (members : List Text) :
    ∃ m, (nameBefore keyword).search (typeText keyword name members) = some m ∧
      (name ≠ keyword → m.group 1 = name) := by
  obtain ⟨gap, u, hne, hgap, hnamed, htext⟩ := (isTypeHead_typeHead keyword name).named hname
    (newline :: (endedLines members ++ ['}']))
  rw [← typeText_eq] at htext
  by_cases hother : name = keyword
  · obtain ⟨found, hheading⟩ := IsTypeLine.heading ⟨gap, name, u, hne, hgap, hnamed, htext⟩
    obtain ⟨m, hm, -⟩ := search_heading hkeyword hheading
    exact ⟨m, hm, fun hne => absurd hother hne⟩
  · have hheading : Heading keyword name ("type".toList ++ (gap ++ u)) :=
      @Heading.line _ _ [] _ _ (List.forall_mem_nil _) hne hgap hnamed hother
    obtain ⟨m, hm, hgroup⟩ := search_heading hkeyword hheading
    exact ⟨m, htext ▸ hm, fun _ => hgroup⟩

end GoSurvey.Declaration
