/-
Parameter lists, each part by itself. A part that is a name and a type is
a parameter with both; a single word takes the type of the next part that
is no single word, if that has one to give, and is a type itself where it
does not; any other part is a type (`Gives`).

The list is read in one pass that holds single words back until it knows
what they are. What it holds back is what looking ahead from each of them
gives (`assignTypes_eq`), so there is one parameter for each part, in
order (`parseParameters_spec`).
-/
import GoSurvey.Proofs.Declaration.ParameterList
import GoSurvey.Proofs.Source.Split

namespace GoSurvey.Declaration

open Text Source

-- ======================================================== kinds of parts

/-- A part that is a name, blanks and a type. -/
structure IsNamed (part name type : Text) : Prop where
  ne_nil : name ≠ []
  word : ∀ c ∈ name, isWord c = true
  keyword : name ∉ typeKeywords
  type_ne_nil : type ≠ []
  type_head : ∀ c ∈ type.head?, isBlank c = false
  apart : ∃ gap, gap ≠ [] ∧ (∀ c ∈ gap, isBlank c = true) ∧ part = name ++ (gap ++ type)

/-- A part that is a single word. -/
def IsBare (part : Text) : Prop := part ≠ [] ∧ ∀ c ∈ part, isWord c = true

variable {part name type : Text} {parts rest : List Text}

theorem IsNamed.exists_blank (h : IsNamed part name type) : ∃ c ∈ part, isBlank c = true := by
  obtain ⟨gap, hne, hgap, rfl⟩ := h.apart
  obtain ⟨c, hc⟩ := List.exists_mem_of_ne_nil gap hne
  exact ⟨c, by simp [hc], hgap c hc⟩

theorem IsNamed.not_isBare (h : IsNamed part name type) : ¬IsBare part := by
  rintro ⟨-, hword⟩
  obtain ⟨c, hc, hblank⟩ := h.exists_blank
  rw [not_isBlank_of_isWord (hword c hc)] at hblank
  cases hblank

/-- The name is the first word of the part, and the type is what follows it. -/
theorem IsNamed.eq_first {word gap after : Text} (h : IsNamed part name type)
    (hword : ∀ c ∈ word, isBlank c = false) (hgap : ∀ c ∈ gap, isBlank c = true)
    (hne : gap ≠ []) (hafter : ∀ c ∈ after.head?, isBlank c = false)
    (hpart : part = word ++ (gap ++ after)) : name = word ∧ type = after := by
  obtain ⟨gap', hne', hgap', hpart'⟩ := h.apart
  have hblank : ∀ {g t : Text}, g ≠ [] → (∀ c ∈ g, isBlank c = true) →
      ∀ c ∈ (g ++ t).head?, (!isBlank c) = false := by
    intro g t hg hall c hc
    rw [List.head?_append_of_ne_nil g hg] at hc
    rw [hall c (List.mem_of_head? hc)]
    rfl
  have hname : ∀ c ∈ name, (!isBlank c) = true := fun c hc => by
    rw [not_isBlank_of_isWord (h.word c hc)]
    rfl
  have hword' : ∀ c ∈ word, (!isBlank c) = true := fun c hc => by
    rw [hword c hc]
    rfl
  obtain ⟨rfl, hrest⟩ := run_inj hname hword' (hblank hne' hgap') (hblank hne hgap)
    (hpart'.symm.trans hpart)
  exact ⟨rfl, (run_inj hgap' hgap h.type_head hafter hrest).2⟩

theorem IsNamed.unique {name' type' : Text} (h : IsNamed part name type)
    (h' : IsNamed part name' type') : name = name' ∧ type = type' := by
  obtain ⟨gap, hne, hgap, hpart⟩ := h'.apart
  exact h.eq_first (fun c hc => not_isBlank_of_isWord (h'.word c hc)) hgap hne h'.type_head hpart

/-- A trimmed text is one word, or a word, blanks and the rest. -/
theorem firstWord?_cases (htrim : Trimmed part) (hne : part ≠ []) :
    (∃ word, firstWord? part = some (word, none) ∧ ∀ c ∈ part, isBlank c = false) ∨
      ∃ word gap after, firstWord? part = some (word, some after) ∧ part = word ++ (gap ++ after) ∧
        (∀ c ∈ word, isBlank c = false) ∧ gap ≠ [] ∧ (∀ c ∈ gap, isBlank c = true) ∧
        after ≠ [] ∧ Trimmed after := by
  obtain ⟨first, others, hcons⟩ := List.exists_cons_of_ne_nil hne
  have hword : firstWord? part = some (part.takeWhile (!isBlank ·),
      if (trimStart (part.dropWhile (!isBlank ·))).isEmpty then none
      else some (trimStart (part.dropWhile (!isBlank ·)))) := by
    unfold firstWord?
    rw [trimStart_eq_self htrim.first, hcons]
  have hsplit := List.takeWhile_append_dropWhile (p := (!isBlank ·)) (l := part)
  have hblank := List.head?_dropWhile_not (!isBlank ·) part
  have hvisible : ∀ c ∈ part.takeWhile (!isBlank ·), isBlank c = false := fun c hc => by
    simpa using List.mem_takeWhile_imp hc
  generalize part.takeWhile (!isBlank ·) = word at hword hsplit hvisible
  generalize part.dropWhile (!isBlank ·) = tail at hword hsplit hblank
  have hgap := List.takeWhile_append_dropWhile (p := isBlank) (l := tail)
  have hafter := List.head?_dropWhile_not isBlank tail
  cases hrest : tail.dropWhile isBlank with
  | nil =>
      left
      have hstart : trimStart tail = [] := hrest
      rw [hstart] at hword
      refine ⟨word, hword, ?_⟩
      -- A blank in the text would be the last character as well.
      cases htail : tail.getLast? with
      | none =>
          rw [List.getLast?_eq_none_iff.1 htail, List.append_nil] at hsplit
          exact hsplit ▸ hvisible
      | some last =>
          have hlast := htrim.last last (by
            rw [← hsplit, List.getLast?_append, htail]
            rfl)
          rw [List.dropWhile_eq_nil_iff.1 hrest last (List.mem_of_getLast? htail)] at hlast
          cases hlast
  | cons c after =>
      right
      have hstart : trimStart tail = c :: after := hrest
      rw [hstart] at hword
      rw [hrest] at hgap hafter
      refine ⟨word, tail.takeWhile isBlank, c :: after, hword, by rw [hgap, hsplit], hvisible, ?_,
        fun c hc => List.mem_takeWhile_imp hc, List.cons_ne_nil c after, ?_, ?_⟩
      · intro hnil
        rw [hnil, List.nil_append] at hgap
        rw [← hgap] at hblank
        have hc : isBlank c = true := by simpa using hblank
        rw [List.head?_cons] at hafter
        simp [hc] at hafter
      · rintro d ⟨⟩
        simpa using hafter
      · intro d hd
        refine htrim.last d ?_
        rw [← hsplit, ← hgap, List.getLast?_append, List.getLast?_append, Option.mem_def.1 hd]
        rfl

/-- What a part is read as is what it is. -/
theorem ofText_cases (htrim : Trimmed part) (hne : part ≠ []) :
    (∃ name type, IsNamed part name type ∧ ParameterPart.ofText part = .named name type) ∨
      (IsBare part ∧ ParameterPart.ofText part = .bare part) ∨
      (¬IsBare part ∧ (∀ name type, ¬IsNamed part name type) ∧
        ParameterPart.ofText part = .type part) := by
  unfold ParameterPart.ofText
  rcases firstWord?_cases htrim hne with
    ⟨word, hfirst, hvisible⟩ | ⟨word, gap, after, hfirst, hpart, hword, hgap, hblank, hafter, htail⟩
  · rw [hfirst]
    have hnamed : ∀ name type, ¬IsNamed part name type := by
      intro name type h
      obtain ⟨c, hc, hblank⟩ := h.exists_blank
      rw [hvisible c hc] at hblank
      cases hblank
    dsimp only
    by_cases hbare : isWordText part = true
    · rw [if_pos hbare]
      exact .inr (.inl ⟨isWordText_iff.1 hbare, rfl⟩)
    · rw [if_neg hbare]
      exact .inr (.inr ⟨fun h => hbare (isWordText_iff.2 h), hnamed, rfl⟩)
  · rw [hfirst]
    dsimp only
    by_cases hname : (isWordText word && !typeKeywords.contains word) = true
    · left
      rw [if_pos hname, htail.trim_eq]
      simp only [Bool.and_eq_true, Bool.not_eq_true', List.contains_eq_mem,
        decide_eq_false_iff_not] at hname
      obtain ⟨hne, hall⟩ := isWordText_iff.1 hname.1
      exact ⟨word, after, ⟨hne, hall, hname.2, hafter, htail.first, gap, hgap, hblank, hpart⟩, rfl⟩
    · right; right
      rw [if_neg hname]
      refine ⟨?_, fun name type h => hname ?_, rfl⟩
      · rintro ⟨-, hall⟩
        obtain ⟨c, hc⟩ := List.exists_mem_of_ne_nil gap hgap
        have hc' := not_isBlank_of_isWord (hall c (by simp [hpart, hc]))
        rw [hblank c hc] at hc'
        cases hc'
      · obtain ⟨rfl, -⟩ := h.eq_first hword hblank hgap htail.first hpart
        simp [isWordText_iff.2 ⟨h.ne_nil, h.word⟩, h.keyword]

-- ============================================================ parameters

/-- The next part that is no single word has a name and this type. -/
def NextType (parts : List Text) (type : Text) : Prop :=
  ∃ names next name after, parts = names ++ next :: after ∧ (∀ t ∈ names, IsBare t) ∧
    IsNamed next name type

/-- The parameter that the first of some parts gives, in view of the others. -/
inductive Gives : List Text → Parameter → Prop where
  | named {part name type : Text} {rest : List Text} (h : IsNamed part name type) :
      Gives (part :: rest) ⟨name, type⟩
  | shared {part type : Text} {rest : List Text} (h : IsBare part) (hnext : NextType rest type) :
      Gives (part :: rest) ⟨part, type⟩
  | alone {part : Text} {rest : List Text} (h : IsBare part) (hnone : ∀ type, ¬NextType rest type) :
      Gives (part :: rest) (anonymous part)
  | type {part : Text} {rest : List Text} (hbare : ¬IsBare part)
      (hnamed : ∀ name type, ¬IsNamed part name type) : Gives (part :: rest) (anonymous part)

/-- The type that the next part which is no single word has to give. -/
def nextType? : List ParameterPart → Option Text
  | [] => none
  | .bare _ :: rest => nextType? rest
  | .named _ type :: _ => some type
  | .type _ :: _ => none

/-- The parameter that a part gives in front of others. -/
def parameterOf : ParameterPart → (rest : List ParameterPart) → Parameter
  | .named name type, _ => ⟨name, type⟩
  | .bare text, rest => ((nextType? rest).map (⟨text, ·⟩)).getD (anonymous text)
  | .type text, _ => anonymous text

/-- The parameters of parts, each of them found by looking ahead. -/
def lookAhead : List ParameterPart → List Parameter
  | [] => []
  | part :: rest => parameterOf part rest :: lookAhead rest

/-- Words that are held back get what looking ahead from them gives. -/
theorem assignTypes_eq (pending : List Text) (parts : List ParameterPart) :
    assignTypes pending parts
      = pending.map (fun text => parameterOf (.bare text) parts) ++ lookAhead parts := by
  induction parts generalizing pending with
  | nil => exact (List.append_nil _).symm
  | cons part rest ih =>
      cases part with
      | bare text =>
          rw [assignTypes, ih, List.map_append, List.append_assoc]
          rfl
      | named name type =>
          rw [assignTypes, ih]
          rfl
      | type text =>
          rw [assignTypes, ih]
          rfl

theorem lookAhead_getElem? (parts : List ParameterPart) (i : Nat) :
    (lookAhead parts)[i]? = (parts[i]?).map fun part => parameterOf part (parts.drop (i + 1)) := by
  induction parts generalizing i with
  | nil => rfl
  | cons part rest ih =>
      cases i with
      | zero => rfl
      | succ i => exact ih i

theorem lookAhead_length (parts : List ParameterPart) :
    (lookAhead parts).length = parts.length := by
  induction parts with
  | nil => rfl
  | cons part rest ih => exact congrArg (· + 1) ih

theorem nextType?_eq_some_iff (hparts : ∀ part ∈ parts, part ≠ [] ∧ Trimmed part) :
    nextType? (parts.map ParameterPart.ofText) = some type ↔ NextType parts type := by
  induction parts with
  | nil =>
      refine iff_of_false (by simp [nextType?]) ?_
      rintro ⟨names, next, name, after, hnil, -⟩
      exact absurd hnil (by simp)
  | cons part rest ih =>
      rw [List.forall_mem_cons] at hparts
      have hrest := ih hparts.2
      -- The next part is the first one or one of the others, with the first a single word.
      have hcons : NextType (part :: rest) type ↔
          (∃ name, IsNamed part name type) ∨ (IsBare part ∧ NextType rest type) := by
        constructor
        · rintro ⟨names, next, name, after, hall, hnames, hnext⟩
          cases names with
          | nil =>
              injection hall with hpart
              exact .inl ⟨name, hpart ▸ hnext⟩
          | cons first names =>
              injection hall with hpart hall
              rw [List.forall_mem_cons] at hnames
              exact .inr ⟨hpart ▸ hnames.1, names, next, name, after, hall, hnames.2, hnext⟩
        · rintro (⟨name, hpart⟩ | ⟨hpart, names, next, name, after, rfl, hnames, hnext⟩)
          · exact ⟨[], part, name, rest, rfl, List.forall_mem_nil _, hpart⟩
          · exact ⟨part :: names, next, name, after, rfl, List.forall_mem_cons.2 ⟨hpart, hnames⟩,
              hnext⟩
      rw [hcons, List.map_cons]
      rcases ofText_cases hparts.1.2 hparts.1.1 with
        ⟨name, type', hnamed, hread⟩ | ⟨hbare, hread⟩ | ⟨hbare, hnamed, hread⟩
      · rw [hread, nextType?, Option.some.injEq]
        constructor
        · rintro rfl
          exact .inl ⟨name, hnamed⟩
        · rintro (⟨name', hnamed'⟩ | ⟨hbare, -⟩)
          · exact (hnamed.unique hnamed').2
          · exact absurd hbare hnamed.not_isBare
      · rw [hread, nextType?, hrest]
        refine ⟨fun h => .inr ⟨hbare, h⟩, ?_⟩
        rintro (⟨name, hnamed⟩ | ⟨-, h⟩)
        · exact absurd hbare hnamed.not_isBare
        · exact h
      · rw [hread]
        refine iff_of_false (by simp [nextType?]) ?_
        rintro (⟨name, h⟩ | ⟨h, -⟩)
        · exact hnamed name type h
        · exact hbare h

/-- What a part gives is found by looking ahead. -/
theorem gives_iff {p : Parameter} (hpart : part ≠ [] ∧ Trimmed part)
    (hrest : ∀ part ∈ rest, part ≠ [] ∧ Trimmed part) :
    Gives (part :: rest) p ↔
      p = parameterOf (ParameterPart.ofText part) (rest.map ParameterPart.ofText) := by
  have hnext : ∀ {type}, nextType? (rest.map ParameterPart.ofText) = some type ↔ _ :=
    nextType?_eq_some_iff hrest
  rcases ofText_cases hpart.2 hpart.1 with
    ⟨name, type, hnamed, hread⟩ | ⟨hbare, hread⟩ | ⟨hbare, hnamed, hread⟩
  · rw [hread]
    constructor
    · intro h
      cases h with
      | named h =>
          obtain ⟨rfl, rfl⟩ := h.unique hnamed
          rfl
      | shared h => exact absurd h hnamed.not_isBare
      | alone h => exact absurd h hnamed.not_isBare
      | type _ h => exact absurd hnamed (h name type)
    · rintro rfl
      exact .named hnamed
  · rw [hread, parameterOf]
    constructor
    · intro h
      cases h with
      | named h => exact absurd hbare h.not_isBare
      | shared _ h => rw [hnext.2 h]; rfl
      | alone _ h =>
          rw [Option.eq_none_iff_forall_ne_some.2 fun type hsome => h type (hnext.1 hsome)]
          rfl
      | type h => exact absurd hbare h
    · rintro rfl
      cases htype : nextType? (rest.map ParameterPart.ofText) with
      | none =>
          refine .alone hbare fun type h => ?_
          rw [hnext.2 h] at htype
          cases htype
      | some type => exact .shared hbare (hnext.1 htype)
  · rw [hread]
    constructor
    · intro h
      cases h with
      | named h => exact absurd h (hnamed _ _)
      | shared h => exact absurd h hbare
      | alone h => exact absurd h hbare
      | type => rfl
    · rintro rfl
      exact .type hbare hnamed

/-- There is one parameter for each part of a list, in order: the one that the part gives in view of
those that follow it. -/
theorem parseParameters_spec (params : Text) :
    (parseParameters params).length = (splitTopLevel ',' params).length ∧
      ∀ i p, (parseParameters params)[i]? = some p ↔
        Gives ((splitTopLevel ',' params).drop i) p := by
  have hparts : ∀ part ∈ splitTopLevel ',' params, part ≠ [] ∧ Trimmed part :=
    fun part => trimmed_of_mem_splitTopLevel
  unfold parseParameters
  rw [assignTypes_eq, List.map_nil, List.nil_append]
  generalize splitTopLevel ',' params = parts at hparts
  refine ⟨by rw [lookAhead_length, List.length_map], fun i p => ?_⟩
  rw [lookAhead_getElem?, List.getElem?_map, Option.map_map, ← List.map_drop]
  cases hpart : parts[i]? with
  | none =>
      have hnil : parts.drop i = [] := List.drop_eq_nil_of_le (List.getElem?_eq_none_iff.1 hpart)
      rw [hnil]
      exact iff_of_false (by simp) fun h => by cases h
  | some part =>
      obtain ⟨hi, hget⟩ := List.getElem?_eq_some_iff.1 hpart
      have hdrop : parts.drop i = part :: parts.drop (i + 1) := by
        rw [List.drop_eq_getElem_cons hi, hget]
      rw [hdrop, gives_iff (hparts part (List.mem_of_getElem? hpart))
        fun t ht => hparts t (List.mem_of_mem_drop ht)]
      rw [Option.map_some, Option.some.injEq]
      exact eq_comm

end GoSurvey.Declaration
