/-
Specs of constants and variables as they are written in a line: names
with commas between them, a type word, and values. What is read back of
such a line are the names, whatever the type and the values are, so the
values are one text here, which may have its end trimmed as the line has
(`IsSpecLine`).

A variable spec is read with all its names (`parseVariables_names`). The
pattern for constants has room for one name only: a spec of one name is
read (`parseConstant?_single`), and of a spec of several names nothing is
(`parseConstant?_several`).
-/
import GoSurvey.Declaration.Spec
import GoSurvey.Proofs.Declaration.ParameterList
import GoSurvey.Proofs.Pattern.First
import GoSurvey.Proofs.Pattern.Step
import GoSurvey.Proofs.Text.Part

namespace GoSurvey.Declaration

open Text Source Pattern

-- =============================================================== specs

/-- A spec of constants or variables: names, a type word that may be missing, values. -/
structure ValueSpec where
  names : List Text
  type : Text
  values : List Text
  deriving DecidableEq, Repr

/-- What stands after the names of a spec, with the values as one text. -/
def specTail (type value : Text) : Text := enclose " " type "" ++ enclose " = " value ""

/-- A spec in one line. -/
def specLine (names : List Text) (type value : Text) : Text :=
  join ", " names ++ specTail type value

/-- A spec as it is written. -/
def ValueSpec.text (s : ValueSpec) : Text := specLine s.names s.type (join ", " s.values)

/-- A value in one line, which has no literals, comments, brackets or semicolons in it. -/
structure IsValue (v : Text) : Prop where
  bare : Bare v
  plain : ∀ c ∈ v, isOpening c = false ∧ isClosing c = false ∧ c ≠ ';' ∧ c ≠ newline
  visible : isBlankText v = false

/-- The names are words, and there is one at least; the type is a type word, if it is there. -/
structure ValueSpec.WellFormed (s : ValueSpec) : Prop where
  ne_nil : s.names ≠ []
  names : ∀ n ∈ s.names, isWordText n = true
  type : ∀ c ∈ s.type, isTypeWord c = true
  values : ∀ v ∈ s.values, IsValue v

instance (v : Text) : Decidable (IsValue v) :=
  decidable_of_iff (Bare v ∧ (v.all fun c => isOpening c = false ∧ isClosing c = false ∧ c ≠ ';' ∧
      c ≠ newline) = true ∧ isBlankText v = false)
    ⟨fun h => ⟨h.1, List.all_iff_forall_prop.1 h.2.1, h.2.2⟩,
      fun h => ⟨h.bare, List.all_iff_forall_prop.2 h.plain, h.visible⟩⟩

instance ValueSpec.decidableWellFormed (s : ValueSpec) : Decidable s.WellFormed :=
  decidable_of_iff (s.names ≠ [] ∧ (∀ n ∈ s.names, isWordText n = true) ∧
      s.type.all isTypeWord = true ∧ ∀ v ∈ s.values, IsValue v)
    ⟨fun h => ⟨h.1, h.2.1, List.all_eq_true.1 h.2.2.1, h.2.2.2⟩,
      fun h => ⟨h.ne_nil, h.names, List.all_eq_true.2 h.type, h.values⟩⟩

/-- What the lines of specs have in common, whether their end is trimmed or not: no delimiter or
comment is in the text of the values. -/
structure IsSpecLine (names : List Text) (type value : Text) : Prop where
  ne_nil : names ≠ []
  names : ∀ n ∈ names, isWordText n = true
  type : ∀ c ∈ type, isTypeWord c = true
  bare : Bare value
  plain : ∀ c ∈ value, isOpening c = false ∧ isClosing c = false ∧ c ≠ newline

variable {names : List Text} {type value : Text}

/-- Names are joined by putting a comma before each but the first. -/
theorem join_names (n : Text) (ns : List Text) :
    join ", " (n :: ns) = n ++ ns.flatMap fun m => ", ".toList ++ m := by
  induction ns generalizing n with
  | nil => exact (List.append_nil n).symm
  | cons m ns ih =>
      rw [List.flatMap_cons, List.append_assoc, ← ih m]
      simp [join]

theorem names_of_cons {n : Text} {ns : List Text} (h : ∀ m ∈ n :: ns, isWordText m = true) :
    n ≠ [] ∧ (∀ c ∈ n, isWord c = true) ∧ ∀ m ∈ ns, isWordText m = true := by
  obtain ⟨hne, hword⟩ := isWordText_iff.1 (h n List.mem_cons_self)
  exact ⟨hne, hword, fun m hm => h m (List.mem_cons_of_mem n hm)⟩

/-- Besides those of words, four characters may stand in the types that are read. -/
theorem typeWord_cases {c : Char} (h : isTypeWord c = true) :
    isWord c = true ∨ c ∈ ['.', '*', '[', ']'] := by
  simp only [isTypeWord, Bool.or_eq_true, beq_iff_eq] at h
  simp only [List.mem_cons, List.not_mem_nil, or_false]
  tauto

theorem not_isBlank_of_isTypeWord {c : Char} (h : isTypeWord c = true) : isBlank c = false := by
  rcases typeWord_cases h with h | h
  · exact not_isBlank_of_isWord h
  · have hall : ∀ d ∈ ['.', '*', '[', ']'], isBlank d = false :=
      List.all_iff_forall_prop.1 (by decide)
    exact hall c h

/-- After the names comes nothing, or a space and something that is no comma. -/
theorem specTail_cases (htype : ∀ c ∈ type, isTypeWord c = true) (value : Text) :
    specTail type value = [] ∨
      ∃ c t, specTail type value = ' ' :: c :: t ∧ isBlank c = false ∧ c ≠ ',' := by
  unfold specTail enclose
  cases type with
  | nil =>
      cases value with
      | nil => exact .inl rfl
      | cons c value => exact .inr ⟨'=', _, rfl, by decide, by decide⟩
  | cons c type =>
      have hc := htype c List.mem_cons_self
      refine .inr ⟨c, _, rfl, not_isBlank_of_isTypeWord hc, ?_⟩
      rintro rfl
      exact absurd hc (by decide)

/-- Behind the names a spec goes on with a space or ends, so the last name ends there. -/
theorem specTail_head (htype : ∀ c ∈ type, isTypeWord c = true) :
    ∀ c ∈ (specTail type value).head?, isWord c = false := by
  rcases specTail_cases htype value with h | ⟨c, t, h, -⟩
  · rw [h]
    rintro c ⟨⟩
  · rw [h]
    rintro d ⟨⟩
    decide

/-- No word goes on after a name of a list. -/
theorem names_head (htype : ∀ c ∈ type, isTypeWord c = true) (ns : List Text) :
    ∀ c ∈ ((ns.flatMap fun m => ", ".toList ++ m) ++ specTail type value).head?,
      isWord c = false := by
  cases ns with
  | nil => exact specTail_head htype
  | cons m ns =>
      rintro c ⟨⟩
      decide

/-- Behind a space no comma comes where something else does. -/
theorem space_ne_comma {c : Char} {t w rest : Text} (hblank : isBlank c = false) (hc : c ≠ ',')
    (hw : ∀ d ∈ w, isBlank d = true) : ' ' :: c :: t ≠ w ++ ',' :: rest := by
  intro heq
  have hspace : ∀ d ∈ [' '], isBlank d = true := List.forall_mem_singleton.2 (by decide)
  have hcomma : ∀ d ∈ (',' :: rest).head?, isBlank d = false := by
    rintro d ⟨⟩
    decide
  have hnext : ∀ d ∈ (c :: t).head?, isBlank d = false := by
    rintro d ⟨⟩
    exact hblank
  obtain ⟨-, hrest⟩ := run_inj (u := [' ']) hspace hw hnext hcomma heq
  injection hrest with hsame
  exact hc hsame

/-- No comma comes after the names. -/
theorem specTail_ne_comma (htype : ∀ c ∈ type, isTypeWord c = true) {w rest : Text}
    (hw : ∀ c ∈ w, isBlank c = true) : specTail type value ≠ w ++ ',' :: rest := by
  rcases specTail_cases htype value with h | ⟨c, t, h, hblank, hc⟩
  · rw [h]
    exact fun heq => absurd heq.symm (by simp)
  · rw [h]
    exact space_ne_comma hblank hc hw

-- ======================================================= words and spaces

section Spaced

variable {t : Text} {c d : Char}

/-- A text of names and types with spaces between them. -/
def IsSpaced (t : Text) : Prop := ∀ c ∈ t, isTypeWord c = true ∨ c = ' '

theorem ne_of_isTypeWord (hc : isTypeWord c = true) (hd : isTypeWord d = false) : c ≠ d := by
  rintro rfl
  rw [hc] at hd
  cases hd

namespace IsSpaced

theorem append {u : Text} (ht : IsSpaced t) (hu : IsSpaced u) : IsSpaced (t ++ u) :=
  List.forall_mem_append.2 ⟨ht, hu⟩

theorem not_mem (h : IsSpaced t) (hd : isTypeWord d = false) (hspace : d ≠ ' ') : d ∉ t :=
  fun hmem => (h d hmem).elim (fun hc => ne_of_isTypeWord hc hd rfl) hspace

theorem bare (h : IsSpaced t) : Bare t := by
  refine bare_of_no_slash fun c hc => ⟨Bool.eq_false_iff.2 fun hquote => ?_, ?_⟩
  · rcases isQuote_iff.1 hquote with (rfl | rfl) | rfl <;>
      exact h.not_mem (by decide) (by decide) hc
  · rintro rfl
    exact h.not_mem (by decide) (by decide) hc

/-- Nothing after such a text makes a comment of its end. -/
theorem joins (h : IsSpaced t) (after : Text) :
    ∀ x ∈ t.getLast?, ∀ y ∈ after.head?, NoMark x y := by
  rintro x hx y - ⟨rfl, -⟩
  exact h.not_mem (by decide) (by decide) (List.mem_of_mem_getLast? hx)

end IsSpaced

end Spaced

-- ================================================== names and their commas

/-- One more name of a name list. -/
def nextName : Pattern := blanks ++ "," ++ blanks ++ word

/-- Another name is read as far as it goes. -/
theorem first_nextName {s : State} {lead gap n rest : Text} (hlead : ∀ c ∈ lead, isBlank c = true)
    (hgap : ∀ c ∈ gap, isBlank c = true) (hn : isWordText n = true)
    (hs : s.cursor.rest = lead ++ (",".toList ++ (gap ++ (n ++ rest))))
    (hrest : ∀ c ∈ rest.head?, isWord c = false) :
    First nextName s (s.advance (lead ++ (",".toList ++ (gap ++ n)))) := by
  obtain ⟨hne, hword⟩ := isWordText_iff.1 hn
  have hcomma : ∀ c ∈ (",".toList ++ (gap ++ (n ++ rest))).head?, isBlank c = false := by
    rintro c ⟨⟩
    decide
  have hname : ∀ c ∈ (n ++ rest).head?, isBlank c = false := by
    obtain ⟨d, n, rfl⟩ := List.exists_cons_of_ne_nil hne
    rintro c ⟨⟩
    exact not_isBlank_of_isWord (hword d List.mem_cons_self)
  have hs₁ : (s.advance lead).cursor.rest = ",".toList ++ (gap ++ (n ++ rest)) := rest_advance hs
  have hs₂ : ((s.advance lead).advance ",".toList).cursor.rest = gap ++ (n ++ rest) :=
    rest_advance hs₁
  have hs₃ : (((s.advance lead).advance ",".toList).advance gap).cursor.rest = n ++ rest :=
    rest_advance hs₂
  have hblanks : First blanks s (s.advance lead) := first_run hs hlead hcomma
  have hlit : First "," (s.advance lead) ((s.advance lead).advance ",".toList) :=
    first_lit ⟨_, hs₁.symm⟩
  have hfirst := first_seq (first_seq (first_seq hblanks hlit) (first_run hs₂ hgap hname))
    (first_run1 hs₃ hne hword hrest)
  rw [State.advance_append, State.advance_append, State.advance_append] at hfirst
  exact hfirst

/-- Where no comma comes after blanks, no further name is read. -/
theorem readings_nextName_nil {s : State}
    (hnone : ∀ w rest, (∀ c ∈ w, isBlank c = true) → s.cursor.rest ≠ w ++ ',' :: rest) :
    readings nextName s = [] := by
  refine List.eq_nil_iff_forall_not_mem.2 fun s' hs' => ?_
  unfold nextName at hs'
  simp only [readings_assoc] at hs'
  obtain ⟨s₁, hs₁, h⟩ := mem_readings_seq.1 hs'
  obtain ⟨s₂, hs₂, -⟩ := mem_readings_seq.1 h
  obtain ⟨w, hwrest, hw, rfl⟩ := mem_readings_run.1 hs₁
  obtain ⟨hcomma, -⟩ := mem_readings_lit.1 hs₂
  obtain ⟨rest, hall⟩ := prefix_append_of_advance hwrest hcomma
  rw [List.append_assoc] at hall
  exact hnone w rest hw hall.symm

/-- All the names that follow are read first. -/
theorem head?_readings_names {ns : List Text} (hns : ∀ n ∈ ns, isWordText n = true)
    (htype : ∀ c ∈ type, isTypeWord c = true) {s : State} {count : Nat} (hcount : ns.length ≤ count)
    (hs : s.cursor.rest = (ns.flatMap fun m => ", ".toList ++ m) ++ specTail type value) :
    (repeatedReadings (readings nextName) count s).head?
      = some (s.advance (ns.flatMap fun m => ", ".toList ++ m)) := by
  induction ns generalizing s count with
  | nil =>
      refine head?_repeatedReadings_nil (readings_nextName_nil fun w rest hw hall => ?_) count
      exact specTail_ne_comma htype hw (hs.symm.trans hall)
  | cons n ns ih =>
      obtain ⟨count, rfl⟩ : ∃ k, count = k + 1 := ⟨count - 1, by simp at hcount; omega⟩
      rw [List.flatMap_cons, List.append_assoc, List.append_assoc] at hs
      have hspace : ∀ c ∈ [' '], isBlank c = true := List.forall_mem_singleton.2 (by decide)
      have hn : First nextName s (s.advance (", ".toList ++ n)) :=
        first_nextName (List.forall_mem_nil _) hspace (hns n List.mem_cons_self) hs
          (names_head htype ns)
      rw [← List.append_assoc] at hs
      have hlater := ih (fun m hm => hns m (List.mem_cons_of_mem n hm))
        (Nat.le_of_succ_le_succ hcount) (s := s.advance (", ".toList ++ n)) (rest_advance hs)
      rw [List.flatMap_cons, ← State.advance_append]
      refine head?_repeatedReadings_cons hn ?_ hlater
      show s.cursor.offset < s.cursor.offset + (", ".toList ++ n).length
      simp

theorem length_le_flatMap (ns : List Text) :
    ns.length ≤ (ns.flatMap fun m => ", ".toList ++ m).length := by
  induction ns with
  | nil => exact Nat.le_refl 0
  | cons m ns ih =>
      simp only [List.flatMap_cons, List.length_append, List.length_cons]
      have hsep : ", ".toList.length = 2 := rfl
      omega

/-- The list of names is what is read first of a spec, all of it. -/
theorem first_nameList {n : Text} {ns : List Text} (hns : ∀ m ∈ n :: ns, isWordText m = true)
    (htype : ∀ c ∈ type, isTypeWord c = true) {s : State}
    (hs : s.cursor.rest = specLine (n :: ns) type value) :
    First nameList s (s.advance (join ", " (n :: ns))) := by
  obtain ⟨hne, hword, hrest⟩ := names_of_cons hns
  rw [specLine, join_names, List.append_assoc] at hs
  have hlater : (s.advance n).cursor.rest
      = (ns.flatMap fun m => ", ".toList ++ m) ++ specTail type value := rest_advance hs
  have hcount : ns.length ≤ (s.advance n).cursor.rest.length := by
    rw [hlater, List.length_append]
    exact Nat.le_add_right_of_le (length_le_flatMap ns)
  have hnames : First (repeated nextName) (s.advance n)
      ((s.advance n).advance (ns.flatMap fun m => ", ".toList ++ m)) :=
    head?_readings_names hrest htype hcount hlater
  have hfirst := first_seq (first_run1 hs hne hword (names_head htype ns)) hnames
  rw [State.advance_append, ← join_names] at hfirst
  exact hfirst

-- ============================================= the type and the values

/-- The text of the values is what is read after an equals sign. -/
theorem readsRest_value (hvalue : newline ∉ value) :
    ReadsRest (blanks ++ optionalValue) (enclose " = " value "") := by
  cases value with
  | nil =>
      exact .append (canRead_run (List.forall_mem_nil _))
        (.append (canRead_optional_nil _) readsRest_atEnd)
  | cons c value =>
      have hline : ∀ d ∈ c :: value, inLine d = true := except_of_not_mem hvalue
      have hspace : ∀ d ∈ [' '], isBlank d = true := List.forall_mem_singleton.2 (by decide)
      have hequals : CanRead ("=" ++ blanks ++ group 3 (run1 inLine))
          ("=".toList ++ [' '] ++ c :: value) :=
        ((canRead_lit _).append (canRead_run hspace)).append
          (canRead_group 3 (List.cons_ne_nil c value) hline)
      have hread : ReadsRest (blanks ++ optionalValue) _ :=
        .append (canRead_run hspace) (.append hequals.optional readsRest_atEnd)
      have htext : [' '] ++ (("=".toList ++ [' '] ++ c :: value) ++ [])
          = enclose " = " (c :: value) "" := by simp [enclose]
      rwa [htext] at hread

/-- What the pattern of constants reads after the name. -/
def constantTail : Pattern :=
  optional (blanks1 ++ group 2 (run1 isTypeWord)) ++ (blanks ++ optionalValue)

/-- What the pattern of variables reads after the names. -/
def variableTail : Pattern :=
  blanks ++ (group 2 (shortRun (except '=')) ++ (blanks ++ optionalValue))

/-- Behind its name all of a constant is read. -/
theorem readsRest_constantTail (htype : ∀ c ∈ type, isTypeWord c = true)
    (hvalue : newline ∉ value) :
    ReadsRest constantTail (specTail type value) := by
  refine ReadsRest.append ?_ (readsRest_value hvalue)
  cases type with
  | nil => exact canRead_optional_nil _
  | cons c type =>
      have hspace : ∀ d ∈ [' '], isBlank d = true := List.forall_mem_singleton.2 (by decide)
      have hread := ((canRead_run1 (List.cons_ne_nil ' ' []) hspace).append
        (canRead_group 2 (List.cons_ne_nil c type) htype)).optional
      have htext : [' '] ++ c :: type = enclose " " (c :: type) "" := by simp [enclose]
      rwa [htext] at hread

/-- Behind its names all of a variable is read. -/
theorem readsRest_variableTail (htype : ∀ c ∈ type, isTypeWord c = true)
    (hvalue : newline ∉ value) :
    ReadsRest variableTail (specTail type value) := by
  have hequals : ∀ c ∈ type, except '=' c = true := by
    refine except_of_not_mem fun hmem => ?_
    exact absurd (htype '=' hmem) (by decide)
  have hread := ReadsRest.append ((canRead_shortRun hequals).group 2) (readsRest_value hvalue)
  cases type with
  | nil => exact .append (canRead_run (List.forall_mem_nil _)) hread
  | cons c type =>
      have hspace : ∀ d ∈ [' '], isBlank d = true := List.forall_mem_singleton.2 (by decide)
      have htext : [' '] ++ (c :: type ++ enclose " = " value "") = specTail (c :: type) value := by
        simp [specTail, enclose]
      exact htext ▸ .append (canRead_run hspace) hread

/-- The pattern is the name and the rest, however its parts are put together. -/
theorem readings_constantPattern (s : State) :
    readings constantPattern s = readings ((atStart ++ group 1 word) ++ constantTail) s := by
  unfold constantPattern constantTail
  rw [readings_assoc, readings_assoc]

theorem readings_variablePattern (s : State) :
    readings variablePattern s = readings ((atStart ++ group 1 nameList) ++ variableTail) s := by
  unfold variablePattern variableTail
  simp only [readings_assoc]

/-- A pattern that first reads names at the start, and after them can read the rest, matches and
remembers the names. -/
theorem matchStart_names {p names' tail : Pattern} {front rest : Text}
    (hp : ∀ s, readings p s = readings ((atStart ++ group 1 names') ++ tail) s)
    (hnames : First names' ⟨Cursor.start (front ++ rest), []⟩
      (State.advance ⟨Cursor.start (front ++ rest), []⟩ front))
    (htail : ReadsRest tail rest) (hgroups : 1 ∉ tail.groups.map (·.1)) :
    ∃ m, p.matchStart (front ++ rest) = some m ∧ m.group 1 = front := by
  let s₀ : State := ⟨Cursor.start (front ++ rest), []⟩
  let s₁ : State := (s₀.advance front).remember 1 s₀
  have hrest : s₁.cursor.rest = rest := rest_advance (rfl : s₀.cursor.rest = front ++ rest)
  have hfront : First (atStart ++ group 1 names') s₀ s₁ :=
    first_seq (first_place rfl) (first_group hnames)
  obtain ⟨s₂, hs₂⟩ := htail s₁ hrest
  obtain ⟨s, hs, hfirst⟩ := exists_first_seq hfront hs₂
  have hp : First p s₀ s := by
    unfold First
    rw [hp]
    exact hfirst
  refine ⟨_, matchAt_of_first hp, ?_⟩
  have htexts : s₁.texts = [(1, front)] :=
    texts_remember 1 (List.prefix_append front rest) rfl
  rw [group_ofState, lookup_texts_of_reading hs hgroups, htexts]
  rfl

-- ============================================================== the line

/-- The characters that a scan for parentheses and braces, or for literals, would stop at. -/
def isMark (c : Char) : Bool :=
  isQuote c || c == '(' || c == ')' || c == '\x7b' || c == '\x7d' || c == newline

theorem not_isMark_of_isTypeWord {c : Char} (h : isTypeWord c = true) :
    isMark c = false ∧ c ≠ '/' := by
  have hall : ∀ d, isMark d = true ∨ d = '/' → isTypeWord d = false := by
    intro d hd
    simp only [isMark, isQuote, Bool.or_eq_true, beq_iff_eq] at hd
    rcases hd with (((((((rfl | rfl) | rfl) | rfl) | rfl) | rfl) | rfl) | rfl) | rfl <;> decide
  refine ⟨Bool.eq_false_iff.2 fun hmark => ?_, fun hslash => ?_⟩
  · rw [hall c (.inl hmark)] at h
    cases h
  · rw [hall c (.inr hslash)] at h
    cases h

theorem isTypeWord_of_isWord {c : Char} (h : isWord c = true) : isTypeWord c = true := by
  simp [isTypeWord, h]

/-- What stands before the text of the values. -/
def specFront (names : List Text) (type value : Text) : Text :=
  join ", " names ++ (enclose " " type "" ++ if value.isEmpty then [] else " = ")

/-- Everything before the values is made of names, types and signs. -/
theorem specLine_eq (names : List Text) (type value : Text) :
    specLine names type value = specFront names type value ++ value := by
  unfold specLine specTail specFront
  cases value with
  | nil => simp [enclose]
  | cons c value => simp [enclose]

/-- In front of the values are names, a type word, commas, spaces and an equals sign. -/
theorem not_isMark_of_mem_specFront (hnames : ∀ n ∈ names, isWordText n = true)
    (htype : ∀ c ∈ type, isTypeWord c = true) (value : Text) :
    ∀ c ∈ specFront names type value, isMark c = false ∧ c ≠ '/' := by
  have hplain : ∀ d ∈ [',', ' ', '='], isMark d = false ∧ d ≠ '/' :=
    List.all_iff_forall_prop.1 (by decide)
  have hjoin : ∀ c ∈ join ", " names, isMark c = false ∧ c ≠ '/' := by
    intro c hc
    cases names with
    | nil => cases hc
    | cons n ns =>
        have hword : ∀ m ∈ n :: ns, c ∈ m → isMark c = false ∧ c ≠ '/' := fun m hm hmem =>
          not_isMark_of_isTypeWord
            (isTypeWord_of_isWord ((isWordText_iff.1 (hnames m hm)).2 c hmem))
        rw [join_names, List.mem_append, List.mem_flatMap] at hc
        rcases hc with hc | ⟨m, hm, hc⟩
        · exact hword n List.mem_cons_self hc
        · rcases List.mem_append.1 hc with hc | hc
          · have hsep : [',', ' '] ⊆ [',', ' ', '='] := by decide
            exact hplain c (hsep hc)
          · exact hword m (List.mem_cons_of_mem n hm) hc
  intro c hc
  unfold specFront at hc
  rcases List.mem_append.1 hc with hc | hc
  · exact hjoin c hc
  · rcases List.mem_append.1 hc with hc | hc
    · unfold enclose at hc
      split at hc
      · cases hc
      · rcases List.mem_append.1 hc with hc | hc
        · rcases List.mem_append.1 hc with hc | hc
          · have hsep : [' '] ⊆ [',', ' ', '='] := by decide
            exact hplain c (hsep hc)
          · exact not_isMark_of_isTypeWord (htype c hc)
        · cases hc
    · split at hc
      · cases hc
      · have hsep : [' ', '=', ' '] ⊆ [',', ' ', '='] := by decide
        exact hplain c (hsep hc)

theorem IsSpecLine.not_isMark (h : IsSpecLine names type value) :
    ∀ c ∈ specLine names type value, isMark c = false := by
  intro c hc
  rw [specLine_eq] at hc
  rcases List.mem_append.1 hc with hc | hc
  · exact (not_isMark_of_mem_specFront h.names h.type value c hc).1
  · obtain ⟨hopening, hclosing, hnewline⟩ := h.plain c hc
    have hquote := h.bare.quote c hc
    simp only [isOpening, isClosing, Bool.or_eq_false_iff] at hopening hclosing
    simp [isMark, hquote, hopening, hclosing, hnewline]

theorem IsSpecLine.bare_line (h : IsSpecLine names type value) :
    Bare (specLine names type value) := by
  have hfront := not_isMark_of_mem_specFront h.names h.type value
  rw [specLine_eq]
  refine (bare_of_no_slash fun c hc => ?_).append h.bare fun x hx y _ hmark => ?_
  · obtain ⟨hmark, hslash⟩ := hfront c hc
    simp only [isMark, Bool.or_eq_false_iff] at hmark
    exact ⟨by simp [hmark], hslash⟩
  · exact (hfront x (List.mem_of_getLast? hx)).2 hmark.1

theorem IsSpecLine.newline_not_mem (h : IsSpecLine names type value) :
    newline ∉ specLine names type value :=
  fun hmem => absurd (h.not_isMark newline hmem) (by decide)

/-- A spec begins with a name. -/
theorem IsSpecLine.exists_cons (h : IsSpecLine names type value) :
    ∃ c rest, specLine names type value = c :: rest ∧ isWord c = true := by
  obtain ⟨n, ns, rfl⟩ := List.exists_cons_of_ne_nil h.ne_nil
  obtain ⟨hne, hword, -⟩ := names_of_cons h.names
  obtain ⟨c, n, rfl⟩ := List.exists_cons_of_ne_nil hne
  refine ⟨c, (n ++ ns.flatMap fun m => ", ".toList ++ m) ++ specTail type value, ?_,
    hword c List.mem_cons_self⟩
  rw [specLine, join_names]
  rfl

/-- Without a value a spec ends in its type or its last name. -/
theorem IsSpecLine.last_of_nil (h : IsSpecLine names type []) :
    ∀ c ∈ (specLine names type []).getLast?, isBlank c = false := by
  have hwords : ∀ c ∈ (join ", " names).getLast?, isBlank c = false := by
    obtain ⟨n, ns, rfl⟩ := List.exists_cons_of_ne_nil h.ne_nil
    obtain ⟨hne, hword, hrest⟩ := names_of_cons h.names
    rw [join_names]
    intro c hc
    rcases List.eq_nil_or_concat ns with rfl | ⟨init, m, rfl⟩
    · rw [List.flatMap_nil, List.append_nil] at hc
      exact not_isBlank_of_isWord (hword c (List.mem_of_getLast? hc))
    · obtain ⟨hm, hmword⟩ := isWordText_iff.1 (hrest m (by simp))
      rw [List.concat_eq_append, List.flatMap_append, List.flatMap_singleton, ← List.append_assoc,
        ← List.append_assoc, List.getLast?_append_of_ne_nil _ hm] at hc
      exact not_isBlank_of_isWord (hmword c (List.mem_of_getLast? hc))
  unfold specLine specTail
  cases type with
  | nil => simpa [enclose] using hwords
  | cons d type =>
      intro c hc
      have htext : join ", " names ++ (enclose " " (d :: type) "" ++ enclose " = " [] "")
          = (join ", " names ++ [' ']) ++ (d :: type) := by simp [enclose]
      rw [htext, List.getLast?_append_of_ne_nil _ (List.cons_ne_nil d type)] at hc
      exact not_isBlank_of_isTypeWord (h.type c (List.mem_of_getLast? hc))

/-- The end of a spec is trimmed where the end of its values is. -/
theorem IsSpecLine.trimEnd_eq (h : IsSpecLine names type value)
    (hvalue : value = [] ∨ isBlankText value = false) :
    trimEnd (specLine names type value) = specLine names type (trimEnd value) ∧
      IsSpecLine names type (trimEnd value) ∧
      Trimmed (specLine names type (trimEnd value)) := by
  have hbegins := dropEndWhile_isPrefix isBlank value
  have htrimmed : IsSpecLine names type (trimEnd value) :=
    ⟨h.ne_nil, h.names, h.type, h.bare.part hbegins.isInfix,
      fun c hc => h.plain c (hbegins.subset hc)⟩
  have hfirst : ∀ c ∈ (specLine names type (trimEnd value)).head?, isBlank c = false := by
    obtain ⟨c, rest, hall, hc⟩ := htrimmed.exists_cons
    rw [hall]
    rintro d ⟨⟩
    exact not_isBlank_of_isWord hc
  rcases hvalue with rfl | hvisible
  · exact ⟨dropEndWhile_eq_self h.last_of_nil, htrimmed, hfirst, h.last_of_nil⟩
  · have hsome : ∃ c ∈ value, isBlank c = false := by
      simpa [isBlankText] using hvisible
    have hne : trimEnd value ≠ [] := dropEndWhile_ne_nil hsome
    have hfront : specFront names type value = specFront names type (trimEnd value) := by
      obtain ⟨c, hc, -⟩ := hsome
      have hvalue : value ≠ [] := List.ne_nil_of_mem hc
      simp [specFront, hne, hvalue]
    have hline : trimEnd (specLine names type value) = specLine names type (trimEnd value) := by
      rw [specLine_eq, specLine_eq, ← hfront]
      exact dropEndWhile_append hsome
    refine ⟨hline, htrimmed, hfirst, ?_⟩
    rw [← hline]
    exact getLast?_dropEndWhile

theorem IsValue.isMark {v : Text} (h : IsValue v) :
    ∀ c ∈ v, isOpening c = false ∧ isClosing c = false ∧ c ≠ newline :=
  fun c hc => ⟨(h.plain c hc).1, (h.plain c hc).2.1, (h.plain c hc).2.2.2⟩

/-- Values that are joined are one text without comments and delimiters, like each of them. -/
theorem bare_values {values : List Text} (h : ∀ v ∈ values, IsValue v) :
    Bare (join ", " values) ∧
      ∀ c ∈ join ", " values, isOpening c = false ∧ isClosing c = false ∧ c ≠ newline := by
  induction values with
  | nil => exact ⟨⟨List.forall_mem_nil _, List.isChain_nil⟩, List.forall_mem_nil _⟩
  | cons v values ih =>
      have hv := h v List.mem_cons_self
      obtain ⟨hbare, hplain⟩ := ih fun w hw => h w (List.mem_cons_of_mem v hw)
      cases values with
      | nil => exact ⟨hv.bare, hv.isMark⟩
      | cons w values =>
          have hsep : Bare ", ".toList := by decide
          have htext : join ", " (v :: w :: values)
              = v ++ (", ".toList ++ join ", " (w :: values)) := by
            simp [join]
          rw [htext]
          constructor
          · refine hv.bare.append (hsep.append hbare fun x hx y _ hmark => ?_)
              fun x _ y hy hmark => ?_
            · obtain rfl : ' ' = x := Option.some.inj hx
              exact absurd hmark.1 (by decide)
            · obtain rfl : ',' = y := Option.some.inj hy
              exact absurd hmark.2 (by decide)
          · intro c hc
            rcases List.mem_append.1 hc with hc | hc
            · exact hv.isMark c hc
            · rcases List.mem_append.1 hc with hc | hc
              · have hall : ∀ d ∈ ", ".toList,
                    isOpening d = false ∧ isClosing d = false ∧ d ≠ newline :=
                  List.all_iff_forall_prop.1 (by decide)
                exact hall c hc
              · exact hplain c hc

theorem ValueSpec.WellFormed.isSpecLine {s : ValueSpec} (h : s.WellFormed) :
    IsSpecLine s.names s.type (join ", " s.values) :=
  ⟨h.ne_nil, h.names, h.type, (bare_values h.values).1, (bare_values h.values).2⟩

theorem ValueSpec.WellFormed.visible {s : ValueSpec} (h : s.WellFormed) :
    join ", " s.values = [] ∨ isBlankText (join ", " s.values) = false := by
  cases hvalues : s.values with
  | nil => exact .inl rfl
  | cons v values =>
      have hv := (h.values v (hvalues ▸ List.mem_cons_self)).visible
      have hpre : v <+: join ", " (v :: values) := by
        cases values with
        | nil => exact List.prefix_rfl
        | cons w values => exact ⟨", ".toList ++ join ", " (w :: values), by simp [join]⟩
      refine .inr (Bool.eq_false_iff.2 fun hblank => ?_)
      refine Bool.eq_false_iff.1 hv (List.all_eq_true.2 fun c hc => ?_)
      exact List.all_eq_true.1 hblank c (hpre.subset hc)

-- ================================================================ reading

/-- Cut at the commas, a list of names is the names with a space before all but the first. -/
theorem splitOn_names {pre n : Text} {ns : List Text} (hpre : ',' ∉ pre)
    (hnames : ∀ m ∈ n :: ns, isWordText m = true) :
    splitOn ',' (pre ++ join ", " (n :: ns)) = (pre ++ n) :: ns.map (' ' :: ·) := by
  have hword : ∀ m ∈ n :: ns, ',' ∉ m := by
    intro m hm hmem
    exact absurd ((isWordText_iff.1 (hnames m hm)).2 ',' hmem) (by decide)
  induction ns generalizing pre n with
  | nil =>
      refine splitOn_of_not_mem fun hmem => ?_
      rcases List.mem_append.1 hmem with hmem | hmem
      · exact hpre hmem
      · exact hword n List.mem_cons_self hmem
  | cons m ns ih =>
      have hfirst : ',' ∉ pre ++ n := by
        rw [List.mem_append, not_or]
        exact ⟨hpre, hword n List.mem_cons_self⟩
      have htext : pre ++ join ", " (n :: m :: ns)
          = (pre ++ n) ++ ',' :: ([' '] ++ join ", " (m :: ns)) := by
        simp [join]
      rw [htext, splitOn_append_cons, splitOn_of_not_mem hfirst,
        ih (by decide) (fun k hk => hnames k (List.mem_cons_of_mem n hk))
          fun k hk => hword k (List.mem_cons_of_mem n hk)]
      rfl

/-- The names of a list are those that were joined. -/
theorem namesOf_join (hne : names ≠ []) (hnames : ∀ n ∈ names, isWordText n = true) :
    namesOf (join ", " names) = names := by
  obtain ⟨n, ns, rfl⟩ := List.exists_cons_of_ne_nil hne
  have htrim : ∀ m ∈ n :: ns, trim m = m := by
    intro m hm
    obtain ⟨-, hword⟩ := isWordText_iff.1 (hnames m hm)
    exact (trimmed_of_no_blank fun c hc => not_isBlank_of_isWord (hword c hc)).trim_eq
  have hsplit := splitOn_names (@List.not_mem_nil _ ',') hnames
  rw [List.nil_append, List.nil_append] at hsplit
  unfold namesOf
  rw [hsplit, List.map_cons, htrim n List.mem_cons_self, List.map_map]
  congr 1
  refine (List.map_congr_left fun m hm => ?_).trans (List.map_id ns)
  show trim (' ' :: m) = m
  rw [trim_cons_of_isBlank (by decide), htrim m (List.mem_cons_of_mem n hm)]

/-- A spec whose text is a line of a spec has no comment to be stripped. -/
theorem code_of_specLine {s : Spec} (h : IsSpecLine names type value)
    (htrimmed : Trimmed (specLine names type value)) (hs : s.text = specLine names type value) :
    trim (stripLineComment s.head) = specLine names type value := by
  have hhead : s.head = specLine names type value := by
    unfold Spec.head
    rw [hs, before_singleton]
    refine List.takeWhile_eq_self_iff.2 fun c hc => bne_iff_ne.2 ?_
    rintro rfl
    exact h.newline_not_mem hc
  rw [hhead, stripLineComment_bare h.bare_line, htrimmed.trim_eq]

/-- A spec of variables declares all its names. -/
theorem parseVariables_names {s : Spec} (h : IsSpecLine names type value)
    (htrimmed : Trimmed (specLine names type value)) (hs : s.text = specLine names type value) :
    (parseVariables s).map (fun d => (d.name, d.line)) = names.map (·, s.line) := by
  have hvalue : newline ∉ value := fun hmem => (h.plain newline hmem).2.2 rfl
  have hnames : First nameList ⟨Cursor.start (specLine names type value), []⟩
      (State.advance ⟨Cursor.start (specLine names type value), []⟩ (join ", " names)) := by
    obtain ⟨n, ns, rfl⟩ := List.exists_cons_of_ne_nil h.ne_nil
    exact first_nameList h.names h.type rfl
  obtain ⟨m, hm, hgroup⟩ := matchStart_names readings_variablePattern hnames
    (readsRest_variableTail h.type hvalue) (by decide)
  have hcode : variablePattern.matchStart (trim (stripLineComment s.head)) = some m := by
    rw [code_of_specLine h htrimmed hs]
    exact hm
  unfold parseVariables
  rw [hcode]
  dsimp only
  rw [hgroup, namesOf_join h.ne_nil h.names, List.map_map]
  rfl

/-- A spec of constants with one name declares it. -/
theorem parseConstant?_single {s : Spec} {name : Text} (h : IsSpecLine [name] type value)
    (htrimmed : Trimmed (specLine [name] type value)) (hs : s.text = specLine [name] type value) :
    ∃ d, parseConstant? s = some d ∧ d.name = name ∧ d.line = s.line := by
  have hvalue : newline ∉ value := fun hmem => (h.plain newline hmem).2.2 rfl
  obtain ⟨hne, hword⟩ := isWordText_iff.1 (h.names name List.mem_cons_self)
  have hname : First word ⟨Cursor.start (name ++ specTail type value), []⟩
      (State.advance ⟨Cursor.start (name ++ specTail type value), []⟩ name) :=
    first_run1 rfl hne hword (specTail_head h.type)
  obtain ⟨m, hm, hgroup⟩ := matchStart_names readings_constantPattern hname
    (readsRest_constantTail h.type hvalue) (by decide)
  have hcode : constantPattern.matchStart (trim (stripLineComment s.head)) = some m := by
    rw [code_of_specLine h htrimmed hs]
    exact hm
  unfold parseConstant?
  rw [hcode]
  exact ⟨_, rfl, hgroup, rfl⟩

/-- After a beginning of a word, the pattern of constants cannot go on to a comma. -/
theorem readings_constantTail_nil {s : State} {c : Char} {rest : Text}
    (hs : s.cursor.rest = c :: rest) (hc : isWord c = true ∨ c = ',') :
    readings constantTail s = [] := by
  have hno : ∀ d, isWord d = false → d ≠ ',' → ∀ w, ¬[d] ++ w <+: s.cursor.rest := by
    rintro d hd hcomma w ⟨more, hmore⟩
    rw [hs] at hmore
    injection hmore with hsame
    rcases hc with hc | hc
    · rw [← hsame, hd] at hc
      cases hc
    · exact hcomma (hsame.trans hc)
  have hnoblanks : ∀ w, w ≠ [] → (∀ d ∈ w, isBlank d = true) → ¬w <+: s.cursor.rest := by
    rintro w hne hw hpre
    obtain ⟨d, w, rfl⟩ := List.exists_cons_of_ne_nil hne
    have hd := hw d List.mem_cons_self
    refine hno d (not_isWord_of_isBlank hd) ?_ w hpre
    rintro rfl
    exact absurd hd (by decide)
  refine List.eq_nil_iff_forall_not_mem.2 fun s' hs' => ?_
  obtain ⟨s₁, hs₁, h⟩ := mem_readings_seq.1 hs'
  obtain ⟨s₂, hs₂, h⟩ := mem_readings_seq.1 h
  obtain ⟨s₃, hs₃, h⟩ := mem_readings_seq.1 h
  -- There is no blank ahead, so no type and no gap is read.
  have htype : s₁ = s := by
    rcases mem_readings_optional.1 hs₁ with hs₁ | hs₁
    · obtain ⟨s₄, hs₄, -⟩ := mem_readings_seq.1 hs₁
      obtain ⟨w, hne, hpre, hw, -⟩ := mem_readings_run1.1 hs₄
      exact absurd hpre (hnoblanks w hne hw)
    · exact hs₁
  subst htype
  obtain ⟨w, hpre, hw, rfl⟩ := mem_readings_run.1 hs₂
  obtain rfl : w = [] := by
    by_contra hne
    exact hnoblanks w hne hw hpre
  have hvalue : s₃ = s₁.advance [] := by
    rcases mem_readings_optional.1 hs₃ with hs₃ | hs₃
    · simp only [readings_assoc] at hs₃
      obtain ⟨s₄, hs₄, -⟩ := mem_readings_seq.1 hs₃
      exact absurd (mem_readings_lit.1 hs₄).1 (hno '=' (by decide) (by decide) [])
    · exact hs₃
  subst hvalue
  obtain ⟨hend, -⟩ := mem_readings_place.1 h
  have hrest : (s₁.advance []).cursor.rest = c :: rest := hs
  unfold Cursor.atEnd at hend
  rw [hrest] at hend
  obtain ⟨rfl, -⟩ : c = newline ∧ rest = [] := by simpa using hend
  rcases hc with hc | hc
  · exact absurd hc (by decide)
  · exact absurd hc (by decide)

/-- A spec of constants with more names than one declares nothing. -/
theorem parseConstant?_several {s : Spec} {n m : Text} {ns : List Text}
    (h : IsSpecLine (n :: m :: ns) type value)
    (htrimmed : Trimmed (specLine (n :: m :: ns) type value))
    (hs : s.text = specLine (n :: m :: ns) type value) : parseConstant? s = none := by
  obtain ⟨hne, hword, -⟩ := names_of_cons h.names
  obtain ⟨rest, hline⟩ : ∃ rest, specLine (n :: m :: ns) type value = n ++ ',' :: rest := by
    refine ⟨' ' :: (m ++ ns.flatMap fun k => ", ".toList ++ k) ++ specTail type value, ?_⟩
    rw [specLine, join_names]
    simp
  unfold parseConstant?
  rw [code_of_specLine h htrimmed hs, hline, Option.map_eq_none_iff]
  refine matchAt_of_nil (List.eq_nil_iff_forall_not_mem.2 fun s' hs' => ?_)
  rw [readings_constantPattern, readings_assoc] at hs'
  obtain ⟨s₁, hs₁, hgroup⟩ := mem_readings_seq.1 hs'
  obtain ⟨-, rfl⟩ := mem_readings_place.1 hs₁
  obtain ⟨s₂, hs₂, htail⟩ := mem_readings_seq.1 hgroup
  obtain ⟨s₃, hs₃, rfl⟩ := mem_readings_group.1 hs₂
  obtain ⟨w, -, ⟨more, hmore⟩, hw, rfl⟩ := mem_readings_run1.1 hs₃
  have hmore : w ++ more = n ++ ',' :: rest := hmore
  -- What is left ahead is the rest of the name, or the comma after it.
  obtain ⟨c, u, rfl, hc⟩ : ∃ c u, more = c :: u ∧ (isWord c = true ∨ c = ',') := by
    rcases List.append_eq_append_iff.1 hmore with ⟨p, rfl, rfl⟩ | ⟨p, rfl, hp⟩
    · cases p with
      | nil => exact ⟨',', rest, rfl, .inr rfl⟩
      | cons c p => exact ⟨c, p ++ ',' :: rest, rfl, .inl (hword c (by simp))⟩
    · cases p with
      | nil => exact ⟨',', rest, hp.symm, .inr rfl⟩
      | cons c p =>
          injection hp with hcomma
          exact absurd (hw c (by simp)) (by rw [← hcomma]; decide)
  have hrest : (State.remember (State.advance ⟨Cursor.start (n ++ ',' :: rest), []⟩ w) 1
      ⟨Cursor.start (n ++ ',' :: rest), []⟩).cursor.rest = c :: u := rest_advance hmore.symm
  rw [readings_constantTail_nil hrest hc] at htail
  cases htail

end GoSurvey.Declaration
