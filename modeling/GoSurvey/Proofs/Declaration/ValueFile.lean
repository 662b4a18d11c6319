/-
Files of constants and variables. Specs are printed each after its
keyword or in groups, between lines that begin nothing, and the
extractor reads them back with the lines they stand in.

The variables are all the names of the variable specs. The constants are
the names of those constant specs that have one name, so they are
complete exactly if there are no others (`values_valueFile`).
-/
import GoSurvey.Proofs.Declaration.Line
import GoSurvey.Proofs.Declaration.ValueSpec
import GoSurvey.Proofs.Source.Block
import Mathlib.Data.List.Flatten

namespace GoSurvey.Declaration

open Text Source Pattern DelimiterScan

-- ============================================================= printing

/-- The two kinds of values that a file declares. -/
inductive ValueKind where
  | const
  | var
  deriving DecidableEq, Repr

def ValueKind.keyword : ValueKind → Text
  | .const => "const"
  | .var => "var"

/-- What a file of values consists of. -/
inductive ValueBlock where
  /-- A spec after its keyword. -/
  | single (kind : ValueKind) (spec : ValueSpec)
  /-- Specs one below the other in parentheses. -/
  | group (kind : ValueKind) (specs : List ValueSpec)
  /-- A line that begins nothing. -/
  | other (line : Text)
  deriving DecidableEq, Repr

namespace ValueBlock

/-- A block as it is written. -/
def lines : ValueBlock → List Text
  | single kind spec => [kind.keyword ++ ' ' :: spec.text]
  | group kind specs =>
    (kind.keyword ++ " (".toList) :: ((specs.map fun s => '\t' :: s.text) ++ [")".toList])
  | other line => [line]

/-- The specs are well formed, and the other lines begin nothing. -/
def WellFormed : ValueBlock → Prop
  | single _ spec => spec.WellFormed
  | group _ specs => ∀ s ∈ specs, s.WellFormed
  | other line => newline ∉ line ∧ classify? (trim line) = none

instance decidableWellFormed : (b : ValueBlock) → Decidable b.WellFormed
  | single _ spec => inferInstanceAs (Decidable spec.WellFormed)
  | group _ specs => inferInstanceAs (Decidable (∀ s ∈ specs, s.WellFormed))
  | other line => inferInstanceAs (Decidable (newline ∉ line ∧ classify? (trim line) = none))

end ValueBlock

/-- A file of blocks one below the other. -/
def valueFile (blocks : List ValueBlock) : Text := joinLines (blocks.flatMap ValueBlock.lines)

/-- A spec and the number of its line. -/
structure PlacedSpec where
  line : Nat
  kind : ValueKind
  spec : ValueSpec
  deriving DecidableEq, Repr

/-- Specs one below the other, the first in the line of a number. -/
def placedFrom (kind : ValueKind) : (number : Nat) → List ValueSpec → List PlacedSpec
  | _, [] => []
  | number, s :: specs => ⟨number, kind, s⟩ :: placedFrom kind (number + 1) specs

/-- The specs of a block whose first line has a number. -/
def ValueBlock.placed (number : Nat) : ValueBlock → List PlacedSpec
  | single kind spec => [⟨number, kind, spec⟩]
  | group kind specs => placedFrom kind (number + 1) specs
  | other _ => []

/-- The specs of blocks one below the other. -/
def placedSpecs : (number : Nat) → List ValueBlock → List PlacedSpec
  | _, [] => []
  | number, b :: blocks => b.placed number ++ placedSpecs (number + b.lines.length) blocks

/-- The names that the specs of a kind declare, each with its line. -/
def declaredNames (kind : ValueKind) (specs : List PlacedSpec) : List (Text × Nat) :=
  (specs.filter (·.kind = kind)).flatMap fun p => p.spec.names.map (·, p.line)

-- ================================================================ one spec

/-- The names that a spec is read as declaring. -/
def readNames : ValueKind → Spec → List (Text × Nat)
  | .const, s => ((parseConstant? s).map fun d => (d.name, d.line)).toList
  | .var, s => (parseVariables s).map fun d => (d.name, d.line)

/-- A spec is read with all its names, except for one of constants with more names than one. -/
def ReadWhole (kind : ValueKind) (s : ValueSpec) : Prop :=
  kind = .var ∨ s.names.length = 1

instance (kind : ValueKind) (s : ValueSpec) : Decidable (ReadWhole kind s) :=
  inferInstanceAs (Decidable (_ ∨ _))

/-- The names that a spec in the line of a number is read with. -/
def shownNames (kind : ValueKind) (number : Nat) (s : ValueSpec) : List (Text × Nat) :=
  if ReadWhole kind s then s.names.map (·, number) else []

variable {kind : ValueKind} {s : ValueSpec}

/-- A spec is read as it was printed, if its text is the printed one. -/
theorem readNames_text (hs : s.WellFormed) {spec : Spec} (htext : spec.text = trimEnd s.text) :
    readNames kind spec = shownNames kind spec.line s := by
  obtain ⟨hline, hspec, htrimmed⟩ := hs.isSpecLine.trimEnd_eq hs.visible
  have htext : spec.text = specLine s.names s.type (trimEnd (join ", " s.values)) :=
    htext.trans hline
  unfold shownNames
  cases kind with
  | var =>
      rw [if_pos (.inl rfl)]
      exact parseVariables_names hspec htrimmed htext
  | const =>
      cases hnames : s.names with
      | nil => exact absurd hnames hspec.ne_nil
      | cons n ns =>
          rw [hnames] at hspec htrimmed htext
          cases ns with
          | nil =>
              obtain ⟨d, hd, hname, hnumber⟩ := parseConstant?_single hspec htrimmed htext
              rw [if_pos (.inr (by rw [hnames]; rfl))]
              show ((parseConstant? spec).map fun d => (d.name, d.line)).toList = _
              rw [hd, Option.map_some, hname, hnumber]
              rfl
          | cons m ns =>
              have hseveral : ¬ReadWhole .const s := by
                rintro (h | h)
                · cases h
                · rw [hnames] at h
                  exact absurd h (by simp)
              rw [if_neg hseveral]
              show ((parseConstant? spec).map fun d => (d.name, d.line)).toList = []
              rw [parseConstant?_several hspec htrimmed htext]
              rfl

-- ================================================================ one line

/-- What is needed of the line of a spec, trimmed or not: it begins with a name, and nothing in it
is a delimiter or begins a literal or a comment. -/
structure IsPlain (t : Text) : Prop where
  first : ∃ c rest, t = c :: rest ∧ isWord c = true
  bare : Bare t
  not_isMark : ∀ c ∈ t, isMark c = false

/-- A printed spec begins with a name and leaves nothing open. -/
theorem ValueSpec.WellFormed.isPlain (hs : s.WellFormed) : IsPlain s.text :=
  ⟨hs.isSpecLine.exists_cons, hs.isSpecLine.bare_line, hs.isSpecLine.not_isMark⟩

theorem ValueSpec.WellFormed.isPlain_trimEnd (hs : s.WellFormed) : IsPlain (trimEnd s.text) := by
  obtain ⟨hline, hspec, -⟩ := hs.isSpecLine.trimEnd_eq hs.visible
  have hline : trimEnd s.text = _ := hline
  rw [hline]
  exact ⟨hspec.exists_cons, hspec.bare_line, hspec.not_isMark⟩

theorem IsPlain.trim_eq {t : Text} (h : IsPlain t) : trim t = trimEnd t := by
  obtain ⟨c, rest, rfl, hc⟩ := h.first
  have hstart : trimStart (c :: rest) = c :: rest := trimStart_eq_self (by
    rintro d ⟨⟩
    exact not_isBlank_of_isWord hc)
  unfold trimStart at hstart
  unfold trim stripWhile trimEnd
  rw [hstart]

theorem trim_tab (hs : s.WellFormed) : trim ('\t' :: s.text) = trimEnd s.text := by
  rw [trim_cons_of_isBlank (by decide), hs.isPlain.trim_eq]

theorem trim_keyword (hs : s.WellFormed) (kind : ValueKind) :
    trim (kind.keyword ++ ' ' :: s.text) = kind.keyword ++ ' ' :: trimEnd s.text := by
  obtain ⟨c, rest, hfirst, hc⟩ := hs.isPlain.first
  have hsome : ∃ d ∈ s.text, isBlank d = false :=
    ⟨c, hfirst ▸ List.mem_cons_self, not_isBlank_of_isWord hc⟩
  have hstart : (kind.keyword ++ ' ' :: s.text).dropWhile isBlank
      = (kind.keyword ++ [' ']) ++ s.text := by
    rw [List.append_assoc]
    cases kind <;> rfl
  unfold trim stripWhile
  rw [hstart, dropEndWhile_append hsome, List.append_assoc]
  rfl

/-- No delimiter is closed or left open in the line of a spec. -/
theorem feed_spec {line : Text} (hbare : Bare line) (hmark : ∀ c ∈ line, isMark c = false)
    (depth : Nat) (openedAt : Option Nat) :
    feed parentheses ⟨.code, depth, openedAt⟩ (line ++ [newline]) 0
      = (none, ⟨.code, depth, openedAt⟩) := by
  have hnot : ∀ c, isMark c = true → c ≠ newline → c ∉ line ++ [newline] := by
    intro c hc hne hmem
    rcases List.mem_append.1 hmem with hmem | hmem
    · rw [hmark c hmem] at hc
      cases hc
    · exact hne (List.mem_singleton.1 hmem)
  exact feed_plain hbare (hnot '(' (by decide) (by decide)) (hnot ')' (by decide) (by decide))
    depth openedAt

theorem not_endsWith {t : Text} (h : '\x7b' ∉ t) : endsWith "\x7b" t = false := by
  refine Bool.eq_false_iff.2 fun hends => ?_
  obtain ⟨u, rfl⟩ := List.isSuffixOf_iff_suffix.1 hends
  exact h (List.mem_append_right u List.mem_cons_self)

theorem IsPlain.not_mem_brace {t : Text} (h : IsPlain t) : '\x7b' ∉ t :=
  fun hmem => absurd (h.not_isMark _ hmem) (by decide)

/-- A spec in one line leaves no delimiter open. -/
theorem IsPlain.openDelimiters? {t : Text} (h : IsPlain t) : openDelimiters? t = none := by
  have hbalanced : hasUnbalanced parentheses t = false := by
    unfold hasUnbalanced
    rw [feed_spec h.bare h.not_isMark]
    rfl
  unfold Declaration.openDelimiters?
  rw [Declaration.not_endsWith h.not_mem_brace, hbalanced]
  rfl

-- ========================================================== single specs

variable {lines : List Text} {index : Nat}

/-- After a keyword and a space, what is not a parenthesis opens no group. -/
theorem groupOpen_none (keyword : Text) {t : Text} (ht : IsPlain t) :
    (groupOpen keyword).matchStart (keyword ++ ' ' :: t) = none := by
  rw [← Option.not_isSome_iff_eq_none, isSome_groupOpen_iff]
  rintro ⟨gap, more, hgap, hsplit⟩
  obtain ⟨c, rest, rfl, hc⟩ := ht.first
  have hspace : ∀ d ∈ [' '], isBlank d = true := List.forall_mem_singleton.2 (by decide)
  have hhead : ∀ d ∈ (c :: rest).head?, isBlank d = false := by
    rintro d ⟨⟩
    exact not_isBlank_of_isWord hc
  have hopen : ∀ d ∈ ('(' :: more).head?, isBlank d = false := by
    rintro d ⟨⟩
    decide
  have hall : gap ++ '(' :: more = [' '] ++ c :: rest := (List.append_cancel_left hsplit).symm
  obtain ⟨-, hsame⟩ := run_inj hgap hspace hopen hhead hall
  injection hsame with hsame
  exact absurd hc (by rw [← hsame]; decide)

/-- The keyword and the space are taken off. -/
theorem dropMatch_keyword (keyword : Text) {t : Text} (ht : IsPlain t) :
    dropMatch (keywordBlanks keyword) (keyword ++ ' ' :: t) = t := by
  have hhead : ∀ d ∈ t.head?, isBlank d = false := by
    obtain ⟨c, rest, rfl, hc⟩ := ht.first
    rintro d ⟨⟩
    exact not_isBlank_of_isWord hc
  have hspace : ∀ d ∈ [' '], isBlank d = true := List.forall_mem_singleton.2 (by decide)
  have hdrop := dropMatch_keywordBlanks keyword hspace hhead
  rwa [if_neg (List.cons_ne_nil ' ' [])] at hdrop

/-- A keyword with one spec in its line gives that spec. -/
theorem groupSpecs_single (hs : s.WellFormed)
    (hline : lines[index]? = some (kind.keyword ++ ' ' :: s.text)) :
    groupSpecs kind.keyword lines index
      = ([⟨index + 1, trimEnd s.text, leadingComments lines index⟩], index) := by
  have hplain := hs.isPlain_trimEnd
  unfold groupSpecs
  dsimp only
  rw [hline, Option.getD_some, trim_keyword hs, groupOpen_none _ hplain, dropMatch_keyword _ hplain]
  rfl

-- =============================================================== groups

/-- A group begins in one line and is closed in a line below its specs. -/
theorem blockEnd_group {kind : ValueKind} {specs : List ValueSpec} {rest : List Text}
    (hspecs : ∀ s ∈ specs, s.WellFormed)
    (hlines : lines.drop index = (ValueBlock.group kind specs).lines ++ rest) :
    blockEnd parentheses lines index = index + specs.length + 1 := by
  have hopen : feed parentheses {} ((kind.keyword ++ " (".toList) ++ [newline]) 0
      = (none, ⟨.code, 1, some (kind.keyword.length + 1)⟩) := by
    cases kind <;> rfl
  have hinside : ∀ line ∈ specs.map fun s => '\t' :: s.text,
      feed parentheses ⟨.code, 1, some (kind.keyword.length + 1)⟩ (line ++ [newline]) 0
        = (none, ⟨.code, 1, some (kind.keyword.length + 1)⟩) := by
    intro line hline
    obtain ⟨s, hs, rfl⟩ := List.mem_map.1 hline
    have htab : isQuote '\t' = false ∧ '\t' ≠ '/' := by decide
    have hbare : Bare ('\t' :: s.text) :=
      (bare_of_no_slash (t := ['\t']) (List.forall_mem_singleton.2 htab)).append
        (hspecs s hs).isPlain.bare (by
          rintro x ⟨⟩ y - hmark
          exact htab.2 hmark.1)
    exact feed_spec hbare (List.forall_mem_cons.2 ⟨by decide, (hspecs s hs).isPlain.not_isMark⟩) _ _
  have hdrop : lines.drop index = (kind.keyword ++ " (".toList) ::
      ((specs.map fun s => '\t' :: s.text) ++ ")".toList :: rest) := by
    rw [hlines]
    simp [ValueBlock.lines]
  rw [blockEnd_closed hdrop hopen rfl hinside rfl, List.length_map]

/-- The specs of a group are read one by one. -/
theorem specsFrom_group {specs : List ValueSpec} {rest : List Text} {last : Nat}
    (hspecs : ∀ s ∈ specs, s.WellFormed) (hlast : last = index + specs.length) :
    (specsFrom lines last 0 ((specs.map fun s => '\t' :: s.text) ++ ")".toList :: rest)
        index).flatMap (readNames kind)
      = (placedFrom kind (index + 1) specs).flatMap fun p => shownNames kind p.line p.spec := by
  induction specs generalizing index with
  | nil =>
      have hclose : startsWith ")" (trim ")".toList) = true := by decide
      have hstop : (decide (index = last) && startsWith ")" (trim ")".toList)) = true := by
        rw [hclose, hlast]
        simp
      rw [List.map_nil, List.nil_append, specsFrom]
      dsimp only
      rw [hstop]
      rfl
  | cons s specs ih =>
      have hs := hspecs s List.mem_cons_self
      have hplain := hs.isPlain_trimEnd
      have hend : last = index + 1 + specs.length := by
        rw [hlast, List.length_cons]
        omega
      have hrest := ih (fun t ht => hspecs t (List.mem_cons_of_mem s ht)) hend
      have hnotLast : (decide (index = last) && startsWith ")" (trimEnd s.text)) = false := by
        have hne : index ≠ last := by
          rw [hlast, List.length_cons]
          omega
        simp [hne]
      have hnotSkipped : ((trimEnd s.text).isEmpty || startsWith lineMark (trimEnd s.text))
          = false := by
        obtain ⟨c, rest, hfirst, hc⟩ := hplain.first
        have hmark : startsWith lineMark (c :: rest) = false := by
          refine Bool.eq_false_iff.2 fun hstarts => ?_
          obtain ⟨more, hmore⟩ := startsWith_iff.1 hstarts
          injection hmore with hslash
          exact absurd hc (by rw [← hslash]; decide)
        rw [hfirst, hmark]
        rfl
      have hread : ∀ spec : Spec, spec.text = trimEnd s.text → spec.line = index + 1 →
          readNames kind spec = shownNames kind (index + 1) s :=
        fun spec htext hnumber => hnumber ▸ readNames_text hs htext
      rw [List.map_cons, List.cons_append, specsFrom]
      dsimp only
      rw [trim_tab hs, hnotLast, hnotSkipped, hplain.openDelimiters?]
      simp only [Bool.false_eq_true, if_false]
      rw [List.flatMap_cons, hrest, hread _ rfl rfl]
      rfl

/-- A group that is printed gives its specs, and ends with the line of its parenthesis. -/
theorem groupSpecs_group {kind : ValueKind} {specs : List ValueSpec} {rest : List Text}
    (hspecs : ∀ s ∈ specs, s.WellFormed)
    (hlines : lines.drop index = (ValueBlock.group kind specs).lines ++ rest) :
    (groupSpecs kind.keyword lines index).2 = index + specs.length + 1 ∧
      (groupSpecs kind.keyword lines index).1.flatMap (readNames kind)
        = (placedFrom kind (index + 2) specs).flatMap fun p => shownNames kind p.line p.spec := by
  have hfirst : lines[index]? = some (kind.keyword ++ " (".toList) := by
    rw [← List.head?_drop, hlines]
    rfl
  have htrim : trim (kind.keyword ++ " (".toList) = kind.keyword ++ " (".toList := by
    cases kind <;> decide
  have hopen : ((groupOpen kind.keyword).matchStart (kind.keyword ++ " (".toList)).isNone
      = false := by
    cases kind <;> decide
  have hend := blockEnd_group hspecs hlines
  have hne : index + specs.length + 1 ≠ index := by omega
  have hinside : (lines.take (index + specs.length + 1 + 1)).drop (index + 1)
      = (specs.map fun s => '\t' :: s.text) ++ [")".toList] := by
    have hcount : index + specs.length + 1 + 1 - (index + 1) = specs.length + 1 := by omega
    rw [List.drop_take, hcount, ← List.drop_drop, hlines, ValueBlock.lines]
    exact List.take_left' (by simp)
  unfold groupSpecs
  dsimp only
  rw [hfirst, Option.getD_some, htrim, hopen, hend]
  simp only [Bool.false_eq_true, if_false, hne]
  rw [hinside]
  refine ⟨trivial, ?_⟩
  exact specsFrom_group hspecs (by omega)

-- ============================================================= the pass

/-- The constants or the variables among declarations, each with its line. -/
def reportedNames : ValueKind → List Declaration → List (Text × Nat)
  | .const, ds => (ds.filterMap (·.asConstant?)).map fun d => (d.name, d.line)
  | .var, ds => (ds.filterMap (·.asVariable?)).map fun d => (d.name, d.line)

theorem reportedNames_append (kind : ValueKind) (ds es : List Declaration) :
    reportedNames kind (ds ++ es) = reportedNames kind ds ++ reportedNames kind es := by
  cases kind <;> simp [reportedNames]

/-- The names of a kind that specs are read with. -/
def shown (kind : ValueKind) (specs : List PlacedSpec) : List (Text × Nat) :=
  (specs.filter (·.kind = kind)).flatMap fun p => shownNames p.kind p.line p.spec

theorem shown_append (kind : ValueKind) (ps qs : List PlacedSpec) :
    shown kind (ps ++ qs) = shown kind ps ++ shown kind qs := by
  unfold shown
  rw [List.filter_append, List.flatMap_append]

/-- Of a block only the values of its own kind are shown. -/
theorem shown_placedFrom (k kind : ValueKind) (number : Nat) (specs : List ValueSpec) :
    shown kind (placedFrom k number specs)
      = if k = kind then
          (placedFrom k number specs).flatMap fun p => shownNames k p.line p.spec
        else [] := by
  induction specs generalizing number with
  | nil =>
      split <;> rfl
  | cons s specs ih =>
      have hrest := ih (number + 1)
      unfold shown at hrest ⊢
      by_cases hkind : k = kind
      · rw [if_pos hkind] at hrest ⊢
        rw [placedFrom, List.filter_cons_of_pos (by simp [hkind]), List.flatMap_cons, hrest,
          List.flatMap_cons]
      · rw [if_neg hkind] at hrest ⊢
        rw [placedFrom, List.filter_cons_of_neg (by simp [hkind]), hrest]

/-- What the specs after a keyword declare. -/
def ValueKind.declarations : ValueKind → List Spec → List Declaration
  | .const, specs => (specs.filterMap parseConstant?).map .ofConstant
  | .var, specs => (specs.flatMap parseVariables).map .ofVariable

theorem reportedNames_declarations (k kind : ValueKind) (specs : List Spec) :
    reportedNames kind (k.declarations specs)
      = if k = kind then specs.flatMap (readNames k) else [] := by
  have hconstants : ∀ ds : List ConstantDecl,
      (ds.map Declaration.ofConstant).filterMap (·.asConstant?) = ds ∧
        (ds.map Declaration.ofConstant).filterMap (·.asVariable?) = [] := by
    intro ds
    induction ds with
    | nil => exact ⟨rfl, rfl⟩
    | cons d ds ih => exact ⟨congrArg (d :: ·) ih.1, ih.2⟩
  have hvariables : ∀ ds : List VariableDecl,
      (ds.map Declaration.ofVariable).filterMap (·.asVariable?) = ds ∧
        (ds.map Declaration.ofVariable).filterMap (·.asConstant?) = [] := by
    intro ds
    induction ds with
    | nil => exact ⟨rfl, rfl⟩
    | cons d ds ih => exact ⟨congrArg (d :: ·) ih.1, ih.2⟩
  cases k with
  | const =>
      cases kind with
      | const =>
          simp only [reportedNames, ValueKind.declarations, hconstants, if_true]
          rw [List.map_filterMap, List.filterMap_eq_flatMap_toList]
          rfl
      | var =>
          simp only [reportedNames, ValueKind.declarations, hconstants]
          rfl
  | var =>
      cases kind with
      | const =>
          simp only [reportedNames, ValueKind.declarations, hvariables]
          rfl
      | var =>
          simp only [reportedNames, ValueKind.declarations, hvariables, if_true]
          rw [List.map_flatMap]
          rfl

/-- The construct that a keyword begins. -/
def ValueKind.construct : ValueKind → Construct
  | .const => .constants
  | .var => .packageVars

/-- The keyword says which construct begins. -/
theorem classify?_keyword (kind : ValueKind) (t : Text) :
    classify? (kind.keyword ++ ' ' :: t) = some kind.construct := by
  have hbegins : kind.keyword ++ [' '] <+: kind.keyword ++ ' ' :: t :=
    ⟨t, by rw [List.append_assoc]; rfl⟩
  cases kind with
  | const =>
      have hkeyword : ("const".toList, Construct.constants) ∈ keywordConstructs := by decide
      exact classify?_of_keyword hkeyword hbegins
  | var =>
      have hkeyword : ("var".toList, Construct.packageVars) ∈ keywordConstructs := by decide
      exact classify?_of_keyword hkeyword hbegins

/-- What a line with a keyword declares, and where it ends, is what its specs and their group
say. -/
theorem readConstruct_kind (content : Text) (offset : Nat) {trimmed : Text}
    (hbrace : endsWith "\x7b" trimmed = false) (kind : ValueKind) :
    readConstruct content lines index offset trimmed kind.construct
      = (kind.declarations (groupSpecs kind.keyword lines index).1,
        (groupSpecs kind.keyword lines index).2) := by
  cases kind with
  | const => rfl
  | var =>
      show (_, if (_ && endsWith "\x7b" trimmed) = true then _ else _) = _
      rw [hbrace, Bool.and_false, if_neg Bool.false_ne_true]
      rfl

theorem not_mem_keyword (kind : ValueKind) : '\x7b' ∉ kind.keyword := by
  cases kind <;> decide

/-- At a block the pass takes it and comes to the line after its last one. -/
theorem declarationsFrom_block {b : ValueBlock} (hb : b.WellFormed) {above rest : List Text}
    (hlines : lines = above ++ (b.lines ++ rest)) (content : Text) (offset : Nat) :
    ∃ found offset',
      declarationsFrom content lines 0 (b.lines ++ rest) above.length offset
        = found ++ declarationsFrom content lines 0 rest (above.length + b.lines.length) offset' ∧
      ∀ kind, reportedNames kind found = shown kind (b.placed (above.length + 1)) := by
  have hdrop : lines.drop above.length = b.lines ++ rest := by rw [hlines, List.drop_left]
  cases b with
  | other line =>
      refine ⟨[], _, declarationsFrom_none hb.2, fun kind => ?_⟩
      cases kind <;> rfl
  | single k s =>
      have hs : s.WellFormed := hb
      have hline : lines[above.length]? = some (k.keyword ++ ' ' :: s.text) := by
        rw [← List.head?_drop, hdrop]
        rfl
      have hbrace : endsWith "\x7b" (k.keyword ++ ' ' :: trimEnd s.text) = false := by
        refine Declaration.not_endsWith fun hmem => ?_
        rcases List.mem_append.1 hmem with hmem | hmem
        · exact not_mem_keyword k hmem
        · rcases List.mem_cons.1 hmem with hspace | hmem
          · exact absurd hspace (by decide)
          · exact hs.isPlain_trimEnd.not_mem_brace hmem
      have hclassify : classify? (trim (k.keyword ++ ' ' :: s.text)) = some k.construct := by
        rw [trim_keyword hs, classify?_keyword]
      have hread : readConstruct content lines above.length offset
          (trim (k.keyword ++ ' ' :: s.text)) k.construct
            = (k.declarations [⟨above.length + 1, trimEnd s.text,
                leadingComments lines above.length⟩], above.length) := by
        rw [trim_keyword hs, readConstruct_kind content offset hbrace, groupSpecs_single hs hline]
      refine ⟨_, _, declarationsFrom_construct [] hclassify hread, fun kind => ?_⟩
      rw [reportedNames_declarations, List.flatMap_singleton, readNames_text hs rfl]
      by_cases hkind : k = kind
      · subst hkind
        simp [shown, ValueBlock.placed]
      · simp [shown, ValueBlock.placed, hkind]
  | group k specs =>
      have hspecs : ∀ s ∈ specs, s.WellFormed := hb
      obtain ⟨hlast, hnames⟩ := groupSpecs_group hspecs hdrop
      have htrim : trim (k.keyword ++ " (".toList) = k.keyword ++ ' ' :: "(".toList := by
        cases k <;> decide
      have hbrace : endsWith "\x7b" (k.keyword ++ ' ' :: "(".toList) = false := by
        cases k <;> decide
      have hclassify : classify? (trim (k.keyword ++ " (".toList)) = some k.construct := by
        rw [htrim, classify?_keyword]
      have hcount : above.length + specs.length + 1
          = above.length + ((specs.map fun s => '\t' :: s.text) ++ [")".toList]).length := by
        rw [List.length_append, List.length_map, List.length_singleton, Nat.add_assoc]
      have hnext : above.length + (ValueBlock.group k specs).lines.length = above.length + 1
          + ((specs.map fun s => '\t' :: s.text) ++ [")".toList]).length := by
        rw [ValueBlock.lines, List.length_cons]
        omega
      rw [hnext]
      have hread : readConstruct content lines above.length offset
          (trim (k.keyword ++ " (".toList)) k.construct
            = (k.declarations (groupSpecs k.keyword lines above.length).1, above.length
                + ((specs.map fun s => '\t' :: s.text) ++ [")".toList]).length) := by
        rw [htrim, readConstruct_kind content offset hbrace, hlast, hcount]
      refine ⟨_, _, declarationsFrom_construct _ hclassify hread, fun kind => ?_⟩
      rw [reportedNames_declarations, hnames, ← shown_placedFrom]
      rfl

/-- The pass reads one block after another. -/
theorem declarationsFrom_blocks {blocks : List ValueBlock} (hblocks : ∀ b ∈ blocks, b.WellFormed)
    {above : List Text} (hlines : lines = above ++ blocks.flatMap ValueBlock.lines)
    (content : Text) (offset : Nat) (kind : ValueKind) :
    reportedNames kind
        (declarationsFrom content lines 0 (blocks.flatMap ValueBlock.lines) above.length offset)
      = shown kind (placedSpecs (above.length + 1) blocks) := by
  induction blocks generalizing above offset with
  | nil =>
      cases kind <;> rfl
  | cons b blocks ih =>
      rw [List.flatMap_cons] at hlines ⊢
      obtain ⟨found, offset', hfound, hnames⟩ :=
        declarationsFrom_block (hblocks b List.mem_cons_self) hlines content offset
      have hrest : lines = above ++ b.lines ++ blocks.flatMap ValueBlock.lines := by
        rw [hlines, List.append_assoc]
      have hlater := ih (fun c hc => hblocks c (List.mem_cons_of_mem b hc)) hrest offset'
      rw [List.length_append] at hlater
      have hnumber : above.length + 1 + b.lines.length = above.length + b.lines.length + 1 := by
        omega
      rw [hfound, reportedNames_append, hnames, hlater, placedSpecs, shown_append, hnumber]

-- ============================================================= the file

theorem newline_not_mem_lines {b : ValueBlock} (hb : b.WellFormed) :
    ∀ line ∈ b.lines, newline ∉ line := by
  have hspec : ∀ {s : ValueSpec}, s.WellFormed → newline ∉ s.text := fun hs hmem =>
    absurd (hs.isPlain.not_isMark newline hmem) (by decide)
  have hkeyword : ∀ {kind : ValueKind} {t : Text}, newline ∉ t →
      newline ∉ kind.keyword ++ ' ' :: t := by
    intro kind t ht hmem
    rcases List.mem_append.1 hmem with hmem | hmem
    · cases kind <;> exact absurd hmem (by decide)
    · rcases List.mem_cons.1 hmem with hspace | hmem
      · exact absurd hspace (by decide)
      · exact ht hmem
  intro line hline
  cases b with
  | other other =>
      obtain rfl := List.mem_singleton.1 hline
      exact hb.1
  | single kind s =>
      obtain rfl := List.mem_singleton.1 hline
      exact hkeyword (hspec hb)
  | group kind specs =>
      rcases List.mem_cons.1 hline with rfl | hline
      · exact hkeyword (by decide)
      · rcases List.mem_append.1 hline with hline | hline
        · obtain ⟨s, hs, rfl⟩ := List.mem_map.1 hline
          intro hmem
          rcases List.mem_cons.1 hmem with htab | hmem
          · exact absurd htab (by decide)
          · exact hspec (hb s hs) hmem
        · rw [List.mem_singleton.1 hline]
          decide

/-- The lines of a printed file are those of its blocks, and an empty file begins nothing. -/
theorem reportedNames_valueFile {blocks : List ValueBlock} (hblocks : ∀ b ∈ blocks, b.WellFormed)
    (kind : ValueKind) :
    reportedNames kind (declarations (valueFile blocks)) = shown kind (placedSpecs 1 blocks) := by
  cases blocks with
  | nil => cases kind <;> decide
  | cons b blocks =>
      have hne : (b :: blocks).flatMap ValueBlock.lines ≠ [] := by
        rw [List.flatMap_cons]
        cases b <;> simp [ValueBlock.lines]
      have hlines :
          Text.lines (valueFile (b :: blocks)) = (b :: blocks).flatMap ValueBlock.lines := by
        refine splitOn_join hne fun line hline => ?_
        obtain ⟨c, hc, hline⟩ := List.mem_flatMap.1 hline
        exact newline_not_mem_lines (hblocks c hc) line hline
      unfold declarations
      dsimp only
      rw [hlines]
      have hall : (b :: blocks).flatMap ValueBlock.lines
          = [] ++ (b :: blocks).flatMap ValueBlock.lines := rfl
      exact declarationsFrom_blocks hblocks hall _ 0 kind

/-- To give specs their places changes none of them. -/
theorem placedSpecs_wellFormed {blocks : List ValueBlock} (hblocks : ∀ b ∈ blocks, b.WellFormed)
    (number : Nat) : ∀ p ∈ placedSpecs number blocks, p.spec.WellFormed := by
  have hgroup : ∀ (k : ValueKind) (specs : List ValueSpec) (n : Nat),
      (∀ s ∈ specs, s.WellFormed) → ∀ p ∈ placedFrom k n specs, p.spec.WellFormed := by
    intro k specs
    induction specs with
    | nil =>
        intro n _ p hp
        cases hp
    | cons s specs ih =>
        intro n hspecs p hp
        rcases List.mem_cons.1 hp with rfl | hp
        · exact hspecs s List.mem_cons_self
        · exact ih (n + 1) (fun t ht => hspecs t (List.mem_cons_of_mem s ht)) p hp
  induction blocks generalizing number with
  | nil =>
      intro p hp
      cases hp
  | cons b blocks ih =>
      intro p hp
      have hb := hblocks b List.mem_cons_self
      rcases List.mem_append.1 hp with hp | hp
      · cases b with
        | single k s =>
            obtain rfl := List.mem_singleton.1 hp
            exact hb
        | group k specs => exact hgroup k specs _ hb p hp
        | other line => cases hp
      · exact ih (fun c hc => hblocks c (List.mem_cons_of_mem b hc)) _ p hp

theorem shown_var (ps : List PlacedSpec) : shown .var ps = declaredNames .var ps := by
  refine List.flatMap_congr fun p hp => ?_
  have hkind : p.kind = .var := of_decide_eq_true (List.mem_filter.1 hp).2
  exact if_pos (.inl hkind)

theorem shown_const (ps : List PlacedSpec) :
    shown .const ps = declaredNames .const (ps.filter (·.spec.names.length = 1)) := by
  unfold shown declaredNames
  induction ps with
  | nil => rfl
  | cons p ps ih =>
      by_cases hkind : p.kind = .const
      · rw [List.filter_cons_of_pos (by simp [hkind]), List.flatMap_cons, ih]
        by_cases hone : p.spec.names.length = 1
        · rw [List.filter_cons_of_pos (by simp [hone]), List.filter_cons_of_pos (by simp [hkind]),
            List.flatMap_cons]
          exact congrArg (· ++ _) (if_pos (.inr hone))
        · have hnone : shownNames p.kind p.line p.spec = [] := by
            refine if_neg ?_
            rw [hkind]
            rintro (h | h)
            · cases h
            · exact hone h
          rw [List.filter_cons_of_neg (by simp [hone]), hnone]
          rfl
      · rw [List.filter_cons_of_neg (by simp [hkind]), ih]
        by_cases hone : p.spec.names.length = 1
        · rw [List.filter_cons_of_pos (by simp [hone]), List.filter_cons_of_neg (by simp [hkind])]
        · rw [List.filter_cons_of_neg (by simp [hone])]

/-- Leaving out the specs of several names leaves out names, unless there are no such specs. -/
theorem declaredNames_filter_iff {ps : List PlacedSpec} (hps : ∀ p ∈ ps, p.spec.WellFormed) :
    declaredNames .const (ps.filter (·.spec.names.length = 1)) = declaredNames .const ps
      ↔ ∀ p ∈ ps, p.kind = .const → p.spec.names.length = 1 := by
  unfold declaredNames
  induction ps with
  | nil => simp
  | cons p ps ih =>
      have hrest := ih fun q hq => hps q (List.mem_cons_of_mem p hq)
      rw [List.forall_mem_cons]
      by_cases hkind : p.kind = .const
      · rw [List.filter_cons_of_pos (p := fun q : PlacedSpec => q.kind = .const) (by simp [hkind])]
        by_cases hone : p.spec.names.length = 1
        · rw [List.filter_cons_of_pos (by simp [hone]), List.filter_cons_of_pos (by simp [hkind]),
            List.flatMap_cons, List.flatMap_cons, List.append_right_inj, hrest]
          exact ⟨fun h => ⟨fun _ => hone, h⟩, fun h => h.2⟩
        · rw [List.filter_cons_of_neg (by simp [hone]), List.flatMap_cons]
          refine ⟨fun h => ?_, fun h => absurd (h.1 hkind) hone⟩
          have hlength := congrArg List.length h
          have hle := ((List.filter_sublist (l := ps)
            (p := fun q : PlacedSpec => decide (q.spec.names.length = 1))).filter
              (fun q : PlacedSpec => decide (q.kind = .const))).flatMap
                fun q : PlacedSpec => q.spec.names.map (·, q.line)
          have hpos : 0 < p.spec.names.length :=
            List.length_pos_iff.2 (hps p List.mem_cons_self).ne_nil
          rw [List.length_append, List.length_map] at hlength
          have hcount := hle.length_le
          omega
      · rw [List.filter_cons_of_neg (p := fun q : PlacedSpec => q.kind = .const) (by simp [hkind])]
        refine Iff.trans ?_ (hrest.trans ⟨fun h => ⟨fun hk => absurd hk hkind, h⟩, fun h => h.2⟩)
        by_cases hone : p.spec.names.length = 1
        · rw [List.filter_cons_of_pos (by simp [hone]), List.filter_cons_of_neg (by simp [hkind])]
        · rw [List.filter_cons_of_neg (by simp [hone])]

/-- In a file of specs every variable is reported once, in order, in the line of its spec, and
nothing else is. So are the constants of specs with one name, and those are all the constants
exactly if no spec of constants has more names. -/
theorem values_valueFile {blocks : List ValueBlock} (hblocks : ∀ b ∈ blocks, b.WellFormed)
    (file : Text) :
    (structureOf (valueFile blocks) file).packageVars.map (fun d => (d.name, d.line))
        = declaredNames .var (placedSpecs 1 blocks) ∧
      (structureOf (valueFile blocks) file).constants.map (fun d => (d.name, d.line))
        = declaredNames .const ((placedSpecs 1 blocks).filter (·.spec.names.length = 1)) ∧
      ((structureOf (valueFile blocks) file).constants.map (fun d => (d.name, d.line))
          = declaredNames .const (placedSpecs 1 blocks)
        ↔ ∀ p ∈ placedSpecs 1 blocks, p.kind = .const → p.spec.names.length = 1) := by
  have hvar :
      (structureOf (valueFile blocks) file).packageVars.map (fun d => (d.name, d.line)) = _ :=
    (reportedNames_valueFile hblocks .var).trans (shown_var _)
  have hconst :
      (structureOf (valueFile blocks) file).constants.map (fun d => (d.name, d.line)) = _ :=
    (reportedNames_valueFile hblocks .const).trans (shown_const _)
  refine ⟨hvar, hconst, ?_⟩
  rw [hconst]
  exact declaredNames_filter_iff (placedSpecs_wellFormed hblocks 1)

/-- Two constants in one spec, constants in a group, and variables of both forms. -/
def mixedValues : List ValueBlock :=
  [.other "package p", .other "",
    .single .const ⟨["A", "B"], "", ["1", "2"]⟩,
    .group .const [⟨["C"], "int", ["iota + 1"]⟩, ⟨["D"], "", []⟩],
    .other "",
    .group .var [⟨["x", "y"], "float64", ["1.5", "a / b"]⟩],
    .single .var ⟨["names"], "[]string", []⟩]

/-- Of the constants in one spec neither is reported. -/
theorem values_mixedValues :
    (∀ b ∈ mixedValues, b.WellFormed) ∧
      (structureOf (valueFile mixedValues) "m.go").packageVars.map (fun d => (d.name, d.line))
        = [("x".toList, 10), ("y".toList, 10), ("names".toList, 12)] ∧
      (structureOf (valueFile mixedValues) "m.go").constants.map (fun d => (d.name, d.line))
        = [("C".toList, 5), ("D".toList, 6)] ∧
      declaredNames .const (placedSpecs 1 mixedValues)
        = [("A".toList, 3), ("B".toList, 3), ("C".toList, 5), ("D".toList, 6)] := by
  have hblocks : ∀ b ∈ mixedValues, b.WellFormed := by decide +kernel
  obtain ⟨hvar, hconst, -⟩ := values_valueFile hblocks "m.go"
  refine ⟨hblocks, hvar.trans ?_, hconst.trans ?_, ?_⟩ <;> decide +kernel

end GoSurvey.Declaration
