/-
Declarations stand where they are said to stand. The number that a
declaration carries is that of a line in which its name is written
(`StandsIn`), for an import its path.

Numbers are given to specs, and names are read from the first line of a
spec; so there are two steps. The first line of every spec lies in the
line of its number, by whichever route the spec was cut out
(`groupSpecs_stand`), and whatever a spec declares has its name in that
first line. The names of structs and interfaces are looked for in the
whole text of a spec, and that they are found in its first line is what
`Heading` is for.
-/
import GoSurvey.Proofs.Declaration.Pass
import GoSurvey.Proofs.Declaration.TypeName
import GoSurvey.Proofs.Source.LineComment

namespace GoSurvey.Declaration

open Text Source Pattern

/-- A text stands in the line of a number. -/
def StandsIn (lines : List Text) (number : Nat) (t : Text) : Prop :=
  ∃ index line, number = index + 1 ∧ lines[index]? = some line ∧ t <:+: line

variable {lines : List Text} {index number : Nat}

/-- What is a part of a line stands in it. -/
theorem standsIn_of_line {line t : Text} (hline : lines[index]? = some line) (ht : t <:+: line) :
    StandsIn lines (index + 1) t :=
  ⟨index, line, rfl, hline, ht⟩

/-- What stands in a text stands where the text does. -/
theorem StandsIn.part {t u : Text} (h : StandsIn lines number t) (hu : u <:+: t) :
    StandsIn lines number u := by
  obtain ⟨index, line, hnumber, hline, ht⟩ := h
  exact ⟨index, line, hnumber, hline, hu.trans ht⟩

-- =================================================== specs in their lines

theorem dropMatch_suffix (p : Pattern) (t : Text) : dropMatch p t <:+ t := by
  unfold dropMatch
  split
  · exact List.drop_suffix _ t
  · exact List.suffix_rfl

theorem before_isPrefix (c : Char) (t : Text) : before [c] t <+: t := by
  rw [before_singleton]
  exact List.takeWhile_prefix _

theorem Spec.head_isInfix (s : Spec) : s.head <:+: s.text :=
  (before_isPrefix newline s.text).isInfix

theorem inlineSpecs_stand {first : Text} (h : StandsIn lines number first) :
    ∀ s ∈ inlineSpecs number first, StandsIn lines s.line s.head := by
  intro s hs
  obtain ⟨part, hpart, rfl⟩ := List.mem_map.1 hs
  obtain ⟨piece, hpiece, rfl⟩ := List.mem_map.1 (List.mem_filter.1 hpart).1
  have hinside : ((cut? "(" first).map (·.2)).getD [] <:+: first := by
    cases hcut : cut? "(" first with
    | none => exact List.nil_infix
    | some parts =>
        obtain ⟨a, b⟩ := parts
        have hfirst := cut?_eq_some hcut
        rw [← List.append_assoc] at hfirst
        exact ⟨a ++ "(".toList, [], by rw [List.append_nil, hfirst]; rfl⟩
  have hpieces :=
    (trim_isInfix _).trans ((dropEndWhile_isPrefix (· == ')') _).isInfix.trans hinside)
  have hpart := (trim_isInfix piece).trans ((infix_of_mem_splitOn hpiece).trans hpieces)
  exact h.part ((Spec.head_isInfix _).trans hpart)

/-- The first of some lines in the middle is the line of its index. -/
theorem of_cons_eq_drop_take {line : Text} {rest : List Text} {count : Nat}
    (h : line :: rest = (lines.take count).drop index) :
    lines[index]? = some line ∧ rest = (lines.take count).drop (index + 1) := by
  obtain ⟨hline, hrest⟩ := of_cons_eq_drop h
  refine ⟨?_, hrest⟩
  rw [List.getElem?_take] at hline
  split at hline
  · exact hline
  · cases hline

/-- A spec among the lines of a group begins with the line of its number. -/
theorem specsFrom_begins {last skip : Nat} {rest : List Text}
    (hrest : rest = (lines.take (last + 1)).drop index) :
    ∀ s ∈ specsFrom lines last skip rest index, ∃ raw more, lines[s.line - 1]? = some raw ∧
      index < s.line ∧ trim raw ≠ [] ∧ s.text = trim (raw ++ more) ∧
      ∀ c ∈ more.head?, c = newline := by
  induction rest generalizing skip index with
  | nil =>
      intro s hs
      rw [specsFrom] at hs
      cases hs
  | cons raw rest ih =>
      obtain ⟨hraw, hnext⟩ := of_cons_eq_drop_take hrest
      have hlater : ∀ {skip : Nat}, ∀ s ∈ specsFrom lines last skip rest (index + 1),
          ∃ raw more, lines[s.line - 1]? = some raw ∧ index < s.line ∧ trim raw ≠ [] ∧
            s.text = trim (raw ++ more) ∧ ∀ c ∈ more.head?, c = newline := by
        intro skip s hs
        obtain ⟨raw, more, hstands, hlt, hbegins⟩ := ih hnext s hs
        exact ⟨raw, more, hstands, Nat.lt_of_succ_lt hlt, hbegins⟩
      cases skip with
      | succ skip => exact hlater
      | zero =>
          intro s hs
          simp only [specsFrom] at hs
          split at hs
          · cases hs
          · split at hs
            · exact hlater s hs
            · next hnone =>
              have hne : trim raw ≠ [] := by
                intro hblank
                apply hnone
                rw [hblank]
                rfl
              split at hs
              · next d _ =>
                rcases List.mem_cons.1 hs with rfl | hs
                · obtain ⟨hle, -⟩ := blockEnd_bounds d (List.getElem?_eq_some_iff.1 hraw).1
                  obtain ⟨more, hmore, hnewline⟩ := linesText_begins hraw hle
                  exact ⟨raw, more, hraw, Nat.lt_succ_self _, hne, congrArg trim hmore, hnewline⟩
                · exact hlater s hs
              · rcases List.mem_cons.1 hs with rfl | hs
                · exact ⟨raw, [], hraw, Nat.lt_succ_self _, hne, by rw [List.append_nil], by simp⟩
                · exact hlater s hs

theorem specsFrom_stand {last skip : Nat} {rest : List Text}
    (hrest : rest = (lines.take (last + 1)).drop index) :
    ∀ s ∈ specsFrom lines last skip rest index, StandsIn lines s.line s.head := by
  intro s hs
  obtain ⟨raw, more, hraw, hlt, hne, htext, hnewline⟩ := specsFrom_begins hrest s hs
  refine ⟨s.line - 1, raw, by omega, hraw, ?_⟩
  unfold Spec.head
  rw [htext]
  exact firstLine_trim hnewline hne

/-- The first line of every spec of a group lies in the line of its number. -/
theorem groupSpecs_stand (keyword : Text) (hindex : index < lines.length) :
    ∀ s ∈ (groupSpecs keyword lines index).1, StandsIn lines s.line s.head := by
  obtain ⟨line, hline⟩ : ∃ line, lines[index]? = some line :=
    ⟨_, List.getElem?_eq_getElem hindex⟩
  have hfirst : StandsIn lines (index + 1) (trim line) :=
    standsIn_of_line hline (trim_isInfix line)
  intro s hs
  unfold groupSpecs at hs
  rw [hline] at hs
  dsimp only [Option.getD_some] at hs
  split at hs
  · obtain rfl := List.mem_singleton.1 hs
    exact hfirst.part ((Spec.head_isInfix _).trans (dropMatch_suffix _ _).isInfix)
  · split at hs
    · dsimp only at hs
      exact inlineSpecs_stand hfirst s hs
    · exact specsFrom_stand rfl s hs

-- ==================================================== names in their specs

/-- What a declaration is known by: its name, or the path of an import. -/
def subject : Declaration → Text
  | ofImport d => d.path
  | ofType d => d.name
  | ofConstant d => d.name
  | ofVariable d => d.name
  | ofFunction d => d.name
  | ofStruct d => d.name
  | ofInterface d => d.name

/-- The code is a part of its line. -/
theorem code_isInfix (t : Text) : trim (stripLineComment t) <:+: t :=
  (trim_isInfix _).trans (stripLineComment_isPrefix t).isInfix

/-- What a pattern remembers of the code of a line stands in the line. -/
theorem group_infix_of_code {p : Pattern} {t : Text} {m : Match} (index : Nat)
    (h : p.matchStart (trim (stripLineComment t)) = some m) : m.group index <:+: t :=
  (group_infix_of_matchAt index h).trans (code_isInfix t)

theorem infix_of_mem_namesOf {name t : Text} (h : name ∈ namesOf t) : name <:+: t := by
  obtain ⟨piece, hpiece, rfl⟩ := List.mem_map.1 h
  exact (trim_isInfix piece).trans (infix_of_mem_splitOn hpiece)

theorem parseConstant?_isInfix {s : Spec} {d : ConstantDecl} (h : parseConstant? s = some d) :
    d.name <:+: s.head := by
  obtain ⟨m, hm, rfl⟩ := Option.map_eq_some_iff.1 h
  exact group_infix_of_code 1 hm

theorem parseVariables_isInfix {s : Spec} {d : VariableDecl} (h : d ∈ parseVariables s) :
    d.name <:+: s.head := by
  unfold parseVariables at h
  split at h
  · cases h
  · next m hm =>
    obtain ⟨name, hname, rfl⟩ := List.mem_map.1 h
    exact (infix_of_mem_namesOf hname).trans (group_infix_of_code 1 hm)

theorem parseType?_isInfix {s : Spec} {d : TypeDecl} (h : parseType? s = some d) :
    d.name <:+: s.head := by
  unfold parseType? at h
  split at h
  · cases h
  · next m hm =>
    split at h
    · cases h
    · injection h with h
      rw [← h]
      exact group_infix_of_code 1 hm

/-- The text of a spec goes on after its first line with a newline. -/
theorem Spec.exists_text_eq (s : Spec) :
    ∃ more, s.text = s.head ++ more ∧ ∀ c ∈ more.head?, isWord c = false := by
  unfold Spec.head
  rw [before_singleton]
  refine ⟨s.text.dropWhile (· != newline), List.takeWhile_append_dropWhile.symm, fun c hc => ?_⟩
  have hnewline := List.head?_dropWhile_not (· != newline) s.text
  rw [hc] at hnewline
  obtain rfl : c = newline := by simpa using hnewline
  decide

/-- A type spec declares what its first line names. -/
theorem typeSpec?_isInfix {s : Spec} {d : Declaration} (h : typeSpec? s = some d) :
    d.subject <:+: s.head := by
  obtain ⟨more, htext, hmore⟩ := s.exists_text_eq
  unfold typeSpec? at h
  split at h
  · next hstruct =>
    obtain ⟨name, hname⟩ := heading_of_typeSpec isKeyword_struct hstruct
    obtain ⟨e, he, hsame⟩ := parseStruct?_of_heading (hname.append hmore) s.line s.comments
    rw [htext, he] at h
    injection h with h
    rw [← h]
    show e.name <:+: s.head
    rw [hsame]
    exact hname.isInfix
  · split at h
    · next hinterface =>
      obtain ⟨name, hname⟩ := heading_of_typeSpec isKeyword_interface hinterface
      obtain ⟨e, he, hsame⟩ := parseInterface?_of_heading (hname.append hmore) s.line s.comments
      rw [htext, he] at h
      injection h with h
      rw [← h]
      show e.name <:+: s.head
      rw [hsame]
      exact hname.isInfix
    · obtain ⟨e, he, rfl⟩ := Option.map_eq_some_iff.1 h
      exact parseType?_isInfix he

/-- The path of an import is a part of the line it is read from. -/
theorem parseImports_isInfix {raw : Text} {d : ImportDecl} (h : d ∈ parseImports number raw) :
    d.path <:+: raw := by
  simp only [parseImports] at h
  split at h
  · cases h
  · obtain ⟨m, hm, rfl⟩ := List.mem_map.1 h
    have hcode := (dropMatch_suffix importKeyword (stripLineComment (trim raw))).isInfix.trans
      ((stripLineComment_isPrefix (trim raw)).isInfix.trans (trim_isInfix raw))
    have hinside := (stripWhile_isInfix (fun c => c == '(' || c == ')') _).trans
      ((trim_isInfix _).trans hcode)
    refine List.IsInfix.trans ?_ ((trim_isInfix _).trans hinside)
    have hgroups := fun index => group_infix_of_mem_findAll index hm
    show (m.group? 2).getD (m.group 3) <:+: _
    cases hpath : m.group? 2 with
    | none => exact hgroups 3
    | some path =>
        have hgroup : m.group 2 = path := by
          unfold Match.group
          rw [hpath]
          rfl
        exact hgroup ▸ hgroups 2

theorem importsFrom_stand {rest : List Text} {count : Nat}
    (hrest : rest = (lines.take count).drop index) :
    ∀ d ∈ importsFrom (index + 1) rest, StandsIn lines d.line d.path := by
  induction rest generalizing index with
  | nil =>
      intro d hd
      cases hd
  | cons line rest ih =>
      obtain ⟨hline, hnext⟩ := of_cons_eq_drop_take hrest
      intro d hd
      rcases List.mem_append.1 hd with hd | hd
      · rw [parseImports_line hd]
        exact standsIn_of_line hline (parseImports_isInfix hd)
      · exact ih hnext d hd

-- ======================================================== in their lines

/-- A trimmed line that has a heading begins every text that the line begins. -/
theorem Heading.of_trim {keyword name line more : Text} (h : Heading keyword name (trim line))
    (hmore : ∀ c ∈ more.head?, c = newline) : Heading keyword name (line ++ more) := by
  obtain ⟨lead, trail, hline, hlead, htrail⟩ := exists_trim_eq line
  rw [hline, List.append_assoc, List.append_assoc]
  refine (h.append fun c hc => ?_).prepend hlead
  cases trail with
  | nil =>
      rw [hmore c hc]
      decide
  | cons b trail =>
      cases hc
      exact not_isWord_of_isBlank (htrail c List.mem_cons_self)

/-- A construct is recognised by one of its patterns. -/
theorem matches_of_classify? {t : Text} {construct : Construct} (h : classify? t = some construct) :
    ∃ p, (construct, p) ∈ constructLines ∧ (p.matchStart t).isSome = true := by
  obtain ⟨⟨construct', p⟩, hfind, rfl⟩ := Option.map_eq_some_iff.1 h
  have hmatch :=
    List.find?_some (p := fun x : Construct × Pattern => (x.2.matchStart t).isSome) hfind
  exact ⟨p, List.mem_of_find?_eq_some hfind, hmatch⟩

/-- A line that begins a struct or an interface has its heading. -/
theorem heading_of_classify? {t : Text} {construct : Construct} {keyword : Text}
    (hkeyword : IsKeyword keyword)
    (hlines : ∀ p, (construct, p) ∈ constructLines → p = typeLineOf keyword)
    (h : classify? t = some construct) : ∃ name, Heading keyword name t := by
  obtain ⟨p, hp, hmatch⟩ := matches_of_classify? h
  exact heading_of_typeLine hkeyword (hlines p hp ▸ hmatch)

theorem heading_of_struct {t : Text} (h : classify? t = some .struct) :
    ∃ name, Heading "struct" name t :=
  heading_of_classify? isKeyword_struct (by simp [constructLines]) h

theorem heading_of_interface {t : Text} (h : classify? t = some .interface) :
    ∃ name, Heading "interface" name t :=
  heading_of_classify? isKeyword_interface (by simp [constructLines]) h

/-- The block that begins in a line with a heading has the heading. -/
theorem exists_block_of_heading {keyword name line : Text} (hline : lines[index]? = some line)
    (h : Heading keyword name (trim line)) :
    ∃ b, extractBlock? braces true lines index = some b ∧ Heading keyword name b.content := by
  obtain ⟨b, hb⟩ :=
    exists_extractBlock? (d := braces) true (List.getElem?_eq_some_iff.1 hline).1
  obtain ⟨more, hcontent, hmore⟩ := extractBlock?_begins hline hb
  exact ⟨b, hb, hcontent ▸ h.of_trim hmore⟩

/-- Whatever a construct declares, except for a function, stands in the line of its number. -/
theorem subject_standsIn {content line : Text} {construct : Construct} {x : Extended}
    (hx : x.IsReadFrom content line construct) {d : Declaration} (hd : d ∈ x.found)
    (hfunction : ∀ f, d ≠ .ofFunction f) :
    StandsIn (Text.lines content) d.line d.subject := by
  have hindex : x.first < (Text.lines content).length :=
    (List.getElem?_eq_some_iff.1 hx.stands).1
  have hfound := congrArg Prod.fst hx.read
  dsimp only at hfound
  rw [← hfound] at hd
  cases construct with
  | imports =>
      obtain ⟨e, he, rfl⟩ := List.mem_map.1 hd
      exact importsFrom_stand rfl e he
  | struct =>
      obtain ⟨name, hname⟩ := heading_of_struct hx.begins
      obtain ⟨b, hb, hblock⟩ := exists_block_of_heading hx.stands hname
      obtain ⟨e, he, hsame⟩ := parseStruct?_of_heading hblock (x.first + 1)
        (leadingComments (Text.lines content) x.first)
      simp only [readConstruct, hb, Option.getD_some, he] at hd
      obtain rfl := List.mem_singleton.1 hd
      show StandsIn _ e.line e.name
      rw [hsame, parseStruct?_line he]
      exact standsIn_of_line hx.stands (hname.isInfix.trans (trim_isInfix line))
  | interface =>
      obtain ⟨name, hname⟩ := heading_of_interface hx.begins
      obtain ⟨b, hb, hblock⟩ := exists_block_of_heading hx.stands hname
      obtain ⟨e, he, hsame⟩ := parseInterface?_of_heading hblock (x.first + 1)
        (leadingComments (Text.lines content) x.first)
      simp only [readConstruct, hb, Option.getD_some, he] at hd
      obtain rfl := List.mem_singleton.1 hd
      show StandsIn _ e.line e.name
      rw [hsame, parseInterface?_line he]
      exact standsIn_of_line hx.stands (hname.isInfix.trans (trim_isInfix line))
  | type =>
      obtain ⟨s, hs, hspec⟩ := List.mem_filterMap.1 hd
      rw [(typeSpec?_line hspec).1]
      exact (groupSpecs_stand "type" hindex s hs).part (typeSpec?_isInfix hspec)
  | constants =>
      obtain ⟨e, he, rfl⟩ := List.mem_map.1 hd
      obtain ⟨s, hs, hspec⟩ := List.mem_filterMap.1 he
      show StandsIn _ e.line e.name
      rw [parseConstant?_line hspec]
      exact (groupSpecs_stand "const" hindex s hs).part (parseConstant?_isInfix hspec)
  | packageVars =>
      obtain ⟨e, he, rfl⟩ := List.mem_map.1 hd
      obtain ⟨s, hs, hspec⟩ := List.mem_flatMap.1 he
      show StandsIn _ e.line e.name
      rw [parseVariables_line hspec]
      exact (groupSpecs_stand "var" hindex s hs).part (parseVariables_isInfix hspec)
  | function =>
      simp only [readConstruct, Option.mem_toList, Option.map_eq_some_iff] at hd
      obtain ⟨f, -, rfl⟩ := hd
      exact absurd rfl (hfunction f)

theorem declared_standsIn {content file : Text} {d : Declaration}
    (hd : d ∈ (structureOf content file).declared) (hfunction : ∀ f, d ≠ .ofFunction f) :
    StandsIn (Text.lines content) d.line d.subject := by
  obtain ⟨x, hx, hd⟩ := exists_construct (mem_declared.1 hd)
  obtain ⟨line, construct, hread⟩ := exists_isReadFrom hx
  exact subject_standsIn hread hd hfunction

/-- Every import of a file has its path in the line of its number, and every type, constant,
variable, struct and interface its name. -/
theorem structureOf_standsIn (content file : Text) :
    (∀ d ∈ (structureOf content file).imports, StandsIn (Text.lines content) d.line d.path) ∧
    (∀ d ∈ (structureOf content file).types, StandsIn (Text.lines content) d.line d.name) ∧
    (∀ d ∈ (structureOf content file).constants, StandsIn (Text.lines content) d.line d.name) ∧
    (∀ d ∈ (structureOf content file).packageVars, StandsIn (Text.lines content) d.line d.name) ∧
    (∀ d ∈ (structureOf content file).structs, StandsIn (Text.lines content) d.line d.name) ∧
    (∀ d ∈ (structureOf content file).interfaces, StandsIn (Text.lines content) d.line d.name) := by
  have hstands : ∀ d ∈ (structureOf content file).declared, (∀ f, d ≠ .ofFunction f) →
      StandsIn (Text.lines content) d.line d.subject := fun d => declared_standsIn
  unfold FileStructure.declared at hstands
  simp only [List.mem_append, List.mem_map] at hstands
  refine ⟨fun d hd => ?_, fun d hd => ?_, fun d hd => ?_, fun d hd => ?_, fun d hd => ?_,
    fun d hd => ?_⟩
  · exact hstands (.ofImport d) (by simp [hd]) fun f => Declaration.noConfusion
  · exact hstands (.ofType d) (by simp [hd]) fun f => Declaration.noConfusion
  · exact hstands (.ofConstant d) (by simp [hd]) fun f => Declaration.noConfusion
  · exact hstands (.ofVariable d) (by simp [hd]) fun f => Declaration.noConfusion
  · exact hstands (.ofStruct d) (by simp [hd]) fun f => Declaration.noConfusion
  · exact hstands (.ofInterface d) (by simp [hd]) fun f => Declaration.noConfusion

end GoSurvey.Declaration
