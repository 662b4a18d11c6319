/-
The field names that are listed for a struct, and those that it declares.
The list is read from the body up to its first closing brace, and of each
line there the first word is listed if there is more in the line. So names
are lost line by line: from a line that declares several, or that stands
behind a closing brace (`BodyLine.Kept`). The list has all the names, in
order, if no line loses one, and only then as long as no line lists what
another declares (`fieldNames_findStruct?`).
-/
import GoSurvey.Flow.Lookup
import GoSurvey.Proofs.Declaration.FieldForm

namespace GoSurvey.Flow

open Text Source Pattern Declaration

-- ================================================ the lines of a body

/-- A line of the body of a struct. -/
structure BodyLine where
  text : Text
  /-- The names of the fields that are declared in the line, those of embedded types left out. -/
  declared : List Text
  /-- What is listed for the line. -/
  listed : Option Text
  deriving DecidableEq, Repr

/-- All the names that a line declares are listed for it. -/
def BodyLine.Kept (row : BodyLine) : Prop := row.declared.Sublist row.listed.toList

/-- Neither of two lines lists a name that the other declares. -/
def BodyLine.Apart (row other : BodyLine) : Prop :=
  (∀ name ∈ row.declared, name ∉ other.listed.toList) ∧
    ∀ name ∈ other.declared, name ∉ row.listed.toList

/-- A line without a closing brace and a semicolon that declares one field with a name at most. -/
structure BodyLine.Plain (row : BodyLine) : Prop where
  brace : '}' ∉ row.text
  semicolon : ';' ∉ row.text
  single : row.declared.length ≤ 1

instance (row : BodyLine) : Decidable row.Kept := inferInstanceAs (Decidable (List.Sublist _ _))

instance (row other : BodyLine) : Decidable (row.Apart other) :=
  inferInstanceAs (Decidable (_ ∧ _))

/-- The first word of a line in which there is more. -/
def firstName? (line : Text) : Option Text := (fieldName.matchStart (trim line)).map (·.group 1)

/-- The lines of a body, each read after those before it; `ended` says that there is a closing brace
in them. -/
def bodyLinesFrom : MemberState → (ended : Bool) → List Text → List BodyLine
  | _, _, [] => []
  | s, ended, line :: rest =>
    let read := readPieces s (linePieces line)
    ⟨line, writtenNames read.1, if ended then none else firstName? (before ['}'] line)⟩
      :: bodyLinesFrom read.2 (ended || decide ('}' ∈ line)) rest

/-- The lines of the body of a struct, which is the text between the first balanced braces. -/
def structLines (source : Text) : List BodyLine :=
  match findMatching? braces source 0 with
  | none => []
  | some (opener, closer) => bodyLinesFrom {} false (lines (slice source (opener + 1) closer))

variable {rows : List BodyLine} {s : MemberState} {ls : List Text}

/-- What the lines declare is what is declared. -/
theorem flatMap_declared (s : MemberState) (ended : Bool) (ls : List Text) :
    (bodyLinesFrom s ended ls).flatMap (·.declared)
      = writtenNames (readPieces s (ls.flatMap linePieces)).1 := by
  induction ls generalizing s ended with
  | nil => rfl
  | cons line ls ih =>
      rw [bodyLinesFrom, List.flatMap_cons, ih, List.flatMap_cons, readPieces_append,
        writtenNames_append]

/-- After a closing brace nothing is listed. -/
theorem filterMap_listed_ended (s : MemberState) (ls : List Text) :
    (bodyLinesFrom s true ls).filterMap (·.listed) = [] := by
  induction ls generalizing s with
  | nil => rfl
  | cons line ls ih =>
      rw [bodyLinesFrom, List.filterMap_cons]
      exact ih _

/-- What is listed for the lines is what is listed up to the first closing brace. -/
theorem filterMap_listed (s : MemberState) (hne : ls ≠ []) (hline : ∀ line ∈ ls, newline ∉ line) :
    (bodyLinesFrom s false ls).filterMap (·.listed)
      = (lines (before ['}'] (joinLines ls))).filterMap firstName? := by
  -- The line in which the closing brace is, or the last one, is the last that is listed.
  have hlast : ∀ {line : Text}, newline ∉ line →
      (lines (before ['}'] line)).flatMap (fun line => (firstName? line).toList)
        = (firstName? (before ['}'] line)).toList := by
    intro line hline
    have hcut : newline ∉ before ['}'] line := by
      rw [before_singleton]
      exact fun hmem => hline ((List.takeWhile_prefix _).subset hmem)
    unfold lines
    rw [splitOn_of_not_mem hcut, List.flatMap_singleton]
  simp only [List.filterMap_eq_flatMap_toList]
  induction ls generalizing s with
  | nil => exact absurd rfl hne
  | cons line ls ih =>
      rw [List.forall_mem_cons] at hline
      rw [bodyLinesFrom, Bool.false_or, List.flatMap_cons]
      by_cases hmore : ls = []
      · subst hmore
        exact (List.append_nil _).trans (hlast hline.1).symm
      · rw [joinLines_cons line hmore]
        by_cases hbrace : '}' ∈ line
        · have hrest := filterMap_listed_ended (readPieces s (linePieces line)).2 ls
          rw [List.filterMap_eq_flatMap_toList] at hrest
          rw [decide_eq_true hbrace, hrest, List.append_nil, before_append_of_mem hbrace,
            hlast hline.1]
          rfl
        · have hskip : before ['}'] (newline :: joinLines ls)
              = newline :: before ['}'] (joinLines ls) :=
            @before_append_of_not_mem '}' [newline] (by decide) (joinLines ls)
          unfold lines
          rw [decide_eq_false hbrace, ih _ hmore hline.2, before_append_of_not_mem hbrace, hskip,
            splitOn_append_cons, splitOn_of_not_mem hline.1, before_of_not_mem hbrace,
            List.flatMap_append, List.flatMap_singleton]
          rfl

theorem sublist_of_kept (h : ∀ row ∈ rows, BodyLine.Kept row) :
    (rows.flatMap (·.declared)).Sublist (rows.filterMap (·.listed)) := by
  rw [List.filterMap_eq_flatMap_toList]
  induction rows with
  | nil => exact .slnil
  | cons row rows ih =>
      rw [List.forall_mem_cons] at h
      rw [List.flatMap_cons, List.flatMap_cons]
      exact h.1.append (ih h.2)

/-- Two parts of a list that lie in two parts of another lie each in its own, if neither shares
anything with the other's. -/
theorem sublist_of_append {α : Type} {a a' b b' : List α} (h : (a ++ a').Sublist (b ++ b'))
    (hleft : ∀ x ∈ a, x ∉ b') (hright : ∀ x ∈ a', x ∉ b) : a.Sublist b ∧ a'.Sublist b' := by
  obtain ⟨l, l', hsplit, hl, hl'⟩ := List.sublist_append_iff.1 h
  rcases List.append_eq_append_iff.1 hsplit with ⟨m, rfl, rfl⟩ | ⟨m, rfl, rfl⟩
  · obtain rfl : m = [] := List.eq_nil_iff_forall_not_mem.2 fun x hx =>
      hright x (List.mem_append_left l' hx) (hl.subset (List.mem_append_right a hx))
    exact ⟨List.append_nil a ▸ hl, hl'⟩
  · obtain rfl : m = [] := List.eq_nil_iff_forall_not_mem.2 fun x hx =>
      hleft x (List.mem_append_right l hx) (hl'.subset (List.mem_append_left a' hx))
    exact ⟨(List.append_nil l).symm ▸ hl, hl'⟩

theorem kept_of_sublist (hapart : rows.Pairwise BodyLine.Apart)
    (h : (rows.flatMap (·.declared)).Sublist (rows.filterMap (·.listed))) :
    ∀ row ∈ rows, BodyLine.Kept row := by
  rw [List.filterMap_eq_flatMap_toList] at h
  induction rows with
  | nil => exact List.forall_mem_nil _
  | cons row rows ih =>
      rw [List.pairwise_cons] at hapart
      rw [List.flatMap_cons, List.flatMap_cons] at h
      obtain ⟨hrow, hrows⟩ := sublist_of_append h
        (fun name hname hmem => by
          obtain ⟨other, hother, hmem⟩ := List.mem_flatMap.1 hmem
          exact (hapart.1 other hother).1 name hname hmem)
        (fun name hname hmem => by
          obtain ⟨other, hother, hname⟩ := List.mem_flatMap.1 hname
          exact (hapart.1 other hother).2 name hname hmem)
      exact List.forall_mem_cons.2 ⟨hrow, ih hapart.2 hrows⟩

-- ==================================================== a line that is kept

/-- The first word of a line is listed where a blank follows it. -/
theorem firstName?_of_word {line name more : Text} {b : Char} (hname : isWordText name = true)
    (hb : isBlank b = true) (hline : trim line = name ++ b :: more) :
    firstName? line = some name := by
  obtain ⟨hne, hword⟩ := isWordText_iff.1 hname
  let s₀ : State := ⟨Cursor.start (trim line), []⟩
  let s₁ : State := (s₀.advance name).remember 1 s₀
  have hs₀ : s₀.cursor.rest = name ++ b :: more := hline
  have hs₁ : s₁.cursor.rest = [b] ++ more := rest_advance hs₀
  have hfirst : First (group 1 word) s₀ s₁ := by
    refine first_group (first_run1 hs₀ hne hword ?_)
    rintro c ⟨⟩
    exact not_isWord_of_isBlank hb
  have hgap : s₁.advance [b] ∈ readings blanks1 s₁ :=
    mem_readings_run1.2 ⟨[b], List.cons_ne_nil _ _, ⟨more, hs₁.symm⟩,
      List.forall_mem_singleton.2 hb, rfl⟩
  obtain ⟨s₂, hs₂, hall⟩ := exists_first_seq hfirst hgap
  have hmatch : fieldName.matchStart (trim line)
      = some (Match.ofState (Cursor.start (trim line)) s₂) := by
    refine matchAt_of_first ?_
    unfold First fieldName
    simp only [readings_assoc, readings_atStart]
    exact hall
  have htexts : s₂.texts = [(1, name)] := by
    rw [texts_of_reading_none rfl hs₂]
    exact texts_remember 1 ⟨_, hs₀.symm⟩ rfl
  unfold firstName?
  rw [hmatch, Option.map_some, group_ofState, htexts]
  rfl

/-- Plain lines keep the names that they declare. -/
theorem kept_of_plain (h : ∀ row ∈ bodyLinesFrom s false ls, row.Plain) :
    ∀ row ∈ bodyLinesFrom s false ls, row.Kept := by
  induction ls generalizing s with
  | nil => exact List.forall_mem_nil _
  | cons line ls ih =>
      rw [bodyLinesFrom, List.forall_mem_cons] at h ⊢
      obtain ⟨hplain, hlater⟩ := h
      have hbrace : '}' ∉ line := hplain.brace
      rw [Bool.false_or, decide_eq_false hbrace] at hlater ⊢
      refine ⟨?_, ih hlater⟩
      unfold BodyLine.Kept
      dsimp only
      rw [if_neg Bool.false_ne_true, before_of_not_mem hbrace]
      rcases name_of_line hplain.semicolon hplain.single with
        hnone | ⟨name, b, more, hdeclared, hname, hb, hline⟩
      · rw [hnone]
        exact List.nil_sublist _
      · rw [hdeclared, firstName?_of_word hname hb hline]
        exact .refl _

-- ============================================== the text of a struct

/-- A struct that is looked up begins with its head. -/
theorem exists_head_of_matchAt {name : Text} {cur : Cursor} {m : Match}
    (h : (structNamed name).matchAt cur = some m) :
    ∃ head rest, IsTypeHead "struct" name head ∧ cur.rest = head ++ '{' :: rest := by
  obtain ⟨s, hs, -⟩ := exists_reading_of_matchAt h
  unfold structNamed at hs
  simp only [readings_assoc] at hs
  obtain ⟨s₀, hplace, hs⟩ := mem_readings_seq.1 hs
  obtain ⟨-, rfl⟩ := mem_readings_place.1 hplace
  obtain ⟨s₁, htype, hs⟩ := mem_readings_seq.1 hs
  obtain ⟨s₂, hg₁, hs⟩ := mem_readings_seq.1 hs
  obtain ⟨s₃, hname, hs⟩ := mem_readings_seq.1 hs
  obtain ⟨s₄, hg₂, hs⟩ := mem_readings_seq.1 hs
  obtain ⟨s₅, hstruct, hs⟩ := mem_readings_seq.1 hs
  obtain ⟨s₆, hg₃, hopen⟩ := mem_readings_seq.1 hs
  obtain ⟨g₁, hne₁, hrest₁, h₁, rfl⟩ := mem_readings_run1.1 hg₁
  obtain ⟨g₂, hne₂, hrest₂, h₂, rfl⟩ := mem_readings_run1.1 hg₂
  obtain ⟨g₃, h₃, htaken₃, -⟩ := takes_run hg₃
  have htaken₁ : Takes s₁ (s₁.advance g₁) g₁ := ⟨hrest₁, rfl⟩
  have htaken₂ : Takes s₃ (s₃.advance g₂) g₂ := ⟨hrest₂, rfl⟩
  have hall := (takes_lit htype).1.append (htaken₁.append ((takes_lit hname).1.append
    (htaken₂.append ((takes_lit hstruct).1.append (htaken₃.append (takes_lit hopen).1)))))
  obtain ⟨rest, hrest⟩ := hall.ahead
  refine ⟨_, rest, .mk hne₁ h₁ hne₂ h₂ h₃, hrest.symm.trans ?_⟩
  simp

/-- The text of a struct that is looked up ends with its closing brace, if there is one. -/
theorem exists_source_of_findStruct? {content name file : Text} {found : StructSource}
    {opener closer : Nat} (hname : isWordText name = true)
    (hfound : findStruct? content name file = some found)
    (hbalanced : findMatching? braces found.source 0 = some (opener, closer)) :
    ∃ head body, IsTypeHead "struct" name head ∧ found.source = head ++ '{' :: (body ++ ['}']) ∧
      opener = head.length ∧ closer = head.length + 1 + body.length := by
  unfold findStruct? at hfound
  obtain ⟨m, hm, rfl⟩ := Option.map_eq_some_iff.1 hfound
  obtain ⟨w, ⟨text, rfl⟩, hmatch, hstart⟩ := matchAt_of_search hm
  obtain ⟨head, rest, hhead, hrest⟩ := exists_head_of_matchAt hmatch
  have hrest : text = head ++ '{' :: rest := (rest_advance rfl).symm.trans hrest
  rw [hstart] at hbalanced ⊢
  dsimp only at hbalanced ⊢
  cases hgroup : findMatching? braces (w ++ text) w.length with
  | none =>
      -- The text runs to the end then, and nothing is found in it.
      rw [hgroup] at hbalanced
      have hslice : slice (w ++ text) w.length (w ++ text).length = text := by
        have hall := slice_append w text []
        rw [List.append_nil, ← List.length_append] at hall
        exact hall
      dsimp only at hbalanced
      rw [hslice] at hbalanced
      have hsome := findMatching?_of_group (by decide) hbalanced w []
      rw [List.append_nil, hgroup] at hsome
      cases hsome
  | some span =>
      obtain ⟨p, q⟩ := span
      have hopen := hgroup
      rw [hrest, findMatching?_unopened w rest (hhead.bare isKeyword_struct hname)
        (hhead.not_mem isKeyword_struct hname (by decide) (by decide)), ← List.length_append,
        ← List.append_assoc] at hopen
      obtain ⟨body, after, hbody, hp, hq⟩ :=
        exists_group_of_findMatching? (d := braces) (by decide) (by decide) hopen
      have htext : text = (head ++ '{' :: (body ++ ['}'])) ++ after := by
        rw [hrest, hbody, List.append_assoc]
        simp [braces]
      have hsource : slice (w ++ text) w.length (q + 1) = head ++ '{' :: (body ++ ['}']) := by
        have hend : q + 1 = w.length + (head ++ '{' :: (body ++ ['}'])).length := by
          simp only [hq, List.length_append, List.length_cons, List.length_nil]
          omega
        rw [hend, htext, slice_append]
      rw [hgroup] at hbalanced
      dsimp only at hbalanced ⊢
      rw [hsource] at hbalanced ⊢
      have hsome := findMatching?_of_group (by decide) hbalanced w after
      rw [← htext, hgroup, Option.some.injEq, Prod.mk.injEq, hp, hq, List.length_append] at hsome
      refine ⟨head, body, hhead, rfl, ?_, ?_⟩ <;> omega

-- ================================================= what is read of it

variable {name head body : Text}

/-- What is read of a struct is its body up to the first closing brace. -/
theorem search_structBody (h : IsTypeHead "struct" name head) (hname : isWordText name = true)
    (hbody : before ['}'] body ≠ []) :
    ∃ m, structBody.search (head ++ '{' :: (body ++ ['}'])) = some m ∧
      m.group 1 = before ['}'] body := by
  obtain ⟨more, hmore⟩ : ∃ more, body ++ ['}'] = before ['}'] body ++ '}' :: more := by
    have hsplit := @exists_before_eq '}' (body ++ ['}']) (by simp)
    rwa [before_append_cons] at hsplit
  have hshown : ∀ c ∈ before ['}'] body, except '}' c = true := by
    rw [before_singleton]
    exact fun c hc => List.mem_takeWhile_imp hc
  rw [hmore]
  generalize before ['}'] body = shown at hbody hshown
  obtain @⟨g₁, g₂, g₃, hne₁, h₁, hne₂, h₂, h₃⟩ := h
  obtain ⟨hne, hword⟩ := isWordText_iff.1 hname
  generalize ht : ("type".toList ++ (g₁ ++ (name ++ (g₂ ++ ("struct".toList ++ g₃)))))
    ++ '{' :: (shown ++ '}' :: more) = t
  let s₀ : State := ⟨Cursor.start t, []⟩
  let s₁ : State := s₀.advance "type".toList
  let s₂ : State := s₁.advance g₁
  let s₃ : State := s₂.advance name
  let s₄ : State := s₃.advance g₂
  let s₅ : State := s₄.advance "struct".toList
  let s₆ : State := s₅.advance g₃
  let s₇ : State := s₆.advance ['{']
  let s₈ : State := (s₇.advance shown).remember 1 s₇
  have hs₀ : s₀.cursor.rest = "type".toList ++ (g₁ ++ (name ++ (g₂ ++ ("struct".toList ++ (g₃
      ++ (['{'] ++ (shown ++ (['}'] ++ more)))))))) := by
    show t = _
    rw [← ht]
    simp
  have hs₁ : s₁.cursor.rest = g₁ ++ _ := rest_advance hs₀
  have hs₂ : s₂.cursor.rest = name ++ _ := rest_advance hs₁
  have hs₃ : s₃.cursor.rest = g₂ ++ _ := rest_advance hs₂
  have hs₄ : s₄.cursor.rest = "struct".toList ++ _ := rest_advance hs₃
  have hs₅ : s₅.cursor.rest = g₃ ++ _ := rest_advance hs₄
  have hs₆ : s₆.cursor.rest = ['{'] ++ _ := rest_advance hs₅
  have hs₇ : s₇.cursor.rest = shown ++ _ := rest_advance hs₆
  have hs₈ : s₈.cursor.rest = ['}'] ++ more := rest_advance hs₇
  have htype : First "type" s₀ s₁ := first_lit ⟨_, hs₀.symm⟩
  have hgap₁ : First blanks1 s₁ s₂ := first_run1 hs₁ hne₁ h₁ (head_of_word hne hword)
  have hname : First word s₂ s₃ := first_run1 hs₂ hne hword (head_of_blanks hne₂ h₂)
  have hgap₂ : First blanks1 s₃ s₄ :=
    first_run1 hs₃ hne₂ h₂ (head_of_word isKeyword_struct.ne_nil isKeyword_struct.word)
  have hstruct : First "struct" s₄ s₅ := first_lit ⟨_, hs₄.symm⟩
  have hgap₃ : First blanks s₅ s₆ := by
    refine first_run hs₅ h₃ ?_
    rintro c ⟨⟩
    decide
  have hopen : First "\x7b" s₆ s₇ := first_lit ⟨_, hs₆.symm⟩
  have hinside : First (group 1 (run1 (except '}'))) s₇ s₈ := by
    refine first_group (first_run1 hs₇ hbody hshown ?_)
    rintro c ⟨⟩
    decide
  have hclose : First "\x7d" s₈ (s₈.advance ['}']) := first_lit ⟨_, hs₈.symm⟩
  have hfirst : First structBody s₀ (s₈.advance ['}']) :=
    first_seq (first_seq (first_seq (first_seq (first_seq (first_seq (first_seq (first_seq
      htype hgap₁) hname) hgap₂) hstruct) hgap₃) hopen) hinside) hclose
  have htexts : s₈.texts = [(1, shown)] := texts_remember 1 ⟨_, hs₇.symm⟩ rfl
  refine ⟨_, search_eq_some List.nil_prefix (matchAt_of_first hfirst) fun v hv hne => ?_, ?_⟩
  · exact absurd (List.prefix_nil.1 hv) hne
  · show (s₈.texts.lookup 1).getD [] = shown
    rw [htexts]
    rfl

/-- In a struct without a body nothing is read. -/
theorem search_structBody_empty (h : IsTypeHead "struct" name head)
    (hname : isWordText name = true) : structBody.search (head ++ ['{', '}']) = none := by
  have hopen : '{' ∉ head := h.not_mem isKeyword_struct hname (by decide) (by decide)
  refine Option.eq_none_iff_forall_ne_some.2 fun m hm => ?_
  obtain ⟨w, ⟨text, hw⟩, hmatch, -⟩ := matchAt_of_search hm
  obtain ⟨s, hs, -⟩ := exists_reading_of_matchAt hmatch
  unfold structBody at hs
  obtain ⟨s₁, hs, -⟩ := mem_readings_seq.1 hs
  obtain ⟨s₂, hs, hinside⟩ := mem_readings_seq.1 hs
  obtain ⟨s₃, hfront, hbrace⟩ := mem_readings_seq.1 hs
  obtain ⟨front, hfrontTaken⟩ := exists_takes hfront
  obtain ⟨inside, hne, hplain, hinsideTaken, -⟩ := takes_group hinside
  obtain ⟨after, hafter⟩ := (hfrontTaken.append ((takes_lit hbrace).1.append hinsideTaken)).ahead
  have htext : (w ++ front) ++ '{' :: (inside ++ after) = head ++ '{' :: ['}'] := by
    have hrest : ((Cursor.start (head ++ ['{', '}'])).advance w).rest = text := rest_advance hw.symm
    have hafter : _ = ((Cursor.start (head ++ ['{', '}'])).advance w).rest := hafter
    rw [hrest] at hafter
    rw [← hw, ← hafter]
    simp
  -- There is only one opening brace, and the closing brace is right behind it.
  have hnone : '{' ∉ w ++ front := by
    have hcount : ((w ++ front) ++ '{' :: (inside ++ after)).count '{' = 1 := by
      rw [htext, List.count_append, List.count_eq_zero.2 hopen]
      rfl
    rw [List.count_append, List.count_cons_self] at hcount
    exact List.count_eq_zero.1 (by omega)
  obtain ⟨-, hinside⟩ := append_cons_inj_left hnone hopen htext
  obtain ⟨c, inside, rfl⟩ := List.exists_cons_of_ne_nil hne
  injection hinside with hc
  exact not_mem_of_except hplain (hc ▸ List.mem_cons_self)

/-- What is listed for a struct is what its lines up to the first closing brace list. -/
theorem fieldNames_source (h : IsTypeHead "struct" name head) (hname : isWordText name = true)
    (hbalanced : findMatching? braces (head ++ '{' :: (body ++ ['}'])) 0
      = some (head.length, head.length + 1 + body.length)) :
    fieldNames (head ++ '{' :: (body ++ ['}']))
      = (lines (before ['}'] body)).filterMap firstName? := by
  by_cases hbody : before ['}'] body = []
  · cases body with
    | nil =>
        unfold fieldNames
        rw [List.nil_append, search_structBody_empty h hname]
        rfl
    | cons c body =>
        -- A closing brace at the start of the body would end it there.
        exfalso
        rw [before_singleton] at hbody
        obtain rfl : c = '}' := by
          by_contra hne
          rw [List.takeWhile_cons, if_pos (bne_iff_ne.2 hne)] at hbody
          cases hbody
        have hopen := findMatching?_from_opener braces_ne hbalanced
        have hgroup := findMatching?_group (d := braces) (t := []) head (body ++ ['}']) rfl
          (by decide) rfl
        rw [List.nil_append] at hgroup
        have hsame := hopen.symm.trans hgroup
        simp only [Option.some.injEq, Prod.mk.injEq, List.length_cons, List.length_nil] at hsame
        omega
  · obtain ⟨m, hm, hgroup⟩ := search_structBody h hname hbody
    unfold fieldNames
    rw [hm]
    dsimp only
    rw [hgroup]
    rfl

/-- The lines of a struct are those of its body. -/
theorem structLines_eq (hbalanced : findMatching? braces (head ++ '{' :: (body ++ ['}'])) 0
      = some (head.length, head.length + 1 + body.length)) :
    structLines (head ++ '{' :: (body ++ ['}'])) = bodyLinesFrom {} false (lines body) := by
  unfold structLines
  rw [hbalanced]
  dsimp only
  rw [slice_after_cons]

-- ========================================================= the two lists

/-- A struct that is looked up declares the names of its lines, and listed is what its lines list.
All the names are listed, in order, if every line keeps its own, as plain lines do; where no line
lists what another declares, only then. -/
theorem fieldNames_findStruct? {content name file : Text} {found : StructSource}
    (hname : isWordText name = true) (hfound : findStruct? content name file = some found)
    (hbalanced : (findMatching? braces found.source 0).isSome = true) (line : Nat)
    (comments : List Text) :
    ∃ d, parseStruct? found.source line comments = some d ∧
      d.fields = (formedFields found.source).map (·.2) ∧
      writtenNames (formedFields found.source)
        = (structLines found.source).flatMap (·.declared) ∧
      fieldNames found.source = (structLines found.source).filterMap (·.listed) ∧
      ((∀ row ∈ structLines found.source, row.Plain) →
        ∀ row ∈ structLines found.source, row.Kept) ∧
      ((∀ row ∈ structLines found.source, row.Kept) →
        (writtenNames (formedFields found.source)).Sublist (fieldNames found.source)) ∧
      ((structLines found.source).Pairwise BodyLine.Apart →
        (writtenNames (formedFields found.source)).Sublist (fieldNames found.source) →
          ∀ row ∈ structLines found.source, row.Kept) := by
  obtain ⟨⟨opener, closer⟩, hbraces⟩ := Option.isSome_iff_exists.1 hbalanced
  obtain ⟨head, body, hhead, hsource, rfl, rfl⟩ :=
    exists_source_of_findStruct? hname hfound hbraces
  rw [hsource] at hbraces ⊢
  obtain ⟨gap, u, hgapNe, hgap, hnamed, htext⟩ := hhead.named hname (body ++ ['}'])
  obtain ⟨type, hheading⟩ := IsTypeLine.heading ⟨gap, name, u, hgapNe, hgap, hnamed, htext⟩
  obtain ⟨d, hd, -⟩ := parseStruct?_of_heading hheading line comments
  have hlines := structLines_eq hbraces
  have hne : lines body ≠ [] := splitOn_ne_nil newline body
  have hdeclared : writtenNames (formedFields (head ++ '{' :: (body ++ ['}'])))
      = (structLines (head ++ '{' :: (body ++ ['}']))).flatMap (·.declared) := by
    unfold formedFields
    rw [bodyPieces_eq hbraces, hlines, flatMap_declared]
  have hlisted : fieldNames (head ++ '{' :: (body ++ ['}']))
      = (structLines (head ++ '{' :: (body ++ ['}']))).filterMap (·.listed) := by
    rw [fieldNames_source hhead hname hbraces, hlines,
      filterMap_listed {} hne fun _ => not_newline_of_mem_lines, joinLines_lines]
  refine ⟨d, hd, fields_of_parseStruct? hd, hdeclared, hlisted, ?_, ?_, ?_⟩
  · rw [hlines]
    exact kept_of_plain
  · rw [hdeclared, hlisted]
    exact sublist_of_kept
  · rw [hdeclared, hlisted]
    exact kept_of_sublist

/-- A struct with braces in the type of its first field. -/
def lossyText : Text :=
  "type T struct \x7b\n\tData map[string]interface\x7b\x7d\n\tID int\n\x7d"

/-- The lines of that struct: the one after the braces lists nothing. -/
def lossyLines : List BodyLine :=
  [⟨"", [], none⟩, ⟨"\tData map[string]interface\x7b\x7d", ["Data"], some "Data"⟩,
    ⟨"\tID int", ["ID"], none⟩, ⟨"", [], none⟩]

theorem fieldNames_lossyText :
    isWordText "T" = true ∧ findStruct? lossyText "T" "m.go" = some ⟨"m.go", 1, lossyText⟩ ∧
      (findMatching? braces lossyText 0).isSome = true ∧ structLines lossyText = lossyLines ∧
      writtenNames (formedFields lossyText) = ["Data".toList, "ID".toList] ∧
      fieldNames lossyText = ["Data".toList] ∧
      ¬(writtenNames (formedFields lossyText)).Sublist (fieldNames lossyText) := by
  have hname : isWordText "T" = true := by decide
  have hfound : findStruct? lossyText "T" "m.go" = some ⟨"m.go", 1, lossyText⟩ := by
    decide +kernel
  have hbalanced : (findMatching? braces lossyText 0).isSome = true := by decide +kernel
  have hlines : structLines lossyText = lossyLines := by decide +kernel
  have hapart : lossyLines.Pairwise BodyLine.Apart := by decide
  have hlost : ¬∀ row ∈ lossyLines, row.Kept := by decide
  obtain ⟨d, -, -, hdeclared, hlisted, -, -, hkept⟩ :=
    fieldNames_findStruct? hname hfound hbalanced 1 []
  dsimp only at hdeclared hlisted hkept
  rw [hlines] at hdeclared hlisted hkept
  exact ⟨hname, hfound, hbalanced, hlines, hdeclared, hlisted, fun h => hlost (hkept hapart h)⟩

end GoSurvey.Flow
