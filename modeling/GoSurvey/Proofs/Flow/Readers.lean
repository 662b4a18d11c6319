/-
Three readers of one signature. The extractor and the lookup of a
function by its name balance the parentheses of the parameter list; the
call graph stops at the first closing one. Of the result the extractor
keeps what stands before the brace of the body, the lookup what stands
before any brace, and the call graph a list or the name of a type.

What each of them makes of a signature on one line is collected once
(`exists_readAlike`); where they agree is read off it, for the parameters
(`length_parts_iff`) and for the result (`returns_eq_iff`,
`returned_eq_iff`).
-/
import GoSurvey.Proofs.CallGraph.Result
import GoSurvey.Proofs.Declaration.Signature
import GoSurvey.Proofs.Flow.Lookup

namespace GoSurvey.Flow

open Text Source Pattern CallGraph Declaration

variable {t : Text}

-- ========================================================= parentheses

/-- A text without one pair of parentheses around it. -/
def unwrapped (t : Text) : Text :=
  if startsWith "(" t && endsWith ")" t then trim (t.drop 1).dropLast else t

theorem startsWith_singleton {c : Char} : startsWith [c] t = true ↔ t.head? = some c := by
  rw [startsWith_iff]
  cases t with
  | nil => simp
  | cons d t => simp [eq_comm]

theorem endsWith_singleton {c : Char} : endsWith [c] t = true ↔ t.getLast? = some c := by
  unfold endsWith
  rw [List.isSuffixOf_iff_suffix, List.getLast?_eq_some_iff]
  exact exists_congr fun _ => eq_comm

/-- A text is a list in parentheses, or nothing is taken from it. -/
theorem unwrapped_cases (t : Text) :
    (∃ inner, t = '(' :: (inner ++ [')']) ∧ unwrapped t = trim inner) ∨
      ¬(t.head? = some '(' ∧ t.getLast? = some ')') ∧ unwrapped t = t := by
  have hboth : (startsWith "(" t && endsWith ")" t) = true
      ↔ t.head? = some '(' ∧ t.getLast? = some ')' := by
    rw [Bool.and_eq_true]
    exact and_congr startsWith_singleton endsWith_singleton
  unfold unwrapped
  by_cases h : t.head? = some '(' ∧ t.getLast? = some ')'
  · rw [if_pos (hboth.2 h)]
    obtain ⟨u, rfl⟩ := List.head?_eq_some_iff.1 h.1
    obtain ⟨init, hinit⟩ := List.getLast?_eq_some_iff.1 h.2
    cases init with
    | nil => exact absurd (List.cons.inj hinit).1 (by decide)
    | cons c inner =>
        obtain ⟨-, hu⟩ := List.cons.inj hinit
        refine .inl ⟨inner, congrArg _ hu, ?_⟩
        rw [hu, List.drop_one, List.tail_cons]
        exact congrArg trim List.dropLast_concat
  · exact .inr ⟨h, if_neg fun hparens => h (hboth.1 hparens)⟩

theorem unwrapped_list (inner : Text) : unwrapped ('(' :: (inner ++ [')'])) = trim inner := by
  rcases unwrapped_cases ('(' :: (inner ++ [')'])) with ⟨inner', heq, h⟩ | ⟨hnot, -⟩
  · obtain rfl := List.append_cancel_right (List.cons.inj heq).2
    exact h
  · exact absurd ⟨rfl, by rw [← List.cons_append, List.getLast?_concat]⟩ hnot

theorem unwrapped_of_ne (h : t.head? ≠ some '(') : unwrapped t = t := by
  rcases unwrapped_cases t with ⟨inner, rfl, -⟩ | ⟨-, h'⟩
  · exact absurd rfl h
  · exact h'

/-- Only blanks and parentheses are taken away. -/
theorem mem_unwrapped {x : Char} (hx : isBlank x = false) (hne : x ≠ '(' ∧ x ≠ ')') :
    x ∈ unwrapped t ↔ x ∈ t := by
  rcases unwrapped_cases t with ⟨inner, rfl, h⟩ | ⟨-, h⟩
  · rw [h, mem_trim hx]
    simp [hne]
  · rw [h]

/-- A trimmed text may be squeezed before or after. -/
theorem unwrapped_squeeze (ht : Trimmed t) : unwrapped (squeeze t) = squeeze (unwrapped t) := by
  have hopen : isBlank '(' = false := by decide
  have hclose : isBlank ')' = false := by decide
  rcases unwrapped_cases t with ⟨inner, rfl, h⟩ | ⟨hnot, h⟩
  · rw [h, squeeze_cons hopen, squeeze_append_cons hclose, ← trim_squeeze]
    exact unwrapped_list (squeeze inner)
  · rw [h]
    rcases unwrapped_cases (squeeze t) with ⟨inner, hlist, -⟩ | ⟨-, h'⟩
    · refine absurd ⟨?_, ?_⟩ hnot
      · rw [← ht.head?_squeeze, hlist]
        rfl
      · rw [← ht.getLast?_squeeze, hlist, ← List.cons_append, List.getLast?_concat]
    · exact h'

-- ========================================================== parameters

/-- Parts of which none but the last closes a parenthesis, and none begins with a closing one. -/
def ClosesLast (parts : List Text) : Prop :=
  (∀ part ∈ parts.dropLast, ')' ∉ part) ∧ ∀ part ∈ parts, part.head? ≠ some ')'

instance (parts : List Text) : Decidable (ClosesLast parts) :=
  inferInstanceAs (Decidable (_ ∧ _))

theorem closesLast_of_not_mem (h : ')' ∉ t) : ClosesLast (splitTopLevel ',' t) :=
  ⟨fun _ hpart hmem => h (mem_of_mem_part (List.dropLast_subset _ hpart) hmem),
    fun _ hpart hhead => h (mem_of_mem_part hpart (List.mem_of_head? hhead))⟩

/-- The first part that closes a parenthesis is the last part, and does not begin with it. -/
theorem closesLast_iff {init parts : List Text} {part : Text} (hinit : ∀ p ∈ init, ')' ∉ p)
    (hpart : ')' ∈ part) :
    ClosesLast (init ++ part :: parts) ↔ part.head? ≠ some ')' ∧ parts = [] := by
  unfold ClosesLast
  rw [List.dropLast_append_of_ne_nil (List.cons_ne_nil _ _)]
  constructor
  · rintro ⟨hbefore, hheads⟩
    refine ⟨hheads part (List.mem_append_right _ List.mem_cons_self), ?_⟩
    cases parts with
    | nil => rfl
    | cons next parts =>
        rw [List.dropLast_cons_cons] at hbefore
        exact absurd hpart (hbefore part (List.mem_append_right _ List.mem_cons_self))
  · rintro ⟨hhead, rfl⟩
    refine ⟨fun p hp => ?_, fun p hp => ?_⟩
    · rw [List.dropLast_singleton, List.append_nil] at hp
      exact hinit p hp
    · rcases List.mem_append.1 hp with hp | hp
      · exact fun h => hinit p hp (List.mem_of_head? h)
      · rwa [List.mem_singleton.1 hp]

/-- What stands before the first closing parenthesis of a list has as many parts as the list where
the parenthesis is closed in the last of them. -/
theorem length_parts_iff {list : Text} (hlist : ')' ∉ list) (more : Text) :
    (splitTopLevel ',' list).length = (splitTopLevel ',' (list ++ ')' :: more)).length
      ↔ ClosesLast (splitTopLevel ',' (list ++ ')' :: more)) := by
  have hblank : isBlank ')' = false := by decide
  obtain ⟨init, last, depth, quote, previous, first, pieces, hshort, hfirst, hlong, -⟩ :=
    piecesFrom_append ',' 0 none none list (')' :: more)
  -- The piece that the parenthesis is in.
  have hfirst : ∃ u, first = ')' :: u := by
    rw [piecesFrom_cons, if_neg fun hcut => absurd (eq_sep_of_cut hcut) (by decide)] at hfirst
    cases hpieces : piecesFrom ',' (cutStep ',' depth quote previous ')').2.1
      (cutStep ',' depth quote previous ')').2.2 (some ')') more with
    | nil => exact absurd hpieces (piecesFrom_ne_nil _ _ _ _ _)
    | cons piece rest =>
        rw [hpieces] at hfirst
        exact ⟨piece, (List.cons.inj hfirst).1.symm⟩
  obtain ⟨u, rfl⟩ := hfirst
  have hclosed : ')' ∈ trim (last ++ ')' :: u) :=
    (mem_trim hblank).2 (List.mem_append_right last List.mem_cons_self)
  have hinit : ∀ part ∈ keptParts init, ')' ∉ part := by
    intro part hpart hmem
    have hin : part ∈ splitTopLevel ',' list := by
      rw [splitTopLevel_eq, hshort, keptParts_append]
      exact List.mem_append_left _ hpart
    exact hlist (mem_of_mem_part hin hmem)
  have hlast : ')' ∉ last := by
    intro hmem
    refine hlist ?_
    rw [← join_piecesFrom ',' 0 none none list, hshort]
    exact mem_join_of_mem (List.mem_append_right init List.mem_cons_self) hmem
  rw [splitTopLevel_eq, splitTopLevel_eq, hshort, hlong, keptParts_append, keptParts_append,
    keptParts_cons, keptParts_cons, if_neg (List.ne_nil_of_mem hclosed)]
  have hnil : keptParts [] = [] := rfl
  have hhead := head?_trim (last ++ ')' :: u)
  rw [List.dropWhile_append] at hhead
  rw [closesLast_iff hinit hclosed, hnil]
  by_cases hdrop : last.dropWhile isBlank = []
  · -- The parenthesis begins a part of its own.
    have hnone : trim last = [] := List.head?_eq_none_iff.1 (by rw [head?_trim, hdrop]; rfl)
    rw [hdrop, List.isEmpty_nil, if_pos rfl, List.dropWhile_cons_of_neg (by simp [hblank])] at hhead
    rw [if_pos hnone]
    refine iff_of_false (fun hlength => ?_) fun hcloses => hcloses.1 hhead
    simp only [List.length_append, List.length_cons, List.length_nil] at hlength
    omega
  · -- The parenthesis is in the part that it cuts.
    have hsome : trim last ≠ [] := by
      intro hnone
      have hnil := head?_trim last
      rw [hnone] at hnil
      exact hdrop (List.head?_eq_none_iff.1 hnil.symm)
    rw [if_neg (by simpa using hdrop), List.head?_append_of_ne_nil _ hdrop] at hhead
    have hfirst : (trim (last ++ ')' :: u)).head? ≠ some ')' := by
      rw [hhead]
      exact fun h => hlast ((List.dropWhile_suffix isBlank).subset (List.mem_of_head? h))
    rw [if_neg hsome, and_iff_right hfirst, ← List.length_eq_zero_iff]
    simp only [List.length_append, List.length_cons, List.length_nil]
    omega

/-- A parameter with a function type that is not the last one is torn. -/
example : ¬ClosesLast (splitTopLevel ',' "cb func(int) error, n int") := by decide

-- ============================================================= results

/-- A result as it may be written: none, a list in parentheses, or one type. -/
inductive ResultForm : Text → Prop where
  | none : ResultForm []
  | list {inner : Text} : ResultForm ('(' :: (inner ++ [')']))
  | type {r : Text} (hne : r ≠ []) (hopen : r.head? ≠ some '(') (hbrace : r.getLast? ≠ some '{')
      (hone : splitTopLevel ',' r = [r]) : ResultForm r

/-- A result of which the call graph reads all: a type name, or a list without a closing parenthesis
in it and without a comma or a run of blanks in one of its parts. -/
inductive ReadAsWhole : Text → Prop where
  | none : ReadAsWhole []
  | list {inner : Text} (hclose : ')' ∉ inner)
      (hparts : ∀ part ∈ splitTopLevel ',' inner, ',' ∉ part ∧ squeeze part = part) :
      ReadAsWhole ('(' :: (inner ++ [')']))
  | type {r : Text} (h : TypeName r) : ReadAsWhole r

theorem readAsWhole_list_iff {inner : Text} : ReadAsWhole ('(' :: (inner ++ [')'])) ↔ ')' ∉ inner ∧
    ∀ part ∈ splitTopLevel ',' inner, ',' ∉ part ∧ squeeze part = part := by
  constructor
  · intro hread
    generalize heq : '(' :: (inner ++ [')']) = r at hread
    cases hread with
    | none => cases heq
    | list hinner hparts =>
        obtain rfl := List.append_cancel_right (List.cons.inj heq).2
        exact ⟨hinner, hparts⟩
    | type htype =>
        obtain ⟨c, u, rfl, hc⟩ := htype.exists_cons
        exact absurd (List.cons.inj heq).1.symm (isGap_eq_false hc).2
  · exact fun hboth => .list hboth.1 hboth.2

theorem readAsWhole_type_iff {r : Text} (hne : r ≠ []) (hopen : r.head? ≠ some '(') :
    ReadAsWhole r ↔ TypeName r := by
  refine ⟨fun hread => ?_, .type⟩
  cases hread with
  | none => exact absurd rfl hne
  | list => exact absurd rfl hopen
  | type htype => exact htype

/-- What the extractor keeps of a result. -/
def declaredResult (result : Text) : Text := trim (dropEndWhile (· == '{') (squeeze (trim result)))

section Results

variable {result rest : Text}

theorem resultOf_append (hline : newline ∉ result)
    (hrest : ∀ c ∈ rest.head?, c = newline ∨ c = '{') :
    resultOf (result ++ rest) = unwrapped (trim (result.takeWhile (· != '{'))) := by
  show unwrapped (trim (before ['{'] (before [newline] (result ++ rest)))) = _
  have hplain : ∀ c ∈ result, (c != newline) = true := by
    intro c hc
    refine bne_iff_ne.2 ?_
    rintro rfl
    exact hline hc
  rw [before_singleton, before_singleton, List.takeWhile_append_of_pos hplain,
    takeWhile_append_of_stop fun c hc => ?_]
  have hmem := List.mem_of_head? hc
  have hhead : c ∈ rest.head? := by
    obtain ⟨u, hu⟩ := List.head?_eq_some_iff.1 hc
    obtain ⟨v, hv⟩ := List.takeWhile_prefix (p := (· != newline)) (l := rest)
    rw [← hv, hu]
    rfl
  rcases hrest c hhead with rfl | rfl
  · exact absurd (List.mem_takeWhile_imp hmem) (by simp)
  · rfl

/-- A result that keeps no brace is what stands before the first one, squeezed. -/
theorem declaredResult_eq (h : '{' ∉ declaredResult result) :
    declaredResult result = squeeze (trim (result.takeWhile (· != '{'))) := by
  have hbrace : isBlank '{' = false := by decide
  obtain ⟨trail, hsqueeze, htrail⟩ :=
    exists_dropEndWhile_eq (· == '{') (squeeze (trim result))
  unfold declaredResult at h ⊢
  rw [mem_trim hbrace] at h
  have hbefore : (squeeze (trim result)).takeWhile (· != '{')
      = dropEndWhile (· == '{') (squeeze (trim result)) := by
    conv => lhs; rw [hsqueeze]
    rw [takeWhile_append_of_stop fun c hc => by simpa using htrail c (List.mem_of_head? hc)]
    refine List.takeWhile_eq_self_iff.2 fun c hc => bne_iff_ne.2 ?_
    rintro rfl
    exact h hc
  rw [← hbefore, takeWhile_squeeze hbrace, trim_squeeze, trim_takeWhile_trim hbrace]

/-- The lookup and the extractor keep the same of a result where the extractor keeps no brace, and
the lookup no run of blanks. -/
theorem returns_eq_iff (hline : newline ∉ result)
    (hrest : ∀ c ∈ rest.head?, c = newline ∨ c = '{') :
    resultOf (result ++ rest) = unwrapped (declaredResult result)
      ↔ '{' ∉ declaredResult result ∧
        squeeze (resultOf (result ++ rest)) = resultOf (result ++ rest) := by
  have hbrace : isBlank '{' = false := by decide
  have hparens : '{' ≠ '(' ∧ '{' ≠ ')' := by decide
  rw [resultOf_append hline hrest]
  by_cases h : '{' ∈ declaredResult result
  · refine iff_of_false (fun heq => ?_) fun hboth => hboth.1 h
    have hmem := (mem_unwrapped hbrace hparens).2 h
    rw [← heq, mem_unwrapped hbrace hparens, mem_trim hbrace] at hmem
    exact absurd (List.mem_takeWhile_imp hmem) (by simp)
  · rw [declaredResult_eq h, unwrapped_squeeze (trimmed_trim _), and_iff_right]
    · exact eq_comm
    · rwa [← declaredResult_eq h]

/-- A result that does not end in a brace is kept squeezed. -/
theorem declaredResult_of_last (h : (trim result).getLast? ≠ some '{') :
    declaredResult result = squeeze (trim result) := by
  have htrimmed := (trimmed_trim result).squeeze
  unfold declaredResult
  rw [dropEndWhile_eq_self, htrimmed.trim_eq]
  intro c hc
  rw [(trimmed_trim result).getLast?_squeeze] at hc
  refine beq_eq_false_iff_ne.2 ?_
  rintro rfl
  exact h hc

/-- The parts of a list are its pieces between commas, unsqueezed, where there is no comma and no
run of blanks in a part. -/
theorem pieces_eq_parts_iff (inner : Text) :
    keptParts (splitOn ',' inner) = (splitTopLevel ',' inner).map squeeze
      ↔ ∀ part ∈ splitTopLevel ',' inner, ',' ∉ part ∧ squeeze part = part := by
  have hcomma : isBlank ',' = false := by decide
  -- Where no part holds a comma the pieces are the same.
  have hpieces : (∀ part ∈ splitTopLevel ',' inner, ',' ∉ part) →
      keptParts (splitOn ',' inner) = splitTopLevel ',' inner := by
    intro hparts
    rw [splitTopLevel_eq, piecesFrom_eq_splitOn fun piece hpiece hmem => ?_]
    have hpart := (mem_trim hcomma).2 hmem
    exact hparts _ (mem_keptParts.2 ⟨List.ne_nil_of_mem hpart, piece, hpiece, rfl⟩) hpart
  constructor
  · intro heq
    have hparts : ∀ part ∈ splitTopLevel ',' inner, ',' ∉ part := by
      intro part hpart hmem
      have hsqueezed := List.mem_map_of_mem (f := squeeze) hpart
      rw [← heq] at hsqueezed
      obtain ⟨-, piece, hpiece, htrim⟩ := mem_keptParts.1 hsqueezed
      rw [← mem_squeeze hcomma, ← htrim, mem_trim hcomma] at hmem
      exact not_mem_of_mem_splitOn hpiece hmem
    rw [hpieces hparts] at heq
    exact fun part hpart => ⟨hparts part hpart,
      List.map_inj_left.1 (heq.symm.trans (List.map_id _).symm) part hpart⟩
  · intro hparts
    rw [hpieces fun part hpart => (hparts part hpart).1]
    exact (List.map_id _).symm.trans
      (List.map_inj_left.2 fun part hpart => (hparts part hpart).2.symm)

/-- Of a list in parentheses the call graph reads all or not, whatever follows it. -/
theorem returned_list_iff {returns : List Text} {b inner more : Text}
    (h : ReturnsOf (b ++ ('(' :: (inner ++ [')']) ++ more)) returns)
    (hb : ∀ c ∈ b, isGap c = true) :
    returns = (splitTopLevel ',' inner).map squeeze
      ↔ ReadAsWhole ('(' :: (inner ++ [')'])) := by
  have hclose : isBlank ')' = false := by decide
  rw [readAsWhole_list_iff]
  by_cases hmem : ')' ∈ inner
  · -- What is read ends before a parenthesis that is in one of the parts.
    refine iff_of_false (fun heq => ?_) fun hboth => hboth.1 hmem
    obtain ⟨short, later, rfl, hshort⟩ := List.eq_append_cons_of_mem hmem
    have htail : b ++ ('(' :: ((short ++ ')' :: later) ++ [')']) ++ more)
        = b ++ '(' :: (short ++ ')' :: (later ++ ')' :: more)) := by simp
    have hreturns := h.list hb hshort htail
    obtain ⟨part, hpart, hin⟩ : ∃ part ∈ splitTopLevel ',' (short ++ ')' :: later), ')' ∈ part :=
      exists_mem_part hclose (by decide) hmem
    have hsqueezed := List.mem_map_of_mem (f := squeeze) hpart
    rw [← heq, hreturns] at hsqueezed
    obtain ⟨-, piece, hpiece, htrim⟩ := mem_keptParts.1 hsqueezed
    rw [← mem_squeeze hclose, ← htrim, mem_trim hclose] at hin
    exact hshort ((infix_of_mem_splitOn hpiece).subset hin)
  · have htail : b ++ ('(' :: (inner ++ [')']) ++ more) = b ++ '(' :: (inner ++ ')' :: more) := by
      simp
    rw [h.list hb hmem htail, pieces_eq_parts_iff, and_iff_right hmem]

/-- One type is read where it is a type name. -/
theorem returned_type_iff {returns : List Text} {b r more : Text}
    (h : ReturnsOf (b ++ (r ++ more)) returns) (hb : ∀ c ∈ b, isGap c = true)
    (hmore : ∀ c ∈ more.head?, isBlank c = true ∨ c = '{') (hr : Trimmed r) (hne : r ≠ [])
    (hopen : r.head? ≠ some '(') : returns = [squeeze r] ↔ ReadAsWhole r := by
  have hend : ∀ c ∈ more.head?, isQualified c = false ∧ c ≠ '[' := by
    intro c hc
    rcases hmore c hc with hblank | rfl
    · refine ⟨Bool.eq_false_iff.2 fun hqualified => ?_, ?_⟩
      · rw [not_isBlank_of_isQualified hqualified] at hblank
        cases hblank
      · rintro rfl
        exact absurd hblank (by decide)
    · decide
  have hplain : ∀ {t : Text}, TypeName t → squeeze t = t := by
    intro t ht
    have happend := squeeze_append_of_no_blank (fun c hc => (ht.plain c hc).1) []
    rwa [List.append_nil, show squeeze [] = [] from rfl, List.append_nil] at happend
  rw [readAsWhole_type_iff hne hopen]
  constructor
  · intro heq
    have hfirst : ∀ c ∈ (r ++ more).head?, isGap c = false ∧ c ≠ '(' := by
      intro c hc
      rw [List.head?_append_of_ne_nil _ hne] at hc
      refine ⟨Bool.eq_false_iff.2 fun hgap => ?_, ?_⟩
      · have hblank := hr.first c hc
        rw [isBlank_of_isGap hgap] at hblank
        cases hblank
      · rintro rfl
        exact hopen hc
    rcases h.other hb rfl hfirst with hnone | ⟨t, ht, -, hreturns⟩
    · rw [hnone] at heq
      cases heq
    · rw [hreturns] at heq
      obtain rfl : t = squeeze r := (List.cons.inj heq).1
      rwa [squeeze_eq_self fun c hc => (ht.plain c hc).1] at ht
  · intro ht
    rw [h.type hb ht rfl hend, hplain ht]

/-- The call graph reads the parts of what the extractor keeps where it reads the whole result. -/
theorem returned_eq_iff {returns : List Text} (h : ReturnsOf (result ++ rest) returns)
    (hrest : ∀ c ∈ rest.head?, c = newline ∨ c = '{')
    (hgap : ∀ c ∈ result.takeWhile isBlank, isGap c = true) (hform : ResultForm (trim result)) :
    returns = splitTopLevel ',' (unwrapped (declaredResult result))
      ↔ ReadAsWhole (trim result) := by
  have htrimmed := trimmed_trim result
  obtain ⟨trail, htrail, hblank⟩ := exists_dropEndWhile_eq isBlank (result.dropWhile isBlank)
  have hresult : result ++ rest
      = result.takeWhile isBlank ++ (trim result ++ (trail ++ rest)) := by
    conv => lhs; rw [← List.takeWhile_append_dropWhile (p := isBlank) (l := result), htrail]
    simp only [List.append_assoc]
    rfl
  rw [hresult] at h
  have hmore : ∀ c ∈ (trail ++ rest).head?, isBlank c = true ∨ c = '{' := by
    intro c hc
    rw [List.head?_append] at hc
    cases hhead : trail.head? with
    | none =>
        rw [hhead] at hc
        exact (hrest c hc).imp_left fun h => by rw [h]; decide
    | some d =>
        rw [hhead] at hc
        obtain rfl : d = c := Option.some.inj hc
        exact .inl (hblank d (List.mem_of_head? hhead))
  generalize hr : trim result = r at *
  cases hform with
  | none =>
      have hdrop : result.dropWhile isBlank = [] := by
        rw [← List.head?_eq_none_iff, ← head?_trim, hr]
        rfl
      obtain rfl : trail = [] := by
        rw [hdrop] at htrail
        exact (List.append_eq_nil_iff.1 htrail.symm).2
      have hnil : declaredResult result = [] := by
        unfold declaredResult
        rw [hr]
        rfl
      rw [hnil]
      refine iff_of_true ?_ .none
      have hfirst : ∀ c ∈ rest.head?, isGap c = false ∧ c ≠ '(' := by
        intro c hc
        rcases hrest c hc with rfl | rfl <;> decide
      rcases h.other hgap rfl hfirst with hreturns | ⟨t, ht, ⟨u, hu⟩, -⟩
      · exact hreturns
      · obtain ⟨c, v, rfl, hc⟩ := ht.exists_cons
        have hu : c :: v ++ u = rest := hu
        have hhead : c ∈ rest.head? := hu ▸ rfl
        rcases hrest c hhead with rfl | rfl <;> exact absurd hc (by decide)
  | @list inner =>
      have hlast : (trim result).getLast? ≠ some '{' := by
        rw [hr, ← List.cons_append, List.getLast?_concat]
        decide
      rw [declaredResult_of_last hlast, hr, unwrapped_squeeze htrimmed, unwrapped_list,
        splitTopLevel_squeeze (by decide), splitTopLevel_trim (by decide)]
      exact returned_list_iff h hgap
  | type hne hopen hbrace hone =>
      rw [declaredResult_of_last (hr ▸ hbrace), hr, unwrapped_squeeze htrimmed,
        unwrapped_of_ne hopen, splitTopLevel_squeeze (by decide), hone]
      exact returned_type_iff h hgap hmore htrimmed hne hopen

end Results

-- ============================================================= readers

/-- A signature that stands on one line without a line comment, with the result after it. -/
structure OnOneLine (f : FunctionDecl) (s : FunctionSource) (result : Text) : Prop where
  written : signatureText f = s.signature ++ result
  closed : s.signature.getLast? = some ')'
  line : newline ∉ signatureText f
  code : stripLineComment (signatureText f) = signatureText f

/-- What the three readers make of a signature with a result: `list` stands before the first
closing parenthesis, and `rest` after the result. -/
structure ReadAlike (f : FunctionDecl) (d : FunctionDef) (s : FunctionSource)
    (result list tail rest : Text) : Prop where
  cuts : list ++ ')' :: tail = s.params ++ ')' :: (result ++ rest)
  first : ')' ∉ list
  ends : ∀ c ∈ rest.head?, c = newline ∨ c = '{'
  parameters : f.parameters = parseParameters (squeeze s.params)
  declared : f.returnType = declaredResult result
  names : d.params = (splitTopLevel ',' list).map parameterName
  returned : ReturnsOf tail d.returns
  returns : s.returns = resultOf (result ++ rest)

theorem exists_readAlike {content file file' file'' package result : Text} {f : FunctionDecl}
    {d : FunctionDef} {s : FunctionSource} (hf : f ∈ (structureOf content file).functions)
    (hd : d ∈ functionsIn content file' package) (hs : findFunction? content f.name file'' = some s)
    (hdline : d.line = f.line) (hsline : s.line = f.line) (h : OnOneLine f s result) :
    ∃ list tail rest, ReadAlike f d s result list tail rest := by
  obtain ⟨w, receiver, name, o, list, tail, hcontent, hstart, hline, ho, hlist, hnames,
    hreturned⟩ := exists_signature_of_function hd
  obtain ⟨comments, w', later, hparse, htext, hlater, hfline, hstart'⟩ := exists_function_text hf
  obtain ⟨rest, hsnippet, hends⟩ := exists_after_signatureText f
  obtain ⟨hname, hword⟩ := isWord_of_parseFunction? hparse
  have hblank := ho.mono fun _ => isBlank_of_isGap
  -- The three begin at the same place.
  obtain rfl : w = w' :=
    eq_of_count_newline ⟨_, hcontent.symm⟩ ⟨_, htext.symm⟩ hstart hstart' (by omega)
  obtain ⟨-, hsignature | ⟨params, after, hsplit, hfound, hsignature, hparams, hreturns⟩⟩ :=
    findFunction?_opening hname hword hs hcontent hstart (by omega) hblank
  · have hclosed := h.closed
    rw [hsignature, ho.eq_dropLast, List.getLast?_concat] at hclosed
    exact absurd (Option.some.inj hclosed) (by decide)
  have hwritten : signatureText f = o ++ (params ++ ')' :: result) := by
    rw [h.written, hsignature]
    simp
  obtain ⟨-, hparameters, hdeclared⟩ :=
    parseFunction?_signatureText hparse h.line h.code hblank hwritten hfound
  have hafter : after = result ++ (rest ++ later) := by
    have hsame := hcontent.symm.trans htext
    rw [hsplit, hsnippet, hwritten] at hsame
    simpa using hsame
  subst hafter
  rw [← hparams] at hsplit hparameters
  refine ⟨list, tail, rest ++ later, hsplit, hlist, fun c hc => ?_, hparameters, hdeclared, hnames,
    hreturned, hreturns⟩
  cases rest with
  | nil => exact .inl (hlater c hc)
  | cons d rest => exact hends c hc

/-- Where the readers of a signature agree. -/
theorem readers_agree_iff {content file file' file'' package result : Text} {f : FunctionDecl}
    {d : FunctionDef} {s : FunctionSource} (hf : f ∈ (structureOf content file).functions)
    (hd : d ∈ functionsIn content file' package) (hs : findFunction? content f.name file'' = some s)
    (hdline : d.line = f.line) (hsline : s.line = f.line) (h : OnOneLine f s result) :
    (splitTopLevel ',' s.params).length = f.parameters.length ∧
      (d.params.length = f.parameters.length ↔ ClosesLast (splitTopLevel ',' s.params)) ∧
      (s.returns = unwrapped f.returnType
        ↔ '{' ∉ f.returnType ∧ squeeze s.returns = s.returns) ∧
      (')' ∉ s.params → (∀ c ∈ result.takeWhile isBlank, isGap c = true) →
        ResultForm (trim result) →
        (d.returns = splitTopLevel ',' (unwrapped f.returnType) ↔ ReadAsWhole (trim result))) := by
  obtain ⟨list, tail, rest, hread⟩ := exists_readAlike hf hd hs hdline hsline h
  have hcuts := hread.cuts
  have hcount : f.parameters.length = (splitTopLevel ',' s.params).length := by
    rw [hread.parameters, length_parseParameters, splitTopLevel_squeeze (by decide),
      List.length_map]
  have hresult : newline ∉ result := fun hmem =>
    h.line (h.written ▸ List.mem_append_right _ hmem)
  -- Both cuts are the same if the parameters hold no closing parenthesis.
  have hsame : ')' ∉ s.params → s.params = list ∧ tail = result ++ rest := by
    intro hnone
    obtain ⟨hparams, htail⟩ := append_cons_inj_left hnone hread.first hcuts.symm
    exact ⟨hparams, htail.symm⟩
  refine ⟨hcount.symm, ?_, ?_, fun hnone hgap hform => ?_⟩
  · rw [hread.names, List.length_map, hcount]
    by_cases hmem : ')' ∈ s.params
    · obtain ⟨short, later, hparams, hshort⟩ := List.eq_append_cons_of_mem hmem
      rw [hparams, List.append_assoc, List.cons_append] at hcuts
      obtain ⟨rfl, -⟩ := append_cons_inj_left hread.first hshort hcuts
      rw [hparams]
      exact length_parts_iff hread.first later
    · obtain ⟨rfl, -⟩ := hsame hmem
      exact iff_of_true rfl (closesLast_of_not_mem hmem)
  · rw [hread.declared, hread.returns]
    exact returns_eq_iff hresult hread.ends
  · rw [hread.declared]
    obtain ⟨-, htail⟩ := hsame hnone
    exact returned_eq_iff (htail ▸ hread.returned) hread.ends hgap hform

/-- A function whose result is a type with braces. -/
def getterFile : Text :=
  "package p\n\nfunc Get(key string) interface\x7b\x7d \x7b\n\treturn nil\n\x7d\n"

/-- The parameters of such a function are read alike, and the result is not. -/
theorem readers_getterFile : ∃ f d s,
    f ∈ (structureOf getterFile "m.go").functions ∧ d ∈ functionsIn getterFile "m.go" "p" ∧
    findFunction? getterFile f.name "m.go" = some s ∧ d.line = f.line ∧ s.line = f.line ∧
    OnOneLine f s " interface\x7b\x7d " ∧ ')' ∉ s.params ∧
    ResultForm (trim " interface\x7b\x7d ") ∧ d.params.length = f.parameters.length ∧
    s.returns ≠ unwrapped f.returnType ∧
    d.returns ≠ splitTopLevel ',' (unwrapped f.returnType) := by
  let f : FunctionDecl :=
    { name := "Get", parameters := [⟨"key", "string"⟩], returnType := "interface\x7b\x7d",
      line := 3, snippet := "func Get(key string) interface\x7b\x7d \x7b\n\treturn nil\n\x7d",
      comments := [], receiver := [] }
  let d : FunctionDef := ⟨"Get", "m.go", 3, "p", ["key"], ["interface"], []⟩
  let s : FunctionSource :=
    { file := "m.go", line := 3, signature := "func Get(key string)", params := "key string",
      returns := "interface", body := "return nil" }
  have hf : f ∈ (structureOf getterFile "m.go").functions := by decide +kernel
  have hd : d ∈ functionsIn getterFile "m.go" "p" := by decide +kernel
  have hs : findFunction? getterFile f.name "m.go" = some s := by decide +kernel
  have hline : OnOneLine f s " interface\x7b\x7d " :=
    ⟨by decide +kernel, by decide +kernel, by decide +kernel, by decide +kernel⟩
  have hparams : ')' ∉ s.params := by decide +kernel
  have hform : ResultForm (trim " interface\x7b\x7d ") :=
    .type (by decide +kernel) (by decide +kernel) (by decide +kernel) (by decide +kernel)
  obtain ⟨-, hcount, hreturns, hreturned⟩ := readers_agree_iff hf hd hs rfl rfl hline
  have hbraces : '{' ∈ f.returnType := by decide +kernel
  refine ⟨f, d, s, hf, hd, hs, rfl, rfl, hline, hparams, hform, hcount.2 (by decide +kernel),
    fun h => (hreturns.1 h).1 hbraces, fun h => ?_⟩
  have htype := (readAsWhole_type_iff (by decide +kernel) (by decide +kernel)).1
    ((hreturned hparams (List.all_eq_true.1 (by decide +kernel)) hform).1 h)
  exact absurd (htype.isQualified_of_mem '{' (by decide +kernel)) (by decide)

end GoSurvey.Flow
