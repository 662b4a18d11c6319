/-
Where the body of a function opens. The search takes one group after
another and starts again behind the closer of each, without knowing what
it was inside of. It loses nothing by that: the groups it takes are the
outermost ones of one pass along the code (`OutermostGroups`), and the body is
the first of them whose brace follows no keyword of a type
(`findBodyOpen?_spec`).
-/
import GoSurvey.Proofs.Source.Depth
import GoSurvey.Proofs.Source.TypeBrace

namespace GoSurvey.Source

open Text Pattern

variable {text : Text} {start p q : Nat} {tokens : List Token} {groups : List (Nat × Nat)}

/-- A keyword of a type ends the text before an offset, with blanks at most after it. No more of the
text is looked at than the window, nor what stands before `start`. -/
def KeywordBefore (text : Text) (start offset : Nat) : Prop :=
  ∃ u, ∃ k ∈ typeWords, ∃ b, (∀ c ∈ b, isBlank c = true) ∧
    slice text (max start (offset - typeKeywordWindow)) offset = u ++ (k ++ b) ∧
    ∀ c ∈ u.getLast?, isWord c = false

theorem opensType_iff_keywordBefore {offset : Nat} :
    opensType text start offset = true ↔ KeywordBefore text start offset :=
  occursIn_typeKeywordEnd

/-- The groups are the outermost ones of the code, one after another, and behind each of them stand
tokens of the same text: no closer is taken from the middle of a token. -/
structure OutermostGroups (d : Delimiters) (text : Text) (start : Nat) (tokens : List Token)
    (groups : List (Nat × Nat)) : Prop where
  outermost : ∀ p q, (p, q) ∈ groups ↔ Outermost d 0 (codeFrom start tokens) p q
  order : groups.Pairwise fun g h => g.2 < h.1
  left : ∀ g ∈ groups, ∃ rest, rest <:+ tokens ∧ Tokens (text.drop (g.2 + 1)) rest

/-- Searches that start again behind what they have found take the groups of one pass. -/
theorem FoundFrom.outermostGroups {d : Delimiters} (hne : d.opener ≠ d.closer)
    (htokens : Tokens (text.drop start) tokens) (h : FoundFrom d text start groups) :
    OutermostGroups d text start tokens groups := by
  obtain ⟨hfound, hleft⟩ := foundFrom_groups hne htokens
  obtain rfl := h.unique hfound
  exact ⟨fun p q => mem_groups_iff, h.apart hne, hleft⟩

-- ============================================================ the rounds

/-- The first of the groups that is not one of a type. -/
def FirstBody (text : Text) (start : Nat) (groups : List (Nat × Nat)) (p q : Nat) : Prop :=
  ∃ before after, groups = before ++ (p, q) :: after ∧ ¬KeywordBefore text start p ∧
    ∀ g ∈ before, KeywordBefore text start g.1

/-- With fuel for one more round than there are groups, the rounds come to the first group that is
not one of a type. -/
theorem findBodyOpenFrom_eq {position fuel : Nat} (h : FoundFrom braces text position groups)
    (hfuel : groups.length < fuel) : findBodyOpenFrom text start fuel position
      = (groups.find? fun g => !opensType text start g.1).map (·.1) := by
  induction h generalizing fuel with
  | nil hnone =>
      cases fuel with
      | zero => cases hfuel
      | succ fuel =>
          rw [findBodyOpenFrom, hnone]
          rfl
  | @cons position p q groups hfound _ ih =>
      cases fuel with
      | zero => cases hfuel
      | succ fuel =>
          rw [findBodyOpenFrom, hfound]
          dsimp only
          by_cases htype : opensType text start p = true
          · rw [if_pos htype, List.find?_cons_of_neg (by simpa using htype)]
            exact ih (Nat.lt_of_succ_lt_succ hfuel)
          · rw [if_neg htype, List.find?_cons_of_pos (by simpa using htype)]
            rfl

theorem find?_eq_some_iff_firstBody :
    (groups.find? fun g => !opensType text start g.1) = some (p, q)
      ↔ FirstBody text start groups p q := by
  rw [List.find?_eq_some_iff_append]
  unfold FirstBody
  simp only [Bool.not_not, Bool.not_eq_true', ← Bool.not_eq_true, opensType_iff_keywordBefore]
  constructor
  · rintro ⟨hplain, before, after, hgroups, hbefore⟩
    exact ⟨before, after, hgroups, hplain, hbefore⟩
  · rintro ⟨before, after, hgroups, hplain, hbefore⟩
    exact ⟨hplain, before, after, hgroups, hbefore⟩

section Groups

variable (h : FoundFrom braces text start groups)

include h

theorem findBodyOpen?_eq_find? :
    findBodyOpen? text start = (groups.find? fun g => !opensType text start g.1).map (·.1) := by
  refine findBodyOpenFrom_eq h ?_
  have hle := h.length_le braces_ne
  omega

theorem findBodyOpen?_eq_some_iff :
    findBodyOpen? text start = some p ↔ ∃ q, FirstBody text start groups p q := by
  rw [findBodyOpen?_eq_find? h, Option.map_eq_some_iff]
  constructor
  · rintro ⟨⟨p, q⟩, hfind, rfl⟩
    exact ⟨q, find?_eq_some_iff_firstBody.1 hfind⟩
  · rintro ⟨q, hbody⟩
    exact ⟨(p, q), find?_eq_some_iff_firstBody.2 hbody, rfl⟩

theorem findBodyOpen?_eq_none_iff :
    findBodyOpen? text start = none ↔ ∀ g ∈ groups, KeywordBefore text start g.1 := by
  rw [findBodyOpen?_eq_find? h, Option.map_eq_none_iff, List.find?_eq_none]
  simp only [Bool.not_eq_true', Bool.not_eq_false, opensType_iff_keywordBefore]

/-- The search for the closer starts at the brace that has been found, and finds its group. -/
theorem findMatching?_firstBody (hbody : FirstBody text start groups p q) :
    findMatching? braces text p = some (p, q) := by
  obtain ⟨before, after, rfl, -, -⟩ := hbody
  exact h.from_opener braces_ne (p, q) (List.mem_append_right _ List.mem_cons_self)

theorem functionBody_firstBody (hbody : FirstBody text start groups p q) :
    functionBody text start = trim (slice text (p + 1) q) := by
  unfold functionBody
  rw [(findBodyOpen?_eq_some_iff h).2 ⟨q, hbody⟩]
  dsimp only
  rw [findMatching?_firstBody h hbody]

end Groups

-- ======================================================= unfinished bodies

/-- A brace that opens a body and is never closed: nothing is open before it, all groups before it
are those of types, and something is open from there to the end of the code. -/
def UnfinishedBody (text : Text) (start : Nat) (code : List (Nat × Char)) (p : Nat) : Prop :=
  ∃ before after, code = before ++ (p, braces.opener) :: after ∧
    depthAfter braces 0 before = 0 ∧ ¬KeywordBefore text start p ∧
    (∀ p' q, Outermost braces 0 before p' q → KeywordBefore text start p') ∧
    ∀ init, init <+: after → 0 < depthAfter braces 1 init

/-- The search finds no body that is not closed. -/
theorem findBodyOpen?_unfinished (htokens : Tokens (text.drop start) tokens)
    (h : UnfinishedBody text start (codeFrom start tokens) p) :
    findBodyOpen? text start = none := by
  obtain ⟨before, after, hcode, hdepth, -, htypes, hopen⟩ := h
  have hfound := (foundFrom_groups braces_ne htokens).1
  have hgroups : groupsFrom braces 0 0 (codeFrom start tokens) = groupsFrom braces 0 0 before := by
    obtain ⟨p', hsplit⟩ := groupsFrom_append 0 0 before ((p, braces.opener) :: after)
    have hopener : groupsFrom braces 0 p' ((p, braces.opener) :: after) = [] := by
      rw [groupsFrom, if_neg fun hclose => braces_ne hclose.1]
      exact groupsFrom_open braces_ne hopen
    rw [hcode, hsplit, hdepth, hopener, List.append_nil]
  rw [hgroups] at hfound
  refine (findBodyOpen?_eq_none_iff hfound).2 fun g hg => ?_
  exact htypes g.1 g.2 (mem_groups_iff.1 hg)

-- ======================================================= the main result

/-- The groups that the rounds of the search take, each from behind the one before it, are the
outermost brace groups of one pass from `start` on. The rounds come to an end: more fuel than groups
changes nothing. The search finds the brace of the first group that follows no keyword of a type,
and nothing if there is none. The closer of that brace is found from the brace itself, so the body
is what stands between the two. -/
theorem findBodyOpen?_spec (text : Text) (start : Nat) :
    (∃ tokens, Tokens (text.drop start) tokens) ∧ (∃ groups, FoundFrom braces text start groups) ∧
      ∀ tokens groups, Tokens (text.drop start) tokens → FoundFrom braces text start groups →
        OutermostGroups braces text start tokens groups ∧
        (∀ fuel, groups.length < fuel →
          findBodyOpenFrom text start fuel start = findBodyOpen? text start) ∧
        (∀ p, findBodyOpen? text start = some p ↔ ∃ q, FirstBody text start groups p q) ∧
        (findBodyOpen? text start = none ↔ ∀ g ∈ groups, KeywordBefore text start g.1) ∧
        (∀ p q, FirstBody text start groups p q → findMatching? braces text p = some (p, q) ∧
          functionBody text start = trim (slice text (p + 1) q)) ∧
        (findBodyOpen? text start = none → functionBody text start = []) := by
  obtain ⟨tokens, htokens⟩ := exists_tokens (text.drop start)
  refine ⟨⟨tokens, htokens⟩, ⟨_, (foundFrom_groups braces_ne htokens).1⟩, ?_⟩
  intro tokens groups htokens hfound
  refine ⟨hfound.outermostGroups braces_ne htokens, fun fuel hfuel => ?_, fun p => ?_, ?_, ?_, ?_⟩
  · rw [findBodyOpenFrom_eq hfound hfuel, findBodyOpen?_eq_find? hfound]
  · exact findBodyOpen?_eq_some_iff hfound
  · exact findBodyOpen?_eq_none_iff hfound
  · exact fun p q hbody =>
      ⟨findMatching?_firstBody hfound hbody, functionBody_firstBody hfound hbody⟩
  · intro hnone
    unfold functionBody
    rw [hnone]

/-- The brace of a type stands before that of the body. -/
def typedSignature : Text := "func f(v interface{}) { g() }"

theorem findBodyOpen?_typedSignature :
    Tokens (typedSignature.drop 0) (typedSignature.map Token.code) ∧
      FoundFrom braces typedSignature 0 [(18, 19), (22, 28)] ∧
      FirstBody typedSignature 0 [(18, 19), (22, 28)] 22 28 ∧
      findMatching? braces typedSignature 22 = some (22, 28) ∧
      functionBody typedSignature 0 = ("g()" : Text) := by
  have htokens : Tokens (typedSignature.drop 0) (typedSignature.map Token.code) :=
    tokens_bare (t := typedSignature) (by decide)
  have hgroups : FoundFrom braces typedSignature 0 [(18, 19), (22, 28)] :=
    .cons (by decide) (.cons (by decide) (.nil (by decide)))
  obtain ⟨-, -, hspec⟩ := findBodyOpen?_spec typedSignature 0
  obtain ⟨-, -, hsome, -, hbody, -⟩ := hspec _ _ htokens hgroups
  have hfirst : FirstBody typedSignature 0 [(18, 19), (22, 28)] 22 28 :=
    find?_eq_some_iff_firstBody.1 (by decide)
  obtain ⟨hclosed, htext⟩ := hbody 22 28 hfirst
  refine ⟨htokens, hgroups, hfirst, hclosed, htext.trans ?_⟩
  decide

end GoSurvey.Source
