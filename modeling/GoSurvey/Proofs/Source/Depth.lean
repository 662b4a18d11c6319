/-
Depth and groups. Along the code of a text an opener leads one deeper and
a closer leads out again; where nothing is open a closer closes nothing
(`depthAfter`). An outermost group begins at an opener before which
nothing is open, and it ends where nothing is open again (`Outermost`).
One pass along the code lists these groups (`groupsFrom`).

A search that is started again behind each group it has found lists the
same groups (`foundFrom_groups`): what stands behind a closer are the
tokens that are left, so a new scan reads them as the pass does. And a
line leaves something open for `hasUnbalanced` if it does so along its
code and no group is closed in it (`hasUnbalanced_iff`).
-/
import GoSurvey.Proofs.Source.Block

namespace GoSurvey.Source

open Text DelimiterScan

variable {d : Delimiters}

-- ============================================================ the depth

/-- The depth after a character of code. Where nothing is open, a closer closes nothing. -/
def depthStep (d : Delimiters) (depth : Nat) (c : Char) : Nat :=
  if c = d.opener then depth + 1 else if c = d.closer then depth - 1 else depth

/-- The depth after characters of code. -/
def depthAfter (d : Delimiters) (depth : Nat) (code : List (Nat × Char)) : Nat :=
  code.foldl (fun depth x => depthStep d depth x.2) depth

/-- The closer at `q` closes the last of what is open before the code, and something is open up to
there. -/
def Closes (d : Delimiters) (depth : Nat) (code : List (Nat × Char)) (q : Nat) : Prop :=
  ∃ inside after, code = inside ++ (q, d.closer) :: after ∧ depthAfter d depth inside = 1 ∧
    ∀ init, init <+: inside → 0 < depthAfter d depth init

/-- A group that lies in no other: nothing is open before the opener at `p`, and the closer at `q`
is the one that closes it. -/
def Outermost (d : Delimiters) (depth : Nat) (code : List (Nat × Char)) (p q : Nat) : Prop :=
  ∃ before after, code = before ++ (p, d.opener) :: after ∧ depthAfter d depth before = 0 ∧
    Closes d 1 after q

variable {depth k p p' q : Nat} {c : Char} {code : List (Nat × Char)}

theorem closes_cons : Closes d depth ((k, c) :: code) q ↔
    0 < depth ∧ ((c = d.closer ∧ depth = 1 ∧ q = k) ∨ Closes d (depthStep d depth c) code q) := by
  constructor
  · rintro ⟨inside, after, hcode, hends, hopen⟩
    refine ⟨hopen [] List.nil_prefix, ?_⟩
    cases inside with
    | nil =>
        injection hcode with hx _
        injection hx with hk hc
        exact .inl ⟨hc, hends, hk.symm⟩
    | cons x inside =>
        injection hcode with hx hcode
        subst hx
        refine .inr ⟨inside, after, hcode, hends, fun init hinit => ?_⟩
        exact hopen ((k, c) :: init) (List.cons_prefix_cons.2 ⟨rfl, hinit⟩)
  · rintro ⟨hdepth, ⟨rfl, rfl, rfl⟩ | ⟨inside, after, rfl, hends, hopen⟩⟩
    · refine ⟨[], code, rfl, rfl, fun init hinit => ?_⟩
      rw [List.prefix_nil.1 hinit]
      exact Nat.one_pos
    · refine ⟨(k, c) :: inside, after, rfl, hends, fun init hinit => ?_⟩
      cases init with
      | nil => exact hdepth
      | cons x init =>
          obtain ⟨rfl, hinside⟩ := List.cons_prefix_cons.1 hinit
          exact hopen init hinside

theorem outermost_cons : Outermost d depth ((k, c) :: code) p q ↔
    (depth = 0 ∧ c = d.opener ∧ p = k ∧ Closes d 1 code q) ∨
      Outermost d (depthStep d depth c) code p q := by
  constructor
  · rintro ⟨before, after, hcode, hdepth, hcloses⟩
    cases before with
    | nil =>
        injection hcode with hx hcode
        injection hx with hk hc
        exact .inl ⟨hdepth, hc, hk.symm, hcode ▸ hcloses⟩
    | cons x before =>
        injection hcode with hx hcode
        subst hx
        exact .inr ⟨before, after, hcode, hdepth, hcloses⟩
  · rintro (⟨rfl, rfl, rfl, hcloses⟩ | ⟨before, after, rfl, hdepth, hcloses⟩)
    · exact ⟨[], code, rfl, rfl, hcloses⟩
    · exact ⟨(k, c) :: before, after, rfl, hdepth, hcloses⟩

theorem Closes.pos (h : Closes d depth code q) : 0 < depth := by
  obtain ⟨inside, after, -, -, hopen⟩ := h
  exact hopen [] List.nil_prefix

-- ============================================================= one pass

/-- The groups that are closed along the code, one after another. Before the code `depth` openers
are open, the first of them at `p`; if none is, `p` does not matter. -/
def groupsFrom (d : Delimiters) : (depth p : Nat) → List (Nat × Char) → List (Nat × Nat)
  | _, _, [] => []
  | depth, p, (k, c) :: code =>
    let later := groupsFrom d (depthStep d depth c) (if depth = 0 then k else p) code
    if c = d.closer ∧ depth = 1 then (p, k) :: later else later

theorem groupsFrom_zero (p p' : Nat) (code : List (Nat × Char)) :
    groupsFrom d 0 p code = groupsFrom d 0 p' code := by
  cases code with
  | nil => rfl
  | cons x code => simp only [groupsFrom, Nat.zero_ne_one, and_false, if_false, if_true]

/-- The pass lists the outermost groups, and the one that is open before the code if it is closed.
-/
theorem mem_groupsFrom_iff :
    (p', q) ∈ groupsFrom d depth p code ↔
      (p' = p ∧ Closes d depth code q) ∨ Outermost d depth code p' q := by
  induction code generalizing depth p with
  | nil =>
      constructor
      · intro h
        cases h
      · rintro (⟨-, inside, after, hcode, -⟩ | ⟨before, after, hcode, -⟩)
        · exact absurd hcode (by simp)
        · exact absurd hcode (by simp)
  | cons x code ih =>
      obtain ⟨k, c⟩ := x
      rw [closes_cons, outermost_cons]
      have hmem : (p', q) ∈ groupsFrom d depth p ((k, c) :: code) ↔
          (c = d.closer ∧ depth = 1 ∧ p' = p ∧ q = k) ∨
            (p', q) ∈ groupsFrom d (depthStep d depth c) (if depth = 0 then k else p) code := by
        rw [groupsFrom]
        split
        · next hclose => simp [hclose.1, hclose.2]
        · next hclose =>
          constructor
          · exact .inr
          · rintro (⟨hc, hdepth, -⟩ | h)
            · exact absurd ⟨hc, hdepth⟩ hclose
            · exact h
      rw [hmem, ih]
      rcases Nat.eq_zero_or_pos depth with rfl | hpos
      · -- A group that is open after the character begins with it.
        have hopen : Closes d (depthStep d 0 c) code q ↔ c = d.opener ∧ Closes d 1 code q := by
          unfold depthStep
          by_cases hc : c = d.opener
          · simp [hc]
          · rw [if_neg hc]
            refine ⟨fun h => absurd h.pos ?_, fun h => absurd h.1 hc⟩
            split <;> exact Nat.lt_irrefl 0
        rw [hopen, if_pos rfl]
        simp only [Nat.zero_ne_one, Nat.lt_irrefl, false_and, and_false, false_or, true_and]
        tauto
      · have hdepth : depth ≠ 0 := Nat.ne_of_gt hpos
        simp only [hdepth, if_false, false_and, false_or, hpos, true_and]
        tauto

/-- Where nothing is open before the code, the pass lists the outermost groups. -/
theorem mem_groups_iff : (p', q) ∈ groupsFrom d 0 p code ↔ Outermost d 0 code p' q := by
  rw [mem_groupsFrom_iff]
  exact or_iff_right fun h => absurd h.2.pos (Nat.lt_irrefl 0)

/-- What the pass lists along two parts of the code it lists one after the other. -/
theorem groupsFrom_append (depth p : Nat) (before after : List (Nat × Char)) :
    ∃ p', groupsFrom d depth p (before ++ after)
      = groupsFrom d depth p before ++ groupsFrom d (depthAfter d depth before) p' after := by
  induction before generalizing depth p with
  | nil => exact ⟨p, rfl⟩
  | cons x before ih =>
      obtain ⟨k, c⟩ := x
      obtain ⟨p', hlater⟩ := ih (depthStep d depth c) (if depth = 0 then k else p)
      refine ⟨p', ?_⟩
      rw [List.cons_append, groupsFrom, groupsFrom, hlater]
      split <;> rfl

/-- Where something is open all along the code, no group is closed. -/
theorem groupsFrom_open (hne : d.opener ≠ d.closer)
    (hopen : ∀ init, init <+: code → 0 < depthAfter d depth init) :
    groupsFrom d depth p code = [] := by
  induction code generalizing depth p with
  | nil => rfl
  | cons x code ih =>
      obtain ⟨k, c⟩ := x
      have hnext : ∀ init, init <+: code → 0 < depthAfter d (depthStep d depth c) init :=
        fun init hinit => hopen ((k, c) :: init) (List.cons_prefix_cons.2 ⟨rfl, hinit⟩)
      have hclose : ¬(c = d.closer ∧ depth = 1) := by
        rintro ⟨rfl, rfl⟩
        have hpos := hnext [] List.nil_prefix
        simp [depthAfter, depthStep, hne.symm] at hpos
      rw [groupsFrom, if_neg hclose]
      exact ih hnext

/-- A character that does not end the count changes the depth and, where nothing was open, the place
of the first opener. -/
theorem countFrom_step (p : Nat) (code : List (Nat × Char)) (hgo : ¬(c = d.closer ∧ depth = 1)) :
    countFrom d depth (if depth = 0 then none else some p) ((k, c) :: code)
      = countFrom d (depthStep d depth c) (if depthStep d depth c = 0 then none
          else some (if depth = 0 then k else p)) code := by
  unfold depthStep
  rw [countFrom]
  by_cases hopen : c = d.opener
  · rw [if_pos hopen, if_pos hopen, if_neg (Nat.succ_ne_zero depth)]
    split <;> rfl
  rw [if_neg hopen, if_neg hopen]
  by_cases hc : c = d.closer
  · have hone : depth ≠ 1 := fun h => hgo ⟨hc, h⟩
    rw [if_pos hc]
    rcases Nat.eq_zero_or_pos depth with rfl | hpos
    · rw [if_neg fun h => Nat.lt_irrefl 0 h.2]
      rfl
    · rw [if_pos ⟨hc, hpos⟩, if_neg hone, if_neg (by omega), if_neg (by omega), if_neg (by omega)]
  · rw [if_neg hc, if_neg fun h => hc h.1]
    split <;> rfl

/-- What counting finds is the first group of the pass, which goes on behind it. -/
theorem groupsFrom_eq (hne : d.opener ≠ d.closer) (depth p : Nat) (code : List (Nat × Char)) :
    (countFrom d depth (if depth = 0 then none else some p) code = none →
        groupsFrom d depth p code = []) ∧
      ∀ p' q, countFrom d depth (if depth = 0 then none else some p) code = some (p', q) →
        ∃ before after, code = before ++ (q, d.closer) :: after ∧
          groupsFrom d depth p code = (p', q) :: groupsFrom d 0 0 after := by
  induction code generalizing depth p with
  | nil => exact ⟨fun _ => rfl, fun p' q h => by cases h⟩
  | cons x code ih =>
      obtain ⟨k, c⟩ := x
      by_cases hclose : c = d.closer ∧ depth = 1
      · obtain ⟨rfl, rfl⟩ := hclose
        have hcount : countFrom d 1 (some p) ((k, d.closer) :: code) = some (p, k) := by
          simp [countFrom, Ne.symm hne]
        have hgroups : groupsFrom d 1 p ((k, d.closer) :: code)
            = (p, k) :: groupsFrom d 0 0 code := by
          simp [groupsFrom, depthStep, Ne.symm hne, groupsFrom_zero p 0]
        rw [if_neg Nat.one_ne_zero, hcount, hgroups]
        refine ⟨fun h => (by cases h), fun p' q h => ?_⟩
        injection h with h
        injection h with hp hq
        subst hp
        subst hq
        exact ⟨[], code, rfl, rfl⟩
      · have hgroups : groupsFrom d depth p ((k, c) :: code)
            = groupsFrom d (depthStep d depth c) (if depth = 0 then k else p) code := by
          rw [groupsFrom]
          exact if_neg hclose
        obtain ⟨hnone, hsome⟩ := ih (depthStep d depth c) (if depth = 0 then k else p)
        rw [countFrom_step p code hclose, hgroups]
        refine ⟨hnone, fun p' q h => ?_⟩
        obtain ⟨before, after, rfl, hlater⟩ := hsome p' q h
        exact ⟨(k, c) :: before, after, rfl, hlater⟩

-- ========================================================= started again

/-- What is found in a text from `start` on when each search begins behind the group that the one
before has found. -/
inductive FoundFrom (d : Delimiters) (text : Text) : (start : Nat) → List (Nat × Nat) → Prop where
  | nil {start : Nat} (hnone : findMatching? d text start = none) : FoundFrom d text start []
  | cons {start p q : Nat} {groups : List (Nat × Nat)}
      (hfound : findMatching? d text start = some (p, q))
      (hrest : FoundFrom d text (q + 1) groups) : FoundFrom d text start ((p, q) :: groups)

theorem Tokens.tail {t : Text} {tokens : List Token} (h : Tokens t (.code c :: tokens)) :
    Tokens t.tail tokens := by
  cases h with
  | cons _ hrest => exact hrest

/-- In code that is in order, what stands behind a place is what has a later one. -/
theorem filter_behind {before after : List (Nat × Char)}
    (horder : (before ++ (q, c) :: after).Pairwise fun x y => x.1 < y.1) :
    (before ++ (q, c) :: after).filter (fun x => q < x.1) = after := by
  obtain ⟨-, hafter, hbefore⟩ := List.pairwise_append.1 horder
  rw [List.pairwise_cons] at hafter
  rw [List.filter_append, List.filter_eq_nil_iff.2, List.nil_append, List.filter_cons_of_neg,
    List.filter_eq_self.2]
  · exact fun x hx => decide_eq_true (hafter.1 x hx)
  · simp
  · intro x hx
    have hlt := hbefore x hx (q, c) List.mem_cons_self
    simp only [decide_eq_true_eq]
    omega

variable {text : Text} {start : Nat} {tokens : List Token}

/-- Where nothing is found the pass lists no group. What is found is the first group of the pass,
and the tokens behind it are those that are left. -/
theorem groups_of_tokens (hne : d.opener ≠ d.closer) (htokens : Tokens (text.drop start) tokens) :
    (findMatching? d text start = none → groupsFrom d 0 0 (codeFrom start tokens) = []) ∧
      ∀ p q, findMatching? d text start = some (p, q) →
        ∃ rest, rest <:+ tokens ∧ Tokens (text.drop (q + 1)) rest ∧
          groupsFrom d 0 0 (codeFrom start tokens)
            = (p, q) :: groupsFrom d 0 0 (codeFrom (q + 1) rest) := by
  obtain ⟨hnone, hsome⟩ := groupsFrom_eq hne 0 0 (codeFrom start tokens)
  rw [if_pos rfl] at hnone hsome
  rw [findMatching?_eq_countFrom htokens]
  refine ⟨hnone, fun p q hfound => ?_⟩
  obtain ⟨before, after, hcode, hgroups⟩ := hsome p q hfound
  have hmem : (q, d.closer) ∈ codeFrom start tokens := by
    rw [hcode]
    exact List.mem_append_right _ List.mem_cons_self
  obtain ⟨before', rest, hcode', hle, hsuffix, hplace⟩ := exists_from_place htokens hmem
  have horder := (codeFrom_pairwise start tokens).1
  have hbehind := filter_behind (hcode ▸ horder)
  have hbehind' : (codeFrom start tokens).filter (fun x => q < x.1) = codeFrom (q + 1) rest := by
    have horder' := horder
    rw [hcode'] at horder' ⊢
    exact filter_behind horder'
  rw [← hcode, hbehind'] at hbehind
  rw [List.drop_drop, Nat.add_sub_cancel' hle] at hplace
  have htail := hplace.tail
  rw [List.tail_drop] at htail
  exact ⟨rest, (List.suffix_cons _ _).trans hsuffix, htail, by rw [hgroups, hbehind]⟩

/-- Searches that are started again find the groups of the pass, each of them in front of tokens
that are left. -/
theorem foundFrom_groups (hne : d.opener ≠ d.closer) (htokens : Tokens (text.drop start) tokens) :
    FoundFrom d text start (groupsFrom d 0 0 (codeFrom start tokens)) ∧
      ∀ g ∈ groupsFrom d 0 0 (codeFrom start tokens),
        ∃ rest, rest <:+ tokens ∧ Tokens (text.drop (g.2 + 1)) rest := by
  generalize hgroups : groupsFrom d 0 0 (codeFrom start tokens) = groups
  induction groups generalizing start tokens with
  | nil =>
      refine ⟨.nil ?_, fun g hg => by cases hg⟩
      cases hfound : findMatching? d text start with
      | none => rfl
      | some span =>
          obtain ⟨rest, -, -, hcons⟩ := (groups_of_tokens hne htokens).2 span.1 span.2 hfound
          rw [hgroups] at hcons
          cases hcons
  | cons g groups ih =>
      cases hfound : findMatching? d text start with
      | none =>
          have hnil := (groups_of_tokens hne htokens).1 hfound
          rw [hgroups] at hnil
          cases hnil
      | some span =>
          obtain ⟨p, q⟩ := span
          obtain ⟨rest, hsuffix, hrest, hcons⟩ := (groups_of_tokens hne htokens).2 p q hfound
          rw [hgroups] at hcons
          injection hcons with hg hlater
          subst hg
          obtain ⟨hfoundFrom, hleft⟩ := ih hrest hlater.symm
          refine ⟨.cons hfound hfoundFrom, fun g hg => ?_⟩
          rcases List.mem_cons.1 hg with rfl | hg
          · exact ⟨rest, hsuffix, hrest⟩
          · obtain ⟨rest', hsuffix', hrest'⟩ := hleft g hg
            exact ⟨rest', hsuffix'.trans hsuffix, hrest'⟩

namespace FoundFrom

variable {groups : List (Nat × Nat)}

theorem bounds (hne : d.opener ≠ d.closer) (h : FoundFrom d text start groups) :
    ∀ g ∈ groups, start ≤ g.1 ∧ g.1 < g.2 := by
  induction h with
  | nil => exact fun g hg => by cases hg
  | cons hfound _ ih =>
      have hbounds := findMatching?_bounds hne hfound
      intro g hg
      rcases List.mem_cons.1 hg with rfl | hg
      · exact ⟨hbounds.1, hbounds.2.1⟩
      · have hlater := ih g hg
        omega

/-- Each group ends before the next one begins. -/
theorem apart (hne : d.opener ≠ d.closer) (h : FoundFrom d text start groups) :
    groups.Pairwise fun g h => g.2 < h.1 := by
  induction h with
  | nil => exact .nil
  | cons _ hrest ih => exact List.pairwise_cons.2 ⟨fun g hg => (hrest.bounds hne g hg).1, ih⟩

/-- A search from the opener of a group finds the group. -/
theorem from_opener (hne : d.opener ≠ d.closer) (h : FoundFrom d text start groups) :
    ∀ g ∈ groups, findMatching? d text g.1 = some g := by
  induction h with
  | nil => exact fun g hg => by cases hg
  | cons hfound _ ih =>
      intro g hg
      rcases List.mem_cons.1 hg with rfl | hg
      · exact findMatching?_from_opener hne hfound
      · exact ih g hg

/-- The groups that are found are determined. -/
theorem unique {groups' : List (Nat × Nat)} (h : FoundFrom d text start groups)
    (h' : FoundFrom d text start groups') : groups = groups' := by
  induction h generalizing groups' with
  | nil hnone =>
      cases h' with
      | nil => rfl
      | cons hfound' _ =>
          rw [hnone] at hfound'
          cases hfound'
  | cons hfound _ ih =>
      cases h' with
      | nil hnone' =>
          rw [hfound] at hnone'
          cases hnone'
      | cons hfound' hrest' =>
          rw [hfound] at hfound'
          injection hfound' with hsame
          injection hsame with hp hq
          subst hp
          subst hq
          exact congrArg (List.cons _) (ih hrest')

theorem length_le (hne : d.opener ≠ d.closer) (h : FoundFrom d text start groups) :
    groups.length ≤ text.length - start := by
  induction h with
  | nil => exact Nat.zero_le _
  | cons hfound _ ih =>
      have hbounds := findMatching?_bounds hne hfound
      rw [List.length_cons]
      omega

end FoundFrom

/-- Nothing is found exactly if there is no outermost group. -/
theorem findMatching?_eq_none_iff (hne : d.opener ≠ d.closer)
    (htokens : Tokens (text.drop start) tokens) :
    findMatching? d text start = none ↔ ∀ p q, ¬Outermost d 0 (codeFrom start tokens) p q := by
  obtain ⟨hnone, hsome⟩ := groups_of_tokens hne htokens
  constructor
  · intro hfound p q hgroup
    have hmem := (mem_groups_iff (p := 0)).2 hgroup
    rw [hnone hfound] at hmem
    cases hmem
  · intro hgroups
    cases hfound : findMatching? d text start with
    | none => rfl
    | some span =>
        obtain ⟨rest, -, -, hcons⟩ := hsome span.1 span.2 hfound
        have hmem : span ∈ groupsFrom d 0 0 (codeFrom start tokens) := by
          rw [hcons]
          exact List.mem_cons_self
        exact absurd (mem_groups_iff.1 hmem) (hgroups span.1 span.2)

-- ====================================================== what a line leaves

/-- So many openers are open where a scan has come to, and it has seen one exactly if some are. -/
def Leaves (r : Option Nat × DelimiterScan) (depth : Nat) : Prop :=
  r.2.depth = depth ∧ (r.2.openedAt.isSome = true ↔ 0 < depth)

theorem leaves_of_tally {r r' : Option Nat × DelimiterScan} (h : tally r = tally r') {depth : Nat}
    (hleaves : Leaves r' depth) : Leaves r depth := by
  simp only [tally, Prod.mk.injEq] at h
  obtain ⟨-, hdepth, hseen⟩ := h
  unfold Leaves
  rw [hdepth, hseen]
  exact hleaves

/-- A scan that closes no group comes to the depth of the code. -/
theorem leaves_run (htokens : Tokens text tokens) (offset depth : Nat) {openedAt : Option Nat}
    (hopened : openedAt.isSome = true ↔ 0 < depth)
    (hnone : (run d false text offset ⟨.code, depth, openedAt⟩).1 = none) :
    Leaves (run d false text offset ⟨.code, depth, openedAt⟩)
      (depthAfter d depth (codeFrom offset tokens)) := by
  induction htokens generalizing offset depth openedAt with
  | nil => exact ⟨rfl, hopened⟩
  | @cons token after tokens hfirst _ ih =>
      have hpass : (∀ c, token ≠ .code c) →
          Leaves (run d false (token.text ++ after) offset ⟨.code, depth, openedAt⟩)
            (depthAfter d depth (codeFrom (offset + token.text.length) tokens)) := by
        intro hcode
        have htally := tally_run_token (d := d) depth openedAt hfirst hcode offset
        refine leaves_of_tally htally (ih _ depth hopened ?_)
        exact (congrArg (·.1) htally).symm.trans hnone
      cases token with
      | lineComment text => exact hpass fun c => Token.noConfusion
      | blockComment text => exact hpass fun c => Token.noConfusion
      | literal text => exact hpass fun c => Token.noConfusion
      | code c =>
          cases hfirst with
          | code hquote hline hblock =>
              -- What one character leaves is what the rest of the text is scanned from.
              have hafter : ∀ (depth' : Nat) {openedAt' : Option Nat},
                  depthStep d depth c = depth' → (openedAt'.isSome = true ↔ 0 < depth') →
                  step d ⟨.code, depth, openedAt⟩ offset c after
                    = .next ⟨.code, depth', openedAt'⟩ →
                  Leaves (run d false ([c] ++ after) offset ⟨.code, depth, openedAt⟩)
                    (depthAfter d depth ((offset, c) :: codeFrom (offset + 1) tokens)) := by
                rintro depth' openedAt' rfl hopened' hstep
                have hrun : run d false ([c] ++ after) offset ⟨.code, depth, openedAt⟩
                    = run d false after (offset + 1)
                        ⟨.code, depthStep d depth c, openedAt'⟩ := by
                  rw [List.singleton_append, run, hstep]
                rw [Token.text, hrun] at hnone
                rw [hrun]
                exact ih _ _ hopened' hnone
              have hnext : ∀ y ∈ after.head?, NoMark c y := by
                rintro y hy ⟨hc, rfl | rfl⟩
                · exact hline ⟨hc, hy⟩
                · exact hblock ⟨hc, hy⟩
              have hstep := step_bare (d := d) depth offset openedAt after hquote hnext
              by_cases hopen : c = d.opener
              · rw [if_pos hopen] at hstep
                refine hafter (depth + 1) (if_pos hopen) ?_ hstep
                exact iff_of_true rfl (Nat.succ_pos depth)
              rw [if_neg hopen] at hstep
              by_cases hclose : c = d.closer ∧ 0 < depth
              · rw [if_pos hclose] at hstep
                by_cases hone : depth = 1
                · rw [if_pos hone] at hstep
                  rw [Token.text, List.singleton_append, run, hstep] at hnone
                  cases hnone
                · rw [if_neg hone] at hstep
                  refine hafter (depth - 1) ?_ ?_ hstep
                  · unfold depthStep
                    rw [if_neg hopen, if_pos hclose.1]
                  · exact iff_of_true (hopened.2 hclose.2) (by omega)
              · rw [if_neg hclose] at hstep
                refine hafter depth ?_ hopened hstep
                unfold depthStep
                rw [if_neg hopen]
                split
                · next hc =>
                  have hzero : ¬0 < depth := fun h => hclose ⟨hc, h⟩
                  omega
                · rfl

/-- A line leaves a delimiter open exactly if something is open at the end of its code and no group
is closed in it. A group that is closed hides whatever is opened behind it. -/
theorem hasUnbalanced_iff (hopener : d.opener ≠ newline) (hcloser : d.closer ≠ newline)
    (hne : d.opener ≠ d.closer) (line : Text) :
    (∃ tokens, Tokens line tokens) ∧ ∀ tokens, Tokens line tokens →
      (hasUnbalanced d line = true ↔
        0 < depthAfter d 0 (codeFrom 0 tokens) ∧
          ∀ p q, ¬Outermost d 0 (codeFrom 0 tokens) p q) := by
  refine ⟨exists_tokens line, fun tokens htokens => ?_⟩
  obtain ⟨hclosed, hopened⟩ := run_newline_end hopener hcloser line false 0 {}
  have hunbalanced : hasUnbalanced d line = true ↔
      (run d false line 0 {}).1 = none ∧ (run d false line 0 {}).2.openedAt.isSome = true := by
    unfold hasUnbalanced
    rw [feed_line]
    unfold opened
    dsimp only
    rw [hclosed, hopened, Bool.and_eq_true, Option.isNone_iff_eq_none]
  have hplace : Tokens (line.drop 0) tokens := htokens
  rw [hunbalanced, ← findMatching?_eq_none_iff hne hplace, findMatching?_eq_none, and_comm]
  refine and_congr_left fun hnone => ?_
  exact (leaves_run htokens 0 0 (by simp) hnone).2

/-- In code without literals and comments every character is a token. -/
theorem tokens_bare {t : Text} (h : Bare t) : Tokens t (t.map Token.code) := by
  induction t with
  | nil => exact .nil
  | cons c t ih =>
      have hmark := h.noMark
      have hfirst : Begins (.code c) t :=
        .code (h.quote c List.mem_cons_self) (fun hline => hmark '/' hline.2 ⟨hline.1, .inl rfl⟩)
          fun hblock => hmark '*' hblock.2 ⟨hblock.1, .inr rfl⟩
      exact .cons hfirst (ih (h.part (List.suffix_cons c t).isInfix))

/-- A line with a call and an open parenthesis behind it. -/
def secondCallLine : Text := "f() + g("

/-- The last parenthesis is left open, but a group is closed before it. -/
theorem hasUnbalanced_secondCallLine :
    parentheses.opener ≠ newline ∧ parentheses.closer ≠ newline ∧
      parentheses.opener ≠ parentheses.closer ∧
      ∃ tokens, Tokens secondCallLine tokens ∧
        depthAfter parentheses 0 (codeFrom 0 tokens) = 1 ∧
        Outermost parentheses 0 (codeFrom 0 tokens) 1 2 ∧
        hasUnbalanced parentheses secondCallLine = false := by
  have hopener : parentheses.opener ≠ newline := by decide
  have hcloser : parentheses.closer ≠ newline := by decide
  have hne : parentheses.opener ≠ parentheses.closer := by decide
  have htokens := tokens_bare (t := secondCallLine) (by decide)
  have hgroup : Outermost parentheses 0 (codeFrom 0 (secondCallLine.map Token.code)) 1 2 :=
    (mem_groups_iff (p := 0)).1 (by decide)
  refine ⟨hopener, hcloser, hne, _, htokens, by decide, hgroup, Bool.eq_false_iff.2 fun h => ?_⟩
  have hiff := (hasUnbalanced_iff hopener hcloser hne secondCallLine).2 _ htokens
  exact (hiff.1 h).2 1 2 hgroup

end GoSurvey.Source
