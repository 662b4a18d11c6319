/-
Which lines of a file define a name. The search goes down the lines and
keeps track of the group it is in (`groupAt`): a line that opens a group
puts it there, whatever group it was in before, and a line that closes one
takes it out again.

What the search has found when it ends is the better of all the lines that
define the name, each with the rank of its rule, the first of equals being
kept (`bestLine_eq_foldl`): to stop at a line of the highest rank loses
nothing, since no later one is better. So the line that is found comes
before all others by rule and then by place (`bestLine_eq_some_iff`), and
a name is found exactly if some line defines it in the group it stands in
(`isSome_definitionIn?_iff`).
-/
import GoSurvey.Symbol.Definition
import Mathlib.Data.Prod.Lex

namespace GoSurvey.Symbol

open Text Pattern

-- ============================================================ the group

/-- The group after a line. -/
def groupAfter (group : Option GroupKeyword) (line : Text) : Option GroupKeyword :=
  match groupStep group line with
  | .opens keyword => some keyword
  | .closes => none
  | .inside => group

/-- The group in which the line of an index stands. -/
def groupAt (lines : List Text) (index : Nat) : Option GroupKeyword :=
  (lines.take index).foldl groupAfter none

/-- A line defines a name in the group in which it stands. -/
def DefinesIn (group : Option GroupKeyword) (name line : Text) : Prop :=
  groupStep group line = .inside ∧ (rank? (rulesFor name) group line).isSome = true

/-- The line of an index defines a name. -/
def DefinesAt (lines : List Text) (name : Text) (index : Nat) : Prop :=
  ∃ line, lines[index]? = some line ∧ DefinesIn (groupAt lines index) name line

instance (group : Option GroupKeyword) (name line : Text) :
    Decidable (DefinesIn group name line) :=
  inferInstanceAs (Decidable (_ ∧ _))

variable {lines : List Text} {index : Nat} {line : Text}

/-- A line closes whatever group it stands in. -/
def Closes (line : Text) : Prop := (groupCloseLine.matchStart line).isSome = true

instance (line : Text) : Decidable (Closes line) := inferInstanceAs (Decidable (_ = _))

-- =========================================================== the search

/-- A line in a group satisfies a rule that applies to it there. -/
def Satisfies (r : NameRule) (group : Option GroupKeyword) (line : Text) : Prop :=
  r.applies group ((groupStartLine.matchStart line).map keywordOf) = true ∧
    r.pattern.occursIn line = true

/-- The line of an index defines a name by the rule of a rank: it neither opens nor closes a group,
and the rule is the first that it satisfies in the group in which it stands. -/
def RankedAt (lines : List Text) (name : Text) (rank index : Nat) : Prop :=
  ∃ line, lines[index]? = some line ∧ groupStep (groupAt lines index) line = .inside ∧
    (∃ r, (rulesFor name)[rank]? = some r ∧ Satisfies r (groupAt lines index) line) ∧
    ∀ i < rank, ∀ r, (rulesFor name)[i]? = some r → ¬Satisfies r (groupAt lines index) line

/-- The rank of a line that leaves the group as it is. -/
def rankIn? (rules : List NameRule) (group : Option GroupKeyword) (line : Text) : Option Nat :=
  if groupStep group line = .inside then rank? rules group line else none

/-- The ranks and indexes of the lines that satisfy a rule, in order. -/
def hitsFrom (rules : List NameRule) :
    (current : Option GroupKeyword) → (index : Nat) → List Text → List (Nat × Nat)
  | _, _, [] => []
  | current, index, line :: rest =>
    ((rankIn? rules current line).map fun rank => (rank, index)).toList
      ++ hitsFrom rules (groupAfter current line) (index + 1) rest

/-- The better of the best hit so far and the next one; one that is no better is not taken. -/
def keepBetter (best : Option (Nat × Nat)) (hit : Nat × Nat) : Option (Nat × Nat) :=
  match best with
  | none => some hit
  | some b => if hit.1 < b.1 then some hit else some b

section Hits

variable {rules : List NameRule} {group : Option GroupKeyword} {best : Option (Nat × Nat)}
  {rest : List Text} {rank : Nat} {hit : Nat × Nat}

/-- A rank is the index of a rule. -/
theorem rank?_lt (h : rank? rules group line = some rank) : rank < rules.length :=
  (List.findIdx?_eq_some_iff_getElem.1 h).1

theorem rank?_eq_some_iff :
    rank? rules group line = some rank ↔
      (∃ r, rules[rank]? = some r ∧ Satisfies r group line) ∧
        ∀ i < rank, ∀ r, rules[i]? = some r → ¬Satisfies r group line := by
  unfold rank? Satisfies
  dsimp only
  rw [List.findIdx?_eq_some_iff_getElem]
  simp only [← Bool.and_eq_true]
  constructor
  · rintro ⟨hlt, hfirst, hbefore⟩
    refine ⟨⟨_, List.getElem?_eq_getElem hlt, hfirst⟩, fun i hi r hr => ?_⟩
    obtain ⟨hlt', rfl⟩ := List.getElem?_eq_some_iff.1 hr
    exact hbefore i hi
  · rintro ⟨⟨r, hr, hfirst⟩, hbefore⟩
    obtain ⟨hlt, rfl⟩ := List.getElem?_eq_some_iff.1 hr
    exact ⟨hlt, hfirst, fun i hi => hbefore i hi _ (List.getElem?_eq_getElem (by omega))⟩

theorem mem_hitsFrom_iff :
    hit ∈ hitsFrom rules group index rest ↔
      ∃ i line, rest[i]? = some line ∧
        rankIn? rules ((rest.take i).foldl groupAfter group) line = some hit.1 ∧
        hit.2 = index + i := by
  induction rest generalizing group index with
  | nil =>
      constructor
      · intro h
        cases h
      · rintro ⟨i, line, hline, -⟩
        cases hline
  | cons line rest ih =>
      rw [hitsFrom, List.mem_append, Option.mem_toList, Option.map_eq_some_iff, ih]
      constructor
      · rintro (⟨rank, hrank, rfl⟩ | ⟨i, l, hl, hrank, hindex⟩)
        · exact ⟨0, line, rfl, hrank, rfl⟩
        · exact ⟨i + 1, l, hl, hrank, by omega⟩
      · rintro ⟨i, l, hl, hrank, hindex⟩
        cases i with
        | zero =>
            obtain rfl := Option.some.inj hl
            exact .inl ⟨hit.1, hrank, Prod.ext rfl hindex.symm⟩
        | succ i => exact .inr ⟨i, l, hl, hrank, by omega⟩

/-- The hits stand in the order of their lines. -/
theorem hitsFrom_pairwise : (hitsFrom rules group index rest).Pairwise (·.2 < ·.2) := by
  induction rest generalizing group index with
  | nil => exact List.Pairwise.nil
  | cons line rest ih =>
      rw [hitsFrom]
      cases rankIn? rules group line with
      | none => exact ih
      | some rank =>
          refine List.pairwise_cons.2 ⟨fun hit hhit => ?_, ih⟩
          obtain ⟨i, _, -, -, hindex⟩ := mem_hitsFrom_iff.1 hhit
          dsimp only
          omega

/-- Nothing is better than the highest rank. -/
theorem foldl_keepBetter_zero (hits : List (Nat × Nat)) :
    hits.foldl keepBetter (some (0, index)) = some (0, index) := by
  induction hits with
  | nil => rfl
  | cons hit hits ih =>
      rw [List.foldl_cons]
      have hkept : keepBetter (some (0, index)) hit = some (0, index) := by
        unfold keepBetter
        exact if_neg (Nat.not_lt_zero hit.1)
      rw [hkept]
      exact ih

/-- The search keeps the better of what it finds, and loses nothing by stopping early. -/
theorem bestLine_eq_foldl :
    bestLine rules group best index rest
      = (hitsFrom rules group index rest).foldl keepBetter best := by
  induction rest generalizing group best index with
  | nil => rfl
  | cons line rest ih =>
      rw [bestLine, hitsFrom]
      unfold rankIn? groupAfter
      cases hstep : groupStep group line with
      | opens keyword => exact ih
      | closes => exact ih
      | inside =>
          rw [if_pos rfl]
          dsimp only
          cases hrank : rank? rules group line with
          | none => exact ih
          | some rank =>
              have hkept : keepBetter best (rank, index)
                  = if rank < (best.map (·.1)).getD rules.length then some (rank, index)
                    else best := by
                cases best with
                | none => exact (if_pos (rank?_lt hrank)).symm
                | some b => rfl
              have hfold : ((some rank).map fun rank => (rank, index)).toList
                  ++ hitsFrom rules group (index + 1) rest
                    = (rank, index) :: hitsFrom rules group (index + 1) rest := rfl
              rw [hfold, List.foldl_cons, hkept]
              dsimp only
              split
              · split
                · next hzero =>
                  rw [hzero, foldl_keepBetter_zero]
                · exact ih
              · exact ih

/-- Of hits in the order of their lines the best is kept: by rank and then by line no other comes
before it. -/
theorem exists_foldl_keepBetter {hits : List (Nat × Nat)} {first : Nat × Nat}
    (horder : (first :: hits).Pairwise (·.2 < ·.2)) :
    ∃ b, hits.foldl keepBetter (some first) = some b ∧ b ∈ first :: hits ∧
      ∀ hit ∈ first :: hits, toLex b ≤ toLex hit := by
  induction hits generalizing first with
  | nil =>
      refine ⟨first, rfl, List.mem_singleton_self first, fun hit hhit => ?_⟩
      rw [List.mem_singleton.1 hhit]
  | cons next hits ih =>
      obtain ⟨hfirst, hnext⟩ := List.pairwise_cons.1 horder
      rw [List.foldl_cons]
      by_cases hbetter : next.1 < first.1
      · have hkept : keepBetter (some first) next = some next := if_pos hbetter
        obtain ⟨b, hfold, hmem, hleast⟩ := ih hnext
        rw [hkept]
        refine ⟨b, hfold, List.mem_cons_of_mem first hmem, fun hit hhit => ?_⟩
        rcases List.mem_cons.1 hhit with rfl | hhit
        · exact (hleast next List.mem_cons_self).trans
            (Prod.Lex.toLex_le_toLex.2 (.inl hbetter))
        · exact hleast hit hhit
      · have hkept : keepBetter (some first) next = some first := if_neg hbetter
        have hrest : (first :: hits).Pairwise (·.2 < ·.2) :=
          horder.sublist ((List.sublist_cons_self next hits).cons_cons first)
        obtain ⟨b, hfold, hmem, hleast⟩ := ih hrest
        have hlater : first.2 < next.2 := hfirst next List.mem_cons_self
        have hle : toLex first ≤ toLex next := Prod.Lex.toLex_le_toLex.2 (by omega)
        rw [hkept]
        refine ⟨b, hfold, ?_, fun hit hhit => ?_⟩
        · exact ((List.sublist_cons_self next hits).cons_cons first).subset hmem
        · rcases List.mem_cons.1 hhit with rfl | hhit
          · exact hleast hit List.mem_cons_self
          · rcases List.mem_cons.1 hhit with rfl | hhit
            · exact (hleast first List.mem_cons_self).trans hle
            · exact hleast hit (List.mem_cons_of_mem first hhit)

end Hits

-- ======================================================= the best line

/-- The line of an index defines a name, and none that defines it is better: by the rank of its
rule, and among lines of one rank by its place. -/
structure IsBest (lines : List Text) (name : Text) (rank index : Nat) : Prop where
  ranked : RankedAt lines name rank index
  least : ∀ rank' index', RankedAt lines name rank' index' →
    toLex (rank, index) ≤ toLex (rank', index')

section Best

variable {name : Text} {rank : Nat}

theorem rankIn?_eq_some_iff :
    (∃ line, lines[index]? = some line ∧
        rankIn? (rulesFor name) (groupAt lines index) line = some rank) ↔
      RankedAt lines name rank index := by
  unfold RankedAt rankIn?
  refine exists_congr fun line => and_congr_right fun _ => ?_
  rw [Option.ite_none_right_eq_some, rank?_eq_some_iff]

theorem mem_hits_iff :
    (rank, index) ∈ hitsFrom (rulesFor name) none 0 lines ↔ RankedAt lines name rank index := by
  rw [mem_hitsFrom_iff, ← rankIn?_eq_some_iff]
  constructor
  · rintro ⟨i, line, hline, hrank, hindex⟩
    obtain rfl : index = i := by omega
    exact ⟨line, hline, hrank⟩
  · rintro ⟨line, hline, hrank⟩
    exact ⟨index, line, hline, hrank, by omega⟩

/-- The search of a file finds nothing, or it finds the best line. -/
theorem bestLine_cases (lines : List Text) (name : Text) :
    bestLine (rulesFor name) none none 0 lines = none ∧ (∀ r i, ¬RankedAt lines name r i) ∨
      ∃ rank index, bestLine (rulesFor name) none none 0 lines = some (rank, index) ∧
        IsBest lines name rank index := by
  rw [bestLine_eq_foldl]
  have horder := @hitsFrom_pairwise 0 (rulesFor name) none lines
  cases hhits : hitsFrom (rulesFor name) none 0 lines with
  | nil =>
      refine .inl ⟨rfl, fun r i hr => ?_⟩
      have hmem := mem_hits_iff.2 hr
      rw [hhits] at hmem
      cases hmem
  | cons first hits =>
      rw [hhits] at horder
      obtain ⟨⟨rank, index⟩, hfold, hmem, hleast⟩ := exists_foldl_keepBetter horder
      refine .inr ⟨rank, index, hfold, mem_hits_iff.1 (hhits ▸ hmem), fun r i hr => ?_⟩
      exact hleast (r, i) (hhits ▸ mem_hits_iff.2 hr)

theorem bestLine_eq_some_iff :
    bestLine (rulesFor name) none none 0 lines = some (rank, index) ↔
      IsBest lines name rank index := by
  rcases bestLine_cases lines name with ⟨hnone, hno⟩ | ⟨rank', index', hsome, hbest⟩
  · rw [hnone]
    exact iff_of_false (fun h => by cases h) fun h => hno rank index h.ranked
  · rw [hsome]
    constructor
    · rintro ⟨⟩
      exact hbest
    · intro h
      have hsame := le_antisymm (hbest.least _ _ h.ranked) (h.least _ _ hbest.ranked)
      exact congrArg some hsame

theorem bestLine_eq_none_iff :
    bestLine (rulesFor name) none none 0 lines = none ↔ ∀ r i, ¬RankedAt lines name r i := by
  rcases bestLine_cases lines name with ⟨hnone, hno⟩ | ⟨rank, index, hsome, hbest⟩
  · exact iff_of_true hnone hno
  · rw [hsome]
    exact iff_of_false (fun h => by cases h) fun h => h rank index hbest.ranked

/-- A line that defines a name does so by the rule of some rank. -/
theorem definesAt_iff : DefinesAt lines name index ↔ ∃ rank, RankedAt lines name rank index := by
  constructor
  · rintro ⟨line, hline, hinside, hsome⟩
    obtain ⟨rank, hrank⟩ := Option.isSome_iff_exists.1 hsome
    exact ⟨rank, line, hline, hinside, rank?_eq_some_iff.1 hrank⟩
  · rintro ⟨rank, line, hline, hinside, hrank⟩
    exact ⟨line, hline, hinside, Option.isSome_iff_exists.2 ⟨rank, rank?_eq_some_iff.2 hrank⟩⟩

end Best

variable {content name : Text}

/-- The definition of a name is that of the best line. -/
theorem definitionIn?_eq_some_iff {d : LocalDefinition} :
    definitionIn? content name = some d ↔
      ∃ rank index line rule, IsBest (Text.lines content) name rank index ∧
        (Text.lines content)[index]? = some line ∧ (rulesFor name)[rank]? = some rule ∧
        d = ⟨rule.kind, index + 1, trim line⟩ := by
  constructor
  · intro h
    obtain ⟨⟨rank, index⟩, hbest, h⟩ := Option.bind_eq_some_iff.1 h
    obtain ⟨rule, hrule, h⟩ := Option.bind_eq_some_iff.1 h
    have hbest := bestLine_eq_some_iff.1 hbest
    obtain ⟨line, hline, -⟩ := hbest.ranked
    rw [hline] at h
    exact ⟨rank, index, line, rule, hbest, hline, hrule, (Option.some.inj h).symm⟩
  · rintro ⟨rank, index, line, rule, hbest, hline, hrule, rfl⟩
    refine Option.bind_eq_some_iff.2 ⟨_, bestLine_eq_some_iff.2 hbest, ?_⟩
    refine Option.bind_eq_some_iff.2 ⟨rule, hrule, ?_⟩
    rw [hline]
    rfl

theorem definitionIn?_eq_none_iff :
    definitionIn? content name = none ↔ ∀ r i, ¬RankedAt (Text.lines content) name r i := by
  rw [← bestLine_eq_none_iff]
  rcases bestLine_cases (Text.lines content) name with ⟨hnone, -⟩ | ⟨rank, index, hsome, hbest⟩
  · refine iff_of_true ?_ hnone
    unfold definitionIn?
    dsimp only
    rw [hnone]
    rfl
  · obtain ⟨line, hline, -, ⟨rule, hrule, -⟩, -⟩ := hbest.ranked
    have hfound := definitionIn?_eq_some_iff.2 ⟨rank, index, line, rule, hbest, hline, hrule, rfl⟩
    rw [hfound, hsome]
    exact iff_of_false (fun h => by cases h) fun h => by cases h

/-- A name is found exactly if some line defines it. -/
theorem isSome_definitionIn?_iff :
    (definitionIn? content name).isSome = true ↔
      ∃ index, DefinesAt (Text.lines content) name index := by
  rw [Option.isSome_iff_ne_none, Ne, definitionIn?_eq_none_iff]
  simp only [definesAt_iff]
  push Not
  exact exists_comm

end GoSurvey.Symbol
