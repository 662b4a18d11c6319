/-
Printed parameter lists are read back. A part of such a list is a name
and a type, and commas of the type stand in brackets, so the cuts at
top-level commas are where the parts were joined (`splitTopLevel_join`);
and since each part has a name, no type is passed on to the names before
it (`parseParameters_printed`).
-/
import GoSurvey.Declaration.Parameter
import GoSurvey.Proofs.Source.TypeBrace

namespace GoSurvey

open Text Source

namespace Declaration

-- ================================================ cuts outside brackets

/-- Every comma of a text stands in brackets. -/
def CommasInside (t : Text) : Prop :=
  ∀ n < t.length, t[n]? = some ',' → isNested (t.take n) = false

instance (t : Text) : Decidable (CommasInside t) :=
  inferInstanceAs (Decidable (∀ n < t.length, _))

/-- No cut is made in a text whose commas stand in brackets. -/
theorem piecesFrom_nested {t rest piece : Text} {pieces : List Text} {expected : List Char}
    (previous : Option Char) (hquote : ∀ c ∈ t, isQuote c = false)
    (hnested : nestedFrom expected t = true)
    (hcommas : ∀ n < t.length, t[n]? = some ',' → nestedFrom expected (t.take n) = false)
    (hrest : piecesFrom ',' 0 none (t.getLast?.or previous) rest = piece :: pieces) :
    piecesFrom ',' expected.length none previous (t ++ rest) = (t ++ piece) :: pieces := by
  induction t generalizing expected previous with
  | nil =>
      rw [nestedFrom, List.isEmpty_iff] at hnested
      rw [hnested]
      exact hrest
  | cons c t ih =>
      have hquotes := fun e he => hquote e (List.mem_cons_of_mem c he)
      have hlast : (c :: t).getLast?.or previous = t.getLast?.or (some c) := by
        rw [List.getLast?_cons]
        cases t.getLast? <;> rfl
      rw [hlast] at hrest
      have hlater : ∀ {expected' : List Char}, nestedFrom expected' t = true →
          (∀ u, nestedFrom expected' u = true → nestedFrom expected (c :: u) = true) →
          piecesFrom ',' expected'.length none (some c) (t ++ rest) = (t ++ piece) :: pieces := by
        intro expected' h hstep
        refine ih _ hquotes h (fun n hn hcomma => ?_) hrest
        refine Bool.eq_false_iff.2 fun hbefore => ?_
        have hnot := hcommas (n + 1) (Nat.succ_lt_succ hn) hcomma
        rw [List.take_succ_cons, hstep _ hbefore] at hnot
        cases hnot
      rw [List.cons_append, piecesFrom, hquote c List.mem_cons_self]
      dsimp only
      rw [if_neg Bool.false_ne_true]
      cases hopen : closerOf? c with
      | some closer =>
          have hisOpen : isOpening c = true := isOpening_iff.2 (by rw [hopen]; rfl)
          rw [nestedFrom_opening hopen] at hnested
          have hpieces := hlater hnested fun u hu => (nestedFrom_opening hopen).trans hu
          rw [List.length_cons, Int.natCast_add, Int.natCast_one] at hpieces
          rw [if_pos hisOpen, hpieces]
          rfl
      | none =>
          have hisOpen : ¬isOpening c = true := by
            rw [isOpening_iff, hopen]
            exact Bool.false_ne_true
          rw [if_neg hisOpen]
          cases hclose : isClosing c with
          | true =>
              obtain ⟨outer, rfl, houter⟩ := (nestedFrom_closing hclose).1 hnested
              have hpieces := hlater houter fun u hu =>
                (nestedFrom_closing hclose).2 ⟨outer, rfl, hu⟩
              have hdepth : ((c :: outer).length : Int) - 1 = outer.length := by
                rw [List.length_cons]
                omega
              rw [if_pos rfl, hdepth, hpieces]
              rfl
          | false =>
              rw [nestedFrom_plain hopen hclose] at hnested
              have hpieces := hlater hnested fun u hu => (nestedFrom_plain hopen hclose).trans hu
              have hcut : ¬(decide (c = ',') && decide ((expected.length : Int) = 0)) = true := by
                rw [Bool.and_eq_true, decide_eq_true_eq, decide_eq_true_eq]
                rintro ⟨rfl, hdepth⟩
                have hnot := hcommas 0 (Nat.succ_pos _) rfl
                rw [List.take_zero, nestedFrom, List.isEmpty_eq_false_iff] at hnot
                exact hnot (List.eq_nil_of_length_eq_zero (by omega))
              rw [if_neg Bool.false_ne_true, if_neg hcut, hpieces]
              rfl

/-- An item of a list, which a comma after it ends. -/
structure ListItem (t : Text) : Prop extends Trimmed t where
  quote : ∀ c ∈ t, isQuote c = false
  nested : isNested t = true
  ne_nil : t ≠ []
  commas : CommasInside t

instance (t : Text) : Decidable (ListItem t) :=
  decidable_of_iff (Trimmed t ∧ (t.all fun c => !isQuote c) = true ∧ isNested t = true ∧ t ≠ [] ∧
      CommasInside t)
    ⟨fun h => ⟨h.1, by simpa using h.2.1, h.2.2.1, h.2.2.2.1, h.2.2.2.2⟩,
      fun h => ⟨h.toTrimmed, by simpa using h.quote, h.nested, h.ne_nil, h.commas⟩⟩

/-- An item of a list in a signature. -/
structure ListPart (t : Text) : Prop extends Fragment t, Trimmed t where
  ne_nil : t ≠ []
  commas : CommasInside t

instance (t : Text) : Decidable (ListPart t) :=
  decidable_of_iff (Fragment t ∧ Trimmed t ∧ t ≠ [] ∧ CommasInside t)
    ⟨fun h => ⟨h.1, h.2.1, h.2.2.1, h.2.2.2⟩,
      fun h => ⟨h.toFragment, h.toTrimmed, h.ne_nil, h.commas⟩⟩

theorem ListPart.item {t : Text} (h : ListPart t) : ListItem t :=
  ⟨h.toTrimmed, h.inline.quote, h.nested, h.ne_nil, h.commas⟩

/-- Joined items are cut where they were joined. -/
theorem piecesFrom_join {part : Text} {parts : List Text} (hparts : ∀ p ∈ part :: parts, ListItem p)
    (previous : Option Char) :
    piecesFrom ',' 0 none previous (join ", " (part :: parts)) = part :: parts.map (' ' :: ·) := by
  induction parts generalizing part previous with
  | nil =>
      have hpart := hparts part List.mem_cons_self
      have hend : piecesFrom ',' 0 none (part.getLast?.or previous) [] = [[]] := rfl
      simpa [join] using
        piecesFrom_nested previous hpart.quote hpart.nested hpart.commas hend
  | cons next parts ih =>
      have hpart := hparts part List.mem_cons_self
      have hlater := ih (fun p hp => hparts p (List.mem_cons_of_mem part hp)) (some ' ')
      have hspace := piecesFrom_nested (some ',') fragment_space.inline.quote
        (show nestedFrom [] [' '] = true from rfl) (by decide) hlater
      have hcomma : piecesFrom ',' 0 none (part.getLast?.or previous)
          (',' :: ' ' :: join ", " (next :: parts)) = [] :: (' ' :: next) :: parts.map (' ' :: ·) :=
        congrArg (List.cons []) hspace
      have hpieces := piecesFrom_nested previous hpart.quote hpart.nested hpart.commas hcomma
      have htext : join ", " (part :: next :: parts)
          = part ++ ',' :: ' ' :: join ", " (next :: parts) := by simp [join]
      rw [htext]
      simpa using hpieces

/-- Joined items are what a list is split into. -/
theorem splitTopLevel_join {parts : List Text} (hparts : ∀ p ∈ parts, ListItem p) :
    splitTopLevel ',' (join ", " parts) = parts := by
  have htrim : ∀ p ∈ parts, trim p = p ∧ trim (' ' :: p) = p := by
    intro p hp
    have hself := (hparts p hp).toTrimmed.trim_eq
    exact ⟨hself, (trim_cons_of_isBlank (by decide)).trans hself⟩
  have hkeep : ∀ p ∈ parts, (!p.isEmpty) = true := by
    intro p hp
    rw [Bool.not_eq_true', List.isEmpty_eq_false_iff]
    exact (hparts p hp).ne_nil
  unfold splitTopLevel
  cases parts with
  | nil => rfl
  | cons part parts =>
      have hothers : parts.map (trim ∘ (' ' :: ·)) = parts.map id :=
        List.map_congr_left fun p hp => (htrim p (List.mem_cons_of_mem part hp)).2
      rw [piecesFrom_join hparts, List.map_cons, List.map_map, (htrim part List.mem_cons_self).1,
        hothers, List.map_id]
      exact List.filter_eq_self.2 hkeep

-- ================================================== names and their types

/-- A parameter as it is printed. -/
def parameterText (p : Parameter) : Text := p.name ++ ' ' :: p.type

/-- The name of a parameter is a word that begins no type, and its type is an item of a list. -/
structure NamedItem (p : Parameter) : Prop where
  word : isWordText p.name = true
  keyword : p.name ∉ typeKeywords
  type : ListItem p.type

instance (p : Parameter) : Decidable (NamedItem p) :=
  decidable_of_iff (isWordText p.name = true ∧ p.name ∉ typeKeywords ∧ ListItem p.type)
    ⟨fun h => ⟨h.1, h.2.1, h.2.2⟩, fun h => ⟨h.word, h.keyword, h.type⟩⟩

/-- A parameter in a signature, as `NamedItem` has it. -/
structure WellNamed (p : Parameter) : Prop where
  word : isWordText p.name = true
  keyword : p.name ∉ typeKeywords
  type : ListPart p.type

instance (p : Parameter) : Decidable (WellNamed p) :=
  decidable_of_iff (isWordText p.name = true ∧ p.name ∉ typeKeywords ∧ ListPart p.type)
    ⟨fun h => ⟨h.1, h.2.1, h.2.2⟩, fun h => ⟨h.word, h.keyword, h.type⟩⟩

theorem WellNamed.item {p : Parameter} (h : WellNamed p) : NamedItem p :=
  ⟨h.word, h.keyword, h.type.item⟩

theorem isWordText_iff {t : Text} : isWordText t = true ↔ t ≠ [] ∧ ∀ c ∈ t, isWord c = true := by
  simp [isWordText]

theorem ofText_parameterText {p : Parameter} (hp : NamedItem p) :
    ParameterPart.ofText (parameterText p) = .named p.name p.type := by
  obtain ⟨hne, hword⟩ := isWordText_iff.1 hp.word
  have hnotBlank : ∀ c ∈ p.name, (!isBlank c) = true := by
    intro c hc
    rw [not_isBlank_of_isWord (hword c hc)]
    rfl
  obtain ⟨c, rest, hname⟩ := List.exists_cons_of_ne_nil hne
  have hstart : trimStart (parameterText p) = parameterText p := by
    refine trimStart_eq_self fun d hd => ?_
    unfold parameterText at hd
    rw [hname] at hd
    obtain rfl := Option.some.inj hd
    exact not_isBlank_of_isWord (hword c (hname ▸ List.mem_cons_self))
  have hhead : (parameterText p).takeWhile (!isBlank ·) = p.name := by
    unfold parameterText
    rw [List.takeWhile_append_of_pos hnotBlank, List.takeWhile_cons_of_neg (by decide),
      List.append_nil]
  have htail : trimStart ((parameterText p).dropWhile (!isBlank ·)) = p.type := by
    unfold parameterText
    rw [List.dropWhile_append_of_pos hnotBlank, List.dropWhile_cons_of_neg (by decide)]
    unfold trimStart
    rw [List.dropWhile_cons_of_pos (by decide)]
    exact trimStart_eq_self hp.type.first
  have hfirst : firstWord? (parameterText p) = some (p.name, some p.type) := by
    have hcons : parameterText p = c :: (rest ++ ' ' :: p.type) := by
      unfold parameterText
      rw [hname]
      rfl
    have hisEmpty : p.type.isEmpty = false := List.isEmpty_eq_false_iff.2 hp.type.ne_nil
    unfold firstWord?
    rw [hstart, hcons]
    dsimp only
    rw [← hcons, hhead, htail, hisEmpty]
    rfl
  have hkeyword : typeKeywords.contains p.name = false := by
    simpa using hp.keyword
  unfold ParameterPart.ofText
  rw [hfirst]
  dsimp only
  rw [hp.word, hkeyword, hp.type.toTrimmed.trim_eq]
  rfl

theorem assignTypes_named (ps : List Parameter) :
    assignTypes [] (ps.map fun p => .named p.name p.type) = ps := by
  induction ps with
  | nil => rfl
  | cons p ps ih => simp [assignTypes, ih]

/-- A printed parameter is an item as its type is one. -/
theorem parameterText_listItem {p : Parameter} (hp : NamedItem p) : ListItem (parameterText p) := by
  obtain ⟨hne, hword⟩ := isWordText_iff.1 hp.word
  have hnested : isNested p.name = true := (fragment_of_isWord hword).nested
  have hspace : ∀ u, isNested (' ' :: u) = isNested u := fun u => rfl
  unfold parameterText
  refine {
    first := fun c hc => ?_, last := fun c hc => ?_, quote := fun c hc => ?_
    nested := ?_, ne_nil := by simp, commas := fun n hn hcomma => ?_ }
  · rw [List.head?_append_of_ne_nil _ hne] at hc
    exact not_isBlank_of_isWord (hword c (List.mem_of_head? hc))
  · rw [List.getLast?_append_of_ne_nil _ (List.cons_ne_nil _ _), List.getLast?_cons] at hc
    cases hlast : p.type.getLast? with
    | none => exact absurd (List.getLast?_eq_none_iff.1 hlast) hp.type.ne_nil
    | some d =>
        rw [hlast] at hc
        obtain rfl := Option.some.inj hc
        exact hp.type.last d hlast
  · rcases List.mem_append.1 hc with hc | hc
    · exact isQuote_eq_false_of_isWord (hword c hc)
    · rcases List.mem_cons.1 hc with rfl | hc
      · decide
      · exact hp.type.quote c hc
  · rw [isNested_append hnested, hspace]
    exact hp.type.nested
  · -- A comma is neither in the name nor the space after it.
    rcases Nat.lt_or_ge n p.name.length with hlt | hge
    · rw [List.getElem?_append_left hlt] at hcomma
      exact absurd (hword _ (List.mem_of_getElem? hcomma)) (by decide)
    · rw [List.getElem?_append_right hge] at hcomma
      obtain ⟨m, hm⟩ := Nat.exists_eq_add_of_le hge
      rw [hm, Nat.add_sub_cancel_left] at hcomma
      cases m with
      | zero => cases hcomma
      | succ m =>
          rw [List.getElem?_cons_succ] at hcomma
          have hinside := hp.type.commas m (List.getElem?_eq_some_iff.1 hcomma).1 hcomma
          rw [hm, List.take_length_add_append, isNested_append hnested, List.take_succ_cons]
          exact hinside

theorem parameterText_listPart {p : Parameter} (hp : WellNamed p) : ListPart (parameterText p) := by
  obtain ⟨-, hword⟩ := isWordText_iff.1 hp.word
  have hitem := parameterText_listItem hp.item
  have htype : Fragment (' ' :: p.type) := by
    refine fragment_space.append (t := [' ']) hp.type.toFragment fun x hx y hy => ?_
    obtain rfl := Option.some.inj hx
    exact apart_space_left (hp.type.first y hy)
  have hfragment : Fragment (p.name ++ ' ' :: p.type) := by
    refine (fragment_of_isWord hword).append htype fun x hx y hy => ?_
    obtain rfl := Option.some.inj hy
    exact apart_space_right (not_isBlank_of_isWord (hword x (List.mem_of_getLast? hx)))
  exact { hfragment, hitem.toTrimmed with ne_nil := hitem.ne_nil, commas := hitem.commas }

/-- Printed parameters are read back. -/
theorem parseParameters_printed {ps : List Parameter} (hps : ∀ p ∈ ps, NamedItem p) :
    parseParameters (join ", " (ps.map parameterText)) = ps := by
  have hparts : ∀ t ∈ ps.map parameterText, ListItem t := by
    intro t ht
    obtain ⟨p, hp, rfl⟩ := List.mem_map.1 ht
    exact parameterText_listItem (hps p hp)
  have hread : ps.map (ParameterPart.ofText ∘ parameterText)
      = ps.map fun p => .named p.name p.type :=
    List.map_congr_left fun p hp => ofText_parameterText (hps p hp)
  unfold parseParameters
  rw [splitTopLevel_join hparts, List.map_map, hread, assignTypes_named]

/-- Joined parts are code as the parts are. -/
theorem fragment_join {parts : List Text} (hparts : ∀ t ∈ parts, ListPart t) :
    Fragment (join ", " parts) := by
  induction parts with
  | nil => exact fragment_of_isWord fun c hc => absurd hc List.not_mem_nil
  | cons part parts ih =>
      have hpart := hparts part List.mem_cons_self
      have hrest := ih fun t ht => hparts t (List.mem_cons_of_mem part ht)
      cases parts with
      | nil => exact hpart.toFragment
      | cons next parts =>
          have hnext := hparts next (by simp)
          have hcomma : Fragment ", " := by decide
          have hhead : (join ", " (next :: parts)).head? = next.head? := by
            cases parts with
            | nil => rfl
            | cons t ts =>
                show (next ++ ", " ++ join ", " (t :: ts)).head? = next.head?
                rw [List.append_assoc, List.head?_append_of_ne_nil _ hnext.ne_nil]
          refine (hpart.toFragment.append hcomma fun x _ y hy => ?_).append hrest
            fun x hx y hy => ?_
          · obtain rfl : ',' = y := Option.some.inj hy
            exact apart_mark_right (by decide) x
          · have hlast : (part ++ [',', ' ']).getLast? = some ' ' := by simp
            obtain rfl : ' ' = x := Option.some.inj (hlast.symm.trans hx)
            rw [hhead] at hy
            exact apart_space_left (hnext.first y hy)

end Declaration
end GoSurvey
