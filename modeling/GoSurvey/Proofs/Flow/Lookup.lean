/-
Where a function is looked up by its name. The two patterns of the lookup
read an opening of that name, one without a receiver and one with
(`opening_of_lookup`). A text begins with one opening at most, so at the
line of a function its signature is cut out behind the opening that other
readers find there (`findFunction?_opening`).
-/
import GoSurvey.Flow.Lookup
import GoSurvey.Proofs.CallGraph.Opening
import GoSurvey.Proofs.Source.Squeeze

namespace GoSurvey.Flow

open Text Source Pattern CallGraph

variable {name : Text}

-- ======================================================== the patterns

theorem readings_functionNamed (name : Text) (s : State) :
    readings (functionNamed name) s
      = readings (lineStart ++ (front isBlank (run1 isBlank) (lit name) ++ "(")) s := by
  unfold functionNamed front parameterListStart
  simp only [readings_append, List.flatMap_assoc]
  rfl

/-- A receiver in parentheses and a name, of which nothing is remembered. -/
def methodName (name : Text) : Pattern :=
  "(" ++ run (except ')') ++ ")" ++ blanks ++ lit name

theorem readings_methodNamed (name : Text) (s : State) :
    readings (methodNamed name) s
      = readings (lineStart ++ (front isBlank (run isBlank) (methodName name) ++ "(")) s := by
  unfold methodNamed front methodName parameterListStart
  simp only [readings_append, List.flatMap_assoc]
  rfl

/-- The lookup finds nothing but at the start of a line. -/
theorem lineStart_of_lookup {p : Pattern} (hp : p ∈ [functionNamed name, methodNamed name])
    {cur : Cursor} {m : Match} (h : p.matchAt cur = some m) : cur.atLineStart = true := by
  obtain ⟨s, hs, -⟩ := exists_reading_of_matchAt h
  have hline : ∀ {q : Pattern}, s ∈ readings (lineStart ++ q) ⟨cur, []⟩ →
      cur.atLineStart = true := by
    intro q hs
    obtain ⟨s₀, hs₀, -⟩ := mem_readings_seq.1 hs
    exact (mem_readings_place.1 hs₀).1
  rcases List.mem_cons.1 hp with rfl | hp
  · rw [readings_functionNamed] at hs
    exact hline hs
  · obtain rfl := List.mem_singleton.1 hp
    rw [readings_methodNamed] at hs
    exact hline hs

/-- What is read of an opening, part by part. -/
theorem takes_front {start middle : Pattern} {s s' : State}
    (h : s' ∈ readings (lineStart ++ (front isBlank start middle ++ "(")) s) :
    ∃ s₁ s₂ s₃ g types g', Takes s s₁ funcKeyword ∧ s₂ ∈ readings start s₁ ∧
      s₃ ∈ readings middle s₂ ∧ (∀ d ∈ g, isBlank d = true) ∧ TypePart types ∧
      (∀ d ∈ g', isBlank d = true) ∧ Takes s₃ s' (g ++ (types ++ (g' ++ ['(']))) := by
  obtain ⟨s₀, hs₀, hread⟩ := mem_readings_seq.1 h
  obtain ⟨-, rfl⟩ := mem_readings_place.1 hs₀
  obtain ⟨s₄, hfront, hopen⟩ := mem_readings_seq.1 hread
  obtain ⟨s₁, hs₁, hfront⟩ := mem_readings_seq.1 hfront
  obtain ⟨s₂, hs₂, hfront⟩ := mem_readings_seq.1 hfront
  obtain ⟨s₃, hs₃, htail⟩ := mem_readings_seq.1 hfront
  obtain ⟨g, types, g', hg, htypes, hg', htaken⟩ := takes_typePart htail
  have hall := htaken.append (takes_lit hopen).1
  simp only [List.append_assoc] at hall
  exact ⟨s₁, s₂, s₃, g, types, g', (takes_lit hs₁).1, hs₂, hs₃, hg, htypes, hg', hall⟩

/-- A match of the lookup is an opening of the name. That there is space after the keyword is part
of one of the two patterns only. -/
theorem opening_of_lookup {p : Pattern} (hp : p ∈ [functionNamed name, methodNamed name])
    (hname : name ≠ []) (hword : ∀ d ∈ name, isWord d = true) {cur : Cursor} {m : Match}
    (h : p.matchAt cur = some m)
    (hspace : ∃ c u, cur.rest = funcKeyword ++ c :: u ∧ isBlank c = true) :
    m.text <+: cur.rest ∧ ∃ r, Opening isBlank r name m.text := by
  obtain ⟨s, hs, rfl⟩ := exists_reading_of_matchAt h
  have hresult : ∀ {r : Option Text} {o : Text}, Takes ⟨cur, []⟩ s o → Opening isBlank r name o →
      (Match.ofState cur s).text <+: cur.rest ∧
        ∃ r, Opening isBlank r name (Match.ofState cur s).text := by
    intro r o htaken ho
    rw [text_ofState htaken]
    exact ⟨htaken.ahead, r, ho⟩
  rcases List.mem_cons.1 hp with rfl | hp
  · rw [readings_functionNamed] at hs
    obtain ⟨s₁, s₂, s₃, g, types, g', hfunc, hs₂, hs₃, hg, htypes, hg', htail⟩ := takes_front hs
    obtain ⟨b, hne, hb, hblank, rfl⟩ := mem_readings_run1.1 hs₂
    have hspace : Takes s₁ (s₁.advance b) b := ⟨hb, rfl⟩
    have hall := hfunc.append (hspace.append ((takes_lit hs₃).1.append htail))
    have hnone : ReceiverPart isBlank none [] := .none
    exact hresult hall (.mk hne hblank hnone hname hword hg htypes hg')
  · obtain rfl := List.mem_singleton.1 hp
    rw [readings_methodNamed] at hs
    obtain ⟨s₁, s₂, s₃, g, types, g', hfunc, hs₂, hs₃, hg, htypes, hg', htail⟩ := takes_front hs
    obtain ⟨b, hblank, hspaceTaken, -⟩ := takes_run hs₂
    unfold methodName at hs₃
    obtain ⟨a₁, ha₁, hlit⟩ := mem_readings_seq.1 hs₃
    obtain ⟨a₂, ha₂, hgap⟩ := mem_readings_seq.1 ha₁
    obtain ⟨a₃, ha₃, hclose⟩ := mem_readings_seq.1 ha₂
    obtain ⟨a₄, hopen, hinside⟩ := mem_readings_seq.1 ha₃
    obtain ⟨r, hr, hrTaken, -⟩ := takes_run hinside
    obtain ⟨b', hb', hbTaken, -⟩ := takes_run hgap
    have hpart := (((takes_lit hopen).1.append hrTaken).append (takes_lit hclose).1).append hbTaken
    have hall := hfunc.append (hspaceTaken.append ((hpart.append (takes_lit hlit).1).append htail))
    have hne : b ≠ [] := by
      rintro rfl
      obtain ⟨c, u, hrest, hc⟩ := hspace
      obtain ⟨more, hmore⟩ := hall.ahead
      have hmore : funcKeyword ++ _ = cur.rest := hmore
      rw [hrest] at hmore
      have hfirst := (List.cons.inj (List.append_cancel_left hmore)).1
      rw [← hfirst] at hc
      exact absurd hc (by decide)
    have hreceiver : ReceiverPart isBlank (some r) ("(".toList ++ r ++ ")".toList ++ b') := by
      have hsome : ReceiverPart isBlank (some r) ('(' :: (r ++ ')' :: b')) := .some hr hb'
      have htext : "(".toList ++ r ++ ")".toList ++ b' = '(' :: (r ++ ')' :: b') := by simp
      rw [htext]
      exact hsome
    exact hresult hall (.mk hne hblank hreceiver hname hword hg htypes hg')

-- ========================================================== the lookup

/-- What the lookup finds in a line starts where the line starts. -/
theorem exists_match_of_line {content w : Text} {m : Match}
    (hm : [functionNamed name, methodNamed name].findSome? (·.search content) = some m)
    (hw : w <+: content) (hstart : w = [] ∨ w.getLast? = some newline)
    (hline : lineAt content m.start = w.count newline + 1) :
    m.start = w.length ∧ ∃ p ∈ [functionNamed name, methodNamed name],
      p.matchAt ((Cursor.start content).advance w) = some m := by
  obtain ⟨p, hp, hsearch⟩ := List.exists_of_findSome?_eq_some hm
  obtain ⟨w', hw', hmatch, hmstart⟩ := matchAt_of_search hsearch
  have hplace := atLineStart_advance.1 (lineStart_of_lookup hp hmatch)
  rw [hmstart, lineAt_length hw'] at hline
  obtain rfl := eq_of_count_newline hw' hw hplace hstart (Nat.succ.inj hline)
  exact ⟨hmstart, p, hp, hmatch⟩

/-- What the lookup finds at the line of an opening is that opening, of the name looked up. -/
theorem match_of_opening {content w o rest name' : Text} {receiver : Option Text} {m : Match}
    (hname : name ≠ []) (hword : ∀ d ∈ name, isWord d = true)
    (hm : [functionNamed name, methodNamed name].findSome? (·.search content) = some m)
    (hcontent : content = w ++ (o ++ rest)) (hstart : w = [] ∨ w.getLast? = some newline)
    (hline : lineAt content m.start = w.count newline + 1)
    (ho : Opening isBlank receiver name' o) : m.start = w.length ∧ m.text = o ∧ name = name' := by
  have hrest : ((Cursor.start content).advance w).rest = o ++ rest := by
    rw [hcontent]
    exact List.drop_left
  obtain ⟨hmstart, p, hp, hmatch⟩ :=
    exists_match_of_line hm (hcontent ▸ List.prefix_append w _) hstart hline
  have hspace : ∃ c u, ((Cursor.start content).advance w).rest = funcKeyword ++ c :: u ∧
      isBlank c = true := by
    obtain @⟨g, part, g', types, g'', hne, hg, -, -, -, -, -, -⟩ := ho
    obtain ⟨c, g, rfl⟩ := List.exists_cons_of_ne_nil hne
    exact ⟨c, _, hrest.trans (List.append_assoc _ _ _), hg c List.mem_cons_self⟩
  obtain ⟨htext, r, hopening⟩ := opening_of_lookup hp hname hword hmatch hspace
  obtain ⟨hsame, heq⟩ := hopening.unique ho htext (hrest ▸ List.prefix_append o rest)
  exact ⟨hmstart, heq, hsame⟩

/-- At the line of a function, what is looked up by its name is cut out behind its opening. -/
theorem findFunction?_opening {content file w o rest name' : Text} {receiver : Option Text}
    {s : FunctionSource} (hname : name ≠ []) (hword : ∀ d ∈ name, isWord d = true)
    (hs : findFunction? content name file = some s)
    (hcontent : content = w ++ (o ++ rest)) (hstart : w = [] ∨ w.getLast? = some newline)
    (hline : s.line = w.count newline + 1) (ho : Opening isBlank receiver name' o) :
    name = name' ∧ (s.signature = o ∨ ∃ params after, rest = params ++ ')' :: after ∧
      findMatching? parentheses ((w ++ o.dropLast) ++ '(' :: (params ++ ')' :: after))
          (w ++ o.dropLast).length
        = some ((w ++ o.dropLast).length, (w ++ o.dropLast).length + 1 + params.length) ∧
      s.signature = o ++ (params ++ [')']) ∧ s.params = params ∧ s.returns = resultOf after) := by
  obtain ⟨m, hm, rfl⟩ := Option.map_eq_some_iff.1 hs
  have hplace : lineAt content m.start = w.count newline + 1 := by
    rw [← hline]
    split <;> rfl
  obtain ⟨hmstart, htext, hsame⟩ :=
    match_of_opening hname hword hm hcontent hstart hplace ho
  refine ⟨hsame, ?_⟩
  have hstop : m.stop - 1 = (w ++ o.dropLast).length := by
    have hlength := congrArg List.length ho.eq_dropLast
    rw [List.length_append, List.length_singleton] at hlength
    unfold Match.stop
    rw [hmstart, htext, List.length_append]
    omega
  have hopened : content = (w ++ o.dropLast) ++ '(' :: rest := by
    rw [hcontent]
    conv => lhs; rw [ho.eq_dropLast]
    simp only [List.append_assoc, List.cons_append, List.nil_append]
  dsimp only
  rw [hstop]
  cases hfound : findMatching? parentheses content (w ++ o.dropLast).length with
  | none => exact .inl htext
  | some span =>
      obtain ⟨p, q⟩ := span
      rw [hopened] at hfound
      obtain ⟨params, after, rfl, rfl, rfl⟩ :=
        exists_group_of_findMatching? (d := parentheses) (by decide) (by decide) hfound
      have hstart' : (w ++ o.dropLast).length + 1 = (w ++ o).length := by
        have hlength := congrArg List.length ho.eq_dropLast
        rw [List.length_append, List.length_singleton] at hlength
        simp only [List.length_append]
        omega
      have hend : (w ++ o.dropLast).length + 1 + params.length + 1
          = w.length + (o ++ (params ++ [')'])).length := by
        rw [hstart']
        simp only [List.length_append, List.length_singleton]
        omega
      have hsplit : content = w ++ ((o ++ (params ++ [')'])) ++ after) := by
        rw [hcontent]
        simp [parentheses]
      have hsignature : slice content m.start ((w ++ o.dropLast).length + 1 + params.length + 1)
          = o ++ (params ++ [')']) := by
        rw [hsplit, hend, hmstart]
        exact slice_append w (o ++ (params ++ [')'])) after
      have hparams : slice content ((w ++ o.dropLast).length + 1)
          ((w ++ o.dropLast).length + 1 + params.length) = params := by
        rw [hcontent, hstart', ← List.append_assoc]
        exact slice_append (w ++ o) params (')' :: after)
      have hafter : content.drop ((w ++ o.dropLast).length + 1 + params.length + 1) = after := by
        rw [hsplit, hend, List.drop_length_add_append, List.drop_left]
      exact .inr ⟨params, after, rfl, hfound, hsignature, hparams, congrArg resultOf hafter⟩

end GoSurvey.Flow
