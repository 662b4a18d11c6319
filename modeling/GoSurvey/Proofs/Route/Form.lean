/-
What the forms of registrations read. Every form begins with a call, that
is with a receiver, a dot, the name of a method and an opening
parenthesis (`BeginsCall`), and ends with a closing one (`EndsCall`).

The forms with a router read the receiver as a word, and what they read
from one place of a word they read from an earlier place of it
(`exists_reading_before`). So a search, which goes from left to right and
does not stop inside a word, finds them at the start of the word only
(`not_isWord_before`). The two forms of net/http know their receiver by
name and look at nothing before it.
-/
import Mathlib.Tactic.ByContra
import GoSurvey.Proofs.Pattern.Step
import GoSurvey.Proofs.Text.Pieces
import GoSurvey.Route.Registration

namespace GoSurvey.Route

open Text Pattern

variable {names : List Text} {p q : Pattern} {s m s' : State} {content : Text}

-- ================================================================ calls

/-- A text of word characters, at least one. -/
structure IsName (t : Text) : Prop where
  ne_nil : t ≠ []
  word : ∀ c ∈ t, isWord c = true

theorem isName_iff {t : Text} : t ≠ [] ∧ t.all isWord = true ↔ IsName t :=
  ⟨fun h => ⟨h.1, List.all_eq_true.1 h.2⟩, fun h => ⟨h.ne_nil, List.all_eq_true.2 h.word⟩⟩

instance (t : Text) : Decidable (IsName t) := decidable_of_iff _ isName_iff

/-- A call up to its opening parenthesis. -/
def callText (receiver name : Text) : Text := receiver ++ '.' :: (name ++ ['('])

/-- A pattern reads a call of one of several methods first, and then more. -/
def BeginsCall (names : List Text) (p : Pattern) : Prop :=
  ∀ s s', s' ∈ readings p s → ∃ receiver name more, IsName receiver ∧ name ∈ names ∧
    Takes s s' (callText receiver name ++ more)

/-- A pattern reads a closing parenthesis last. -/
def EndsCall (p : Pattern) : Prop :=
  ∀ s s', s' ∈ readings p s → ∃ w, Takes s s' (w ++ [')'])

/-- A pattern reads a router first, which can be any word. -/
def HasRouter (p : Pattern) : Prop :=
  ∃ tail, ∀ s, readings p s = readings (group 1 word ++ tail) s

/-- How a form begins does not depend on what follows. -/
theorem BeginsCall.append (h : BeginsCall names p) (q : Pattern) : BeginsCall names (p ++ q) := by
  intro s s' hs'
  obtain ⟨m, hm, hs'⟩ := mem_readings_seq.1 hs'
  obtain ⟨receiver, name, more, hreceiver, hname, htakes⟩ := h s m hm
  obtain ⟨w, hw⟩ := exists_takes hs'
  refine ⟨receiver, name, more ++ w, hreceiver, hname, ?_⟩
  rw [← List.append_assoc]
  exact htakes.append hw

theorem EndsCall.append (h : EndsCall q) (p : Pattern) : EndsCall (p ++ q) := by
  intro s s' hs'
  obtain ⟨m, hm, hs'⟩ := mem_readings_seq.1 hs'
  obtain ⟨v, hv⟩ := exists_takes hm
  obtain ⟨w, hw⟩ := h m s' hs'
  refine ⟨v ++ w, ?_⟩
  rw [List.append_assoc]
  exact hv.append hw

theorem EndsCall.append_optional (hp : EndsCall p) (hq : EndsCall q) :
    EndsCall (p ++ optional q) := by
  intro s s' hs'
  obtain ⟨m, hm, hs'⟩ := mem_readings_seq.1 hs'
  rcases mem_readings_optional.1 hs' with hs' | rfl
  · exact hq.append p s s' (mem_readings_seq.2 ⟨m, hm, hs'⟩)
  · exact hp s s' hm

theorem endsCall_lit (t : Text) : EndsCall (lit (t ++ [')'])) :=
  fun _ _ hs' => ⟨t, (takes_lit hs').1⟩

theorem hasRouter_router : HasRouter router := ⟨".", fun _ => rfl⟩

theorem HasRouter.append (h : HasRouter p) (q : Pattern) : HasRouter (p ++ q) := by
  obtain ⟨tail, htail⟩ := h
  refine ⟨tail ++ q, fun s => ?_⟩
  rw [← readings_assoc]
  show (readings p s).flatMap (readings q) = (readings (group 1 word ++ tail) s).flatMap _
  rw [htail s]

/-- A router is a name with a dot behind it, and the name is remembered. -/
theorem takes_router (h : s' ∈ readings router s) :
    ∃ receiver, IsName receiver ∧ Takes s s' (receiver ++ ['.']) ∧
      s'.texts = (1, receiver) :: s.texts := by
  obtain ⟨m, hm, hs'⟩ := mem_readings_seq.1 h
  obtain ⟨receiver, hne, hword, htakes, htexts⟩ := takes_group hm
  obtain ⟨hdot, htexts'⟩ := takes_lit hs'
  exact ⟨receiver, ⟨hne, hword⟩, htakes.append hdot, htexts'.trans htexts⟩

theorem takes_named {name more : Text} (h : s' ∈ readings (router ++ lit (name ++ '(' :: more)) s) :
    ∃ receiver, IsName receiver ∧ Takes s s' (callText receiver name ++ more) ∧
      s'.texts = (1, receiver) :: s.texts := by
  obtain ⟨m, hm, hs'⟩ := mem_readings_seq.1 h
  obtain ⟨receiver, hreceiver, htakes, htexts⟩ := takes_router hm
  obtain ⟨hname, htexts'⟩ := takes_lit hs'
  refine ⟨receiver, hreceiver, ?_, htexts'.trans htexts⟩
  have htext : callText receiver name ++ more = receiver ++ ['.'] ++ (name ++ '(' :: more) := by
    simp [callText]
  rw [htext]
  exact htakes.append hname

/-- A router and the name of a method are a call. -/
theorem beginsCall_named (name more : Text) :
    BeginsCall [name] (router ++ lit (name ++ '(' :: more)) := by
  intro s s' hs'
  obtain ⟨receiver, hreceiver, htakes, -⟩ := takes_named hs'
  exact ⟨receiver, name, more, hreceiver, List.mem_singleton_self name, htakes⟩

/-- A router and one of several names of methods are a call. -/
theorem beginsCall_oneOf (names : List Text) :
    BeginsCall names (router ++ group 2 (oneOf names) ++ lit ['(']) := by
  intro s s' hs'
  rw [readings_assoc] at hs'
  obtain ⟨m, hm, hs'⟩ := mem_readings_seq.1 hs'
  obtain ⟨m', hm', hs'⟩ := mem_readings_seq.1 hs'
  obtain ⟨receiver, hreceiver, htakes, -⟩ := takes_router hm
  obtain ⟨r, hr, rfl⟩ := mem_readings_group.1 hm'
  obtain ⟨name, hname, hr, -⟩ := takes_oneOf hr
  have hgroup : Takes m (r.remember 2 m) name := ⟨hr.ahead, hr.cursor⟩
  have hopen := (takes_lit hs').1
  refine ⟨receiver, name, [], hreceiver, hname, ?_⟩
  have htext : callText receiver name ++ [] = receiver ++ ['.'] ++ name ++ ['('] := by
    simp [callText]
  rw [htext]
  exact (htakes.append hgroup).append hopen

/-- A receiver that is known by name and a method are a call. -/
theorem beginsCall_lit {receiver : Text} (hreceiver : IsName receiver) (name : Text) :
    BeginsCall [name] (lit (callText receiver name)) := by
  intro s s' hs'
  refine ⟨receiver, name, [], hreceiver, List.mem_singleton_self name, ?_⟩
  rw [List.append_nil]
  exact (takes_lit hs').1

/-- What a form with a router reads from a place it reads from the place before as well, where a
word character stands there. -/
theorem exists_reading_before (hp : HasRouter p) {cur : Cursor} {c : Char} (hc : isWord c = true)
    (hcur : [c] <+: cur.rest) (hs' : s' ∈ readings p ⟨cur.advance [c], []⟩) :
    ∃ t, t ∈ readings p ⟨cur, []⟩ := by
  obtain ⟨tail, htail⟩ := hp
  rw [htail] at hs'
  obtain ⟨m, hm, hs'⟩ := mem_readings_seq.1 hs'
  obtain ⟨r, hr, rfl⟩ := mem_readings_group.1 hm
  obtain ⟨w, -, hw, hword, rfl⟩ := mem_readings_run1.1 hr
  let start : State := ⟨cur, []⟩
  let after : State := (start.advance (c :: w)).remember 1 start
  have hlonger : after ∈ readings (group 1 word) start := by
    refine mem_readings_group.2 ⟨_, mem_readings_run1.2 ⟨c :: w, List.cons_ne_nil c w, ?_, ?_, rfl⟩,
      rfl⟩
    · exact prefix_append_of_advance hcur hw
    · intro d hd
      rcases List.mem_cons.1 hd with rfl | hd
      · exact hc
      · exact hword d hd
  have hplace : after.cursor = (cur.advance [c]).advance w :=
    (Cursor.advance_append cur [c] w).symm
  obtain ⟨t, ht, -⟩ := exists_reading_of_cursor hs' hplace
  rw [htail]
  exact ⟨t, mem_readings_seq.2 ⟨after, hlonger, ht⟩⟩

-- ================================================== calls in a content

/-- The offset of the dot of the call that a match begins with. -/
def callAt (m : Match) : Nat := m.start + (m.text.takeWhile isWord).length

/-- A match begins with the call of a method. -/
structure IsCall (content : Text) (m : Match) (receiver name : Text) : Prop where
  isName : IsName receiver
  ahead : callText receiver name <+: content.drop m.start
  callAt_eq : callAt m = m.start + receiver.length
  lt_stop : callAt m < m.stop

/-- A match whose reading begins with a call does so. -/
theorem isCall_ofState {w receiver name more : Text}
    (h : Takes ⟨(Cursor.start content).advance w, []⟩ s (callText receiver name ++ more))
    (hreceiver : IsName receiver) :
    IsCall content (Match.ofState ((Cursor.start content).advance w) s) receiver name := by
  have htext := text_ofState h
  have hstart : (Match.ofState ((Cursor.start content).advance w) s).start = w.length :=
    Nat.zero_add w.length
  have hrun : (callText receiver name ++ more).takeWhile isWord = receiver := by
    have hdot : isWord '.' = false := by decide
    simp [callText, List.takeWhile_append_of_pos hreceiver.word, hdot]
  have hcall : callAt (Match.ofState ((Cursor.start content).advance w) s)
      = (Match.ofState ((Cursor.start content).advance w) s).start + receiver.length := by
    unfold callAt
    rw [htext, hrun]
  refine ⟨hreceiver, ?_, hcall, ?_⟩
  · rw [hstart]
    exact (List.prefix_append _ more).trans h.ahead
  · rw [hcall]
    unfold Match.stop
    rw [htext]
    simp only [callText, List.length_append, List.length_cons]
    omega

/-- Where a form is found stands a call of one of its names. -/
theorem exists_call {form : Pattern} (hform : BeginsCall names form) {m : Match}
    (hm : m ∈ form.findAll content) :
    ∃ receiver name, name ∈ names ∧ IsCall content m receiver name := by
  obtain ⟨w, s, -, -, hs, rfl⟩ := exists_reading_of_mem_findAll hm
  obtain ⟨receiver, name, more, hreceiver, hname, htakes⟩ := hform _ s hs
  exact ⟨receiver, name, hname, isCall_ofState htakes hreceiver⟩

/-- Where a match ends a parenthesis is closed. -/
theorem exists_closing_of_match {form : Pattern} (hform : EndsCall form) {m : Match}
    (hm : m ∈ form.findAll content) : ∃ u, u ++ [')'] <+: content ∧ m.stop = u.length + 1 := by
  obtain ⟨w, s, hw, hstart, hs, rfl⟩ := exists_reading_of_mem_findAll hm
  obtain ⟨v, hv⟩ := hform _ s hs
  refine ⟨w ++ v, ?_, ?_⟩
  · have hw : w <+: (Cursor.start content).rest := hw
    rw [List.append_assoc]
    exact prefix_append_of_advance hw hv.ahead
  · unfold Match.stop
    rw [hstart, text_ofState hv, List.length_append, List.length_append, List.length_singleton,
      Nat.add_assoc]

/-- Matches that start at one place begin with the same receiver. -/
theorem IsCall.receiver_unique {m m' : Match} {receiver receiver' name name' : Text}
    (h : IsCall content m receiver name) (h' : IsCall content m' receiver' name')
    (hstart : m.start = m'.start) : receiver = receiver' := by
  obtain ⟨rest, hrest⟩ := h.ahead
  obtain ⟨rest', hrest'⟩ := h'.ahead
  rw [hstart, ← hrest', callText, callText, List.append_assoc, List.append_assoc] at hrest
  have hdot : isWord '.' = false := by decide
  exact (run_unique hdot hdot h.isName.word h'.isName.word hrest).1

/-- The place of a call is given by where its name begins. -/
theorem IsCall.callAt_unique {m m' : Match} {receiver receiver' name name' : Text}
    (h : IsCall content m receiver name) (h' : IsCall content m' receiver' name')
    (hstart : m.start = m'.start) : callAt m = callAt m' := by
  rw [h.callAt_eq, h'.callAt_eq, hstart, h.receiver_unique h' hstart]

/-- What stands before the dot of a call ends with the receiver. -/
theorem IsCall.take_callAt {m : Match} {receiver name : Text}
    (h : IsCall content m receiver name) :
    content.take (callAt m) = content.take m.start ++ receiver := by
  obtain ⟨rest, hrest⟩ := h.ahead
  rw [h.callAt_eq, List.take_add, ← hrest, callText, List.append_assoc, List.take_left]

/-- Calls at one place are calls of one method. -/
theorem IsCall.name_unique {m m' : Match} {receiver receiver' name name' : Text}
    (h : IsCall content m receiver name) (h' : IsCall content m' receiver' name')
    (hplace : callAt m = callAt m') (hname : IsName name) (hname' : IsName name') :
    name = name' := by
  have hdrop : ∀ {m : Match} {receiver name : Text}, IsCall content m receiver name →
      ∃ rest, content.drop (callAt m) = '.' :: (name ++ '(' :: rest) := by
    intro m receiver name h
    obtain ⟨rest, hrest⟩ := h.ahead
    refine ⟨rest, ?_⟩
    rw [h.callAt_eq, ← List.drop_drop, ← hrest]
    simp [callText]
  obtain ⟨rest, hrest⟩ := hdrop h
  obtain ⟨rest', hrest'⟩ := hdrop h'
  rw [hplace, hrest'] at hrest
  injection hrest with _ hrest
  have hopen : isWord '(' = false := by decide
  exact (run_unique hopen hopen hname'.word hname.word hrest).1.symm

-- ================================================ forms with a router

/-- A pattern begins with a call whose receiver can be any router. -/
structure BeginsRouted (names : List Text) (p : Pattern) : Prop where
  begins : BeginsCall names p
  anyRouter : HasRouter p

theorem BeginsRouted.append (h : BeginsRouted names p) (q : Pattern) :
    BeginsRouted names (p ++ q) :=
  ⟨h.begins.append q, h.anyRouter.append q⟩

theorem beginsRouted_named (name more : Text) :
    BeginsRouted [name] (router ++ lit (name ++ '(' :: more)) :=
  ⟨beginsCall_named name more, hasRouter_router.append _⟩

theorem beginsRouted_oneOf (names : List Text) :
    BeginsRouted names (router ++ group 2 (oneOf names) ++ lit ['(']) :=
  ⟨beginsCall_oneOf names, (hasRouter_router.append _).append _⟩

/-- A form that begins with a call of a router and ends where a parenthesis is closed. -/
structure RouterForm (names : List Text) (form : Pattern) : Prop
    extends BeginsRouted names form where
  ends : EndsCall form

/-- A form with a router is found at the start of a word only. -/
theorem RouterForm.not_isWord_before {form : Pattern} (hform : RouterForm names form) {m : Match}
    (hm : m ∈ form.findAll content) {v : Text} {c : Char} (hv : v ++ [c] <+: content)
    (hstart : m.start = v.length + 1) : isWord c = false := by
  by_contra hword
  rw [Bool.not_eq_false] at hword
  have hbefore : v <+: content := (List.prefix_append v [c]).trans hv
  have hc : [c] <+: ((Cursor.start content).advance v).rest := by
    have hv : v ++ [c] <+: (Cursor.start content).rest := hv
    exact (prefix_of_prefix_append hv).2
  -- There is a match from the character before, too.
  obtain ⟨w, s, hw, hlength, hs, -⟩ := exists_reading_of_mem_findAll hm
  obtain rfl : v ++ [c] = w := by
    refine List.prefix_of_prefix_length_le hv hw ?_ |>.eq_of_length ?_ <;>
      simp only [List.length_append, List.length_singleton] <;> omega
  rw [← Cursor.advance_append] at hs
  obtain ⟨t, ht⟩ := exists_reading_before hform.anyRouter hword hc hs
  obtain ⟨m', hm'⟩ := Option.isSome_iff_exists.1 (isSome_matchAt ht)
  have hstart' : m'.start = v.length := by
    rw [start_of_matchAt hm']
    exact Nat.zero_add v.length
  -- No match reaches over that character, since none ends with a word character.
  have hfree : ∀ m₀ ∈ form.findAll content, ¬(m₀.start < v.length ∧ v.length < m₀.stop) := by
    rintro m₀ hm₀ ⟨hlt, hover⟩
    rcases eq_or_precedes hm₀ hm with rfl | ⟨-, hstop⟩ | ⟨hlater, -⟩
    · omega
    · obtain ⟨u, hu, hend⟩ := exists_closing_of_match hform.ends hm₀
      have hsame : u ++ [')'] = v ++ [c] := by
        refine List.prefix_of_prefix_length_le hu hv ?_ |>.eq_of_length ?_ <;>
          simp only [List.length_append, List.length_singleton] <;> omega
      obtain ⟨-, hc⟩ := List.append_inj' hsame rfl
      injection hc with hc
      rw [← hc] at hword
      exact absurd hword (by decide)
    · omega
  have hfound := mem_findAll_of_matchAt hbefore hm' hfree
  obtain ⟨receiver, name, -, hcall⟩ := exists_call hform.begins hfound
  have hpos := List.length_pos_iff.2 hcall.isName.ne_nil
  have hplace := hcall.callAt_eq
  have hlt := hcall.lt_stop
  rcases eq_or_precedes hfound hm with rfl | ⟨-, hstop⟩ | ⟨hlater, -⟩ <;> omega

/-- A match of a form with a router begins no later than any other match that begins with the same
call. -/
theorem RouterForm.start_le {names' : List Text} {form form' : Pattern}
    (hform : RouterForm names form) (hform' : BeginsCall names' form') {m m' : Match}
    (hm : m ∈ form.findAll content) (hm' : m' ∈ form'.findAll content)
    (hplace : callAt m = callAt m') : m.start ≤ m'.start := by
  by_contra hlt
  obtain ⟨receiver, name, -, hcall⟩ := exists_call hform.begins hm
  obtain ⟨receiver', name', -, hcall'⟩ := exists_call hform' hm'
  have hat := hcall.callAt_eq
  have hat' := hcall'.callAt_eq
  -- The character before the later one belongs to the receiver of the earlier one.
  obtain ⟨rest, hrest⟩ := hcall'.ahead
  have hindex : m.start - m'.start - 1 < receiver'.length := by omega
  have hchar : content[m.start - 1]? = some (receiver'[m.start - m'.start - 1]) := by
    have hplace : m.start - 1 = m'.start + (m.start - m'.start - 1) := by omega
    rw [hplace, ← List.getElem?_drop, ← hrest, callText, List.append_assoc,
      List.getElem?_append_left hindex, List.getElem?_eq_getElem hindex]
  obtain ⟨hbound, hget⟩ := List.getElem?_eq_some_iff.1 hchar
  have hbefore : content.take (m.start - 1) ++ [content[m.start - 1]] <+: content := by
    rw [List.take_append_getElem]
    exact List.take_prefix _ _
  have hstart : m.start = (content.take (m.start - 1)).length + 1 := by
    rw [List.length_take]
    omega
  have hword := hform.not_isWord_before hm hbefore hstart
  rw [hget, hcall'.isName.word _ (List.getElem_mem hindex)] at hword
  cases hword

-- ====================================================== the nine forms

/-- The method that the routers and net/http have in common. -/
def handleFunc : Text := "HandleFunc"

/-- The form of a handler with a router. -/
def handleForm : Pattern :=
  router ++ "Handle(" ++ notAhead ("\"" ++ oneOf verbs ++ "\"") ++ pathAndHandler ++ methodsSuffix

/-- The call of a handler function with a router. -/
def handleFuncCall : Pattern := router ++ "HandleFunc(" ++ pathAndHandler

/-- The methods behind a call. -/
def methods : Pattern := ".Methods(" ++ quoted 2 ++ ")"

/-- The form of a handler function with a router. -/
def handleFuncForm : Pattern := handleFuncCall ++ optional methods

/-- The form of a handler function of net/http. -/
def netHttpForm (receiver : Text) : Pattern := lit (callText receiver handleFunc) ++ pathAndHandler

/-- The receivers that net/http has. -/
def netHttpReceivers : List Text := ["http", "mux"]

/-- The forms with a router. -/
def routerForms : List Pattern := registrationForms.take 7

/-- The forms with a router are tried before those of net/http. -/
theorem registrationForms_eq :
    registrationForms = routerForms ++ netHttpReceivers.map netHttpForm := rfl

theorem endsCall_pathAndHandler : EndsCall pathAndHandler := (endsCall_lit []).append _

theorem endsCall_methods : EndsCall methods := (endsCall_lit []).append _

theorem routerForm_handle : RouterForm ["Handle"] handleForm :=
  ⟨(((beginsRouted_named "Handle" []).append _).append _).append _,
    (endsCall_pathAndHandler.append _).append_optional endsCall_methods⟩

theorem routerForm_handleFunc : RouterForm [handleFunc] handleFuncForm :=
  ⟨((beginsRouted_named handleFunc []).append _).append _,
    (endsCall_pathAndHandler.append _).append_optional endsCall_methods⟩

/-- Every form with a router reads methods whose names are words, and only one of them reads the
method that net/http has, too. -/
theorem exists_routerForm {form : Pattern} (h : form ∈ routerForms) :
    ∃ names, RouterForm names form ∧ (∀ name ∈ names, IsName name) ∧
      (form = handleFuncForm ∨ handleFunc ∉ names) := by
  unfold routerForms registrationForms at h
  simp only [List.take, List.mem_cons, List.not_mem_nil, or_false] at h
  rcases h with rfl | rfl | rfl | rfl | rfl | rfl | rfl
  · exact ⟨["Handle"], routerForm_handle, by decide +kernel, .inr (by decide +kernel)⟩
  · exact ⟨[handleFunc], routerForm_handleFunc, by decide +kernel, .inl rfl⟩
  · refine ⟨["PathPrefix"], ⟨?_, ?_⟩, by decide +kernel, .inr (by decide +kernel)⟩
    · exact ((((beginsRouted_named "PathPrefix" []).append _).append _).append _).append _
    · exact (endsCall_lit []).append _
  · refine ⟨["PathPrefix"], ⟨?_, ?_⟩, by decide +kernel, .inr (by decide +kernel)⟩
    · exact ((beginsRouted_named "PathPrefix" []).append _).append _
    · exact (endsCall_lit ").Subrouter(").append _
  · refine ⟨verbs, ⟨?_, ?_⟩, by decide +kernel, .inr (by decide +kernel)⟩
    · exact (beginsRouted_oneOf verbs).append _
    · exact endsCall_pathAndHandler.append _
  · refine ⟨["Handle"], ⟨?_, ?_⟩, by decide +kernel, .inr (by decide +kernel)⟩
    · exact ((((beginsRouted_named "Handle" ['"']).append _).append _).append _).append _
    · exact endsCall_pathAndHandler.append _
  · refine ⟨["Get", "Post", "Put", "Delete", "Patch"], ⟨?_, ?_⟩, by decide +kernel,
      .inr (by decide +kernel)⟩
    · exact (beginsRouted_oneOf _).append _
    · exact endsCall_pathAndHandler.append _

-- ============================================== a path and a handler

theorem takes_quoted {index : Nat} (h : s' ∈ readings (quoted index) s) :
    ∃ w, w ≠ [] ∧ '"' ∉ w ∧ Takes s s' ('"' :: (w ++ ['"'])) ∧
      s'.texts = (index, w) :: s.texts := by
  unfold quoted at h
  rw [readings_assoc] at h
  obtain ⟨m, hm, h⟩ := mem_readings_seq.1 h
  obtain ⟨m', hm', h⟩ := mem_readings_seq.1 h
  obtain ⟨hopen, htexts⟩ := takes_lit hm
  obtain ⟨w, hne, hw, htakes, htexts'⟩ := takes_group hm'
  obtain ⟨hclose, htexts''⟩ := takes_lit h
  refine ⟨w, hne, not_mem_of_except hw, hopen.append (htakes.append hclose), ?_⟩
  rw [htexts'', htexts', htexts]

/-- A path between double quotes, a handler up to the next closing parenthesis. -/
structure IsPair (path gap handler : Text) : Prop where
  path_ne_nil : path ≠ []
  quote_not_mem : '"' ∉ path
  gap_blank : ∀ c ∈ gap, isBlank c = true
  handler_ne_nil : handler ≠ []
  parenthesis_not_mem : ')' ∉ handler

/-- Between the comma and the parenthesis that ends a registration there is no other. -/
theorem IsPair.not_mem {path gap handler : Text} (h : IsPair path gap handler) :
    ')' ∉ gap ++ handler := by
  intro hmem
  rcases List.mem_append.1 hmem with hmem | hmem
  · exact absurd (h.gap_blank _ hmem) (by decide)
  · exact h.parenthesis_not_mem hmem

/-- The text of a path and a handler. -/
def pairText (path gap handler : Text) : Text :=
  '"' :: (path ++ '"' :: ',' :: (gap ++ handler ++ [')']))

/-- The path and the handler are remembered as they are written. -/
theorem takes_pathAndHandler (h : s' ∈ readings pathAndHandler s) :
    ∃ path gap handler, IsPair path gap handler ∧ Takes s s' (pairText path gap handler) ∧
      s'.texts = (4, handler) :: (3, path) :: s.texts := by
  unfold pathAndHandler at h
  rw [readings_assoc, readings_assoc, readings_assoc] at h
  obtain ⟨m₁, h₁, h⟩ := mem_readings_seq.1 h
  obtain ⟨m₂, h₂, h⟩ := mem_readings_seq.1 h
  obtain ⟨m₃, h₃, h⟩ := mem_readings_seq.1 h
  obtain ⟨m₄, h₄, h⟩ := mem_readings_seq.1 h
  obtain ⟨path, hpath, hquote, htakes₁, htexts₁⟩ := takes_quoted h₁
  obtain ⟨htakes₂, htexts₂⟩ := takes_lit h₂
  obtain ⟨gap, hgap, htakes₃, htexts₃⟩ := takes_run h₃
  obtain ⟨handler, hhandler, hcls, htakes₄, htexts₄⟩ := takes_group h₄
  obtain ⟨htakes₅, htexts₅⟩ := takes_lit h
  refine ⟨path, gap, handler, ⟨hpath, hquote, hgap, hhandler, not_mem_of_except hcls⟩, ?_, ?_⟩
  · have htext : pairText path gap handler
        = '"' :: (path ++ ['"']) ++ ([','] ++ (gap ++ (handler ++ [')']))) := by
      simp [pairText]
    rw [htext]
    exact htakes₁.append (htakes₂.append (htakes₃.append (htakes₄.append htakes₅)))
  · rw [htexts₅, htexts₄, htexts₃, htexts₂, htexts₁]

/-- The call of a handler function with a router begins with its receiver, whatever follows. -/
theorem takes_handleFuncCall (h : s' ∈ readings handleFuncCall s) :
    ∃ receiver m, IsName receiver ∧ Takes s m (callText receiver handleFunc) ∧
      m.texts = (1, receiver) :: s.texts ∧ s' ∈ readings pathAndHandler m := by
  obtain ⟨m, hm, hs'⟩ := mem_readings_seq.1 h
  have hm : m ∈ readings (router ++ lit (handleFunc ++ '(' :: [])) s := hm
  obtain ⟨receiver, hreceiver, htakes, htexts⟩ := takes_named hm
  rw [List.append_nil] at htakes
  exact ⟨receiver, m, hreceiver, htakes, htexts, hs'⟩

/-- The text that the methods behind a call begin with. -/
def methodsHead : Text := ".Methods("

/-- The text of the methods behind a call. -/
def methodsText (method : Text) : Text := methodsHead ++ '"' :: (method ++ ['"']) ++ [')']

/-- The method is remembered as it is written, in whatever letter case. -/
theorem takes_methods (h : s' ∈ readings methods s) :
    ∃ method, '"' ∉ method ∧ Takes s s' (methodsText method) ∧
      s'.texts = (2, method) :: s.texts := by
  unfold methods at h
  rw [readings_assoc] at h
  obtain ⟨m, hm, h⟩ := mem_readings_seq.1 h
  obtain ⟨m', hm', h⟩ := mem_readings_seq.1 h
  obtain ⟨hdot, htexts⟩ := takes_lit hm
  obtain ⟨method, -, hquote, hmethod, htexts'⟩ := takes_quoted hm'
  obtain ⟨hclose, htexts''⟩ := takes_lit h
  refine ⟨method, hquote, ?_, ?_⟩
  · unfold methodsText
    rw [List.append_assoc]
    exact hdot.append (hmethod.append hclose)
  · rw [htexts'', htexts', htexts]

/-- A handler function with a router has its router and its handler remembered. -/
theorem groups_handleFunc {m : Match} (hm : m ∈ handleFuncForm.findAll content) :
    ∃ receiver handler, IsCall content m receiver handleFunc ∧ m.group? 1 = some receiver ∧
      m.group? 4 = some handler := by
  obtain ⟨w, s, -, -, hs, rfl⟩ := exists_reading_of_mem_findAll hm
  obtain ⟨r, hr, hs⟩ := mem_readings_seq.1 hs
  obtain ⟨receiver, m, hreceiver, htakes, htexts, hr⟩ := takes_handleFuncCall hr
  obtain ⟨path, gap, handler, -, htakes', htexts'⟩ := takes_pathAndHandler hr
  obtain ⟨more, hmore⟩ := exists_takes hs
  have hcall := htakes.append (htakes'.append hmore)
  refine ⟨receiver, handler, isCall_ofState hcall hreceiver, ?_⟩
  unfold Match.group? Match.ofState
  rcases mem_readings_optional.1 hs with hs | rfl
  · obtain ⟨method, -, -, htexts''⟩ := takes_methods hs
    rw [htexts'', htexts', htexts]
    exact ⟨rfl, rfl⟩
  · rw [htexts', htexts]
    exact ⟨rfl, rfl⟩

/-- A handler function of net/http has no router and no method remembered, but its handler. -/
theorem groups_netHttp {receiver : Text} (hreceiver : IsName receiver) {m : Match}
    (hm : m ∈ (netHttpForm receiver).findAll content) :
    IsCall content m receiver handleFunc ∧ m.group? 1 = none ∧ m.group? 2 = none ∧
      ∃ handler, m.group? 4 = some handler := by
  obtain ⟨w, s, -, -, hs, rfl⟩ := exists_reading_of_mem_findAll hm
  obtain ⟨m, hm, hs⟩ := mem_readings_seq.1 hs
  obtain ⟨htakes, htexts⟩ := takes_lit hm
  obtain ⟨path, gap, handler, -, htakes', htexts'⟩ := takes_pathAndHandler hs
  refine ⟨isCall_ofState (htakes.append htakes') hreceiver, ?_⟩
  unfold Match.group? Match.ofState
  rw [htexts', htexts]
  exact ⟨rfl, rfl, handler, rfl⟩

end GoSurvey.Route
