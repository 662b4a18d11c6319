/-
Which method a registration keeps. A router is told of a method behind the
call, as in `r.HandleFunc("/users", List).Methods("GET")`. The form reads
the handler up to the first closing parenthesis and the method only right
behind it. So every reading of the call stops at that parenthesis
(`call_unique`), and what decides is whether it is the one that closes
the call (`MethodCall.exists_cut`): where the handler has parentheses of
its own, the rest of the handler stands in the way and the method is lost.
-/
import GoSurvey.Proofs.Pattern.First
import GoSurvey.Proofs.Route.Call

namespace GoSurvey.Route

open Text Source Pattern

variable {p q : Pattern} {s s' r : State} {content receiver path gap handler method : Text}

-- ==================================================== what can be read

theorem canRead_quoted (index : Nat) {w : Text} (hne : w ≠ []) (hquote : '"' ∉ w) :
    CanRead (quoted index) ('"' :: (w ++ ['"'])) :=
  (((canRead_lit ['"']).append (canRead_group index hne (except_of_not_mem hquote))).append
    (canRead_lit ['"']))

theorem canRead_pathAndHandler (h : IsPair path gap handler) :
    CanRead pathAndHandler (pairText path gap handler) := by
  have hread := ((((canRead_quoted 3 h.path_ne_nil h.quote_not_mem).append
    (canRead_lit [','])).append (canRead_run h.gap_blank)).append
    (canRead_group 4 h.handler_ne_nil (except_of_not_mem h.parenthesis_not_mem))).append
    (canRead_lit [')'])
  have htext : pairText path gap handler
      = '"' :: (path ++ ['"']) ++ [','] ++ gap ++ handler ++ [')'] := by simp [pairText]
  rw [htext]
  exact hread

theorem canRead_methods (hne : method ≠ []) (hquote : '"' ∉ method) :
    CanRead methods (methodsText method) :=
  ((canRead_lit _).append (canRead_quoted 2 hne hquote)).append (canRead_lit [')'])

-- =============================================== where the call is read to

theorem canRead_handleFuncCall (hreceiver : IsName receiver) (h : IsPair path gap handler) :
    CanRead handleFuncCall (callText receiver handleFunc ++ pairText path gap handler) := by
  have hrouter : CanRead router (receiver ++ ['.']) :=
    (canRead_group 1 hreceiver.ne_nil hreceiver.word).append (canRead_lit ['.'])
  have htext : callText receiver handleFunc = receiver ++ ['.'] ++ (handleFunc ++ ['(']) := by
    simp [callText]
  rw [htext]
  exact (hrouter.append (canRead_lit (handleFunc ++ ['(']))).append (canRead_pathAndHandler h)

/-- Every reading of the call stops at the first closing parenthesis. -/
theorem call_unique {text tail : Text} (hreceiver : IsName receiver) (hpath : '"' ∉ path)
    (htext : ')' ∉ text)
    (hrest : s.cursor.rest
      = callText receiver handleFunc ++ (pairText path [] text ++ tail))
    (hr : r ∈ readings handleFuncCall s) :
    r.cursor = s.cursor.advance (callText receiver handleFunc ++ pairText path [] text) ∧
      ∃ handler, r.texts = (4, handler) :: (3, path) :: (1, receiver) :: s.texts := by
  obtain ⟨receiver', m, hreceiver', htakes, htexts, hr⟩ := takes_handleFuncCall hr
  obtain ⟨path', gap', handler', hpair, htakes', htexts'⟩ := takes_pathAndHandler hr
  have hall := htakes.append htakes'
  obtain ⟨tail', htail⟩ := hall.ahead
  rw [hrest] at htail
  simp only [callText, pairText, List.append_assoc, List.cons_append, List.nil_append] at htail
  -- The parts are cut one after another at the dot, the quote and the parenthesis.
  have hdot : isWord '.' = false := by decide
  obtain ⟨hrouter, hcall⟩ := run_unique hdot hdot hreceiver'.word hreceiver.word htail
  subst hrouter
  simp only [List.cons.injEq, true_and, List.append_cancel_left_eq] at hcall
  obtain ⟨hsame, hpair'⟩ := append_cons_inj_left hpair.quote_not_mem hpath hcall
  subst hsame
  simp only [List.cons.injEq, true_and, ← List.append_assoc] at hpair'
  obtain ⟨hhandler, -⟩ := append_cons_inj_left hpair.not_mem htext hpair'
  subst hhandler
  refine ⟨?_, handler', by rw [htexts', htexts]⟩
  rw [hall.cursor]
  simp [pairText]

-- ============================================== what stands behind the call

/-- A method right behind the call is read. -/
theorem first_methods (hne : method ≠ []) (hquote : '"' ∉ method)
    (hahead : methodsText method <+: s.cursor.rest) :
    ∃ s', First (optional methods) s s' ∧ s'.texts = (2, method) :: s.texts := by
  obtain ⟨t, ht, -⟩ := canRead_methods hne hquote s hahead
  obtain ⟨s', hs'⟩ := exists_first ht
  obtain ⟨method', hquote', htakes, htexts⟩ := takes_methods hs'.mem
  obtain ⟨tail, htail⟩ := hahead
  obtain ⟨tail', htail'⟩ := htakes.ahead
  rw [← htail] at htail'
  simp only [methodsText, List.append_assoc, List.append_cancel_left_eq, List.cons_append,
    List.cons.injEq, true_and] at htail'
  obtain ⟨hsame, -⟩ := append_cons_inj_left hquote' hquote htail'
  subst hsame
  exact ⟨s', first_optional hs', htexts⟩

/-- Where something else stands before the next quote, no method is read. -/
theorem first_methods_of_ne {before after : Text} (hquote : '"' ∉ before)
    (hbefore : before ≠ methodsHead) (hrest : s.cursor.rest = before ++ '"' :: after) :
    First (optional methods) s s := by
  refine first_optional_of_nil (List.eq_nil_iff_forall_not_mem.2 fun s' hs' => hbefore ?_)
  obtain ⟨method', -, htakes, -⟩ := takes_methods hs'
  obtain ⟨tail, htail⟩ := htakes.ahead
  rw [hrest, methodsText, List.append_assoc, List.append_assoc] at htail
  have hhead : '"' ∉ methodsHead := by decide +kernel
  exact (append_cons_inj_left hhead hquote htail).1.symm

-- ======================================================= the registration

/-- The registration of a handler function for one method. None of its parts has a double quote. -/
structure MethodCall where
  receiver : Text
  path : Text
  handler : Text
  method : Text
  isName : IsName receiver
  path_ne_nil : path ≠ []
  quote_not_mem_path : '"' ∉ path
  quote_not_mem_handler : '"' ∉ handler
  method_ne_nil : method ≠ []
  quote_not_mem_method : '"' ∉ method

namespace MethodCall

/-- The text of a registration. -/
def text (call : MethodCall) : Text :=
  call.receiver ++ ".HandleFunc(\"" ++ call.path ++ "\", " ++ call.handler ++ ").Methods(\""
    ++ call.method ++ "\")"

/-- The offset of the dot of the call, where a text stands before the registration. -/
def dotAt (call : MethodCall) (before : Text) : Nat := before.length + call.receiver.length

/-- The method that is read: none where the handler has a closing parenthesis. -/
def methodRead (call : MethodCall) : Text := if ')' ∈ call.handler then [] else call.method

theorem text_eq (call : MethodCall) :
    call.text = callText call.receiver handleFunc
      ++ (pairText call.path [' '] call.handler ++ methodsText call.method) := by
  unfold text callText pairText methodsText methodsHead handleFunc
  simp

/-- A registration is cut at its first closing parenthesis. -/
theorem exists_cut (call : MethodCall) (after : Text) :
    ∃ text tail, ')' ∉ text ∧
      call.text ++ after
        = callText call.receiver handleFunc ++ (pairText call.path [] (' ' :: text) ++ tail) ∧
      (')' ∉ call.handler → methodsText call.method <+: tail) ∧
      (')' ∈ call.handler → ∃ before rest, '"' ∉ before ∧ before ≠ methodsHead ∧
        tail = before ++ '"' :: rest) := by
  rw [text_eq]
  by_cases hclose : ')' ∈ call.handler
  · obtain ⟨text, other, hhandler, htext⟩ := List.eq_append_cons_of_mem hclose
    have hquote := call.quote_not_mem_handler
    rw [hhandler] at hquote ⊢
    refine ⟨text, other ++ ')' :: (methodsText call.method ++ after), htext, ?_,
      fun h => absurd hclose (hhandler ▸ h), fun _ => ?_⟩
    · simp [pairText]
    · refine ⟨other ++ ')' :: methodsHead, call.method ++ '"' :: ')' :: after, ?_, ?_, ?_⟩
      · have hhead : '"' ∉ ')' :: methodsHead := by decide +kernel
        refine List.not_mem_append (fun h => hquote ?_) hhead
        exact List.mem_append_right text (List.mem_cons_of_mem _ h)
      · intro h
        have hlength := congrArg List.length h
        simp only [List.length_append, List.length_cons] at hlength
        omega
      · simp [methodsText]
  · refine ⟨call.handler, methodsText call.method ++ after, hclose, ?_,
      fun _ => List.prefix_append _ _, fun h => absurd h hclose⟩
    simp [pairText]

variable {call : MethodCall} {before after : Text}

/-- What the form reads of a registration. -/
theorem exists_match (hcontent : content = before ++ (call.text ++ after)) :
    ∃ m, handleFuncForm.matchAt ((Cursor.start content).advance before) = some m ∧
      m.group 2 = call.methodRead ∧ m.group 3 = call.path := by
  obtain ⟨text, tail, htext, hcut, hkept, hlost⟩ := call.exists_cut after
  let s : State := ⟨(Cursor.start content).advance before, []⟩
  have hrest : s.cursor.rest
      = callText call.receiver handleFunc ++ (pairText call.path [] (' ' :: text) ++ tail) := by
    show content.drop before.length = _
    rw [← hcut, hcontent, List.drop_left]
  have hclosed : ')' ∉ ' ' :: text := by
    intro hmem
    rcases List.mem_cons.1 hmem with hmem | hmem
    · exact absurd hmem (by decide)
    · exact htext hmem
  have hpair : IsPair call.path [] (' ' :: text) :=
    ⟨call.path_ne_nil, call.quote_not_mem_path, fun _ h => absurd h List.not_mem_nil,
      List.cons_ne_nil _ _, hclosed⟩
  have hahead : callText call.receiver handleFunc ++ pairText call.path [] (' ' :: text)
      <+: s.cursor.rest := by
    rw [hrest, ← List.append_assoc]
    exact List.prefix_append _ tail
  obtain ⟨t, ht, -⟩ := canRead_handleFuncCall call.isName hpair s hahead
  obtain ⟨r, hr⟩ := exists_first ht
  obtain ⟨hcursor, handler, htexts⟩ :=
    call_unique call.isName call.quote_not_mem_path hclosed hrest hr.mem
  have hrest' : r.cursor.rest = tail := by
    have happend := Cursor.rest_eq_append hahead
    rw [← hcursor, hrest, ← List.append_assoc] at happend
    exact (List.append_cancel_left happend).symm
  unfold methodRead
  by_cases hclose : ')' ∈ call.handler
  · obtain ⟨other, rest, hother, hne, htail⟩ := hlost hclose
    have hnone := first_methods_of_ne hother hne (hrest'.trans htail)
    refine ⟨_, matchAt_of_first (first_seq hr hnone), ?_⟩
    unfold Match.group Match.group? Match.ofState
    rw [if_pos hclose, htexts]
    exact ⟨rfl, rfl⟩
  · have hmethods := hkept hclose
    rw [← hrest'] at hmethods
    obtain ⟨s', hs', htexts'⟩ :=
      first_methods call.method_ne_nil call.quote_not_mem_method hmethods
    refine ⟨_, matchAt_of_first (first_seq hr hs'), ?_⟩
    unfold Match.group Match.group? Match.ofState
    rw [if_neg hclose, htexts', htexts]
    exact ⟨rfl, rfl⟩

/-- The registration is found, unless another reaches over the place where it begins. -/
theorem exists_found (hcontent : content = before ++ (call.text ++ after))
    (hfree : ∀ m ∈ registrations content,
      ¬(m.start < before.length ∧ before.length < m.stop)) :
    ∃ m ∈ handleFuncForm.findAll content, callAt m = call.dotAt before ∧
      m.group 2 = call.methodRead ∧ m.group 3 = call.path := by
  obtain ⟨m, hmatch, hmethod, hpath⟩ := exists_match hcontent
  have hm : m ∈ handleFuncForm.findAll content := by
    refine mem_findAll_of_matchAt ⟨_, hcontent.symm⟩ hmatch fun m' hm' => ?_
    exact hfree m' (mem_registrations_of_handleFunc hm')
  refine ⟨m, hm, ?_, hmethod, hpath⟩
  obtain ⟨receiver, -, hcall, -⟩ := groups_handleFunc hm
  have hstart : m.start = before.length := by
    rw [start_of_matchAt hmatch]
    exact Nat.zero_add _
  -- The receiver of the match is the word that stands there.
  obtain ⟨rest, hrest⟩ := hcall.ahead
  rw [hstart, hcontent, List.drop_left, text_eq, callText, callText, List.append_assoc,
    List.append_assoc, List.append_assoc] at hrest
  have hdot : isWord '.' = false := by decide
  have hsame := (run_unique hdot hdot hcall.isName.word call.isName.word hrest).1
  unfold dotAt
  rw [hcall.callAt_eq, hstart, hsame]

end MethodCall

-- ===================================================== the routes of the call

/-- The route of a registration has the method and the path that were read. -/
theorem of_ofMatch? {m : Match} {lines : List Text} {file : Text} {route : Route}
    (h : ofMatch? content lines file m = some route) :
    route.method = upper (orElse (m.group 2) "ALL") ∧ route.path = cleanPath (m.group 3) := by
  unfold ofMatch? at h
  obtain ⟨expression, -, rfl⟩ := Option.map_eq_some_iff.1 h
  exact ⟨rfl, rfl⟩

/-- The registrations of a call of a handler function are the one with its router and those of
net/http, which have no method. -/
theorem eq_or_group_of_place {m m' : Match} (hm : m ∈ handleFuncForm.findAll content)
    (hm' : m' ∈ registrationsAt content (callAt m)) : m' = m ∨ m'.group? 2 = none := by
  obtain ⟨hfound, hplace⟩ := mem_registrationsAt.1 hm'
  obtain ⟨receiver, -, hcall, -⟩ := groups_handleFunc hm
  rcases ofRouter_or_ofNetHttp hfound with hkind | ⟨receiver', hreceiver', hnet⟩
  · have hsame := hkind.mem_handleFunc hcall hplace
    have hform : handleFuncForm ∈ routerForms := by
      rw [routerForms, registrationForms]
      exact List.mem_cons_of_mem _ List.mem_cons_self
    have hstart := hkind.start_unique ⟨handleFuncForm, hform, hm⟩ hplace
    rcases eq_or_precedes hsame hm with h | h | h
    · exact .inl h
    · exact absurd hstart (Nat.ne_of_lt h.1)
    · exact absurd hstart (Nat.ne_of_gt h.1)
  · exact .inr (groups_netHttp (isName_netHttp receiver' hreceiver') hnet).2.2.1

/-- The method of a registration of a handler function is kept exactly if the handler has no closing
parenthesis, and else the route is one for all methods. -/
theorem method_kept_iff (file : Text) {call : MethodCall} {before after : Text}
    (hcontent : content = before ++ (call.text ++ after))
    (hfree : ∀ m ∈ registrations content, ¬(m.start < before.length ∧ before.length < m.stop)) :
    (∃ r ∈ callRoutes content file (call.dotAt before), r.path = cleanPath call.path ∧
        r.method = if ')' ∈ call.handler then "ALL".toList else upper call.method) ∧
      ((∃ r ∈ callRoutes content file (call.dotAt before), r.path = cleanPath call.path ∧
          r.method = upper call.method)
        ↔ ')' ∉ call.handler ∨ upper call.method = "ALL".toList) := by
  have hall : upper (orElse [] "ALL") = "ALL".toList := by decide +kernel
  obtain ⟨m, hm, hplace, hmethod, hpath⟩ := MethodCall.exists_found hcontent hfree
  have hread : upper (orElse (m.group 2) "ALL")
      = if ')' ∈ call.handler then "ALL".toList else upper call.method := by
    rw [hmethod, MethodCall.methodRead]
    split
    · exact hall
    · unfold orElse
      rw [if_neg (by simpa using call.method_ne_nil)]
  have hroute : ∃ r ∈ callRoutes content file (call.dotAt before), r.path = cleanPath call.path ∧
      r.method = if ')' ∈ call.handler then "ALL".toList else upper call.method := by
    obtain ⟨receiver, handler, -, -, hhandler⟩ := groups_handleFunc hm
    obtain ⟨r, hr⟩ := Option.isSome_iff_exists.1 (isSome_ofMatch? hhandler)
    obtain ⟨hr₁, hr₂⟩ := of_ofMatch? hr
    refine ⟨r, List.mem_filterMap.2 ⟨m, ?_, hr⟩, hr₂.trans (congrArg cleanPath hpath),
      hr₁.trans hread⟩
    exact mem_registrationsAt.2 ⟨mem_registrations_of_handleFunc hm, hplace⟩
  refine ⟨hroute, fun h => ?_, fun h => ?_⟩
  · obtain ⟨r, hr, -, hr'⟩ := h
    obtain ⟨m', hm', hof⟩ := List.mem_filterMap.1 hr
    rw [← hplace] at hm'
    obtain ⟨hmethod', -⟩ := of_ofMatch? hof
    rcases eq_or_group_of_place hm hm' with rfl | hnone
    · rw [hread] at hmethod'
      split at hmethod'
      · exact .inr (hr'.symm.trans hmethod')
      · next hclose => exact .inl hclose
    · unfold Match.group at hmethod'
      rw [hnone] at hmethod'
      exact .inr (hr'.symm.trans (hmethod'.trans hall))
  · obtain ⟨r, hr, hr₁, hr₂⟩ := hroute
    refine ⟨r, hr, hr₁, hr₂.trans ?_⟩
    rcases h with h | h
    · exact if_neg h
    · rw [h, ite_self]

/-- A handler that is wrapped by another. -/
def wrappedList : MethodCall where
  receiver := "r"
  path := "/users"
  handler := "auth(h.List)"
  method := "GET"
  isName := by decide +kernel
  path_ne_nil := by decide +kernel
  quote_not_mem_path := by decide +kernel
  quote_not_mem_handler := by decide +kernel
  method_ne_nil := by decide +kernel
  quote_not_mem_method := by decide +kernel

/-- What stands before the registration of a wrapped handler. -/
def beforeWrapped : Text := "package p\n\nfunc f() \x7b\n\t"

/-- A file with the registration of a wrapped handler and no other. -/
def wrappedFile : Text := beforeWrapped ++ (wrappedList.text ++ "\n\x7d\n".toList)

/-- The registration of a wrapped handler is for all methods and not for the one it names. -/
theorem method_lost_wrappedList :
    (∃ r ∈ callRoutes wrappedFile "m.go" (wrappedList.dotAt beforeWrapped),
        r.path = cleanPath "/users" ∧ r.method = "ALL".toList) ∧
      ¬∃ r ∈ callRoutes wrappedFile "m.go" (wrappedList.dotAt beforeWrapped),
        r.path = cleanPath "/users" ∧ r.method = upper "GET" := by
  have hfree : ∀ m ∈ registrations wrappedFile,
      ¬(m.start < beforeWrapped.length ∧ beforeWrapped.length < m.stop) := by
    decide +kernel
  obtain ⟨hroute, hkept⟩ := method_kept_iff "m.go" rfl hfree
  have hclose : ')' ∈ wrappedList.handler := by decide +kernel
  have hmethod : upper wrappedList.method ≠ "ALL".toList := by decide +kernel
  rw [if_pos hclose] at hroute
  refine ⟨hroute, fun h => ?_⟩
  rcases hkept.1 h with h | h
  · exact h hclose
  · exact hmethod h

end GoSurvey.Route
