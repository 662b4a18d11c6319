/-
How many routes one call gives. A match becomes a registration if no form
before its own matches at the same place (`mem_registrations_iff`), so no
two registrations start at one place. But the place where a match starts
is not the place of its call: the forms of net/http know their receiver
by name, look at nothing before it, and so match inside a longer word
that ends with that name, while a form with a router starts at the
beginning of the word.

A call is known by the place of its dot (`callAt`). At most two
registrations have it in common, one with a router and one of net/http
(`exists_kinds`), and they do exactly if the router is such a longer word
(`OfRouter.exists_longer`, `exists_netHttp_of_longer`).
-/
import Mathlib.Data.List.Perm.Subperm
import GoSurvey.Proofs.Route.Form

namespace GoSurvey.Route

open Text Source Pattern

variable {content : Text} {m m' : Match}

-- ======================================================== registrations

/-- A match is a registration if it starts at a place that has not been claimed, and no form before
its own matches there. -/
theorem mem_registrationsFrom_iff {forms : List Pattern} {claimed : List Nat} :
    m ∈ registrationsFrom content claimed forms ↔
      m.start ∉ claimed ∧ ∃ before form after, forms = before ++ form :: after ∧
        m ∈ form.findAll content ∧
        ∀ form' ∈ before, ∀ m' ∈ form'.findAll content, m'.start ≠ m.start := by
  induction forms generalizing claimed with
  | nil =>
      constructor
      · intro h
        cases h
      · rintro ⟨-, before, form, after, hforms, -⟩
        exact absurd hforms.symm (by simp)
  | cons first rest ih =>
      rw [registrationsFrom]
      simp only [List.mem_append, List.mem_filter, ih, Bool.not_eq_true', List.contains_eq_mem,
        decide_eq_false_iff_not, List.mem_map, not_or, not_exists, not_and]
      constructor
      · rintro (⟨hm, hfree⟩ | ⟨⟨hfound, hfree⟩, before, form, after, rfl, hm, hbefore⟩)
        · exact ⟨hfree, [], first, rest, rfl, hm, fun _ h => absurd h List.not_mem_nil⟩
        · refine ⟨hfree, first :: before, form, after, rfl, hm, fun form' hform' m' hm' => ?_⟩
          rcases List.mem_cons.1 hform' with rfl | hform'
          · intro hstart
            exact hfound m' ⟨hm', hstart ▸ hfree⟩ hstart
          · exact hbefore form' hform' m' hm'
      · rintro ⟨hfree, before, form, after, hforms, hm, hbefore⟩
        cases before with
        | nil =>
            injection hforms with hfirst
            exact .inl ⟨hfirst ▸ hm, hfree⟩
        | cons first' before =>
            injection hforms with hfirst hrest
            subst hfirst
            refine .inr ⟨⟨fun m' hm' => ?_, hfree⟩, before, form, after, hrest, hm, ?_⟩
            · exact hbefore first List.mem_cons_self m' hm'.1
            · exact fun form' hform' => hbefore form' (List.mem_cons_of_mem _ hform')

/-- A match is a registration if no form before its own matches at the same place. -/
theorem mem_registrations_iff : m ∈ registrations content ↔
    ∃ before form after, registrationForms = before ++ form :: after ∧ m ∈ form.findAll content ∧
      ∀ form' ∈ before, ∀ m' ∈ form'.findAll content, m'.start ≠ m.start := by
  unfold registrations
  rw [mem_registrationsFrom_iff]
  exact ⟨fun h => h.2, fun h => ⟨List.not_mem_nil, h⟩⟩

/-- No two registrations start at one place. -/
theorem registrationsFrom_pairwise (content : Text) (claimed : List Nat) (forms : List Pattern) :
    (registrationsFrom content claimed forms).Pairwise fun m m' => m.start ≠ m'.start := by
  induction forms generalizing claimed with
  | nil => exact .nil
  | cons first rest ih =>
      rw [registrationsFrom]
      refine List.pairwise_append.2 ⟨?_, ih _, fun m hm m' hm' hstart => ?_⟩
      · refine ((findAll_pairwise first content).imp ?_).filter _
        exact fun h => Nat.ne_of_lt h.1
      · refine (mem_registrationsFrom_iff.1 hm').1 (List.mem_append_left _ ?_)
        exact hstart ▸ List.mem_map_of_mem hm

/-- Where a form matches there is a registration. -/
theorem exists_registrationFrom {forms : List Pattern} {claimed : List Nat} {form : Pattern}
    (hform : form ∈ forms) (hm : m ∈ form.findAll content) (hfree : m.start ∉ claimed) :
    ∃ m' ∈ registrationsFrom content claimed forms, m'.start = m.start := by
  induction forms generalizing claimed with
  | nil => cases hform
  | cons first rest ih =>
      rw [registrationsFrom]
      by_cases hfound : m.start ∈ ((first.findAll content).filter
          fun m => !claimed.contains m.start).map (·.start)
      · obtain ⟨m', hm', hstart⟩ := List.mem_map.1 hfound
        exact ⟨m', List.mem_append_left _ hm', hstart⟩
      · rcases List.mem_cons.1 hform with rfl | hform
        · refine absurd (List.mem_map_of_mem (List.mem_filter.2 ⟨hm, ?_⟩)) hfound
          simpa using hfree
        · obtain ⟨m', hm', hstart⟩ := ih hform (List.not_mem_append hfound hfree)
          exact ⟨m', List.mem_append_right _ hm', hstart⟩

-- =============================================== registrations by kind

/-- A match of a form with a router. -/
def OfRouter (content : Text) (m : Match) : Prop := ∃ form ∈ routerForms, m ∈ form.findAll content

/-- A match of a form of net/http. -/
def OfNetHttp (content : Text) (m : Match) : Prop :=
  ∃ receiver ∈ netHttpReceivers, m ∈ (netHttpForm receiver).findAll content

theorem ofRouter_or_ofNetHttp (h : m ∈ registrations content) :
    OfRouter content m ∨ OfNetHttp content m := by
  obtain ⟨before, form, after, hforms, hm, -⟩ := mem_registrations_iff.1 h
  have hform : form ∈ registrationForms := by
    rw [hforms]
    exact List.mem_append_right before List.mem_cons_self
  rw [registrationForms_eq, List.mem_append, List.mem_map] at hform
  rcases hform with hform | ⟨receiver, hreceiver, rfl⟩
  · exact .inl ⟨form, hform, hm⟩
  · exact .inr ⟨receiver, hreceiver, hm⟩

theorem OfRouter.exists_isCall (h : OfRouter content m) :
    ∃ receiver name, IsCall content m receiver name := by
  obtain ⟨form, hform, hm⟩ := h
  obtain ⟨names, hrouter, -⟩ := exists_routerForm hform
  obtain ⟨receiver, name, -, hcall⟩ := exists_call hrouter.begins hm
  exact ⟨receiver, name, hcall⟩

theorem isName_netHttp : ∀ receiver ∈ netHttpReceivers, IsName receiver := by decide +kernel

/-- Two matches with a router that begin with one call start at one place. -/
theorem OfRouter.start_unique (h : OfRouter content m) (h' : OfRouter content m')
    (hplace : callAt m = callAt m') : m.start = m'.start := by
  obtain ⟨form, hform, hm⟩ := h
  obtain ⟨form', hform', hm'⟩ := h'
  obtain ⟨names, hrouter, -⟩ := exists_routerForm hform
  obtain ⟨names', hrouter', -⟩ := exists_routerForm hform'
  exact Nat.le_antisymm (hrouter.start_le hrouter'.begins hm hm' hplace)
    (hrouter'.start_le hrouter.begins hm' hm hplace.symm)

/-- Two matches of net/http that begin with one call start at one place. -/
theorem OfNetHttp.start_unique (h : OfNetHttp content m) (h' : OfNetHttp content m')
    (hplace : callAt m = callAt m') : m.start = m'.start := by
  obtain ⟨receiver, hreceiver, hm⟩ := h
  obtain ⟨receiver', hreceiver', hm'⟩ := h'
  have hcall := (groups_netHttp (isName_netHttp receiver hreceiver) hm).1
  have hcall' := (groups_netHttp (isName_netHttp receiver' hreceiver') hm').1
  -- The names of the two receivers end with different letters.
  have hlast : ∀ r ∈ netHttpReceivers, ∀ r' ∈ netHttpReceivers,
      r ≠ [] ∧ (r.getLast? = r'.getLast? → r = r') := by decide +kernel
  have htake := hcall.take_callAt
  rw [hplace, hcall'.take_callAt] at htake
  have hsame := congrArg List.getLast? htake
  rw [List.getLast?_append_of_ne_nil _ (hlast receiver' hreceiver' receiver hreceiver).1,
    List.getLast?_append_of_ne_nil _ (hlast receiver hreceiver receiver' hreceiver').1] at hsame
  have heq := (hlast receiver hreceiver receiver' hreceiver').2 hsame.symm
  have hat := hcall.callAt_eq
  have hat' := hcall'.callAt_eq
  rw [heq] at hat
  omega

/-- A match with a router that begins with the call of a handler function is one of its form. -/
theorem OfRouter.mem_handleFunc {receiver : Text} (h : OfRouter content m)
    (hcall' : IsCall content m' receiver handleFunc) (hplace : callAt m = callAt m') :
    m ∈ handleFuncForm.findAll content := by
  obtain ⟨form, hform, hm⟩ := h
  obtain ⟨names, hrouter, hnames, hkind⟩ := exists_routerForm hform
  obtain ⟨router, name, hname, hcall⟩ := exists_call hrouter.begins hm
  have hmethod : name = handleFunc :=
    hcall.name_unique hcall' hplace (hnames name hname) (by decide +kernel)
  subst hmethod
  obtain rfl := hkind.resolve_right fun hnot => hnot hname
  exact hm

/-- A match with a router and one of net/http that begin with one call belong to a handler function
whose router is a longer word. -/
theorem OfRouter.exists_longer {receiver : Text} (h : OfRouter content m)
    (hreceiver : receiver ∈ netHttpReceivers) (hm' : m' ∈ (netHttpForm receiver).findAll content)
    (hplace : callAt m = callAt m') (hstart : m.start ≠ m'.start) :
    m ∈ handleFuncForm.findAll content ∧
      ∃ w, w ≠ [] ∧ m.group 1 = w ++ receiver ∧ m'.start = m.start + w.length := by
  have hisName := isName_netHttp receiver hreceiver
  have hcall' := (groups_netHttp hisName hm').1
  have hm := h.mem_handleFunc hcall' hplace
  obtain ⟨router', handler, hcall, hgroup, -⟩ := groups_handleFunc hm
  refine ⟨hm, ?_⟩
  have hle : m.start ≤ m'.start := by
    have hbegins : BeginsCall [handleFunc] (netHttpForm receiver) :=
      (beginsCall_lit hisName handleFunc).append _
    exact routerForm_handleFunc.start_le hbegins hm hm' hplace
  have hat := hcall.callAt_eq
  have hat' := hcall'.callAt_eq
  have htake := hcall.take_callAt
  rw [hplace, hcall'.take_callAt] at htake
  rcases List.append_eq_append_iff.1 htake.symm with ⟨w, hw, hsuffix⟩ | ⟨w, hw, hsuffix⟩
  · refine ⟨w, ?_, ?_, ?_⟩
    · rintro rfl
      rw [List.nil_append] at hsuffix
      rw [hsuffix] at hat
      omega
    · unfold Match.group
      rw [hgroup]
      exact hsuffix
    · rw [hsuffix, List.length_append] at hat
      omega
  · rw [hsuffix, List.length_append] at hat'
    have hnil : w = [] := List.length_eq_zero_iff.1 (by omega)
    subst hnil
    omega

/-- A match of the form of a handler function with a router is a registration. -/
theorem mem_registrations_of_handleFunc (hm : m ∈ handleFuncForm.findAll content) :
    m ∈ registrations content := by
  obtain ⟨receiver, -, hcall, -⟩ := groups_handleFunc hm
  refine mem_registrations_iff.2
    ⟨[handleForm], handleFuncForm, registrationForms.drop 2, rfl, hm, fun form hform m' hm' => ?_⟩
  obtain rfl := List.mem_singleton.1 hform
  intro hstart
  obtain ⟨receiver', name, hname, hcall'⟩ := exists_call routerForm_handle.begins hm'
  obtain rfl := List.mem_singleton.1 hname
  have hplace := hcall'.callAt_unique hcall hstart
  have hsame := hcall'.name_unique hcall hplace (by decide +kernel) (by decide +kernel)
  exact absurd hsame (by decide +kernel)

/-- After a call with a longer receiver net/http reads what a router does, from inside the
receiver. -/
theorem exists_reading_inside {cur : Cursor} {called r : State} {w receiver : Text}
    (htakes : Takes ⟨cur, []⟩ called (callText (w ++ receiver) handleFunc))
    (hr : r ∈ readings pathAndHandler called) :
    w <+: cur.rest ∧ ∃ t, t ∈ readings (netHttpForm receiver) ⟨cur.advance w, []⟩ := by
  have htext : callText (w ++ receiver) handleFunc = w ++ callText receiver handleFunc := by
    rw [callText, callText, List.append_assoc]
  have hahead := htakes.ahead
  have hcursor := htakes.cursor
  rw [htext] at hahead hcursor
  obtain ⟨hw, hname⟩ := prefix_of_prefix_append hahead
  let start : State := ⟨cur.advance w, []⟩
  have hplace : (start.advance (callText receiver handleFunc)).cursor = called.cursor := by
    rw [hcursor, ← Cursor.advance_append]
    rfl
  obtain ⟨t, ht, -⟩ := exists_reading_of_cursor hr hplace
  exact ⟨hw, t, mem_readings_seq.2 ⟨_, mem_readings_lit.2 ⟨hname, rfl⟩, ht⟩⟩

/-- A handler function of a longer word is one of net/http as well, if no match of net/http reaches
over the place. -/
theorem exists_netHttp_of_longer {receiver w : Text} (hm : m ∈ handleFuncForm.findAll content)
    (hgroup : m.group? 1 = some (w ++ receiver))
    (hfree : ∀ m' ∈ (netHttpForm receiver).findAll content,
      ¬(m'.start < m.start + w.length ∧ m.start + w.length < m'.stop)) :
    ∃ m' ∈ (netHttpForm receiver).findAll content, m'.start = m.start + w.length := by
  obtain ⟨router, -, hcall, hrouter, -⟩ := groups_handleFunc hm
  obtain rfl := Option.some.inj (hgroup.symm.trans hrouter)
  obtain ⟨v, s, hv, hstart, hs, rfl⟩ := exists_reading_of_mem_findAll hm
  obtain ⟨r, hr, hs⟩ := mem_readings_seq.1 hs
  obtain ⟨router, called, hname, htakes, -, hr⟩ := takes_handleFuncCall hr
  obtain ⟨more, hmore⟩ := exists_takes hr
  obtain ⟨more', hmore'⟩ := exists_takes hs
  have hcall' := isCall_ofState (htakes.append (hmore.append hmore')) hname
  rw [hcall'.receiver_unique hcall rfl] at htakes
  obtain ⟨hw, t, ht⟩ := exists_reading_inside htakes hr
  obtain ⟨m', hm'⟩ := Option.isSome_iff_exists.1 (isSome_matchAt ht)
  have hprefix : v ++ w <+: content := by
    have hv : v <+: (Cursor.start content).rest := hv
    exact prefix_append_of_advance hv hw
  have hlength : (v ++ w).length = v.length + w.length := List.length_append
  rw [hstart, ← hlength] at hfree ⊢
  rw [Cursor.advance_append] at hm'
  refine ⟨m', mem_findAll_of_matchAt hprefix hm' hfree, ?_⟩
  rw [start_of_matchAt hm']
  exact Nat.zero_add _

-- ============================================ the registrations of a call

/-- The registrations that begin with the call whose dot stands at an offset. -/
def registrationsAt (content : Text) (place : Nat) : List Match :=
  (registrations content).filter fun m => callAt m == place

theorem mem_registrationsAt {place : Nat} :
    m ∈ registrationsAt content place ↔ m ∈ registrations content ∧ callAt m = place := by
  unfold registrationsAt
  rw [List.mem_filter, beq_iff_eq]

/-- Two matches of one kind that begin with one call start at one place. -/
theorem start_unique_of_kind (content : Text)
    (hkind : OfRouter content m ∧ OfRouter content m' ∨ OfNetHttp content m ∧ OfNetHttp content m')
    (hplace : callAt m = callAt m') : m.start = m'.start := by
  rcases hkind with ⟨h, h'⟩ | ⟨h, h'⟩
  · exact h.start_unique h' hplace
  · exact h.start_unique h' hplace

theorem registrationsAt_pairwise (content : Text) (place : Nat) :
    (registrationsAt content place).Pairwise fun m m' => m.start ≠ m'.start :=
  (registrationsFrom_pairwise content [] registrationForms).filter _

/-- At most two registrations begin with one call, since there are two kinds of them. -/
theorem length_registrationsAt (content : Text) (place : Nat) :
    (registrationsAt content place).length ≤ 2 := by
  have hpair := registrationsAt_pairwise content place
  have hmem : ∀ m ∈ registrationsAt content place, m ∈ registrations content ∧ callAt m = place :=
    fun _ => mem_registrationsAt.1
  match hall : registrationsAt content place with
  | [] | [_] | [_, _] => simp
  | a :: b :: c :: rest =>
      rw [hall] at hpair hmem
      obtain ⟨ha, hplace⟩ := hmem a (by simp)
      obtain ⟨hb, hplace'⟩ := hmem b (by simp)
      obtain ⟨hc, hplace''⟩ := hmem c (by simp)
      simp only [List.pairwise_cons, List.mem_cons, forall_eq_or_imp] at hpair
      obtain ⟨⟨hab, hac, -⟩, ⟨hbc, -⟩, -⟩ := hpair
      have hab' := fun h => hab (start_unique_of_kind content h (hplace.trans hplace'.symm))
      have hac' := fun h => hac (start_unique_of_kind content h (hplace.trans hplace''.symm))
      have hbc' := fun h => hbc (start_unique_of_kind content h (hplace'.trans hplace''.symm))
      have hkb := ofRouter_or_ofNetHttp hb
      have hkc := ofRouter_or_ofNetHttp hc
      -- The second and the third are both of the kind that the first is not.
      rcases ofRouter_or_ofNetHttp ha with hka | hka
      · have hkb := hkb.resolve_left fun h => hab' (.inl ⟨hka, h⟩)
        have hkc := hkc.resolve_left fun h => hac' (.inl ⟨hka, h⟩)
        exact absurd (.inr ⟨hkb, hkc⟩) hbc'
      · have hkb := hkb.resolve_right fun h => hab' (.inr ⟨hka, h⟩)
        have hkc := hkc.resolve_right fun h => hac' (.inr ⟨hka, h⟩)
        exact absurd (.inl ⟨hkb, hkc⟩) hbc'

/-- Where two registrations begin with one call, one is with a router and the other of net/http. -/
theorem exists_kinds {place : Nat} (h : 1 < (registrationsAt content place).length) :
    ∃ m m', OfRouter content m ∧ OfNetHttp content m' ∧ callAt m = place ∧ callAt m' = place ∧
      m.start ≠ m'.start := by
  have hpair := registrationsAt_pairwise content place
  have hmem : ∀ m ∈ registrationsAt content place, m ∈ registrations content ∧ callAt m = place :=
    fun _ => mem_registrationsAt.1
  match hall : registrationsAt content place with
  | [] | [_] =>
      rw [hall] at h
      simp at h
  | a :: b :: rest =>
      rw [hall] at hmem hpair
      obtain ⟨ha, hplace⟩ := hmem a (by simp)
      obtain ⟨hb, hplace'⟩ := hmem b (by simp)
      have hab := (List.pairwise_cons.1 hpair).1 b List.mem_cons_self
      have hclash := fun h =>
        hab (start_unique_of_kind content h (hplace.trans hplace'.symm))
      have hkb := ofRouter_or_ofNetHttp hb
      rcases ofRouter_or_ofNetHttp ha with hka | hka
      · have hkb := hkb.resolve_left fun h => hclash (.inl ⟨hka, h⟩)
        exact ⟨a, b, hka, hkb, hplace, hplace', hab⟩
      · have hkb := hkb.resolve_right fun h => hclash (.inr ⟨hka, h⟩)
        exact ⟨b, a, hkb, hka, hplace', hplace, hab.symm⟩

/-- Where net/http has a handler function, a registration with a handler begins with its call. -/
theorem exists_registrationAt {receiver : Text} (hreceiver : receiver ∈ netHttpReceivers)
    (hm : m ∈ (netHttpForm receiver).findAll content) :
    ∃ m' ∈ registrationsAt content (callAt m), m'.start = m.start ∧
      ∃ handler, m'.group? 4 = some handler := by
  have hform : netHttpForm receiver ∈ registrationForms := by
    rw [registrationForms_eq]
    exact List.mem_append_right _ (List.mem_map_of_mem hreceiver)
  obtain ⟨m', hm', hstart⟩ := exists_registrationFrom hform hm List.not_mem_nil
  obtain ⟨hcall, -⟩ := groups_netHttp (isName_netHttp receiver hreceiver) hm
  rcases ofRouter_or_ofNetHttp hm' with hkind | ⟨receiver', hreceiver', hfound⟩
  · obtain ⟨router, name, hcall'⟩ := hkind.exists_isCall
    have hplace := hcall'.callAt_unique hcall hstart
    have hfunc := hkind.mem_handleFunc hcall hplace
    obtain ⟨-, handler, -, -, hhandler⟩ := groups_handleFunc hfunc
    exact ⟨m', mem_registrationsAt.2 ⟨hm', hplace⟩, hstart, handler, hhandler⟩
  · obtain ⟨hcall', -, -, handler, hhandler⟩ :=
      groups_netHttp (isName_netHttp receiver' hreceiver') hfound
    have hplace := hcall'.callAt_unique hcall hstart
    exact ⟨m', mem_registrationsAt.2 ⟨hm', hplace⟩, hstart, handler, hhandler⟩

-- ================================================== the routes of a call

/-- The routes of the call whose dot stands at an offset. -/
def callRoutes (content file : Text) (place : Nat) : List Route :=
  (registrationsAt content place).filterMap (ofMatch? content (lines content) file)

/-- A registration with a handler gives a route. -/
theorem isSome_ofMatch? {lines : List Text} {file handler : Text} (h : m.group? 4 = some handler) :
    (ofMatch? content lines file m).isSome = true := by
  unfold ofMatch?
  rw [h]
  rfl

/-- Two registrations that give routes give two. -/
theorem one_lt_length_filterMap {l : List Match} {f : Match → Option Route} (hm : m ∈ l)
    (hm' : m' ∈ l) (hne : m ≠ m') (hf : (f m).isSome = true) (hf' : (f m').isSome = true) :
    1 < (l.filterMap f).length := by
  rw [List.length_filterMap_eq_countP, List.countP_eq_length_filter]
  have hsub : [m, m'] ⊆ l.filter fun m => (f m).isSome := by
    intro x hx
    rcases List.mem_pair.1 hx with rfl | rfl
    · exact List.mem_filter.2 ⟨hm, hf⟩
    · exact List.mem_filter.2 ⟨hm', hf'⟩
  have hnodup : [m, m'].Nodup := by simp [hne]
  exact (hnodup.subperm hsub).length_le

/-- One call gives at most two routes. It gives two exactly if it is a handler function with a
router whose name is longer than a receiver of net/http and ends with it, and no match of net/http
reaches over the place where that receiver begins. -/
theorem two_callRoutes_iff (content file : Text) (place : Nat) :
    (callRoutes content file place).length ≤ 2 ∧
      (1 < (callRoutes content file place).length ↔
        ∃ m ∈ handleFuncForm.findAll content, callAt m = place ∧
          ∃ receiver ∈ netHttpReceivers, ∃ w, w ≠ [] ∧ m.group 1 = w ++ receiver ∧
            ∀ m' ∈ (netHttpForm receiver).findAll content,
              ¬(m'.start < m.start + w.length ∧ m.start + w.length < m'.stop)) := by
  have hle : (callRoutes content file place).length ≤ (registrationsAt content place).length :=
    List.length_filterMap_le _ _
  refine ⟨Nat.le_trans hle (length_registrationsAt content place), fun htwo => ?_, ?_⟩
  · obtain ⟨m, m', hm, ⟨receiver, hreceiver, hm'⟩, hplace, hplace', hne⟩ :=
      exists_kinds (Nat.lt_of_lt_of_le htwo hle)
    obtain ⟨hfound, w, hw, hgroup, hstart⟩ :=
      hm.exists_longer hreceiver hm' (hplace.trans hplace'.symm) hne
    refine ⟨m, hfound, hplace, receiver, hreceiver, w, hw, hgroup, fun m₀ hm₀ hover => ?_⟩
    rw [← hstart] at hover
    rcases eq_or_precedes hm₀ hm' with rfl | hbefore | hafter
    · omega
    · have hstop := hbefore.2
      omega
    · have hlater := hafter.1
      omega
  · rintro ⟨m, hm, rfl, receiver, hreceiver, w, hw, hgroup, hfree⟩
    obtain ⟨router, handler, hcall, hrouter, hhandler⟩ := groups_handleFunc hm
    unfold Match.group at hgroup
    rw [hrouter, Option.getD_some] at hgroup
    subst hgroup
    obtain ⟨m', hm', hstart⟩ := exists_netHttp_of_longer hm hrouter hfree
    have hisName := isName_netHttp receiver hreceiver
    have hcall' := (groups_netHttp hisName hm').1
    have hplace : callAt m' = callAt m := by
      rw [hcall.callAt_eq, hcall'.callAt_eq, hstart, List.length_append, Nat.add_assoc]
    obtain ⟨m₀, hm₀, hstart₀, handler₀, hhandler₀⟩ := exists_registrationAt hreceiver hm'
    rw [hplace] at hm₀
    have hpos := List.length_pos_iff.2 hw
    refine one_lt_length_filterMap (mem_registrationsAt.2 ⟨mem_registrations_of_handleFunc hm, rfl⟩)
      hm₀ ?_ (isSome_ofMatch? hhandler) (isSome_ofMatch? hhandler₀)
    rintro rfl
    omega

/-- A file with one registration, whose router ends with a receiver of net/http. -/
def longerRouter : Text :=
  "package p\n\nfunc f() \x7b\n\tmyhttp.HandleFunc(\"/a\", A).Methods(\"GET\")\n\x7d\n"

/-- The one call of the file gives a route for its method and another for all methods. -/
theorem two_callRoutes_longerRouter :
    (callRoutes longerRouter "m.go" 29).map (·.method) = ["GET".toList, "ALL".toList] ∧
      ∃ m ∈ handleFuncForm.findAll longerRouter, callAt m = 29 ∧
        ∃ receiver ∈ netHttpReceivers, ∃ w, w ≠ [] ∧ m.group 1 = w ++ receiver := by
  have hmethods : (callRoutes longerRouter "m.go" 29).map (·.method)
      = ["GET".toList, "ALL".toList] := by decide +kernel
  have htwo : 1 < (callRoutes longerRouter "m.go" 29).length := by
    rw [← List.length_map, hmethods]
    decide
  obtain ⟨m, hm, hplace, receiver, hreceiver, w, hw, hgroup, -⟩ :=
    (two_callRoutes_iff longerRouter "m.go" 29).2.1 htwo
  exact ⟨hmethods, m, hm, hplace, receiver, hreceiver, w, hw, hgroup⟩

end GoSurvey.Route
