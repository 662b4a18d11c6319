/-
What the id of a route tells. An id is made of the method, the path, the
handler, the file and the line of a registration. The method is only put
in lower case, so that `GET,POST` keeps its comma; in the path, the handler
and the file a hyphen comes for every character that no word has. Every run
of hyphens becomes one. So an id tells the words of the four texts in their
order and the line, and nothing else: neither what stood between the words
nor where one text ended and the next began (`makeId_eq_iff`).

Two routes of a project always differ in their method or their path
(`firstRegistrations_pairwise`), but they may have the same words on the
same line, and then the id of the later one finds the earlier one
(`find?_id_eq_some_iff`).
-/
import Mathlib.Data.List.Basic
import GoSurvey.Project.Routes
import GoSurvey.Proofs.Text.Pieces

namespace GoSurvey.Route

open Text

variable {method path handler file method' path' handler' file' : Text}

-- ============================================================ words

/-- What stands between hyphens, without what is empty. -/
def words (t : Text) : List Text := (splitOn '-' t).filter fun piece => !piece.isEmpty

/-- The pieces that are not empty, and the first in any case. -/
def keepFirst : List Text → List Text
  | [] => []
  | first :: rest => first :: rest.filter fun piece => !piece.isEmpty

/-- What stands between hyphens, without what is empty unless it stands first. -/
def wordsFrom (t : Text) : List Text := keepFirst (splitOn '-' t)

/-- What an id tells but the line. -/
def idWords (method path handler file : Text) : List Text :=
  wordsFrom (lower method) ++ words (hyphenate path) ++ words (hyphenate handler)
    ++ words (hyphenate file)

theorem words_append (a b : Text) : words (a ++ '-' :: b) = words a ++ words b := by
  unfold words
  rw [splitOn_append_cons, List.filter_append]

theorem keepFirst_append {a : List Text} (h : a ≠ []) (b : List Text) :
    keepFirst (a ++ b) = keepFirst a ++ b.filter fun piece => !piece.isEmpty := by
  obtain ⟨first, rest, rfl⟩ := List.exists_cons_of_ne_nil h
  rw [List.cons_append, keepFirst, List.filter_append]
  rfl

theorem keepFirst_sublist (a : List Text) : (keepFirst a).Sublist a := by
  cases a with
  | nil => exact .slnil
  | cons first rest => exact List.filter_sublist.cons_cons first

theorem wordsFrom_append (a b : Text) : wordsFrom (a ++ '-' :: b) = wordsFrom a ++ words b := by
  unfold wordsFrom words
  rw [splitOn_append_cons, keepFirst_append (splitOn_ne_nil '-' a)]

theorem hyphen_not_mem_words {t word : Text} (h : word ∈ words t) : '-' ∉ word :=
  not_mem_of_mem_splitOn (List.mem_filter.1 h).1

theorem hyphen_not_mem_wordsFrom {t word : Text} (h : word ∈ wordsFrom t) : '-' ∉ word :=
  not_mem_of_mem_splitOn ((keepFirst_sublist _).mem h)

/-- A text that does not end with a hyphen is its words with one hyphen between them. -/
theorem collapseHyphens_eq {t : Text} (h : t.getLast? ≠ some '-') :
    collapseHyphens t = join ['-'] (wordsFrom t) := by
  unfold wordsFrom
  induction t with
  | nil => rfl
  | cons c rest ih =>
      have hrest : rest.getLast? ≠ some '-' := by
        intro hlast
        cases rest with
        | nil => cases hlast
        | cons d rest => exact h (List.getLast?_cons_cons.trans hlast)
      have ih := ih hrest
      rw [collapseHyphens, splitOn]
      cases hs : splitOn '-' rest with
      | nil => exact absurd hs (splitOn_ne_nil '-' rest)
      | cons first others =>
          rw [hs, keepFirst] at ih
          by_cases hc : c = '-'
          · subst hc
            cases first with
            | nil =>
                -- Another hyphen follows, and this one is left out.
                have hhead : rest.head? = some '-' := by
                  cases rest with
                  | nil => exact absurd rfl h
                  | cons d rest => exact congrArg some (eq_of_splitOn_cons hs)
                rw [hhead]
                exact ih
            | cons d first =>
                have hd : d ≠ '-' := by
                  rintro rfl
                  have hmem : '-' :: first ∈ splitOn '-' rest := by
                    rw [hs]
                    exact List.mem_cons_self
                  exact not_mem_of_mem_splitOn hmem List.mem_cons_self
                obtain ⟨tail, rfl⟩ := (prefix_of_splitOn hs).1
                have hhead : (d :: first ++ tail).head? ≠ some '-' := by
                  rw [List.cons_append, List.head?_cons]
                  exact fun h => hd (Option.some.inj h)
                rw [if_neg (by simpa using hhead), ih]
                rfl
          · rw [if_neg (by simp [hc]), if_neg hc, ih, ← join_cons]
            rfl

theorem makeId_eq (method path handler file : Text) (line : Nat) :
    makeId method path handler file line
      = join ['-'] (idWords method path handler file ++ [ofNat line]) := by
  have hnumber : ofInt line = ofNat line := rfl
  have htext : join "-" [lower method, hyphenate path, hyphenate handler, hyphenate file,
      ofInt line] = lower method ++ '-' :: (hyphenate path ++ '-' :: (hyphenate handler
        ++ '-' :: (hyphenate file ++ '-' :: ofNat line))) := by
    simp [join, hnumber]
  have hdigits : words (ofNat line) = [ofNat line] := by
    have hne : (!(ofNat line).isEmpty) = true := by simp [ofNat_ne_nil]
    unfold words
    rw [splitOn_of_not_mem (hyphen_not_mem_ofNat line), List.filter_cons, if_pos hne,
      List.filter_nil]
  unfold makeId
  rw [htext, collapseHyphens_eq]
  · rw [wordsFrom_append, words_append, words_append, words_append, hdigits]
    unfold idWords
    simp only [List.append_assoc]
  · intro hlast
    rw [List.append_cons, ← List.append_assoc, List.append_cons, ← List.append_assoc,
      List.append_cons, ← List.append_assoc, List.append_cons,
      List.getLast?_append_of_ne_nil _ (ofNat_ne_nil line)] at hlast
    exact hyphen_not_mem_ofNat line (List.mem_of_getLast? hlast)

theorem hyphen_not_mem_id (method path handler file : Text) (line : Nat) :
    ∀ word ∈ idWords method path handler file ++ [ofNat line], '-' ∉ word := by
  intro word hword
  simp only [idWords, List.mem_append, List.mem_singleton] at hword
  rcases hword with (((hword | hword) | hword) | hword) | rfl
  · exact hyphen_not_mem_wordsFrom hword
  · exact hyphen_not_mem_words hword
  · exact hyphen_not_mem_words hword
  · exact hyphen_not_mem_words hword
  · exact hyphen_not_mem_ofNat line

/-- Two ids are the same exactly if the lines and the words are. -/
theorem makeId_eq_iff {line line' : Nat} :
    makeId method path handler file line = makeId method' path' handler' file' line' ↔
      line = line' ∧ idWords method path handler file = idWords method' path' handler' file' := by
  rw [makeId_eq, makeId_eq]
  constructor
  · intro h
    have hsplit := congrArg (splitOn '-') h
    rw [splitOn_join (by simp) (hyphen_not_mem_id _ _ _ _ _),
      splitOn_join (by simp) (hyphen_not_mem_id _ _ _ _ _)] at hsplit
    obtain ⟨hwords, hnumber⟩ := List.append_inj' hsplit rfl
    exact ⟨ofNat_inj (List.singleton_inj.1 hnumber), hwords⟩
  · rintro ⟨rfl, h⟩
    rw [h]

-- ================================================ the routes of a project

/-- The key by which routes are told apart. -/
def key (r : Route) : Text × Text := (r.method, r.path)

theorem firstRegistrations_sublist (seen : List (Text × Text)) (rs : List Route) :
    (firstRegistrations seen rs).Sublist rs := by
  induction rs generalizing seen with
  | nil => exact .slnil
  | cons r rest ih =>
      rw [firstRegistrations]
      split
      · exact (ih seen).cons r
      · exact (ih _).cons_cons r

theorem key_not_mem_of_firstRegistrations {seen : List (Text × Text)} {rs : List Route} {r : Route}
    (h : r ∈ firstRegistrations seen rs) : key r ∉ seen := by
  induction rs generalizing seen with
  | nil => cases h
  | cons first rest ih =>
      rw [firstRegistrations] at h
      split at h
      · exact ih h
      · next hseen =>
        rcases List.mem_cons.1 h with rfl | h
        · exact fun hmem => hseen (List.contains_iff_mem.2 hmem)
        · exact fun hmem => ih h (List.mem_cons_of_mem _ hmem)

/-- No two routes of a project have the same method and the same path. -/
theorem firstRegistrations_pairwise (seen : List (Text × Text)) (rs : List Route) :
    (firstRegistrations seen rs).Pairwise fun r r' => key r ≠ key r' := by
  induction rs generalizing seen with
  | nil => exact .nil
  | cons first rest ih =>
      rw [firstRegistrations]
      split
      · exact ih seen
      · refine List.pairwise_cons.2 ⟨fun r hr hsame => ?_, ih _⟩
        exact key_not_mem_of_firstRegistrations hr (hsame ▸ List.mem_cons_self)

/-- A route has the id of a registration whose method is its own but for the letter case. In the id
the method is in lower case and otherwise as it is written, while the path, the handler and the file
have a hyphen for every character that no word has. -/
def HasId (r : Route) (written : Text) : Prop :=
  r.method = upper written ∧ r.id = makeId written r.path r.handler r.file r.line

theorem exists_hasId {content file : Text} {r : Route} (h : r ∈ routesIn content file) :
    ∃ written, HasId r written := by
  obtain ⟨m, -, hm⟩ := List.mem_filterMap.1 h
  obtain ⟨expression, -, rfl⟩ := Option.map_eq_some_iff.1 hm
  exact ⟨orElse (m.group 2) "ALL", rfl, rfl⟩

theorem exists_hasId_of_mem {files : List (Text × Text)} {r : Route} (h : r ∈ routesOf files) :
    ∃ written, HasId r written := by
  have hmem := (firstRegistrations_sublist [] _).mem h
  obtain ⟨file, -, hfile⟩ := List.mem_flatMap.1 hmem
  exact exists_hasId hfile

/-- Two routes whose registrations stand on the same line and have the same words. -/
def Alike (written : Route → Text) (r r' : Route) : Prop :=
  r.line = r'.line ∧ idWords (written r) r.path r.handler r.file
    = idWords (written r') r'.path r'.handler r'.file

theorem id_eq_iff {written : Route → Text} {r r' : Route} (h : HasId r (written r))
    (h' : HasId r' (written r')) : r.id = r'.id ↔ Alike written r r' := by
  rw [h.2, h'.2]
  exact makeId_eq_iff

/-- An id finds a route that has it, no later than the route it was asked with. -/
theorem exists_find?_id (earlier : List Route) (r : Route) (later : List Route) :
    ∃ found ∈ earlier ++ [r], found.id = r.id ∧
      (earlier ++ r :: later).find? (·.id == r.id) = some found := by
  rw [List.find?_append]
  cases hfind : earlier.find? (·.id == r.id) with
  | some found =>
      have hid := List.find?_some hfind
      exact ⟨found, List.mem_append_left _ (List.mem_of_find?_eq_some hfind), beq_iff_eq.1 hid, rfl⟩
  | none =>
      refine ⟨r, List.mem_append_right _ (List.mem_singleton_self r), rfl, ?_⟩
      have hself : (r :: later).find? (·.id == r.id) = some r :=
        List.find?_cons_of_pos (beq_self_eq_true r.id)
      rw [hself]
      rfl

/-- An id finds a route itself exactly if no route before it has the id. -/
theorem find?_id_eq_some_iff {earlier later : List Route} {r : Route}
    (hkeys : (earlier ++ r :: later).Pairwise fun r r' => key r ≠ key r') :
    (earlier ++ r :: later).find? (·.id == r.id) = some r ↔ ∀ r' ∈ earlier, r'.id ≠ r.id := by
  have hnot : r ∉ earlier := fun hmem =>
    (List.pairwise_append.1 hkeys).2.2 r hmem r List.mem_cons_self rfl
  constructor
  · intro h r' hr' hid
    rw [List.find?_append] at h
    cases hfind : earlier.find? (·.id == r.id) with
    | some found =>
        rw [hfind] at h
        injection h with h
        exact hnot (h ▸ List.mem_of_find?_eq_some hfind)
    | none => exact List.find?_eq_none.1 hfind r' hr' (beq_iff_eq.2 hid)
  · intro h
    obtain ⟨found, hfound, hid, hfind⟩ := exists_find?_id earlier r later
    rcases List.mem_append.1 hfound with hmem | hmem
    · exact absurd hid (h found hmem)
    · rw [hfind, List.mem_singleton.1 hmem]

/-- The routes of a project differ in method or path. Two of them have the same id exactly if they
are on the same line and have the same words. An id finds the first route that has it, so it finds
a route itself exactly if no route before it is like that, and the route found is the one that is
traced. -/
theorem findRoute?_spec (p : Project) {rs : List Route} (h : p.routes = .ok rs) :
    (rs.Pairwise fun r r' => (r.method, r.path) ≠ (r'.method, r'.path)) ∧
      ∃ written : Route → Text, (∀ r ∈ rs, HasId r (written r)) ∧
        (∀ r ∈ rs, ∀ r' ∈ rs, r.id = r'.id ↔ Alike written r r') ∧
        ∀ earlier r later, rs = earlier ++ r :: later →
          (p.findRoute? r.id = .ok (some r) ↔ ∀ r' ∈ earlier, ¬Alike written r' r) ∧
          ∃ found ∈ earlier ++ [r], found.id = r.id ∧ p.findRoute? r.id = .ok (some found) ∧
            p.trace r.id = p.traceRoute found := by
  have hfindRoute : ∀ id, p.findRoute? id = .ok (rs.find? (·.id == id)) := by
    intro id
    unfold Project.findRoute?
    rw [h]
    rfl
  have htrace : ∀ id found, p.findRoute? id = .ok (some found) →
      p.trace id = p.traceRoute found := by
    intro id found hfound
    unfold Project.trace
    rw [hfound]
    rfl
  obtain ⟨files, -, rfl⟩ : ∃ files, p.sources = .ok files ∧ routesOf files = rs := by
    unfold Project.routes at h
    cases hsources : p.sources with
    | error e =>
        rw [hsources] at h
        cases h
    | ok files =>
        rw [hsources] at h
        injection h with h
        exact ⟨files, rfl, h⟩
  have hkeys : (routesOf files).Pairwise fun r r' => key r ≠ key r' :=
    firstRegistrations_pairwise [] _
  have hwritten : ∀ r ∈ routesOf files, ∃ written, HasId r written :=
    fun r hr => exists_hasId_of_mem hr
  choose! written hid using hwritten
  have hsame : ∀ r ∈ routesOf files, ∀ r' ∈ routesOf files, r.id = r'.id ↔ Alike written r r' :=
    fun r hr r' hr' => id_eq_iff (hid r hr) (hid r' hr')
  refine ⟨hkeys, written, hid, hsame, fun earlier r later hrs => ?_⟩
  have hr : r ∈ routesOf files := by
    rw [hrs]
    exact List.mem_append_right earlier List.mem_cons_self
  have hearlier : ∀ r' ∈ earlier, r' ∈ routesOf files := by
    intro r' hr'
    rw [hrs]
    exact List.mem_append_left _ hr'
  rw [hrs] at hkeys hfindRoute
  constructor
  · rw [hfindRoute, Except.ok.injEq, find?_id_eq_some_iff hkeys]
    constructor
    · exact fun hne r' hr' halike => hne r' hr' ((hsame r' (hearlier r' hr') r hr).2 halike)
    · exact fun hne r' hr' hsameId => hne r' hr' ((hsame r' (hearlier r' hr') r hr).1 hsameId)
  · obtain ⟨found, hmem, hfoundId, hfind⟩ := exists_find?_id earlier r later
    have hfound : p.findRoute? r.id = .ok (some found) := by rw [hfindRoute, hfind]
    exact ⟨found, hmem, hfoundId, hfound, htrace r.id found hfound⟩

/-- A file with two registrations on one line. -/
def crowdedLine : Text :=
  "package p\n\nfunc f() \x7b\n\tr.Get(\"/a-b\", H); r.Get(\"/a/b\", H)\n\x7d\n"

/-- A project of that file. -/
def crowdedProject : Project where
  disk := ⟨.dir [("p", .dir [("m.go", .file crowdedLine)])], ["p"]⟩
  config := { root := "/p" }

/-- The route of one of the two registrations. -/
def crowdedRoute (path : Text) : Route where
  id := "get-a-b-H-m-go-4"
  method := "GET"
  path := path
  handler := "H"
  file := "m.go"
  line := 4
  snippet := "r.Get(\"/a-b\", H); r.Get(\"/a/b\", H)"

theorem id_crowdedRoute (path : Text) : (crowdedRoute path).id = "get-a-b-H-m-go-4".toList := rfl

theorem routes_crowdedProject :
    crowdedProject.routes = .ok [crowdedRoute "/a-b", crowdedRoute "/a/b"] := by
  have hroutes : crowdedProject.routes.toOption
      = some [crowdedRoute "/a-b", crowdedRoute "/a/b"] := by decide +kernel
  cases h : crowdedProject.routes with
  | error e =>
      rw [h] at hroutes
      cases hroutes
  | ok rs =>
      rw [h] at hroutes
      injection hroutes with hroutes
      rw [hroutes]

/-- Two routes with one id, of which the id finds the first only. -/
theorem findRoute?_crowdedLine :
    crowdedProject.routes = .ok [crowdedRoute "/a-b", crowdedRoute "/a/b"] ∧
      crowdedRoute "/a-b" ≠ crowdedRoute "/a/b" ∧
      (crowdedRoute "/a-b").id = (crowdedRoute "/a/b").id ∧
      crowdedProject.findRoute? (crowdedRoute "/a/b").id = .ok (some (crowdedRoute "/a-b")) ∧
      crowdedProject.trace (crowdedRoute "/a/b").id
        = crowdedProject.traceRoute (crowdedRoute "/a-b") := by
  have hfind : crowdedProject.findRoute? (crowdedRoute "/a/b").id
      = .ok (some (crowdedRoute "/a-b")) := by
    unfold Project.findRoute?
    rw [routes_crowdedProject]
    exact congrArg Except.ok (by decide +kernel)
  refine ⟨routes_crowdedProject, by decide +kernel, ?_, hfind, ?_⟩
  · rw [id_crowdedRoute, id_crowdedRoute]
  · unfold Project.trace
    rw [hfind]
    rfl

/-- The first of the two is found by its id, and the second is like it. -/
theorem findRoute?_crowdedProject :
    crowdedProject.findRoute? (crowdedRoute "/a-b").id = .ok (some (crowdedRoute "/a-b")) ∧
      crowdedProject.findRoute? (crowdedRoute "/a/b").id ≠ .ok (some (crowdedRoute "/a/b")) ∧
      ∃ written, Alike written (crowdedRoute "/a-b") (crowdedRoute "/a/b") := by
  obtain ⟨-, written, -, hsame, hfind⟩ := findRoute?_spec crowdedProject routes_crowdedProject
  have hid : (crowdedRoute "/a-b").id = (crowdedRoute "/a/b").id := by
    rw [id_crowdedRoute, id_crowdedRoute]
  have halike : Alike written (crowdedRoute "/a-b") (crowdedRoute "/a/b") :=
    (hsame _ List.mem_cons_self _ (List.mem_cons_of_mem _ List.mem_cons_self)).1 hid
  have hfirst := (hfind [] _ [crowdedRoute "/a/b"] rfl).1
  have hsecond := (hfind [crowdedRoute "/a-b"] _ [] rfl).1
  refine ⟨hfirst.2 fun _ h => absurd h List.not_mem_nil, fun h => ?_, written, halike⟩
  exact hsecond.1 h _ List.mem_cons_self halike

end GoSurvey.Route
