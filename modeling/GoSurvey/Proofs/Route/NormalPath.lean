/-
Paths of routes in their normal form. Cleaning a path puts one slash in
the place of all those at its start, but of those at its end it takes only
one away. So what is left tells the core of the path and how many slashes
more than one stood behind it (`cleanPath_around`), and a path is cleaned
into the normal form exactly if it ends in one slash at most or consists
of slashes alone (`cleanPath_normal_iff`).
-/
import Mathlib.Data.List.Basic
import GoSurvey.Proofs.Pattern.First
import GoSurvey.Proofs.Pattern.Step
import GoSurvey.Proofs.Source.Inline
import GoSurvey.Proofs.Text.Part
import GoSurvey.Route.Registration

namespace GoSurvey.Route

open Text Source Pattern

-- ============================================================ vocabulary

/-- Slashes one after another. -/
def slashes (n : Nat) : Text := List.replicate n '/'

/-- A path without the slashes at its ends. -/
def core (p : Text) : Text := stripWhile (· == '/') p

/-- The number of slashes at the end of a path. -/
def endSlashes (p : Text) : Nat := (p.reverse.takeWhile (· == '/')).length

/-- A path with exactly one slash at its start and, unless it is that slash, none at its end. -/
def IsNormal (p : Text) : Prop :=
  (∃ rest, p = '/' :: rest ∧ rest.head? ≠ some '/') ∧ (p ≠ ['/'] → p.getLast? ≠ some '/')

/-- More than one slash stands behind the core of a path. -/
def EndsInSlashes (p : Text) : Prop := core p ≠ [] ∧ 2 ≤ endSlashes p

instance (p : Text) : Decidable (EndsInSlashes p) := inferInstanceAs (Decidable (_ ∧ _))

/-- A text that neither begins nor ends with a slash, and is not empty. -/
structure IsCore (c : Text) : Prop where
  ne_nil : c ≠ []
  first : ∀ x ∈ c.head?, (x == '/') = false
  last : ∀ x ∈ c.getLast?, (x == '/') = false

variable {p q c : Text}

-- ================================================= the parts of a path

theorem all_slashes (n : Nat) : ∀ x ∈ slashes n, (x == '/') = true :=
  fun _ h => beq_iff_eq.2 (List.eq_of_mem_replicate h)

theorem eq_slashes {t : Text} (h : ∀ x ∈ t, (x == '/') = true) : t = slashes t.length :=
  List.eq_replicate_of_mem fun x hx => beq_iff_eq.1 (h x hx)

theorem reverse_slashes (n : Nat) : (slashes n).reverse = slashes n := List.reverse_replicate

/-- A path consists of slashes, or of its core and slashes on both sides. -/
theorem path_cases (p : Text) :
    (∃ n, p = slashes n) ∨ ∃ a b, IsCore (core p) ∧ p = slashes a ++ (core p ++ slashes b) := by
  obtain ⟨trail, htrail, hslash⟩ := exists_dropEndWhile_eq (· == '/') (p.dropWhile (· == '/'))
  have hslashes : ∀ x ∈ p.takeWhile (· == '/'), (x == '/') = true := fun _ => List.mem_takeWhile_imp
  have hlead := eq_slashes hslashes
  have hall : p = slashes (p.takeWhile (· == '/')).length ++ (core p ++ slashes trail.length) := by
    rw [← hlead, ← eq_slashes hslash]
    unfold core stripWhile
    rw [← htrail, List.takeWhile_append_dropWhile]
  by_cases hne : core p = []
  · refine .inl ⟨(p.takeWhile (· == '/')).length + trail.length, ?_⟩
    rw [hne, List.nil_append] at hall
    unfold slashes at hall ⊢
    rwa [List.replicate_append_replicate] at hall
  · refine .inr ⟨_, _, ⟨hne, fun x hx => ?_, getLast?_dropEndWhile⟩, hall⟩
    have hstart : x ∈ (p.dropWhile (· == '/')).head? := by
      rw [htrail]
      show x ∈ (core p ++ trail).head?
      rwa [List.head?_append_of_ne_nil _ hne]
    have hnot := List.head?_dropWhile_not (· == '/') p
    rw [Option.mem_def.1 hstart] at hnot
    exact Bool.eq_false_iff.2 (by simpa using hnot)

theorem core_slashes (n : Nat) : core (slashes n) = [] := by
  unfold core stripWhile
  rw [List.dropWhile_eq_nil_iff.2 (all_slashes n)]
  rfl

theorem endSlashes_around (hc : IsCore c) (a b : Nat) :
    endSlashes (slashes a ++ (c ++ slashes b)) = b := by
  obtain ⟨init, x, rfl⟩ : ∃ init x, c = init ++ [x] :=
    ⟨c.dropLast, c.getLast hc.ne_nil, (List.dropLast_concat_getLast hc.ne_nil).symm⟩
  have hstop : ∀ y ∈ (x :: (init.reverse ++ slashes a)).head?, (y == '/') = false := by
    rintro y ⟨⟩
    exact hc.last x List.getLast?_concat
  have hreverse : (slashes a ++ (init ++ [x] ++ slashes b)).reverse
      = slashes b ++ x :: (init.reverse ++ slashes a) := by
    simp [reverse_slashes]
  unfold endSlashes
  rw [hreverse, takeWhile_append_of_stop hstop, List.takeWhile_eq_self_iff.2 (all_slashes b)]
  exact List.length_replicate

-- ======================================================== the last slash

/-- In a text of one line the pattern for a final slash reads nothing but the last character. -/
theorem eq_of_mem_finalSlash {s s' : State} (hline : newline ∉ s.cursor.rest)
    (h : s' ∈ readings finalSlash s) : s.cursor.rest = ['/'] ∧ s' = s.advance ['/'] := by
  obtain ⟨m, hm, hend⟩ := mem_readings_seq.1 h
  obtain ⟨hslash, rfl⟩ := mem_readings_lit.1 hm
  obtain ⟨hatEnd, rfl⟩ := mem_readings_place.1 hend
  have hrest : s.cursor.rest = ['/'] ++ (s.cursor.advance ['/']).rest :=
    Cursor.rest_eq_append hslash
  unfold Cursor.atEnd at hatEnd
  rw [Bool.or_eq_true, List.isEmpty_iff, beq_iff_eq] at hatEnd
  rcases hatEnd with hnil | hnewline
  · exact ⟨by rw [hrest]; exact congrArg (['/'] ++ ·) hnil, rfl⟩
  · refine absurd ?_ hline
    rw [hrest]
    refine List.mem_append_right _ ?_
    show newline ∈ (s.advance "/").cursor.rest
    rw [hnewline]
    exact List.mem_cons_self

theorem search_finalSlash {t : Text} (hline : newline ∉ t ++ ['/']) :
    ∃ m, finalSlash.search (t ++ ['/']) = some m ∧ m.start = t.length ∧
      m.stop = (t ++ ['/']).length := by
  have hrest : ((Cursor.start (t ++ ['/'])).advance t).rest = ['/'] := rest_advance rfl
  let s : State := ⟨(Cursor.start (t ++ ['/'])).advance t, []⟩
  have hslash : First "/" s (s.advance ['/']) := first_lit ⟨[], hrest.symm ▸ rfl⟩
  have hend : First Pattern.atEnd (s.advance ['/']) (s.advance ['/']) := by
    refine first_place ?_
    have hnil : (s.advance ['/']).cursor.rest = [] :=
      rest_advance (hrest.trans (List.append_nil _).symm)
    unfold Cursor.atEnd
    rw [hnil]
    rfl
  have hfound : finalSlash.search (t ++ ['/'])
      = some (Match.ofState s.cursor (s.advance ['/'])) := by
    refine search_eq_some (List.prefix_append t _) (matchAt_of_first (first_seq hslash hend)) ?_
    rintro v ⟨w, rfl⟩ hne
    refine matchAt_of_nil (List.eq_nil_iff_forall_not_mem.2 fun s' hs' => ?_)
    have hlater : ((Cursor.start (v ++ w ++ ['/'])).advance v).rest = w ++ ['/'] :=
      rest_advance (List.append_assoc v w _)
    have hsuffix : w ++ ['/'] <:+ v ++ w ++ ['/'] := ⟨v, (List.append_assoc v w _).symm⟩
    have hone := (eq_of_mem_finalSlash (hlater ▸ fun hmem => hline (hsuffix.subset hmem)) hs').1
    have hlength := congrArg List.length (hlater.symm.trans hone)
    rw [List.length_append, List.length_singleton] at hlength
    refine hne ?_
    rw [List.length_eq_zero_iff.1 (Nat.succ.inj hlength), List.append_nil]
  have hstart : (Match.ofState s.cursor (s.advance ['/'])).start = t.length := Nat.zero_add _
  have htakes : Takes ⟨s.cursor, []⟩ (s.advance ['/']) ['/'] :=
    ⟨hrest ▸ List.prefix_rfl, rfl⟩
  refine ⟨_, hfound, hstart, ?_⟩
  unfold Match.stop
  rw [hstart, text_ofState htakes, List.length_append]

theorem search_finalSlash_none {t : Text} (hline : newline ∉ t) (hlast : t.getLast? ≠ some '/') :
    finalSlash.search t = none := by
  rw [← Option.not_isSome_iff_eq_none]
  show ¬finalSlash.occursIn t = true
  rw [occursIn_iff]
  rintro ⟨w, s, ⟨u, rfl⟩, hs⟩
  have hrest : ((Cursor.start (w ++ u)).advance w).rest = u := rest_advance rfl
  have hnot : newline ∉ ((Cursor.start (w ++ u)).advance w).rest := by
    rw [hrest]
    exact fun hmem => hline (List.mem_append_right w hmem)
  have hslash := hrest.symm.trans (eq_of_mem_finalSlash hnot hs).1
  rw [hslash, List.getLast?_concat] at hlast
  exact hlast rfl

-- ======================================================== what is left

theorem around_succ (c : Text) (n : Nat) :
    '/' :: (c ++ slashes (n + 1)) = ('/' :: (c ++ slashes n)) ++ ['/'] := by
  unfold slashes
  rw [List.replicate_succ', List.cons_append, List.append_assoc]

theorem getLast?_around (hc : IsCore c) (n : Nat) :
    ('/' :: (c ++ slashes n)).getLast? = some '/' ↔ n ≠ 0 := by
  cases n with
  | zero =>
      refine ⟨fun h => ?_, fun h => absurd rfl h⟩
      rw [show slashes 0 = [] from rfl, List.append_nil,
        ← List.singleton_append, List.getLast?_append_of_ne_nil _ hc.ne_nil] at h
      exact absurd (hc.last _ h) (by decide)
  | succ n =>
      refine ⟨fun _ => Nat.succ_ne_zero n, fun _ => ?_⟩
      rw [around_succ, List.getLast?_concat]

/-- A path of slashes alone is cleaned into one. -/
theorem cleanPath_slashes (n : Nat) : cleanPath (slashes n) = ['/'] := by
  have hnone : (slashes n).dropWhile (· == '/') = [] :=
    List.dropWhile_eq_nil_iff.2 (all_slashes n)
  unfold cleanPath
  rw [hnone]
  decide

/-- Of a path around its core one slash is kept before the core, and one less after it. -/
theorem cleanPath_around (hc : IsCore c) (hline : newline ∉ c) (a b : Nat) :
    cleanPath (slashes a ++ (c ++ slashes b)) = '/' :: (c ++ slashes (b - 1)) := by
  have hrooted : (slashes a ++ (c ++ slashes b)).dropWhile (· == '/') = c ++ slashes b := by
    obtain ⟨x, rest, rfl⟩ := List.exists_cons_of_ne_nil hc.ne_nil
    rw [List.dropWhile_append_of_pos (all_slashes a)]
    exact List.dropWhile_cons_of_neg (Bool.eq_false_iff.1 (hc.first x rfl))
  have hnewline : ∀ n, newline ∉ '/' :: (c ++ slashes n) := by
    intro n hmem
    rcases List.mem_cons.1 hmem with h | hmem
    · exact absurd h (by decide)
    · rcases List.mem_append.1 hmem with hmem | hmem
      · exact hline hmem
      · exact absurd (List.eq_of_mem_replicate hmem) (by decide)
  unfold cleanPath
  rw [hrooted]
  dsimp only
  cases b with
  | zero =>
      have hlast : ('/' :: (c ++ slashes 0)).getLast? ≠ some '/' :=
        fun h => (getLast?_around hc 0).1 h rfl
      rw [search_finalSlash_none (hnewline 0) hlast]
      rfl
  | succ b =>
      have hsplit := around_succ c b
      obtain ⟨m, hm, hstart, hstop⟩ := search_finalSlash (hsplit ▸ hnewline (b + 1))
      rw [hsplit, hm]
      dsimp only
      rw [hstart, hstop, List.take_left, List.drop_length, List.append_nil]
      rfl

-- ===================================================== the normal form

theorem newline_not_mem_core (h : newline ∉ p) : newline ∉ core p :=
  fun hmem => h ((stripWhile_isInfix _ p).subset hmem)

/-- What cleaning leaves of a path. -/
theorem cleanPath_cases (h : newline ∉ p) :
    core p = [] ∧ cleanPath p = ['/'] ∨
      IsCore (core p) ∧ cleanPath p = '/' :: (core p ++ slashes (endSlashes p - 1)) := by
  rcases path_cases p with ⟨n, rfl⟩ | ⟨a, b, hcore, hp⟩
  · exact .inl ⟨core_slashes n, cleanPath_slashes n⟩
  · refine .inr ⟨hcore, ?_⟩
    have hclean := cleanPath_around hcore (newline_not_mem_core h) a b
    have hend := endSlashes_around hcore a b
    rw [← hp] at hclean hend
    rw [hend]
    exact hclean

theorem around_inj {m n : Nat} (h : '/' :: (c ++ slashes m) = '/' :: (c ++ slashes n)) : m = n := by
  have hlength := congrArg List.length (List.append_cancel_left (List.cons.inj h).2)
  unfold slashes at hlength
  rwa [List.length_replicate, List.length_replicate] at hlength

theorem exists_cleanPath (h : newline ∉ p) :
    ∃ rest, cleanPath p = '/' :: rest ∧ rest.head? ≠ some '/' := by
  rcases cleanPath_cases h with ⟨-, hclean⟩ | ⟨hcore, hclean⟩
  · exact ⟨[], hclean, by simp⟩
  · refine ⟨_, hclean, fun hhead => ?_⟩
    rw [List.head?_append_of_ne_nil _ hcore.ne_nil] at hhead
    exact absurd (hcore.first _ hhead) (by decide)

/-- A cleaned path is in the normal form unless more than one slash stood behind the core. -/
theorem isNormal_cleanPath_iff (h : newline ∉ p) : IsNormal (cleanPath p) ↔ ¬EndsInSlashes p := by
  unfold IsNormal EndsInSlashes
  rw [and_iff_right (exists_cleanPath h)]
  rcases cleanPath_cases h with ⟨hcore, hclean⟩ | ⟨hcore, hclean⟩
  · exact iff_of_true (fun hne => absurd hclean hne) fun hslashes => hslashes.1 hcore
  · have hne : cleanPath p ≠ ['/'] := by
      rw [hclean]
      intro hone
      exact hcore.ne_nil (List.append_eq_nil_iff.1 (List.cons.inj hone).2).1
    rw [imp_iff_right hne, hclean, Ne, getLast?_around hcore, and_iff_right hcore.ne_nil]
    omega

/-- Cleaning takes one more slash away from a path that was not clean. -/
theorem cleanPath_cleanPath_iff (h : newline ∉ p) :
    cleanPath (cleanPath p) = cleanPath p ↔ ¬EndsInSlashes p := by
  unfold EndsInSlashes
  rcases cleanPath_cases h with ⟨hcore, hclean⟩ | ⟨hcore, hclean⟩
  · rw [hclean]
    exact iff_of_true (cleanPath_slashes 1) fun hslashes => hslashes.1 hcore
  · have hagain := cleanPath_around hcore (newline_not_mem_core h) 1 (endSlashes p - 1)
    have hone : slashes 1 ++ (core p ++ slashes (endSlashes p - 1)) = cleanPath p := hclean.symm
    rw [hone] at hagain
    rw [hagain, hclean, and_iff_right hcore.ne_nil]
    refine ⟨fun hsame => ?_, fun hfew => ?_⟩
    · have hcount := around_inj hsame
      omega
    · congr 3
      omega

/-- What is told apart of paths with the same core. -/
theorem cleanPath_eq_iff (hp : newline ∉ p) (hq : newline ∉ q) (hsame : core p = core q) :
    cleanPath p = cleanPath q ↔ core p = [] ∨ endSlashes p - 1 = endSlashes q - 1 := by
  rcases cleanPath_cases hp with ⟨hcore, hclean⟩ | ⟨hcore, hclean⟩
  · rcases cleanPath_cases hq with ⟨-, hclean'⟩ | ⟨hcore', -⟩
    · exact iff_of_true (hclean.trans hclean'.symm) (.inl hcore)
    · exact absurd (hsame.symm.trans hcore) hcore'.ne_nil
  · rcases cleanPath_cases hq with ⟨hcore', -⟩ | ⟨-, hclean'⟩
    · exact absurd (hsame.trans hcore') hcore.ne_nil
    · rw [hclean, hclean', ← hsame, or_iff_right hcore.ne_nil]
      exact ⟨around_inj, fun hcount => by rw [hcount]⟩

/-- A later route of the same method is left out exactly if it has the same path. -/
theorem firstRegistrations_pair {r s : Route} (hmethod : r.method = s.method) :
    firstRegistrations [] [r, s] = [r] ↔ r.path = s.path := by
  have hfirst : firstRegistrations [] [r, s]
      = r :: firstRegistrations [(r.method, r.path)] [s] := rfl
  have hlater : [(r.method, r.path)].contains (s.method, s.path) = true ↔ r.path = s.path := by
    rw [List.contains_iff_mem, List.mem_singleton, Prod.mk.injEq, and_iff_right hmethod.symm,
      eq_comm]
  rw [hfirst, firstRegistrations, firstRegistrations, ← hlater]
  split
  · next hseen => exact iff_of_true rfl hseen
  · next hseen => exact iff_of_false (by simp) hseen

/-- A cleaned path has one slash at its start. It is in the normal form, and is left as it is when
it is cleaned again, exactly if at most one slash stood behind the core. Paths with the same core
become the same path, and two routes of one method with them are taken for one, exactly if as many
slashes more than one stood behind it. -/
theorem cleanPath_normal_iff (hp : newline ∉ p) (hq : newline ∉ q) :
    (∃ rest, cleanPath p = '/' :: rest ∧ rest.head? ≠ some '/') ∧
    (IsNormal (cleanPath p) ↔ ¬EndsInSlashes p) ∧
    (cleanPath (cleanPath p) = cleanPath p ↔ ¬EndsInSlashes p) ∧
    (core p = core q → (cleanPath p = cleanPath q ↔
      core p = [] ∨ endSlashes p - 1 = endSlashes q - 1)) ∧
    ∀ r s : Route, r.method = s.method → r.path = cleanPath p → s.path = cleanPath q →
      core p = core q → (firstRegistrations [] [r, s] = [r] ↔
        core p = [] ∨ endSlashes p - 1 = endSlashes q - 1) := by
  refine ⟨exists_cleanPath hp, isNormal_cleanPath_iff hp, cleanPath_cleanPath_iff hp,
    cleanPath_eq_iff hp hq, fun r s hmethod hr hs hsame => ?_⟩
  rw [firstRegistrations_pair hmethod, hr, hs]
  exact cleanPath_eq_iff hp hq hsame

/-- Two slashes behind the core are one too many. -/
theorem cleanPath_normal_twoSlashes :
    newline ∉ "//users//".toList ∧ newline ∉ "users/".toList ∧
      core "//users//" = core "users/" ∧ EndsInSlashes "//users//" ∧
      cleanPath "//users//" = "/users/" ∧ ¬IsNormal (cleanPath "//users//") ∧
      cleanPath (cleanPath "//users//") ≠ cleanPath "//users//" ∧
      cleanPath "//users//" ≠ cleanPath "users/" := by
  have hp : newline ∉ "//users//".toList := by decide
  have hq : newline ∉ "users/".toList := by decide
  have hsame : core "//users//" = core "users/" := by decide
  have hslashes : EndsInSlashes "//users//" := by decide
  have hdifferent :
      ¬(core "//users//" = [] ∨ endSlashes "//users//" - 1 = endSlashes "users/" - 1) := by
    decide
  obtain ⟨-, hnormal, hagain, hpaths, -⟩ := cleanPath_normal_iff hp hq
  exact ⟨hp, hq, hsame, hslashes, by decide, fun h => hnormal.1 h hslashes,
    fun h => hagain.1 h hslashes, fun h => hdifferent ((hpaths hsame).1 h)⟩

end GoSurvey.Route
