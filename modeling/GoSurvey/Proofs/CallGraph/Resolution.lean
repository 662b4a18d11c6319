/-
Which function a call is resolved to. A package and a name are joined into
one key by a dot; since no name holds one, the key gives both back
(`qualifiedKey_inj`), and a function that is found by its key is one that
its name alone would find as well. So the call reaches the last function
of its package and name or, where there is none, the last one of its name,
and it reaches none only if no function has the name.

Functions are kept under their keys and names in tables that later
functions overwrite. What such a table holds at the end is the last
function of each key (`tableBy_eq`).

Resolving fills in two fields of a call and reads neither of them, so to
resolve twice is to resolve once. Where no two functions share a name, the
order of the functions has no influence either.
-/
import GoSurvey.CallGraph.Resolve
import GoSurvey.Proofs.Text.Pieces
import Mathlib.Data.List.Induction
import Mathlib.Data.List.Nodup
import Mathlib.Data.Option.Basic

namespace GoSurvey.CallGraph

open Text

variable {functions : List FunctionDef} {c : FunctionCall} {t : FunctionDef}
  {qualifier name : Text}

-- ===================================================== the last function

/-- A function is the last one of a list with a property. -/
def IsLastWith (P : FunctionDef → Prop) (functions : List FunctionDef) (t : FunctionDef) : Prop :=
  ∃ before after, functions = before ++ t :: after ∧ P t ∧ ∀ f ∈ after, ¬P f

theorem lastWith_eq_some_iff {p : FunctionDef → Bool} :
    lastWith p functions = some t ↔ IsLastWith (p · = true) functions t := by
  unfold lastWith IsLastWith
  rw [List.find?_eq_some_iff_append]
  constructor
  · rintro ⟨ht, after, before, hsplit, hafter⟩
    refine ⟨before.reverse, after.reverse, ?_, ht, fun f hf => ?_⟩
    · rw [← List.reverse_inj, hsplit]
      simp
    · simpa using hafter f (List.mem_reverse.1 hf)
  · rintro ⟨before, after, rfl, ht, hafter⟩
    refine ⟨ht, after.reverse, before.reverse, by simp, fun f hf => ?_⟩
    simpa using hafter f (List.mem_reverse.1 hf)

theorem lastWith_eq_none_iff {p : FunctionDef → Bool} :
    lastWith p functions = none ↔ ∀ f ∈ functions, ¬p f = true := by
  unfold lastWith
  rw [List.find?_eq_none]
  exact ⟨fun h f hf => h f (List.mem_reverse.2 hf), fun h f hf => h f (List.mem_reverse.1 hf)⟩

theorem IsLastWith.mem {P : FunctionDef → Prop} (h : IsLastWith P functions t) : t ∈ functions := by
  obtain ⟨before, after, rfl, -, -⟩ := h
  exact List.mem_append_right _ List.mem_cons_self

theorem IsLastWith.holds {P : FunctionDef → Prop} (h : IsLastWith P functions t) : P t := by
  obtain ⟨-, -, -, ht, -⟩ := h
  exact ht

theorem IsLastWith.congr {P Q : FunctionDef → Prop} (hPQ : ∀ f ∈ functions, P f ↔ Q f) :
    IsLastWith P functions t ↔ IsLastWith Q functions t := by
  unfold IsLastWith
  refine exists_congr fun before => exists_congr fun after => and_congr_right fun hsplit => ?_
  subst hsplit
  have ht := hPQ t (List.mem_append_right _ List.mem_cons_self)
  have hafter : ∀ f ∈ after, P f ↔ Q f :=
    fun f hf => hPQ f (List.mem_append_right _ (List.mem_cons_of_mem t hf))
  exact and_congr ht (forall₂_congr fun f hf => not_congr (hafter f hf))

-- ======================================================== the two tables

/-- A table of functions by a key, filled in order; a function takes the place of an earlier one
of its key. -/
def tableBy (key : FunctionDef → Text) (functions : List FunctionDef) : Text → Option FunctionDef :=
  functions.foldl (fun table f => Function.update table (key f) (some f)) fun _ => none

/-- What a table holds under a key is the last function of that key. -/
theorem tableBy_eq (key : FunctionDef → Text) (functions : List FunctionDef) (k : Text) :
    tableBy key functions k = lastWith (fun f => key f == k) functions := by
  induction functions using List.reverseRecOn with
  | nil => rfl
  | append_singleton functions f ih =>
      unfold tableBy lastWith at ih ⊢
      rw [List.foldl_concat, List.reverse_concat, List.find?_cons]
      by_cases hkey : key f = k
      · subst hkey
        rw [Function.update_self, beq_self_eq_true]
      · rw [Function.update_of_ne (Ne.symm hkey), beq_false_of_ne hkey]
        exact ih

-- ===================================================== what a call names

/-- A call names a function of a package: by a qualified name, of which the function is the part
after the last dot, or by a bare name, which stands for one of the caller's own package. -/
def Names (c : FunctionCall) (qualifier name : Text) : Prop :=
  c.called = qualifier ++ '.' :: name ∧ '.' ∉ name ∨
    c.called = name ∧ '.' ∉ name ∧ qualifier = c.package

theorem names_iff : Names c qualifier name ↔ qualifierAndName c = (qualifier, name) := by
  unfold Names qualifierAndName
  cases hcut : cutLast? '.' c.called with
  | none =>
      have hnot := cutLast?_eq_none hcut
      rw [Option.getD_none, Prod.mk.injEq]
      constructor
      · rintro (⟨hcalled, -⟩ | ⟨hcalled, -, hpackage⟩)
        · rw [hcalled] at hnot
          exact absurd (List.mem_append_right _ List.mem_cons_self) hnot
        · exact ⟨hpackage.symm, hcalled⟩
      · rintro ⟨rfl, rfl⟩
        exact .inr ⟨rfl, hnot, rfl⟩
  | some parts =>
      obtain ⟨before, after⟩ := parts
      obtain ⟨hcalled, hafter⟩ := cutLast?_eq_some hcut
      rw [Option.getD_some, Prod.mk.injEq, hcalled]
      constructor
      · rintro (⟨hsplit, hname⟩ | ⟨rfl, hname, -⟩)
        · obtain rfl := append_cons_inj hsplit hafter hname
          exact ⟨List.append_cancel_right hsplit, rfl⟩
        · exact absurd (List.mem_append_right _ List.mem_cons_self) hname
      · rintro ⟨rfl, rfl⟩
        exact .inl ⟨rfl, hafter⟩

theorem Names.dot_not_mem (h : Names c qualifier name) : '.' ∉ name := by
  rcases h with ⟨-, hname⟩ | ⟨-, hname, -⟩
  · exact hname
  · exact hname

theorem Names.lastPiece_eq (h : Names c qualifier name) : lastPiece '.' c.called = name := by
  rcases h with ⟨hcalled, hname⟩ | ⟨rfl, hname, -⟩
  · rw [hcalled, lastPiece_append_cons qualifier hname]
  · exact lastPiece_of_not_mem hname

/-- Every call names one function of one package. -/
theorem existsUnique_names (c : FunctionCall) : ∃! n : Text × Text, Names c n.1 n.2 :=
  ⟨qualifierAndName c, names_iff.2 rfl, fun _ h => (names_iff.1 h).symm⟩

-- ============================================================ the target

/-- A key gives back the package and the name that it is made of. -/
theorem qualifiedKey_inj {package package' name' : Text} (hname : '.' ∉ name)
    (hname' : '.' ∉ name') :
    qualifiedKey package name = qualifiedKey package' name' ↔
      package = package' ∧ name = name' := by
  constructor
  · intro h
    unfold qualifiedKey at h
    have hdot : (".".toList : Text) = ['.'] := rfl
    rw [hdot, List.append_assoc, List.append_assoc] at h
    obtain rfl := append_cons_inj h hname hname'
    exact ⟨List.append_cancel_right h, rfl⟩
  · rintro ⟨rfl, rfl⟩
    rfl

theorem target?_eq (h : Names c qualifier name) :
    target? functions c
      = (byQualified? functions (qualifiedKey qualifier name)).or (byName? functions name) := by
  unfold target?
  rw [names_iff.1 h]
  dsimp only
  cases byQualified? functions (qualifiedKey qualifier name) <;> rfl

section Named

variable (hnames : ∀ f ∈ functions, '.' ∉ f.name) (h : Names c qualifier name)

include hnames h

theorem byQualified?_eq_some_iff :
    byQualified? functions (qualifiedKey qualifier name) = some t ↔
      IsLastWith (fun f => f.package = qualifier ∧ f.name = name) functions t := by
  refine lastWith_eq_some_iff.trans (IsLastWith.congr fun f hf => ?_)
  rw [beq_iff_eq]
  exact qualifiedKey_inj (hnames f hf) h.dot_not_mem

theorem byQualified?_eq_none_iff :
    byQualified? functions (qualifiedKey qualifier name) = none ↔
      ∀ f ∈ functions, ¬(f.package = qualifier ∧ f.name = name) := by
  refine lastWith_eq_none_iff.trans (forall₂_congr fun f hf => not_congr ?_)
  rw [beq_iff_eq]
  exact qualifiedKey_inj (hnames f hf) h.dot_not_mem

/-- The package counts before the place in the list. -/
theorem target?_eq_some_iff :
    target? functions c = some t ↔
      IsLastWith (fun f => f.package = qualifier ∧ f.name = name) functions t ∨
        (∀ f ∈ functions, ¬(f.package = qualifier ∧ f.name = name)) ∧
          IsLastWith (fun f => f.name = name) functions t := by
  have hbyName : byName? functions name = some t ↔
      IsLastWith (fun f => f.name = name) functions t :=
    lastWith_eq_some_iff.trans (IsLastWith.congr fun f _ => beq_iff_eq)
  rw [target?_eq h, Option.or_eq_some_iff, byQualified?_eq_some_iff hnames h,
    byQualified?_eq_none_iff hnames h, hbyName]

theorem target?_eq_none_iff : target? functions c = none ↔ ∀ f ∈ functions, f.name ≠ name := by
  have hbyName : byName? functions name = none ↔ ∀ f ∈ functions, f.name ≠ name :=
    lastWith_eq_none_iff.trans (forall₂_congr fun f _ => not_congr beq_iff_eq)
  rw [target?_eq h, Option.or_eq_none_iff, byQualified?_eq_none_iff hnames h, hbyName]
  exact and_iff_right_of_imp fun hnone f hf hboth => hnone f hf hboth.2

end Named

/-- A call reaches one of the functions, and that has the name it looks for. -/
theorem target?_name (hnames : ∀ f ∈ functions, '.' ∉ f.name) (ht : target? functions c = some t) :
    t ∈ functions ∧ t.name = lastPiece '.' c.called := by
  obtain ⟨⟨qualifier, name⟩, h, -⟩ := existsUnique_names c
  rw [h.lastPiece_eq]
  rcases (target?_eq_some_iff hnames h).1 ht with hlast | ⟨-, hlast⟩
  · exact ⟨hlast.mem, hlast.holds.2⟩
  · exact ⟨hlast.mem, hlast.holds⟩

/-- Where no two functions share a name, a call reaches the one of its name. -/
theorem target?_of_nodup (hnames : ∀ f ∈ functions, '.' ∉ f.name) (h : Names c qualifier name)
    (hnodup : (functions.map (·.name)).Nodup) :
    target? functions c = some t ↔ t ∈ functions ∧ t.name = name := by
  have hmem : ∀ {t : FunctionDef}, target? functions c = some t →
      t ∈ functions ∧ t.name = name := fun ht => h.lastPiece_eq ▸ target?_name hnames ht
  refine ⟨hmem, fun ⟨ht, hname⟩ => ?_⟩
  cases hfound : target? functions c with
  | none => exact absurd hname ((target?_eq_none_iff hnames h).1 hfound t ht)
  | some t' =>
      obtain ⟨ht', hname'⟩ := hmem hfound
      rw [List.inj_on_of_nodup_map hnodup ht' ht (hname'.trans hname.symm)]

/-- Functions of different names may be listed in any order. -/
theorem target?_perm {functions' : List FunctionDef} (hnames : ∀ f ∈ functions, '.' ∉ f.name)
    (hnodup : (functions.map (·.name)).Nodup) (hperm : functions'.Perm functions)
    (c : FunctionCall) : target? functions' c = target? functions c := by
  obtain ⟨⟨qualifier, name⟩, h, -⟩ := existsUnique_names c
  have hnames' : ∀ f ∈ functions', '.' ∉ f.name := fun f hf => hnames f (hperm.mem_iff.1 hf)
  have hnodup' : (functions'.map (·.name)).Nodup := (hperm.map _).nodup_iff.2 hnodup
  refine Option.ext fun t => ?_
  rw [target?_of_nodup hnames' h hnodup', target?_of_nodup hnames h hnodup, hperm.mem_iff]

-- ============================================================= resolving

/-- What resolving may make of a call: it fills in the place of the target, if there is one, and
changes nothing else. -/
structure Resolves (functions : List FunctionDef) (c c' : FunctionCall) : Prop where
  kept : { c' with targetFile := c.targetFile, targetLine := c.targetLine } = c
  found : ∀ t, target? functions c = some t →
    c'.targetFile = some t.file ∧ c'.targetLine = some t.line
  unknown : target? functions c = none → c' = c

theorem resolves_resolveCall (functions : List FunctionDef) (c : FunctionCall) :
    Resolves functions c (resolveCall functions c) := by
  unfold resolveCall
  cases htarget : target? functions c with
  | none =>
      refine ⟨rfl, fun t ht => ?_, fun _ => rfl⟩
      rw [htarget] at ht
      cases ht
  | some t =>
      refine ⟨rfl, fun t' ht' => ?_, fun hnone => ?_⟩
      · obtain rfl := Option.some.inj (htarget.symm.trans ht')
        exact ⟨rfl, rfl⟩
      · rw [htarget] at hnone
        cases hnone

/-- What a call names does not depend on whether it has been resolved. -/
theorem target?_resolveCall (functions functions' : List FunctionDef) (c : FunctionCall) :
    target? functions' (resolveCall functions c) = target? functions' c := by
  unfold resolveCall
  cases target? functions c <;> rfl

theorem resolveCall_resolveCall (functions : List FunctionDef) (c : FunctionCall) :
    resolveCall functions (resolveCall functions c) = resolveCall functions c := by
  have hsame := target?_resolveCall functions functions c
  cases htarget : target? functions c with
  | none =>
      rw [htarget] at hsame
      rw [(resolves_resolveCall functions (resolveCall functions c)).unknown hsame]
  | some t =>
      rw [htarget] at hsame
      obtain ⟨hfile, hline⟩ := (resolves_resolveCall functions c).found t htarget
      have hkept := (resolves_resolveCall functions (resolveCall functions c)).kept
      obtain ⟨hfile', hline'⟩ :=
        (resolves_resolveCall functions (resolveCall functions c)).found t hsame
      rw [hfile, ← hfile', hline, ← hline'] at hkept
      exact hkept

theorem resolve_resolve (g : CallGraph) : resolve (resolve g) = resolve g := by
  unfold resolve
  dsimp only
  rw [List.map_map]
  refine congrArg (CallGraph.mk g.functions) (List.map_congr_left fun c _ => ?_)
  exact resolveCall_resolveCall g.functions c

-- ======================================================= the main result

/-- A call reaches the last function of its package and name or, failing that, the last one of its
name, and none exactly if no function has the name; that is what the tables of all keys and of all
names hold. Resolving changes nothing but the place of the target, and only of calls that have
one; it changes nothing when it is done again; and of functions with different names the order has
no influence. -/
theorem resolution_lastMatch (hnames : ∀ f ∈ functions, '.' ∉ f.name) :
    (∀ c, ∃! n : Text × Text, Names c n.1 n.2) ∧
    (∀ c qualifier name, Names c qualifier name →
      target? functions c
        = (tableBy (fun f => qualifiedKey f.package f.name) functions
            (qualifiedKey qualifier name)).or (tableBy (·.name) functions name) ∧
      (∀ t, target? functions c = some t ↔
        IsLastWith (fun f => f.package = qualifier ∧ f.name = name) functions t ∨
          (∀ f ∈ functions, ¬(f.package = qualifier ∧ f.name = name)) ∧
            IsLastWith (fun f => f.name = name) functions t) ∧
      (target? functions c = none ↔ ∀ f ∈ functions, f.name ≠ name)) ∧
    (∀ calls, (resolve ⟨functions, calls⟩).functions = functions ∧
      List.Forall₂ (Resolves functions) calls (resolve ⟨functions, calls⟩).calls ∧
      resolve (resolve ⟨functions, calls⟩) = resolve ⟨functions, calls⟩) ∧
    ((functions.map (·.name)).Nodup → ∀ functions', functions'.Perm functions →
      (∀ c, target? functions' c = target? functions c) ∧
      ∀ calls, (resolve ⟨functions', calls⟩).calls = (resolve ⟨functions, calls⟩).calls) := by
  refine ⟨existsUnique_names, fun c qualifier name h => ⟨?_, fun t => ?_, ?_⟩,
    fun calls => ⟨rfl, ?_, resolve_resolve _⟩, fun hnodup functions' hperm => ?_⟩
  · rw [tableBy_eq, tableBy_eq]
    exact target?_eq h
  · exact target?_eq_some_iff hnames h
  · exact target?_eq_none_iff hnames h
  · exact List.forall₂_map_right_iff.2 (List.forall₂_same.2 fun c _ => resolves_resolveCall _ c)
  · have htarget := target?_perm hnames hnodup hperm
    refine ⟨htarget, fun calls => List.map_congr_left fun c _ => ?_⟩
    unfold resolveCall
    rw [htarget]

/-- Three functions of one name in two packages. -/
def threeSaves : List FunctionDef :=
  [⟨"Save", "a.go", 3, "repo", [], [], []⟩, ⟨"Save", "b.go", 5, "repo", [], [], []⟩,
   ⟨"Save", "c.go", 7, "cache", [], [], []⟩]

/-- The package decides between functions of one name, and after that the place in the list. -/
theorem resolution_threeSaves :
    (∀ f ∈ threeSaves, '.' ∉ f.name) ∧
    IsLastWith (fun f => f.package = "repo".toList ∧ f.name = "Save".toList) threeSaves
      ⟨"Save", "b.go", 5, "repo", [], [], []⟩ ∧
    target? threeSaves ⟨"Run", "m.go", 9, "repo.Save", "main", none, none⟩
      = some ⟨"Save", "b.go", 5, "repo", [], [], []⟩ ∧
    target? threeSaves ⟨"Run", "m.go", 9, "Save", "main", none, none⟩
      = some ⟨"Save", "c.go", 7, "cache", [], [], []⟩ := by
  have hnames : ∀ f ∈ threeSaves, '.' ∉ f.name := by decide
  obtain ⟨-, htarget, -⟩ := resolution_lastMatch hnames
  have hlast : IsLastWith (fun f => f.package = "repo".toList ∧ f.name = "Save".toList) threeSaves
      ⟨"Save", "b.go", 5, "repo", [], [], []⟩ :=
    ⟨[⟨"Save", "a.go", 3, "repo", [], [], []⟩], [⟨"Save", "c.go", 7, "cache", [], [], []⟩],
      rfl, by decide, by decide⟩
  have hqualified : Names ⟨"Run", "m.go", 9, "repo.Save", "main", none, none⟩ "repo" "Save" :=
    .inl ⟨rfl, by decide⟩
  have hbare : Names ⟨"Run", "m.go", 9, "Save", "main", none, none⟩ "main" "Save" :=
    .inr ⟨rfl, by decide, rfl⟩
  refine ⟨hnames, hlast, ((htarget _ _ _ hqualified).2.1 _).2 (.inl hlast),
    ((htarget _ _ _ hbare).2.1 _).2 (.inr ⟨by decide, ?_⟩)⟩
  exact ⟨threeSaves.take 2, [], rfl, rfl, fun f hf => absurd hf List.not_mem_nil⟩

end GoSurvey.CallGraph
