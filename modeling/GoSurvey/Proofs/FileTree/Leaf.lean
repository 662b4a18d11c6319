/-
The files below a directory. A file system does not say in which order a
directory lists its entries, and no two of them have the same name; that
is `WellFormed`. A path leads to what one comes to by following its names
(`at?`), whatever the order of the entries.

A walk sorts the entries of each directory by name and goes into those
directories that are kept. So it finds the files that a path leads to
through kept directories (`mem_leaves_iff`), each one time, in the order of
their paths name by name (`leaves_pairwise`). This is not the order of the
paths as texts: a directory `a` comes before a file `a.go`, although a
slash comes after a dot.

These two facts leave only one list, and neither of them depends on the
order in which the directories list their entries (`Reordered.same`).
-/
import GoSurvey.FileTree.Basic
import GoSurvey.Proofs.FileTree.Path
import GoSurvey.Proofs.List.Perm
import GoSurvey.Proofs.Text.Order

namespace GoSurvey.FileTree

open Text GoSurvey.Path

-- =============================================================== trees

/-- The entries of every directory have names, and distinct ones. -/
inductive WellFormed : FileTree → Prop where
  | file (content : Text) : WellFormed (.file content)
  | dir {es : List (Text × FileTree)} (distinct : (es.map (·.1)).Nodup)
      (names : ∀ e ∈ es, IsName e.1) (below : ∀ e ∈ es, WellFormed e.2) : WellFormed (.dir es)

theorem wellFormed_single {name : Text} {t : FileTree} (hname : IsName name) (ht : t.WellFormed) :
    (dir [(name, t)]).WellFormed :=
  .dir (List.nodup_singleton _) (List.forall_mem_singleton.2 hname) (List.forall_mem_singleton.2 ht)

/-- What one comes to by following names. -/
def at? : FileTree → List Text → Option FileTree
  | t, [] => some t
  | t, name :: path => (t.child? name).bind fun below => at? below path

/-- Two trees that differ in the order in which some directories list their entries. -/
inductive Reordered : FileTree → FileTree → Prop where
  | refl (t : FileTree) : Reordered t t
  | entries {es fs : List (Text × FileTree)} (h : es.Perm fs) : Reordered (.dir es) (.dir fs)
  | inside {before after : List (Text × FileTree)} {name : Text} {t u : FileTree}
      (h : Reordered t u) :
      Reordered (.dir (before ++ (name, t) :: after)) (.dir (before ++ (name, u) :: after))
  | trans {t u v : FileTree} (h : Reordered t u) (h' : Reordered u v) : Reordered t v

-- =============================================================== paths

theorem at?_append (t : FileTree) (path rest : List Text) :
    t.at? (path ++ rest) = (t.at? path).bind (·.at? rest) := by
  induction path generalizing t with
  | nil => rfl
  | cons name path ih =>
      rw [List.cons_append, at?, at?]
      cases t.child? name with
      | none => rfl
      | some below => exact ih below

/-- Nothing lies below a file. -/
theorem at?_file {content : Text} {path : List Text} (hpath : path ≠ []) :
    (file content).at? path = none := by
  cases path with
  | nil => exact absurd rfl hpath
  | cons name path => rfl

/-- A directory knows each of its entries by its name. -/
theorem child?_eq_some_iff {es : List (Text × FileTree)} (h : (dir es).WellFormed) {name : Text}
    {t : FileTree} : (dir es).child? name = some t ↔ (name, t) ∈ es := by
  cases h with
  | dir distinct names below => exact lookup_eq_some_iff_mem distinct

theorem at?_dir_eq_some_iff {es : List (Text × FileTree)} (h : (dir es).WellFormed) {name : Text}
    {path : List Text} {u : FileTree} :
    (dir es).at? (name :: path) = some u ↔ ∃ t, (name, t) ∈ es ∧ t.at? path = some u := by
  rw [at?, Option.bind_eq_some_iff]
  simp only [child?_eq_some_iff h]

/-- A path leads through names, and what it leads to is a tree. -/
theorem of_at? {t : FileTree} (h : t.WellFormed) {path : List Text} {u : FileTree}
    (hu : t.at? path = some u) : u.WellFormed ∧ ∀ name ∈ path, IsName name := by
  induction path generalizing t with
  | nil =>
      injection hu with hu
      exact ⟨hu ▸ h, fun name hname => absurd hname List.not_mem_nil⟩
  | cons first path ih =>
      cases t with
      | file content => rw [at?_file (List.cons_ne_nil first path)] at hu; cases hu
      | dir es =>
          obtain ⟨t, ht, hu⟩ := (at?_dir_eq_some_iff h).1 hu
          cases h with
          | dir distinct names below =>
              obtain ⟨htree, hpath⟩ := ih (below _ ht) hu
              exact ⟨htree, List.forall_mem_cons.2 ⟨names _ ht, hpath⟩⟩

theorem wellFormed_of_at? {t : FileTree} (h : t.WellFormed) {path : List Text} {u : FileTree}
    (hu : t.at? path = some u) : u.WellFormed :=
  (of_at? h hu).1

theorem isName_of_at? {t : FileTree} (h : t.WellFormed) {path : List Text} {u : FileTree}
    (hu : t.at? path = some u) : ∀ name ∈ path, IsName name :=
  (of_at? h hu).2

-- ============================================================ the walk

/-- The files of an entry, under its name. -/
def entryLeaves (keep : Text → Bool) (name : Text) : FileTree → List Leaf
  | file content => [([name], content)]
  | dir es =>
    (if keep name then leaves keep (dir es) else []).map fun (path, content) =>
      (name :: path, content)

theorem leafGroups_eq_map (keep : Text → Bool) (es : List (Text × FileTree)) :
    leafGroups keep es = es.map fun e => (e.1, entryLeaves keep e.1 e.2) := by
  induction es with
  | nil => rw [leafGroups, List.map_nil]
  | cons e rest ih =>
      obtain ⟨name, t⟩ := e
      cases t with
      | file content => rw [leafGroups, ih, List.map_cons, entryLeaves]
      | dir below => rw [leafGroups, ih, List.map_cons, entryLeaves]

theorem map_fst_leafGroups (keep : Text → Bool) (es : List (Text × FileTree)) :
    (leafGroups keep es).map (·.1) = es.map (·.1) := by
  rw [leafGroups_eq_map, List.map_map]
  rfl

theorem mem_leaves_dir {keep : Text → Bool} {es : List (Text × FileTree)} {leaf : Leaf} :
    leaf ∈ leaves keep (dir es) ↔ ∃ e ∈ es, leaf ∈ entryLeaves keep e.1 e.2 := by
  rw [leaves, List.mem_flatMap]
  constructor
  · rintro ⟨group, hgroup, hleaf⟩
    rw [List.mem_mergeSort, leafGroups_eq_map] at hgroup
    obtain ⟨e, he, rfl⟩ := List.mem_map.1 hgroup
    exact ⟨e, he, hleaf⟩
  · rintro ⟨e, he, hleaf⟩
    refine ⟨(e.1, entryLeaves keep e.1 e.2), ?_, hleaf⟩
    rw [List.mem_mergeSort, leafGroups_eq_map]
    exact List.mem_map_of_mem he

/-- The paths of the files of an entry begin with its name. -/
theorem exists_of_mem_entryLeaves {keep : Text → Bool} {name : Text} {t : FileTree} {leaf : Leaf}
    (h : leaf ∈ entryLeaves keep name t) : ∃ path, leaf.1 = name :: path := by
  cases t with
  | file content =>
      rw [entryLeaves, List.mem_singleton] at h
      exact ⟨[], by rw [h]⟩
  | dir es =>
      rw [entryLeaves] at h
      obtain ⟨below, -, rfl⟩ := List.mem_map.1 h
      exact ⟨below.1, rfl⟩

/-- A file is found if a path leads to it through directories that are kept. -/
structure IsLeaf (keep : Text → Bool) (t : FileTree) (path : List Text) (content : Text) :
    Prop where
  below : path ≠ []
  found : t.at? path = some (file content)
  kept : ∀ dir ∈ path.dropLast, keep dir = true

theorem mem_entryLeaves_iff {keep : Text → Bool} {name first content : Text} {path : List Text}
    {t : FileTree}
    (ih : ∀ path content, (path, content) ∈ leaves keep t ↔ IsLeaf keep t path content) :
    (first :: path, content) ∈ entryLeaves keep name t ↔ first = name ∧
      t.at? path = some (file content) ∧ ∀ dir ∈ (name :: path).dropLast, keep dir = true := by
  cases t with
  | file found =>
      rw [entryLeaves, List.mem_singleton, Prod.mk.injEq, List.cons.injEq]
      constructor
      · rintro ⟨⟨rfl, rfl⟩, rfl⟩
        exact ⟨rfl, rfl, fun dir hdir => absurd hdir List.not_mem_nil⟩
      · rintro ⟨rfl, hfound, -⟩
        cases path with
        | nil =>
            injection hfound with hfound
            injection hfound with hfound
            exact ⟨⟨rfl, rfl⟩, hfound.symm⟩
        | cons second path => rw [at?_file (List.cons_ne_nil second path)] at hfound; cases hfound
  | dir es =>
      have hmem : (first :: path, content) ∈ entryLeaves keep name (dir es) ↔
          first = name ∧ keep name = true ∧ (path, content) ∈ leaves keep (dir es) := by
        rw [entryLeaves, List.mem_map]
        constructor
        · rintro ⟨⟨p, c⟩, hleaf, heq⟩
          injection heq with hpath hcontent
          injection hpath with hname hpath
          subst hname
          subst hpath
          subst hcontent
          split at hleaf
          · next hkeep => exact ⟨rfl, hkeep, hleaf⟩
          · cases hleaf
        · rintro ⟨rfl, hkeep, hleaf⟩
          rw [if_pos hkeep]
          exact ⟨(path, content), hleaf, rfl⟩
      rw [hmem, ih]
      constructor
      · rintro ⟨rfl, hkeep, hleaf⟩
        refine ⟨rfl, hleaf.found, ?_⟩
        rw [List.dropLast_cons_of_ne_nil hleaf.below]
        intro dir hdir
        rcases List.mem_cons.1 hdir with rfl | hdir
        · exact hkeep
        · exact hleaf.kept dir hdir
      · rintro ⟨rfl, hfound, hkept⟩
        have hpath : path ≠ [] := by
          rintro rfl
          injection hfound with hfound
          cases hfound
        rw [List.dropLast_cons_of_ne_nil hpath] at hkept
        exact ⟨rfl, hkept first List.mem_cons_self, hpath, hfound,
          fun dir hdir => hkept dir (List.mem_cons_of_mem first hdir)⟩

/-- The walk finds the files that paths lead to through directories that are kept. -/
theorem mem_leaves_iff {keep : Text → Bool} {t : FileTree} (h : t.WellFormed) :
    ∀ {path : List Text} {content : Text},
      (path, content) ∈ leaves keep t ↔ IsLeaf keep t path content := by
  induction h with
  | file found =>
      intro path content
      rw [leaves]
      refine ⟨fun hleaf => absurd hleaf List.not_mem_nil, fun hleaf => ?_⟩
      have hfound := hleaf.found
      rw [at?_file hleaf.below] at hfound
      cases hfound
  | dir distinct names below ih =>
      intro path content
      have hdir := WellFormed.dir distinct names below
      rw [mem_leaves_dir]
      constructor
      · rintro ⟨⟨name, t⟩, he, hleaf⟩
        obtain ⟨rest, rfl⟩ := exists_of_mem_entryLeaves hleaf
        obtain ⟨-, hfound, hkept⟩ := (mem_entryLeaves_iff fun p c => ih _ he).1 hleaf
        exact ⟨List.cons_ne_nil _ _, (at?_dir_eq_some_iff hdir).2 ⟨t, he, hfound⟩, hkept⟩
      · intro hleaf
        cases path with
        | nil => exact absurd rfl hleaf.below
        | cons name rest =>
            obtain ⟨t, he, hfound⟩ := (at?_dir_eq_some_iff hdir).1 hleaf.found
            exact ⟨(name, t), he,
              (mem_entryLeaves_iff fun p c => ih _ he).2 ⟨rfl, hfound, hleaf.kept⟩⟩

-- ======================================================== their order

/-- The files of an entry are in the order of their paths if those of the entry itself are. -/
theorem entryLeaves_pairwise {keep : Text → Bool} {name : Text} {t : FileTree}
    (h : (leaves keep t).Pairwise fun a b => a.1 < b.1) :
    (entryLeaves keep name t).Pairwise fun a b => a.1 < b.1 := by
  cases t with
  | file content => exact List.pairwise_singleton _ _
  | dir es =>
      rw [entryLeaves, List.pairwise_map]
      split
      · exact h.imp fun hlt => List.cons_lt_cons_iff.2 (.inr ⟨rfl, hlt⟩)
      · exact List.Pairwise.nil

/-- The walk comes upon the files in the order of their paths, name by name. -/
theorem leaves_pairwise {keep : Text → Bool} {t : FileTree} (h : t.WellFormed) :
    (leaves keep t).Pairwise fun a b => a.1 < b.1 := by
  induction h with
  | file content => rw [leaves]; exact List.Pairwise.nil
  | @dir es distinct names below ih =>
      let byName (a b : Text × List Leaf) : Bool := le a.1 b.1
      let groups := (leafGroups keep es).mergeSort byName
      have hgroups : groups.Perm (es.map fun e => (e.1, entryLeaves keep e.1 e.2)) :=
        leafGroups_eq_map keep es ▸ List.mergeSort_perm _ byName
      have hmem : ∀ group ∈ groups, ∃ e ∈ es, group = (e.1, entryLeaves keep e.1 e.2) := by
        intro group hgroup
        obtain ⟨e, he, rfl⟩ := List.mem_map.1 (hgroups.mem_iff.1 hgroup)
        exact ⟨e, he, rfl⟩
      have hdistinct : groups.Pairwise fun a b => a.1 ≠ b.1 := by
        have hnames : (groups.map (·.1)).Perm (es.map (·.1)) :=
          map_fst_leafGroups keep es ▸ (List.mergeSort_perm _ byName).map (·.1)
        exact List.pairwise_map.1 (hnames.nodup_iff.2 distinct)
      have hordered : groups.Pairwise fun a b => byName a b = true :=
        mergeSort_pairwise (·.1) (leafGroups keep es)
      rw [leaves, List.pairwise_flatMap]
      constructor
      · intro group hgroup
        obtain ⟨e, he, rfl⟩ := hmem group hgroup
        exact entryLeaves_pairwise (ih e he)
      · refine (hordered.and hdistinct).imp_of_mem fun {a b} ha hb hab x hx y hy => ?_
        obtain ⟨e, he, rfl⟩ := hmem a ha
        obtain ⟨f, hf, rfl⟩ := hmem b hb
        obtain ⟨p, hp⟩ := exists_of_mem_entryLeaves hx
        obtain ⟨q, hq⟩ := exists_of_mem_entryLeaves hy
        rw [hp, hq, List.cons_lt_cons_iff]
        exact .inl (lt_of_not_lt_of_ne (le_iff_not_lt.1 hab.1) hab.2)

/-- The walk with another method of sorting, which makes no difference as the entries are distinct.
In this form it can be run inside a proof. -/
theorem leaves_dir_eq {keep : Text → Bool} {es : List (Text × FileTree)}
    (distinct : (es.map (·.1)).Nodup) :
    leaves keep (dir es)
      = ((leafGroups keep es).insertionSort fun a b => le a.1 b.1 = true).flatMap (·.2) := by
  have htrans : ∀ a b c : Text × List Leaf, le a.1 b.1 = true → le b.1 c.1 = true →
      le a.1 c.1 = true := fun _ _ _ => le_trans
  have htotal : ∀ a b : Text × List Leaf, (le a.1 b.1 || le b.1 a.1) = true :=
    fun a b => le_total a.1 b.1
  have hgroups := (map_fst_leafGroups keep es).symm ▸ distinct
  rw [leaves, mergeSort_eq_insertionSort htrans htotal fun a ha b hb hab hba =>
    List.inj_on_of_nodup_map hgroups ha hb (le_antisymm hab hba)]

-- ========================================================== reordering

/-- The text of a file. -/
def content? : FileTree → Option Text
  | file content => some content
  | dir _ => none

theorem content?_eq_some_iff {o : Option FileTree} {content : Text} :
    o.map content? = some (some content) ↔ o = some (file content) := by
  cases o with
  | none => exact ⟨nofun, nofun⟩
  | some t =>
      cases t with
      | file found =>
          show some (some found) = some (some content) ↔ some (file found) = some (file content)
          rw [Option.some_inj, Option.some_inj, Option.some_inj, FileTree.file.injEq]
      | dir es => exact ⟨nofun, nofun⟩

theorem wellFormed_of_perm {es fs : List (Text × FileTree)} (h : (dir es).WellFormed)
    (hperm : es.Perm fs) : (dir fs).WellFormed := by
  cases h with
  | dir distinct names below =>
      exact .dir ((hperm.map (·.1)).nodup_iff.1 distinct)
        (fun e he => names e (hperm.mem_iff.2 he)) fun e he => below e (hperm.mem_iff.2 he)

section Replace

variable {before after : List (Text × FileTree)} {name : Text} {t u : FileTree}

theorem mem_replaced {e : Text × FileTree} :
    e ∈ before ++ (name, u) :: after ↔ e ∈ before ++ after ∨ e = (name, u) := by
  rw [List.mem_append, List.mem_append, List.mem_cons, or_assoc]
  exact or_congr Iff.rfl Or.comm

/-- An entry may be replaced by another of the same name. -/
theorem wellFormed_replaced (h : (dir (before ++ (name, t) :: after)).WellFormed)
    (hu : u.WellFormed) : (dir (before ++ (name, u) :: after)).WellFormed := by
  cases h with
  | dir distinct names below =>
      refine .dir ?_ (fun e he => ?_) fun e he => ?_
      · rw [List.map_append, List.map_cons] at distinct ⊢
        exact distinct
      · rcases mem_replaced.1 he with he | rfl
        · exact names e (mem_replaced.2 (.inl he))
        · exact names (name, t) (mem_replaced.2 (.inr rfl))
      · rcases mem_replaced.1 he with he | rfl
        · exact below e (mem_replaced.2 (.inl he))
        · exact hu

/-- The other entries are where they were. -/
theorem child?_replaced (h : (dir (before ++ (name, t) :: after)).WellFormed)
    (h' : (dir (before ++ (name, u) :: after)).WellFormed) {other : Text} (hne : other ≠ name) :
    (dir (before ++ (name, t) :: after)).child? other
      = (dir (before ++ (name, u) :: after)).child? other := by
  refine Option.ext fun v => ?_
  rw [child?_eq_some_iff h, child?_eq_some_iff h', mem_replaced, mem_replaced]
  have hold : (other, v) ≠ (name, t) := fun heq => hne (Prod.mk.inj heq).1
  have hnew : (other, v) ≠ (name, u) := fun heq => hne (Prod.mk.inj heq).1
  rw [or_iff_left hold, or_iff_left hnew]

end Replace

/-- A reordered tree is a tree, and every path leads to a directory or a file as it did. -/
theorem Reordered.same {t u : FileTree} (h : Reordered t u) (ht : t.WellFormed) :
    u.WellFormed ∧ ∀ path, (t.at? path).map content? = (u.at? path).map content? := by
  induction h with
  | refl t => exact ⟨ht, fun _ => rfl⟩
  | @entries es fs hperm =>
      have hfs := wellFormed_of_perm ht hperm
      refine ⟨hfs, fun path => ?_⟩
      cases path with
      | nil => rfl
      | cons name path =>
          have hchild : (dir es).child? name = (dir fs).child? name :=
            Option.ext fun t => by
            rw [child?_eq_some_iff ht, child?_eq_some_iff hfs, hperm.mem_iff]
          rw [at?, at?, hchild]
  | @inside before after name t u _ ih =>
      have hmem : (name, t) ∈ before ++ (name, t) :: after := mem_replaced.2 (.inr rfl)
      have hbelow : t.WellFormed := by
        cases ht with
        | dir distinct names below => exact below _ hmem
      obtain ⟨hu, hsame⟩ := ih hbelow
      have hnew := wellFormed_replaced ht hu
      refine ⟨hnew, fun path => ?_⟩
      cases path with
      | nil => rfl
      | cons first path =>
          rw [at?, at?]
          by_cases hfirst : first = name
          · subst hfirst
            rw [(child?_eq_some_iff ht).2 hmem,
              (child?_eq_some_iff hnew).2 (mem_replaced.2 (.inr rfl))]
            exact hsame path
          · rw [child?_replaced ht hnew hfirst]
  | trans _ _ ih ih' =>
      obtain ⟨hu, hsame⟩ := ih ht
      obtain ⟨hv, hsame'⟩ := ih' hu
      exact ⟨hv, fun path => (hsame path).trans (hsame' path)⟩

end GoSurvey.FileTree
