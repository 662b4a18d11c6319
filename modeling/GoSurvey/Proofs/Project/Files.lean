/-
The source files of a project. Which files they are is said here without
a walk (`IsSourceFile`): a file below the root, reached through directories
that are kept, with a name that ends like that of a source and not like
that of a test, and a path that is not ignored. The walk gives these files
in the order of their paths, and a file is known by its path relative to
the root, which leads back to it.

What an ignore file says is not looked into; it is any predicate on
relative paths.

The walk also answers where a file of a name is: of all files with this
name it is the first, in the same order (`findByName?_least`).
-/
import GoSurvey.Project.Locate
import GoSurvey.Proofs.FileTree.Disk

namespace GoSurvey.Project

open Text GoSurvey.Path FileTree

variable {p : Project} {keep : Text → Bool} {ignored : Text → Bool} {f : SourceFile}

-- ============================================================ the root

theorem isName_rootNames (hp : p.disk.WellFormed) : ∀ name ∈ p.rootNames, IsName name :=
  Disk.resolve_isName hp p.config.root

/-- The files below the root that are reached through directories that are kept. -/
theorem mem_leavesAt_root (hp : p.disk.WellFormed) {path : List Text} {content : Text} :
    (path, content) ∈ leavesAt p.disk keep (.ofNames p.rootNames) ↔ path ≠ [] ∧
      p.disk.tree.at? (p.rootNames ++ path) = some (file content) ∧
      ∀ dir ∈ path.dropLast, keep dir = true := by
  unfold leavesAt
  rw [Disk.find?_ofNames (isName_rootNames hp), at?_append]
  cases hroot : p.disk.tree.at? p.rootNames with
  | none => exact ⟨fun h => absurd h List.not_mem_nil, fun h => by cases h.2.1⟩
  | some t =>
      rw [Option.map_some, Option.getD_some, mem_leaves_iff (wellFormed_of_at? hp.tree hroot)]
      exact ⟨fun h => ⟨h.below, h.found, h.kept⟩, fun h => ⟨h.1, h.2.1, h.2.2⟩⟩

theorem leavesAt_pairwise {d : Disk} (hd : d.WellFormed) (path : Path) :
    (leavesAt d keep path).Pairwise fun a b => a.1 < b.1 := by
  unfold leavesAt
  cases hfind : d.find? path with
  | none => exact List.Pairwise.nil
  | some t => exact leaves_pairwise (wellFormed_of_at? hd.tree (Disk.at?_of_find? hfind))

-- =========================================================== the files

/-- The source files, with what is ignored given as a predicate on relative paths. -/
def filesUnless (p : Project) (keep ignored : Text → Bool) : List SourceFile :=
  ((leavesAt p.disk keep (.ofNames p.rootNames)).map fun (path, content) =>
    (⟨path, content⟩ : SourceFile)).filter fun f =>
      p.config.isSource (f.path.getLastD []) && !ignored f.relative

/-- The ignore file decides what is ignored, and nothing else. -/
theorem filesKeeping_eq (p : Project) (keep : Text → Bool) :
    p.filesKeeping keep = p.ignoreRules.map fun rules =>
      p.filesUnless keep (Ignore.ignores rules) := by
  unfold filesKeeping
  cases p.ignoreRules with
  | error e => rfl
  | ok rules => rfl

/-- The files of a project whose root has distinct entries, in a form that can be run inside a
proof. -/
theorem filesUnless_eq {es : List (Text × FileTree)}
    (hroot : p.disk.find? (.ofNames p.rootNames) = some (.dir es))
    (distinct : (es.map (·.1)).Nodup) :
    p.filesUnless keep ignored
      = ((((leafGroups keep es).insertionSort fun a b => le a.1 b.1 = true).flatMap (·.2)).map
          fun (path, content) => (⟨path, content⟩ : SourceFile)).filter fun f =>
        p.config.isSource (f.path.getLastD []) && !ignored f.relative := by
  unfold filesUnless leavesAt
  rw [hroot, ← leaves_dir_eq distinct]
  rfl

theorem files_eq {rules : List Ignore.Rule} (hrules : p.ignoreRules = .ok rules) :
    p.files = .ok (p.filesUnless p.config.keepsDir (Ignore.ignores rules)) := by
  refine (filesKeeping_eq p p.config.keepsDir).trans ?_
  rw [hrules]
  rfl

/-- A file that belongs to the sources of a project. -/
structure IsSourceFile (p : Project) (keep ignored : Text → Bool) (f : SourceFile) : Prop where
  /-- The file is below the root. -/
  below : f.path ≠ []
  found : p.disk.tree.at? (p.rootNames ++ f.path) = some (file f.content)
  /-- Every directory between the root and the file is kept. -/
  kept : ∀ dir ∈ f.path.dropLast, keep dir = true
  suffix : p.config.sourceSuffix <:+ f.path.getLastD []
  not_test : ¬p.config.testSuffix <:+ f.path.getLastD []
  not_ignored : ignored f.relative = false

theorem isSource_iff {c : Config} {name : Text} :
    c.isSource name = true ↔ c.sourceSuffix <:+ name ∧ ¬c.testSuffix <:+ name := by
  unfold Config.isSource endsWith
  rw [Bool.and_eq_true, Bool.not_eq_true', List.isSuffixOf_iff_suffix, ← Bool.not_eq_true,
    List.isSuffixOf_iff_suffix]

theorem mem_filesUnless_iff (hp : p.disk.WellFormed) :
    f ∈ p.filesUnless keep ignored ↔ p.IsSourceFile keep ignored f := by
  have hleaf : f ∈ (leavesAt p.disk keep (.ofNames p.rootNames)).map (fun (path, content) =>
      (⟨path, content⟩ : SourceFile)) ↔
      (f.path, f.content) ∈ leavesAt p.disk keep (.ofNames p.rootNames) := by
    rw [List.mem_map]
    exact ⟨fun ⟨leaf, hmem, heq⟩ => heq ▸ hmem, fun hmem => ⟨_, hmem, rfl⟩⟩
  unfold filesUnless
  rw [List.mem_filter, hleaf, mem_leavesAt_root hp, Bool.and_eq_true, isSource_iff,
    Bool.not_eq_true']
  constructor
  · rintro ⟨⟨hbelow, hfound, hkept⟩, ⟨hsuffix, htest⟩, hignored⟩
    exact ⟨hbelow, hfound, hkept, hsuffix, htest, hignored⟩
  · rintro ⟨hbelow, hfound, hkept, hsuffix, htest, hignored⟩
    exact ⟨⟨hbelow, hfound, hkept⟩, ⟨hsuffix, htest⟩, hignored⟩

/-- The files come in the order of their paths, name by name. -/
theorem filesUnless_pairwise (hp : p.disk.WellFormed) :
    (p.filesUnless keep ignored).Pairwise fun f g => f.path < g.path := by
  refine List.Pairwise.filter _ (List.pairwise_map.2 ?_)
  exact leavesAt_pairwise hp (.ofNames p.rootNames)

-- ==================================================== relative paths

namespace IsSourceFile

variable {g : SourceFile}

theorem isName (hp : p.disk.WellFormed) (hf : p.IsSourceFile keep ignored f) :
    ∀ name ∈ f.path, IsName name := fun name hname =>
  isName_of_at? hp.tree hf.found name (List.mem_append_right p.rootNames hname)

theorem isPart (hp : p.disk.WellFormed) (hf : p.IsSourceFile keep ignored f) :
    ∀ name ∈ f.path, IsPart name := fun name hname => (hf.isName hp name hname).1

/-- The relative path of a file names its place below the root. -/
theorem ofText_relative (hp : p.disk.WellFormed) (hf : p.IsSourceFile keep ignored f) :
    ofText f.relative = ⟨.relative, f.path⟩ := ofText_join (hf.isPart hp)

theorem ofText_absolute (hp : p.disk.WellFormed) (hf : p.IsSourceFile keep ignored f) :
    ofText (p.absolute f) = .ofNames (p.rootNames ++ f.path) :=
  ofText_text fun part hpart => (isName_of_at? hp.tree hf.found part hpart).1

/-- Taken relative to the root, the place of a file is its relative path. -/
theorem relativeText_absolute (hp : p.disk.WellFormed) (hf : p.IsSourceFile keep ignored f) :
    p.disk.relativeText (ofText (p.absolute f)) p.rootPath = f.relative := by
  have hresolve : (ofText (p.absolute f)).resolve p.disk.cwd
      = p.rootPath.resolve p.disk.cwd ++ f.path := by
    rw [hf.ofText_absolute hp]
    exact resolve_ofNames (isName_of_at? hp.tree hf.found)
  obtain ⟨first, rest, hpath⟩ := List.exists_cons_of_ne_nil hf.below
  obtain ⟨c, cs, hfirst⟩ := List.exists_cons_of_ne_nil
    (hf.isPart hp first (hpath ▸ List.mem_cons_self)).1
  refine (relativeTo_eq_text hresolve).trans ?_
  show orElse (join ['/'] f.path) ['.'] = join ['/'] f.path
  rw [hpath, hfirst]
  cases rest with
  | nil => rfl
  | cons second rest => rfl

/-- The root and the relative path of a file, put together, are its place. -/
theorem append_relative (hp : p.disk.WellFormed) (hf : p.IsSourceFile keep ignored f) :
    ((Path.ofNames p.rootNames).append (ofText f.relative)).text = p.absolute f := by
  rw [hf.ofText_relative hp]
  rfl

/-- With the root as it was given it comes to the same names. -/
theorem resolve_append_relative (hp : p.disk.WellFormed) (hf : p.IsSourceFile keep ignored f) :
    p.disk.resolve (p.rootPath.append (ofText f.relative)) = p.rootNames ++ f.path := by
  rw [hf.ofText_relative hp]
  exact resolve_append p.rootPath (hf.isName hp)

/-- What is there is the text of the file. -/
theorem read_append_relative (hp : p.disk.WellFormed) (hf : p.IsSourceFile keep ignored f) :
    p.disk.read ((Path.ofNames p.rootNames).append (ofText f.relative)) = .ok f.content := by
  rw [Disk.read_eq_ok_iff, hf.ofText_relative hp]
  exact (Disk.find?_ofNames (isName_of_at? hp.tree hf.found)).trans hf.found

/-- The absolute path of a file is its own resolved form. -/
theorem resolvedText_absolute (hp : p.disk.WellFormed) (hf : p.IsSourceFile keep ignored f) :
    p.disk.resolvedText (ofText (p.absolute f)) = p.absolute f := by
  unfold Disk.resolvedText Disk.resolve
  rw [hf.ofText_absolute hp, resolve_ofNames (isName_of_at? hp.tree hf.found)]
  rfl

/-- What is there is, again, the text of the file. -/
theorem read_absolute (hp : p.disk.WellFormed) (hf : p.IsSourceFile keep ignored f) :
    p.disk.read (ofText (p.absolute f)) = .ok f.content := by
  rw [Disk.read_eq_ok_iff, hf.ofText_absolute hp]
  exact (Disk.find?_ofNames (isName_of_at? hp.tree hf.found)).trans hf.found

/-- Different files have different relative paths. -/
theorem eq_of_relative (hp : p.disk.WellFormed) (hf : p.IsSourceFile keep ignored f)
    (hg : p.IsSourceFile keep ignored g) (h : f.relative = g.relative) : f = g := by
  have hpath : f.path = g.path := join_inj (hf.isPart hp) (hg.isPart hp) h
  have hcontent : some (file f.content) = some (file g.content) := by
    rw [← hf.found, ← hg.found, hpath]
  cases f with
  | mk path content =>
      cases g with
      | mk other found =>
          subst hpath
          injection hcontent with hcontent
          injection hcontent with hcontent
          subst hcontent
          rfl

end IsSourceFile

-- ======================================================= order of entries

section Reordered

variable {q : Project}

/-- The names on the way to the root depend on the settings and the working directory. -/
theorem rootNames_eq (hconfig : q.config = p.config) (hcwd : q.disk.cwd = p.disk.cwd) :
    q.rootNames = p.rootNames := by
  unfold rootNames rootPath Disk.resolve
  rw [hconfig, hcwd]

/-- The files do not depend on the order in which directories list their entries. -/
theorem filesUnless_reordered (hp : p.disk.WellFormed) (hconfig : q.config = p.config)
    (hcwd : q.disk.cwd = p.disk.cwd) (h : Reordered p.disk.tree q.disk.tree) :
    q.filesUnless keep ignored = p.filesUnless keep ignored := by
  obtain ⟨htree, hsame⟩ := h.same hp.tree
  have hq : q.disk.WellFormed := ⟨htree, hcwd ▸ hp.cwd⟩
  refine eq_of_pairwise_of_mem_iff (fun _ _ => List.lt_asymm) (filesUnless_pairwise hq)
    (filesUnless_pairwise hp) fun f => ?_
  have hfound : q.disk.tree.at? (q.rootNames ++ f.path) = some (file f.content) ↔
      p.disk.tree.at? (p.rootNames ++ f.path) = some (file f.content) := by
    rw [rootNames_eq hconfig hcwd, ← content?_eq_some_iff, ← content?_eq_some_iff, hsame]
  rw [mem_filesUnless_iff hq, mem_filesUnless_iff hp]
  constructor
  · intro hf
    exact ⟨hf.below, hfound.1 hf.found, hf.kept, hconfig ▸ hf.suffix, hconfig ▸ hf.not_test,
      hf.not_ignored⟩
  · intro hf
    exact ⟨hf.below, hfound.2 hf.found, hf.kept, hconfig ▸ hf.suffix, hconfig ▸ hf.not_test,
      hf.not_ignored⟩

end Reordered

-- ====================================================== the ignore file

/-- Nothing is ignored unless the ignore file is to be honoured and there; a directory in its place
cannot be read. -/
theorem ignoreRules_eq (hp : p.disk.WellFormed) :
    p.ignoreRules = if p.config.respectIgnore then
      match (p.disk.tree.at? (p.rootNames ++ [ignoreFile])).map content? with
      | none => .ok []
      | some none => .error .isDirectory
      | some (some content) => Ignore.rules content
    else .ok [] := by
  have hnames : ∀ name ∈ p.rootNames ++ [ignoreFile], IsName name := by
    intro name hname
    rcases List.mem_append.1 hname with hname | hname
    · exact isName_rootNames hp name hname
    · rw [List.mem_singleton.1 hname]
      decide
  rw [← Disk.find?_ofNames hnames]
  unfold ignoreRules Disk.exists? Disk.read Disk.find?
  dsimp only
  cases p.config.respectIgnore with
  | false => rfl
  | true =>
      cases p.disk.find (.ofNames (p.rootNames ++ [ignoreFile])) with
      | error e => rfl
      | ok t =>
          cases t with
          | file content => rfl
          | dir es => rfl

/-- Neither do the ignored files depend on that order, so the whole result does not. -/
theorem filesKeeping_reordered {q : Project} (hp : p.disk.WellFormed)
    (hconfig : q.config = p.config) (hcwd : q.disk.cwd = p.disk.cwd)
    (h : Reordered p.disk.tree q.disk.tree) : q.filesKeeping keep = p.filesKeeping keep := by
  obtain ⟨htree, hsame⟩ := h.same hp.tree
  have hq : q.disk.WellFormed := ⟨htree, hcwd ▸ hp.cwd⟩
  have hrules : q.ignoreRules = p.ignoreRules := by
    rw [ignoreRules_eq hq, ignoreRules_eq hp, rootNames_eq hconfig hcwd, hconfig, hsame]
  rw [filesKeeping_eq, filesKeeping_eq, hrules]
  simp only [filesUnless_reordered hp hconfig hcwd h]

-- ===================================================== files of a name

/-- A file of a name below a directory, reached through directories that are not left out by
default. -/
structure IsNamed (d : Disk) (root : Path) (name : Text) (path : List Text) : Prop where
  leaf : ∃ t content, d.find? root = some t ∧
    IsLeaf ({ root := root.text } : Config).keepsDir t path content
  name_eq : path.getLastD [] = name

theorem isNamed_iff {d : Disk} (hd : d.WellFormed) {root : Path} {name : Text}
    {path : List Text} :
    IsNamed d root name path ↔ path.getLastD [] = name ∧ ∃ content,
      (path, content) ∈ leavesAt d ({ root := root.text } : Config).keepsDir root := by
  unfold leavesAt
  cases hfind : d.find? root with
  | none =>
      refine ⟨fun h => ?_, fun h => ?_⟩
      · obtain ⟨t, -, ht, -⟩ := h.leaf
        rw [hfind] at ht
        cases ht
      · obtain ⟨-, content, hmem⟩ := h
        exact absurd hmem List.not_mem_nil
  | some t =>
      have ht := wellFormed_of_at? hd.tree (Disk.at?_of_find? hfind)
      rw [Option.map_some, Option.getD_some]
      constructor
      · intro h
        obtain ⟨u, content, hu, hleaf⟩ := h.leaf
        rw [hfind] at hu
        injection hu with hu
        subst hu
        exact ⟨h.name_eq, content, (mem_leaves_iff ht).2 hleaf⟩
      · rintro ⟨hname, content, hmem⟩
        exact ⟨⟨t, content, hfind, (mem_leaves_iff ht).1 hmem⟩, hname⟩

/-- Of the members of a list in strict order, the first that is found comes before the others. -/
theorem find?_least {α : Type} {r : α → α → Prop} {q : α → Bool} {xs : List α}
    (hxs : xs.Pairwise r) {a : α} (h : xs.find? q = some a) :
    a ∈ xs ∧ q a = true ∧ ∀ b ∈ xs, q b = true → b = a ∨ r a b := by
  obtain ⟨hq, before, after, rfl, hbefore⟩ := List.find?_eq_some_iff_append.1 h
  refine ⟨List.mem_append_right before List.mem_cons_self, hq, fun b hb hqb => ?_⟩
  rcases List.mem_append.1 hb with hb | hb
  · have hnot := hbefore b hb
    rw [hqb] at hnot
    cases hnot
  · rcases List.mem_cons.1 hb with rfl | hb
    · exact .inl rfl
    · exact .inr ((List.pairwise_cons.1 (List.pairwise_append.1 hxs).2.1).1 b hb)

/-- The file that is found for a name is the first with this name, in the order of their paths. -/
theorem findByName?_least {d : Disk} (hd : d.WellFormed) (root name : Text) :
    (∃ path, IsNamed d (ofText root) name path ∧
      (∀ other, IsNamed d (ofText root) name other → other = path ∨ path < other) ∧
      findByName? d root name = some ((ofText root).append ⟨.relative, path⟩).text) ∨
    (∀ path, ¬IsNamed d (ofText root) name path) ∧ findByName? d root name = none := by
  let leaves := leavesAt d ({ root := (ofText root).text } : Config).keepsDir (ofText root)
  have hfound : findByName? d root name
      = (leaves.find? fun leaf => leaf.1.getLastD [] == name).map
          fun leaf => ((ofText root).append ⟨.relative, leaf.1⟩).text := rfl
  rw [hfound]
  cases hfirst : leaves.find? fun leaf => leaf.1.getLastD [] == name with
  | none =>
      refine .inr ⟨fun path hpath => ?_, rfl⟩
      obtain ⟨hname, content, hmem⟩ := (isNamed_iff hd).1 hpath
      exact List.find?_eq_none.1 hfirst _ hmem (beq_iff_eq.2 hname)
  | some leaf =>
      obtain ⟨path, content⟩ := leaf
      obtain ⟨hmem, hname, hleast⟩ :=
        find?_least (leavesAt_pairwise hd (ofText root)) hfirst
      refine .inl ⟨path, (isNamed_iff hd).2 ⟨beq_iff_eq.1 hname, content, hmem⟩,
        fun other hother => ?_, rfl⟩
      obtain ⟨hothername, found, hothermem⟩ := (isNamed_iff hd).1 hother
      rcases hleast _ hothermem (beq_iff_eq.2 hothername) with heq | hlt
      · exact .inl (Prod.mk.inj heq).1
      · exact .inr hlt

-- ======================================================= the main result

/-- The source files of a project, for any choice of the directories that are kept. They are those
files below the root that are reached through kept directories, end like a source and not like a
test, and are not ignored; they come in the order of their paths, name by name, each one time. The
path of a file relative to the root is its own and leads back to it. The order in which directories
list their entries does not matter. A file that is looked for by its name is the first with this
name in the same order. -/
theorem filesKeeping_exact (hp : p.disk.WellFormed) (keep : Text → Bool) :
    (p.filesKeeping keep = p.ignoreRules.map fun rules =>
      p.filesUnless keep (Ignore.ignores rules)) ∧
    (p.ignoreRules = if p.config.respectIgnore then
        match (p.disk.tree.at? (p.rootNames ++ [ignoreFile])).map content? with
        | none => .ok []
        | some none => .error .isDirectory
        | some (some content) => Ignore.rules content
      else .ok []) ∧
    (∀ ignored : Text → Bool,
      (∀ f, f ∈ p.filesUnless keep ignored ↔ p.IsSourceFile keep ignored f) ∧
      ((p.filesUnless keep ignored).Pairwise fun f g => f.path < g.path) ∧
      ∀ f ∈ p.filesUnless keep ignored,
        p.disk.relativeText (ofText (p.absolute f)) p.rootPath = f.relative ∧
        ((Path.ofNames p.rootNames).append (ofText f.relative)).text = p.absolute f ∧
        p.disk.resolve (p.rootPath.append (ofText f.relative)) = p.rootNames ++ f.path ∧
        p.disk.read ((Path.ofNames p.rootNames).append (ofText f.relative)) = .ok f.content ∧
        ∀ g ∈ p.filesUnless keep ignored, f.relative = g.relative → f = g) ∧
    (∀ q : Project, q.config = p.config → q.disk.cwd = p.disk.cwd →
      Reordered p.disk.tree q.disk.tree → q.filesKeeping keep = p.filesKeeping keep) ∧
    ∀ root name : Text,
      (∃ path, IsNamed p.disk (ofText root) name path ∧
        (∀ other, IsNamed p.disk (ofText root) name other → other = path ∨ path < other) ∧
        findByName? p.disk root name = some ((ofText root).append ⟨.relative, path⟩).text) ∨
      (∀ path, ¬IsNamed p.disk (ofText root) name path) ∧
        findByName? p.disk root name = none := by
  refine ⟨filesKeeping_eq p keep, ignoreRules_eq hp, fun ignored => ?_, ?_,
    findByName?_least hp⟩
  · refine ⟨fun f => mem_filesUnless_iff hp, filesUnless_pairwise hp, fun f hf => ?_⟩
    have hf := (mem_filesUnless_iff hp).1 hf
    exact ⟨hf.relativeText_absolute hp, hf.append_relative hp, hf.resolve_append_relative hp,
      hf.read_append_relative hp, fun g hg =>
        hf.eq_of_relative hp ((mem_filesUnless_iff hp).1 hg)⟩
  · exact fun q hconfig hcwd h => filesKeeping_reordered hp hconfig hcwd h

/-- A directory that lists its entries out of order, with names that come in another order than the
texts of the paths. -/
def unsortedTree : FileTree :=
  .dir [("b.go", .file "package b"), ("a.go", .file "package a"), ("a_test.go", .file "package a"),
    ("a", .dir [("x.go", .file "package x")]), ("vendor", .dir [("v.go", .file "package v")]),
    ("a-b", .dir [("x.go", .file "package y")])]

def unsortedProject : Project := ⟨⟨unsortedTree, []⟩, { root := "/" }⟩

theorem unsortedProject_wellFormed : unsortedProject.disk.WellFormed := by
  have hone : ∀ {name content : Text}, IsName name → (dir [(name, file content)]).WellFormed :=
    fun hname => wellFormed_single hname (.file _)
  refine ⟨.dir (by decide) (by decide) ?_, fun name hname => absurd hname List.not_mem_nil⟩
  simp only [List.forall_mem_cons]
  exact ⟨.file _, .file _, .file _, hone (by decide), hone (by decide), hone (by decide), nofun⟩

theorem filesKeeping_unsortedTree :
    unsortedProject.files = .ok (unsortedProject.filesUnless unsortedProject.config.keepsDir
      (Ignore.ignores [])) ∧
    ((unsortedProject.filesUnless unsortedProject.config.keepsDir (Ignore.ignores [])).map
      (·.relative) = ([("a/x.go" : String), "a-b/x.go", "a.go", "b.go"]).map String.toList) ∧
    (unsortedProject.filesUnless unsortedProject.config.keepsDir (Ignore.ignores [])).Pairwise
      fun f g => f.path < g.path := by
  obtain ⟨hfiles, -, hall, -⟩ :=
    filesKeeping_exact unsortedProject_wellFormed unsortedProject.config.keepsDir
  refine ⟨hfiles, ?_, (hall (Ignore.ignores [])).2.1⟩
  rw [filesUnless_eq rfl (by decide)]
  decide +kernel

end GoSurvey.Project
