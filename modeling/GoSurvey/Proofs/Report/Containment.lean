/-
Which file a client gets to see. What a client sends is any text; where it
leads is said here piece by piece (`goTo`), without the paths that the
service makes of it: from the root of the project, or from the top if the
text begins with a slash, a piece leads one name down, `..` one name up,
which has no effect at the top, and an empty piece or a dot nowhere.

If that ends at a file below the root, the answers are computed from the
text of this file, and nothing else of it is looked at (`serves`). If it
ends elsewhere there is nothing, and it makes no difference whether
something is there (`refuses`). It is names that are compared:
`/srv/app-old` is not below `/srv/app`.

One thing can come between. The service puts to the system every path
below the root, and the system refuses one that is too long, so that the
request fails and is not answered at all (`fails`). Outside of the root
the length of a path makes no difference.
-/
import GoSurvey.Proofs.FileTree.Disk
import GoSurvey.Report.Endpoint

namespace GoSurvey.Endpoint

open Text GoSurvey.Path FileTree

-- ==================================================== where a text leads

/-- One piece of a text leads further. -/
def goOn (names : List Text) (piece : Text) : List Text :=
  if piece = [] ∨ piece = ['.'] then names
  else if piece = ['.', '.'] then names.dropLast
  else names ++ [piece]

/-- The names on the way to where a text leads, seen from a root. -/
def goTo (root : List Text) (file : Text) : List Text :=
  (splitOn '/' file).foldl goOn (if file.head? = some '/' then [] else root)

theorem foldl_goOn (names pieces : List Text) :
    pieces.foldl goOn names = collapseFrom names.reverse (pieces.filter isPart) := by
  induction pieces generalizing names with
  | nil => exact (List.reverse_reverse names).symm
  | cons piece pieces ih =>
      rw [List.foldl_cons, ih]
      by_cases hpart : isPart piece = true
      · have hskip : ¬(piece = [] ∨ piece = ['.']) := by
          obtain ⟨hne, hdot⟩ := isPart_iff.1 hpart
          exact fun h => h.elim hne hdot
        rw [List.filter_cons_of_pos hpart, collapseFrom, goOn, if_neg hskip]
        by_cases hback : piece = ['.', '.']
        · have hmark : piece = parentMark := hback
          rw [if_pos hback, if_pos hmark, List.tail_reverse]
        · have hmark : ¬piece = parentMark := hback
          rw [if_neg hback, if_neg hmark, List.reverse_append]
          rfl
      · have hskip : piece = [] ∨ piece = ['.'] := by
          by_contra hnot
          exact hpart (isPart_iff.2 (not_or.1 hnot))
        rw [List.filter_cons_of_neg hpart, goOn, if_pos hskip]

theorem isAbsolute_ofText (t : Text) : (ofText t).isAbsolute = decide (t.head? = some '/') := by
  unfold ofText isAbsolute anchorOf
  by_cases hslash : t.head? = some '/'
  · obtain ⟨rest, rfl⟩ := List.head?_eq_some_iff.1 hslash
    rw [List.takeWhile_cons]
    cases hn : (rest.takeWhile (· == '/')) with
    | nil => rfl
    | cons c cs =>
        cases cs with
        | nil => rfl
        | cons c' cs => rfl
  · rw [takeWhile_slash hslash, decide_eq_false hslash]
    rfl

/-- The path that the service makes of a text leads where the text leads. -/
theorem resolve_append_ofText {d : Disk} {root : List Text} (hroot : ∀ name ∈ root, IsName name)
    (file : Text) : d.resolve ((Path.ofNames root).append (.ofText file)) = goTo root file := by
  have hnames : collapseFrom [] root = root :=
    collapseFrom_names fun name hname => (hroot name hname).2
  unfold goTo
  rw [foldl_goOn]
  show Path.resolve d.cwd (if (ofText file).isAbsolute then ofText file else _) = _
  by_cases hslash : file.head? = some '/'
  · have habs : (ofText file).isAbsolute = true := by
      rw [isAbsolute_ofText, decide_eq_true hslash]
    rw [if_pos habs, if_pos hslash]
    unfold Path.resolve
    rw [if_pos habs]
    rfl
  · have habs : ¬(ofText file).isAbsolute = true := by
      rw [isAbsolute_ofText, decide_eq_true_iff]
      exact hslash
    rw [if_neg habs, if_neg hslash]
    show collapseFrom [] (root ++ (ofText file).parts) = _
    rw [collapseFrom_append, hnames]
    rfl

-- ============================================================ the guard

/-- A text leads to a file of the project. -/
structure Leads (s : Service) (file : Text) (below : List Text) (content : Text) : Prop where
  /-- The place begins with the names of the root. -/
  inside : goTo s.root file = s.root ++ below
  found : s.project.disk.tree.at? (goTo s.root file) = some (.file content)

variable {s : Service} {file : Text}

/-- A service whose root consists of names, on a disk that a file system can have. -/
structure Service.WellFormed (s : Service) : Prop where
  disk : s.project.disk.WellFormed
  root : ∀ name ∈ s.root, IsName name

theorem Service.wellFormed_ofRoot {d : Disk} (hd : d.WellFormed) (root : Text)
    (config : Option Config) : (Service.ofRoot d root config).WellFormed :=
  ⟨hd, Disk.resolve_isName hd root⟩

theorem isName_goTo (hs : s.WellFormed) (file : Text) : ∀ name ∈ goTo s.root file, IsName name := by
  have h : ∀ name ∈ s.project.disk.resolve ((Path.ofNames s.root).append (.ofText file)),
      IsName name := by
    refine Path.resolve_isName hs.disk.cwd fun part hpart => ?_
    unfold append at hpart
    split at hpart
    · exact isPart_of_mem_ofText hpart
    · rcases List.mem_append.1 hpart with hpart | hpart
      · exact (hs.root part hpart).1
      · exact isPart_of_mem_ofText hpart
  rwa [resolve_append_ofText hs.root] at h

theorem inside?_eq_some_iff (hs : s.WellFormed) {path : Path} :
    s.inside? file = some path ↔
      s.root <+: goTo s.root file ∧ path = .ofNames (goTo s.root file) := by
  unfold Service.inside?
  dsimp only
  rw [resolve_append_ofText hs.root, Option.map_eq_some_iff]
  constructor
  · rintro ⟨below, hbelow, rfl⟩
    exact ⟨⟨below, (below?_eq_some_iff.1 hbelow).symm⟩, rfl⟩
  · rintro ⟨⟨below, hbelow⟩, rfl⟩
    exact ⟨below, below?_eq_some_iff.2 hbelow.symm, rfl⟩

/-- The system refuses the path below the root to which a text leads. -/
def Refused (s : Service) (file : Text) : Prop :=
  s.root <+: goTo s.root file ∧ Disk.TooLong s.project.disk.tree (goTo s.root file)

/-- A text that leads to a file of the project is taken for this file, if the system does not refuse
its path. -/
theorem file?_of_leads (hs : s.WellFormed) {below : List Text} {content : Text}
    (h : Leads s file below content) (hshort : ¬Refused s file) :
    s.file? file = .ok (some (.ofNames (goTo s.root file))) := by
  have hroot : s.root <+: goTo s.root file := ⟨below, h.inside.symm⟩
  obtain ⟨isFile, hisFile, hiff⟩ :=
    Disk.isFile_ofNames (isName_goTo hs file) fun hlong => hshort ⟨hroot, hlong⟩
  unfold Service.file?
  rw [(inside?_eq_some_iff hs).2 ⟨hroot, rfl⟩]
  dsimp only
  rw [hisFile, hiff.2 ⟨content, h.found⟩]
  rfl

/-- A text that leads to no file of the project is taken for none. -/
theorem file?_of_not_leads (hs : s.WellFormed) (h : ¬∃ below content, Leads s file below content)
    (hshort : ¬Refused s file) : s.file? file = .ok none := by
  unfold Service.file?
  cases hinside : s.inside? file with
  | none => rfl
  | some path =>
      obtain ⟨hroot, rfl⟩ := (inside?_eq_some_iff hs).1 hinside
      obtain ⟨isFile, hisFile, hiff⟩ :=
        Disk.isFile_ofNames (isName_goTo hs file) fun hlong => hshort ⟨hroot, hlong⟩
      have hnot : isFile = false := by
        refine Bool.eq_false_iff.2 fun htrue => h ?_
        obtain ⟨content, hcontent⟩ := hiff.1 htrue
        obtain ⟨below, hbelow⟩ := hroot
        exact ⟨below, content, hbelow.symm, hcontent⟩
      dsimp only
      rw [hisFile, hnot]
      rfl

theorem file?_of_refused (hs : s.WellFormed) (h : Refused s file) :
    s.file? file = .error .nameTooLong := by
  unfold Service.file?
  rw [(inside?_eq_some_iff hs).2 ⟨h.1, rfl⟩]
  dsimp only
  unfold Disk.isFile
  rw [Disk.check_of_tooLong (isName_goTo hs file) h.2]
  rfl

/-- Nothing is refused that is short in all its parts. -/
theorem not_refused (hpath : byteLength (Path.ofNames (goTo s.root file)).text ≤ Disk.pathLimit)
    (hnames : ∀ name ∈ goTo s.root file, byteLength name ≤ Disk.nameLimit) : ¬Refused s file := by
  rintro ⟨-, hlong | ⟨before, name, after, -, hparts, hlong, -⟩⟩
  · exact Nat.not_lt.2 hpath hlong
  · refine Nat.not_lt.2 (hnames name ?_) hlong
    rw [hparts]
    exact List.mem_append_right before List.mem_cons_self

-- ========================================================== the answers

namespace Leads

variable {below : List Text} {content : Text}

theorem ofText_text (hs : s.WellFormed) :
    ofText (Path.ofNames (goTo s.root file)).text = .ofNames (goTo s.root file) :=
  Path.ofText_text fun name hname => (isName_goTo hs file name hname).1

/-- The file that is found is read. -/
theorem read (hs : s.WellFormed) (h : Leads s file below content) :
    s.project.disk.read (.ofNames (goTo s.root file)) = .ok content :=
  Disk.read_eq_ok_iff.2 ((Disk.find?_ofNames (isName_goTo hs file)).trans h.found)

/-- Relative to the root, the file is named by what comes below it. -/
theorem relativeText (hs : s.WellFormed) (h : Leads s file below content) :
    s.project.disk.relativeText (.ofNames (goTo s.root file)) (.ofText s.rootText)
      = (⟨.relative, below⟩ : Path).text := by
  have hroot : ofText s.rootText = .ofNames s.root :=
    Path.ofText_text fun name hname => (hs.root name hname).1
  refine relativeTo_eq_text ?_
  rw [hroot, resolve_ofNames (isName_goTo hs file), resolve_ofNames hs.root]
  exact h.inside

end Leads

/-- What is said about a place in a text: the definition of the identifier there, if there is an
identifier and it is defined in the project. -/
def definitionAt (s : Service) (content : Text) (line column : Int) : Answer :=
  match Project.identifierIn? content line column with
  | none => .ok (missing "Definition not found")
  | some name => do
    match ← s.project.symbol? name with
    | some info => .ok (ok info.record)
    | none => .ok (missing "Definition not found")

theorem serves (hs : s.WellFormed) {below : List Text} {content : Text}
    (h : Leads s file below content) (hshort : ¬Refused s file) :
    s.source file = .ok ⟨200, .plain content⟩ ∧
    s.structureOf file = .ok (ok
      (Declaration.structureOf content (⟨.relative, below⟩ : Path).text).record) ∧
    ∀ line column, s.definition file line column = definitionAt s content line column := by
  have hfile := file?_of_leads hs h hshort
  refine ⟨?_, ?_, fun line column => ?_⟩
  · unfold Service.source
    rw [hfile]
    dsimp only [bind, Except.bind]
    rw [h.read hs]
  · unfold Service.structureOf Project.fileStructure
    rw [hfile]
    dsimp only [bind, Except.bind]
    rw [Leads.ofText_text hs, h.relativeText hs, h.read hs]
  · unfold Service.definition Project.definition? definitionAt
    rw [hfile]
    dsimp only [bind, Except.bind]
    rw [Leads.ofText_text hs, h.read hs]
    dsimp only
    cases Project.identifierIn? content line column with
    | none => rfl
    | some name => rfl

theorem refuses (hs : s.WellFormed) (h : ¬∃ below content, Leads s file below content)
    (hshort : ¬Refused s file) :
    s.source file = .ok ⟨404, .plain "Not found"⟩ ∧
    s.structureOf file = .ok (missing "File not found") ∧
    ∀ line column, s.definition file line column = .ok (missing "File not found") := by
  have hnone := file?_of_not_leads hs h hshort
  refine ⟨?_, ?_, fun line column => ?_⟩
  · unfold Service.source
    rw [hnone]
    rfl
  · unfold Service.structureOf
    rw [hnone]
    rfl
  · unfold Service.definition
    rw [hnone]
    rfl

theorem fails (hs : s.WellFormed) (h : Refused s file) :
    s.source file = .error .nameTooLong ∧ s.structureOf file = .error .nameTooLong ∧
    ∀ line column, s.definition file line column = .error .nameTooLong := by
  have hfile := file?_of_refused hs h
  refine ⟨?_, ?_, fun line column => ?_⟩
  · unfold Service.source
    rw [hfile]
    rfl
  · unfold Service.structureOf
    rw [hfile]
    rfl
  · unfold Service.definition
    rw [hfile]
    rfl

/-- The source and the structure that are asked for with a text are answered exactly if the text
leads to a file of the project and the system does not refuse its path, as it never does if the path
and the names in it are short. The answers then come from the text of this file, and so does the
identifier whose definition is looked for. With a text that leads to no file of the project nothing
is found, unless it leads below the root on a path that is refused: then the request fails. -/
theorem answers_exact {d : Disk} (hd : d.WellFormed) (root : Text) (config : Option Config)
    {s : Service} (hs : s = .ofRoot d root config) (file : Text) :
    ((∃ body, s.source file = .ok ⟨200, body⟩) ↔
      (∃ below content, Leads s file below content) ∧ ¬Refused s file) ∧
    ((∃ body, s.structureOf file = .ok ⟨200, body⟩) ↔
      (∃ below content, Leads s file below content) ∧ ¬Refused s file) ∧
    (∀ below content, Leads s file below content → ¬Refused s file →
      s.source file = .ok ⟨200, .plain content⟩ ∧
      s.structureOf file = .ok (ok
        (Declaration.structureOf content (⟨.relative, below⟩ : Path).text).record) ∧
      ∀ line column, s.definition file line column = definitionAt s content line column) ∧
    ((¬∃ below content, Leads s file below content) → ¬Refused s file →
      s.source file = .ok ⟨404, .plain "Not found"⟩ ∧
      s.structureOf file = .ok (missing "File not found") ∧
      ∀ line column, s.definition file line column = .ok (missing "File not found")) ∧
    (Refused s file →
      s.source file = .error .nameTooLong ∧ s.structureOf file = .error .nameTooLong ∧
      ∀ line column, s.definition file line column = .error .nameTooLong) ∧
    (byteLength (Path.ofNames (goTo s.root file)).text ≤ Disk.pathLimit →
      (∀ name ∈ goTo s.root file, byteLength name ≤ Disk.nameLimit) → ¬Refused s file) := by
  have hs : s.WellFormed := hs ▸ Service.wellFormed_ofRoot hd root config
  refine ⟨⟨fun ⟨body, hbody⟩ => ?_, ?_⟩, ⟨fun ⟨body, hbody⟩ => ?_, ?_⟩,
    fun below content => serves hs, refuses hs, fails hs, not_refused⟩
  · have hshort : ¬Refused s file := by
      intro hrefused
      rw [(fails hs hrefused).1] at hbody
      cases hbody
    refine ⟨?_, hshort⟩
    by_contra hnone
    rw [(refuses hs hnone hshort).1] at hbody
    cases hbody
  · rintro ⟨⟨below, content, hleads⟩, hshort⟩
    exact ⟨_, (serves hs hleads hshort).1⟩
  · have hshort : ¬Refused s file := by
      intro hrefused
      rw [(fails hs hrefused).2.1] at hbody
      cases hbody
    refine ⟨?_, hshort⟩
    by_contra hnone
    rw [(refuses hs hnone hshort).2.1] at hbody
    cases hbody
  · rintro ⟨⟨below, content, hleads⟩, hshort⟩
    exact ⟨_, (serves hs hleads hshort).2.1⟩

/-- A project, and beside it one whose name begins with the name of the first. -/
def neighbours : Disk where
  tree := .dir [("srv", .dir [("app", .dir [("main.go", .file "package app")]),
    ("app-old", .dir [("key.go", .file "package old")])])]
  cwd := ["srv"]

/-- The service of the first one. -/
def appService : Service := .ofRoot neighbours "/srv/app" none

theorem neighbours_wellFormed : neighbours.WellFormed := by
  have hone : ∀ {name content : Text}, IsName name → (dir [(name, file content)]).WellFormed :=
    fun hname => wellFormed_single hname (.file _)
  refine ⟨wellFormed_single (by decide) (.dir (by decide) (by decide) ?_), by decide⟩
  simp only [List.forall_mem_cons]
  exact ⟨hone (by decide), hone (by decide), nofun⟩

/-- A name of one byte more than a name may have. -/
def longName : Text := List.replicate 256 'a'

/-- A roundabout text is served the file that it leads to; neither going up nor starting at the top
does so for the other project. A name that is too long makes the request fail. -/
theorem answers_appService :
    appService.source "x/..//./main.go" = .ok ⟨200, .plain "package app"⟩ ∧
    appService.source "../app-old/key.go" = .ok ⟨404, .plain "Not found"⟩ ∧
    appService.source "/srv/app-old/key.go" = .ok ⟨404, .plain "Not found"⟩ ∧
    appService.source longName = .error .nameTooLong := by
  obtain ⟨-, -, hserves, -, -, hin⟩ :=
    answers_exact neighbours_wellFormed "/srv/app" none (s := appService) rfl "x/..//./main.go"
  obtain ⟨-, -, -, hup, -, hup'⟩ :=
    answers_exact neighbours_wellFormed "/srv/app" none (s := appService) rfl "../app-old/key.go"
  obtain ⟨-, -, -, htop, -, htop'⟩ :=
    answers_exact neighbours_wellFormed "/srv/app" none (s := appService) rfl "/srv/app-old/key.go"
  obtain ⟨-, -, -, -, hlong, -⟩ :=
    answers_exact neighbours_wellFormed "/srv/app" none (s := appService) rfl longName
  have houtside : ¬appService.root <+: (["srv", "app-old", "key.go"] : List Text) := by decide
  refine ⟨(hserves ["main.go"] "package app" ⟨by decide, by rfl⟩ (hin ?_ ?_)).1,
    (hup ?_ (hup' ?_ ?_)).1, (htop ?_ (htop' ?_ ?_)).1, (hlong ⟨?_, .inr ?_⟩).1⟩
  · decide
  · decide
  · exact fun ⟨below, _, h⟩ => houtside ⟨below, h.inside.symm⟩
  · decide
  · decide
  · exact fun ⟨below, _, h⟩ => houtside ⟨below, h.inside.symm⟩
  · decide
  · decide
  · exact ⟨[longName], by decide +kernel⟩
  · exact ⟨["srv", "app"], longName, [], [("main.go", .file "package app")], by decide +kernel,
      by decide +kernel, by rfl⟩

end GoSurvey.Endpoint
