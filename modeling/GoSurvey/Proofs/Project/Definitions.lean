/-
Where a name is defined in a project: in the first file that has a line
which defines it, and there in the best of these lines. A file says the
same about a name whether it is looked into by itself or as one of a
project (`symbolInFile?_absolute`).
-/
import GoSurvey.Proofs.Project.Independence
import GoSurvey.Proofs.Symbol.Definition

namespace GoSurvey.Project

open Text GoSurvey.Path GoSurvey.Symbol

variable {p : Project} {fs : List SourceFile} {f : SourceFile} {content name file : Text}
  {info : SymbolInfo}

/-- No line of a text defines a name. -/
def Undefined (content name : Text) : Prop :=
  ∀ rank index, ¬RankedAt (Text.lines content) name rank index

/-- A definition of a name is that of the best line of a text, in the file at a path. -/
def IsDefinition (content name file : Text) (info : SymbolInfo) : Prop :=
  ∃ rank index line rule, IsBest (Text.lines content) name rank index ∧
    (Text.lines content)[index]? = some line ∧ (rulesFor name)[rank]? = some rule ∧
    info = ⟨name, rule.kind, file, index + 1, trim line⟩

theorem map_symbolInfo_eq_some_iff :
    (definitionIn? content name).map (symbolInfo name file) = some info ↔
      IsDefinition content name file info := by
  rw [Option.map_eq_some_iff]
  constructor
  · rintro ⟨d, hd, rfl⟩
    obtain ⟨rank, index, line, rule, hbest, hline, hrule, rfl⟩ := definitionIn?_eq_some_iff.1 hd
    exact ⟨rank, index, line, rule, hbest, hline, hrule, rfl⟩
  · rintro ⟨rank, index, line, rule, hbest, hline, hrule, rfl⟩
    exact ⟨_, definitionIn?_eq_some_iff.2 ⟨rank, index, line, rule, hbest, hline, hrule, rfl⟩, rfl⟩

theorem map_symbolInfo_eq_none_iff :
    (definitionIn? content name).map (symbolInfo name file) = none ↔ Undefined content name := by
  rw [Option.map_eq_none_iff]
  exact definitionIn?_eq_none_iff

-- ============================================================== one file

theorem symbolInFile?_of_read {d : Disk} (h : d.read (ofText file) = .ok content) :
    symbolInFile? d file name = .ok ((definitionIn? content name).map
      (symbolInfo name (d.resolvedText (ofText file)))) := by
  unfold symbolInFile?
  dsimp only
  rw [h]
  rfl

/-- A source file by itself defines a name as it does in the project. -/
theorem symbolInFile?_absolute {keep ignored : Text → Bool} (hp : p.disk.WellFormed)
    (hf : p.IsSourceFile keep ignored f) :
    symbolInFile? p.disk (p.absolute f) name
      = .ok ((definitionIn? f.content name).map (symbolInfo name (p.absolute f))) := by
  rw [symbolInFile?_of_read (hf.read_absolute hp), hf.resolvedText_absolute hp]

-- =========================================================== the project

theorem symbol?_eq (hfs : p.files = .ok fs) (name : Text) :
    p.symbol? name = .ok (fs.findSome? fun f =>
      (definitionIn? f.content name).map (symbolInfo name (p.absolute f))) := by
  unfold symbol?
  rw [hfs]
  rfl

/-- The first file that defines a name decides. -/
theorem symbol?_eq_some_iff (hfs : p.files = .ok fs) :
    p.symbol? name = .ok (some info) ↔ ∃ before f after, fs = before ++ f :: after ∧
      (∀ g ∈ before, Undefined g.content name) ∧
      IsDefinition f.content name (p.absolute f) info := by
  rw [symbol?_eq hfs, Except.ok.injEq, List.findSome?_eq_some_iff]
  constructor
  · rintro ⟨before, f, after, hsplit, hf, hbefore⟩
    exact ⟨before, f, after, hsplit, fun g hg => map_symbolInfo_eq_none_iff.1 (hbefore g hg),
      map_symbolInfo_eq_some_iff.1 hf⟩
  · rintro ⟨before, f, after, hsplit, hbefore, hf⟩
    exact ⟨before, f, after, hsplit, map_symbolInfo_eq_some_iff.2 hf,
      fun g hg => map_symbolInfo_eq_none_iff.2 (hbefore g hg)⟩

theorem symbol?_eq_none_iff (hfs : p.files = .ok fs) :
    p.symbol? name = .ok none ↔ ∀ f ∈ fs, Undefined f.content name := by
  rw [symbol?_eq hfs, Except.ok.injEq, List.findSome?_eq_none_iff]
  exact forall₂_congr fun f _ => map_symbolInfo_eq_none_iff

-- ======================================================= the main result

/-- The definition of a name in a file is that of the line which comes first by the rule it
satisfies and then by its place, among all lines that satisfy one in the group they stand in and
neither open nor close a group; there is none exactly if no line does. In a project it is what the
first file says that has such a line. -/
theorem definition_bestLine (hp : p.disk.WellFormed) (hfs : p.files = .ok fs) (name : Text) :
    (∀ (d : Disk) file content, d.read (ofText file) = .ok content →
      (∀ info, symbolInFile? d file name = .ok (some info) ↔
        IsDefinition content name (d.resolvedText (ofText file)) info) ∧
      (symbolInFile? d file name = .ok none ↔ Undefined content name)) ∧
    (∀ f ∈ fs, p.disk.read (ofText (p.absolute f)) = .ok f.content) ∧
    (∀ info, p.symbol? name = .ok (some info) ↔ ∃ before f after, fs = before ++ f :: after ∧
      (∀ g ∈ before, symbolInFile? p.disk (p.absolute g) name = .ok none) ∧
      symbolInFile? p.disk (p.absolute f) name = .ok (some info)) ∧
    (p.symbol? name = .ok none ↔
      ∀ f ∈ fs, symbolInFile? p.disk (p.absolute f) name = .ok none) := by
  obtain ⟨ignored, hall⟩ := isSourceFile_of_files hp hfs
  have hundefined : ∀ f ∈ fs,
      (symbolInFile? p.disk (p.absolute f) name = .ok none ↔ Undefined f.content name) := by
    intro f hf
    rw [symbolInFile?_absolute hp (hall f hf), Except.ok.injEq]
    exact map_symbolInfo_eq_none_iff
  refine ⟨fun d file content hread => ?_, fun f hf => (hall f hf).read_absolute hp, fun info => ?_,
    ?_⟩
  · rw [symbolInFile?_of_read hread]
    refine ⟨fun info => ?_, ?_⟩
    · rw [Except.ok.injEq]
      exact map_symbolInfo_eq_some_iff
    · rw [Except.ok.injEq]
      exact map_symbolInfo_eq_none_iff
  · rw [symbol?_eq_some_iff hfs]
    refine exists_congr fun before => exists_congr fun f => exists_congr fun after =>
      and_congr_right fun hsplit => ?_
    subst hsplit
    refine and_congr (forall₂_congr fun g hg => ?_) ?_
    · exact (hundefined g (List.mem_append_left _ hg)).symm
    · have hf := hall f (List.mem_append_right before List.mem_cons_self)
      rw [symbolInFile?_absolute hp hf, Except.ok.injEq]
      exact map_symbolInfo_eq_some_iff.symm
  · rw [symbol?_eq_none_iff hfs]
    exact forall₂_congr fun f hf => (hundefined f hf).symm

/-- A file without definitions. -/
def emptyFile : Text := "package p\n"

/-- A file in which a struct stands below a variable of its name. -/
def shadowedFile : Text := "package p\n\nvar User = 1\n\ntype User struct \x7b\n\x7d\n"

/-- A project of these two files. -/
def shadowedProject : Project :=
  ⟨⟨.dir [("a.go", .file emptyFile), ("b.go", .file shadowedFile)], []⟩, { root := "/" }⟩

theorem files_shadowedProject :
    shadowedProject.files = .ok [⟨["a.go"], emptyFile⟩, ⟨["b.go"], shadowedFile⟩] := by
  rw [files_eq rfl, filesUnless_eq rfl (by decide)]
  decide +kernel

theorem wellFormed_shadowedProject : shadowedProject.disk.WellFormed := by
  refine ⟨.dir (by decide) (by decide) ?_, by decide⟩
  simp only [List.forall_mem_cons]
  exact ⟨.file _, .file _, nofun⟩

/-- The struct is found, in the second file and below the variable. -/
theorem definition_shadowedFile :
    shadowedProject.symbol? "User"
      = .ok (some ⟨"User", .declared .struct, "/b.go", 5, "type User struct \x7b"⟩) ∧
    IsDefinition shadowedFile "User" "/b.go"
      ⟨"User", .declared .struct, "/b.go", 5, "type User struct \x7b"⟩ := by
  obtain ⟨hfile, hread, hproject, -⟩ :=
    definition_bestLine wellFormed_shadowedProject files_shadowedProject "User"
  have hsecond := hread _ (List.mem_cons_of_mem _ List.mem_cons_self)
  have hfound : symbolInFile? shadowedProject.disk "/b.go" "User"
      = .ok (some ⟨"User", .declared .struct, "/b.go", 5, "type User struct \x7b"⟩) := by
    decide +kernel
  have hnone : symbolInFile? shadowedProject.disk "/a.go" "User" = .ok none := by decide +kernel
  refine ⟨(hproject _).2 ⟨[_], _, [], rfl, fun g hg => ?_, hfound⟩, ?_⟩
  · rw [List.mem_singleton.1 hg]
    exact hnone
  · exact ((hfile _ _ _ hsecond).1 _).1 hfound

end GoSurvey.Project
