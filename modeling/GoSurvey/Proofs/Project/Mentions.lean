/-
The lines of a project that contain a name, in the order of the files and
of the lines in each of them (`usages_exact`). The definition of the name is
one of them: whatever rule its line satisfies, the name has to stand there
as it is, since the patterns of all the rules read it as a literal
(`infix_of_rankedAt`). Both sides name the file: the definition by its
absolute path, the mention by the path relative to the root.
-/
import GoSurvey.Proofs.Pattern.Search
import GoSurvey.Proofs.Project.Definitions
import GoSurvey.Proofs.Text.Part

namespace GoSurvey.Symbol

open Text Pattern

variable {file name : Text} {lines : List Text} {number : Nat} {u : SymbolUsage}

-- ======================================== the name in its definition

/-- Every rule for a name reads the name itself. -/
theorem needs_of_mem_rulesFor {r : NameRule} (hr : r ∈ rulesFor name) : Needs r.pattern name := by
  have hname : ∀ p : Pattern, Needs (p ++ lit name) name := (needs_lit name).behind
  simp only [rulesFor, definitionRules, List.map_cons, List.map_nil, List.mem_cons,
    List.not_mem_nil, or_false] at hr
  rcases hr with rfl | rfl | rfl | rfl | rfl | rfl | rfl | rfl | rfl | rfl | rfl
  · exact (hname _).append _
  · exact (hname _).append _
  · exact (hname _).append _
  · exact ((((hname _).append _).append _).append _).append _
  · exact ((((hname _).append _).append _).append _).append _
  · exact ((hname _).append _).append _
  · exact (((hname _).append _).append _).append _
  · exact (((hname _).append _).append _).append _
  · exact (hname _).append _
  · exact (((hname _).append _).append _).append _
  · exact (((hname _).append _).append _).append _

/-- A line that defines a name contains it. -/
theorem infix_of_rankedAt {rank index : Nat} {line : Text} (h : RankedAt lines name rank index)
    (hline : lines[index]? = some line) : name <:+: line := by
  obtain ⟨_, hline', -, ⟨r, hr, -, hoccurs⟩, -⟩ := h
  obtain rfl := Option.some.inj (hline.symm.trans hline')
  exact (needs_of_mem_rulesFor (List.mem_of_getElem? hr)).infix_of_occursIn hoccurs

-- =============================================== the lines of a file

theorem mem_usagesFrom_iff :
    u ∈ usagesFrom file name number lines ↔
      ∃ index line, lines[index]? = some line ∧ name <:+: line ∧
        u = ⟨file, number + index, trim line⟩ := by
  induction lines generalizing number with
  | nil =>
      constructor
      · intro h
        cases h
      · rintro ⟨index, line, hline, -⟩
        cases hline
  | cons first rest ih =>
      have hstep : u ∈ usagesFrom file name number (first :: rest) ↔
          (name <:+: first ∧ u = ⟨file, number, trim first⟩) ∨
            u ∈ usagesFrom file name (number + 1) rest := by
        rw [usagesFrom, ← contains_iff]
        split
        · next h => rw [List.mem_cons, and_iff_right h]
        · next h => rw [or_iff_right fun hfirst => h hfirst.1]
      rw [hstep, ih]
      constructor
      · rintro (⟨hin, rfl⟩ | ⟨index, line, hline, hin, rfl⟩)
        · exact ⟨0, first, rfl, hin, rfl⟩
        · exact ⟨index + 1, line, hline, hin, by rw [Nat.add_right_comm, Nat.add_assoc]⟩
      · rintro ⟨index, line, hline, hin, rfl⟩
        cases index with
        | zero =>
            obtain rfl := Option.some.inj hline
            exact .inl ⟨hin, rfl⟩
        | succ index =>
            exact .inr ⟨index, line, hline, hin, by rw [Nat.add_right_comm, Nat.add_assoc]⟩

theorem usagesFrom_pairwise : (usagesFrom file name number lines).Pairwise (·.line < ·.line) := by
  induction lines generalizing number with
  | nil => exact List.Pairwise.nil
  | cons first rest ih =>
      rw [usagesFrom]
      split
      · refine List.pairwise_cons.2 ⟨fun u hu => ?_, ih⟩
        obtain ⟨index, line, -, -, rfl⟩ := mem_usagesFrom_iff.1 hu
        show number < number + 1 + index
        omega
      · exact ih

/-- A line with a number is a mention of a name if it contains the name. -/
theorem mem_usagesIn_iff {content : Text} :
    u ∈ usagesIn content file name ↔
      ∃ index line, (Text.lines content)[index]? = some line ∧ name <:+: line ∧
        u = ⟨file, index + 1, trim line⟩ := by
  unfold usagesIn
  rw [mem_usagesFrom_iff]
  simp only [Nat.add_comm 1]

end GoSurvey.Symbol

namespace GoSurvey.Project

open Text GoSurvey.Path FileTree GoSurvey.Symbol

variable {p : Project} {fs : List SourceFile} {name : Text}

-- ========================================================= the order

/-- The place of a mention: the position of its file among the files, and the line. -/
def placeOf (fs : List SourceFile) (u : SymbolUsage) : Nat ×ₗ Nat :=
  toLex ((fs.map (·.relative)).idxOf u.file, u.line)

/-- A list without repetitions has its members in the order of their positions. -/
theorem idxOf_pairwise {ts : List Text} (h : ts.Nodup) :
    ts.Pairwise fun a b => ts.idxOf a < ts.idxOf b := by
  rw [List.pairwise_iff_getElem]
  intro i j hi hj hij
  rw [h.idxOf_getElem i hi, h.idxOf_getElem j hj]
  exact hij

theorem usages_eq (hfs : p.files = .ok fs) (name : Text) :
    p.usages name = .ok (fs.flatMap fun f => usagesIn f.content f.relative name) := by
  unfold usages
  rw [sources_eq hfs]
  exact congrArg Except.ok (List.flatMap_map _ _ fs)

/-- Mentions in one file stand in the order of their lines, and those in a file before those in
the next. -/
theorem usages_pairwise (h : (fs.map (·.relative)).Nodup) :
    (fs.flatMap fun f => usagesIn f.content f.relative name).Pairwise
      fun u v => placeOf fs u < placeOf fs v := by
  have hfile : ∀ {f : SourceFile} {u : SymbolUsage},
      u ∈ usagesIn f.content f.relative name → u.file = f.relative := by
    intro f u hu
    obtain ⟨index, line, -, -, rfl⟩ := mem_usagesIn_iff.1 hu
    rfl
  rw [List.pairwise_flatMap]
  refine ⟨fun f _ => ?_, ?_⟩
  · refine List.Pairwise.imp_of_mem (fun hu hv hlt => ?_) usagesFrom_pairwise
    refine Prod.Lex.toLex_lt_toLex.2 (.inr ⟨?_, hlt⟩)
    rw [hfile hu, hfile hv]
  · refine (List.pairwise_map.1 (idxOf_pairwise h)).imp fun hlt u hu v hv => ?_
    refine Prod.Lex.toLex_lt_toLex.2 (.inl ?_)
    rw [hfile hu, hfile hv]
    exact hlt

/-- The definition of a name in a text is one of the lines that mention it there. -/
theorem mem_usagesIn_of_isDefinition {content file relative : Text} {info : SymbolInfo}
    (h : IsDefinition content name file info) :
    ⟨relative, info.line, info.signature⟩ ∈ usagesIn content relative name := by
  obtain ⟨rank, index, line, rule, hbest, hline, -, rfl⟩ := h
  exact mem_usagesIn_iff.2 ⟨index, line, hline, infix_of_rankedAt hbest.ranked hline, rfl⟩

-- ==================================================== the main result

/-- The mentions of a name are the lines of the project that contain it, each one time, in the order
of the files and of their lines; if the name has a definition, its line is one of them, with the
same text, under the path of its file relative to the root. -/
theorem usages_exact (hp : p.disk.WellFormed) (hfs : p.files = .ok fs) (name : Text) :
    ∃ us, p.usages name = .ok us ∧
      (∀ info, p.symbol? name = .ok (some info) →
        ⟨p.disk.relativeText (ofText info.file) p.rootPath, info.line, info.signature⟩ ∈ us) ∧
      (∀ u, u ∈ us ↔ ∃ f ∈ fs, ∃ index line, (Text.lines f.content)[index]? = some line ∧
        name <:+: line ∧ u = ⟨f.relative, index + 1, trim line⟩) ∧
      us.Pairwise fun u v => placeOf fs u < placeOf fs v := by
  refine ⟨_, usages_eq hfs name, fun info hinfo => ?_, fun u => ?_,
    usages_pairwise (nodup_relative hp hfs)⟩
  · obtain ⟨ignored, hall⟩ := isSourceFile_of_files hp hfs
    obtain ⟨before, f, after, hsplit, -, hdefinition⟩ := (symbol?_eq_some_iff hfs).1 hinfo
    have hf : f ∈ fs := hsplit ▸ List.mem_append_right before List.mem_cons_self
    have hpath : info.file = p.absolute f := by
      obtain ⟨_, _, _, _, -, -, -, rfl⟩ := hdefinition
      rfl
    rw [hpath, (hall f hf).relativeText_absolute hp]
    exact List.mem_flatMap.2 ⟨f, hf, mem_usagesIn_of_isDefinition hdefinition⟩
  · rw [List.mem_flatMap]
    exact exists_congr fun f => and_congr_right fun _ => mem_usagesIn_iff

/-- A file that mentions a name with a point in it. -/
def mentioningFile : Text := "package p\n\n// r.err is kept\n"

/-- A file that defines the name, below a line in which another character stands for the point. -/
def dottedFile : Text := "package p\n\nfunc f() \x7b\n\trxerr := 2\n\tr.err := 1\n\x7d\n"

/-- A project of these two files, with its root below that of the disk. -/
def dottedProject : Project :=
  ⟨⟨.dir [("app", .dir [("a.go", .file mentioningFile), ("b.go", .file dottedFile)])], []⟩,
    { root := "/app" }⟩

theorem files_dottedProject :
    dottedProject.files = .ok [⟨["a.go"], mentioningFile⟩, ⟨["b.go"], dottedFile⟩] := by
  rw [files_eq rfl, filesUnless_eq rfl (by decide)]
  decide +kernel

theorem wellFormed_dottedProject : dottedProject.disk.WellFormed := by
  refine ⟨wellFormed_single (by decide) (.dir (by decide) (by decide) ?_), by decide⟩
  simp only [List.forall_mem_cons]
  exact ⟨.file _, .file _, nofun⟩

/-- The definition is the line with the name as it is, and both lines that have it are mentions. -/
theorem usages_dottedFile :
    dottedProject.symbol? "r.err"
      = .ok (some ⟨"r.err", .shortVariable, "/app/b.go", 5, "r.err := 1"⟩) ∧
    ∃ us, dottedProject.usages "r.err" = .ok us ∧ ⟨"b.go", 5, "r.err := 1"⟩ ∈ us ∧
      ⟨"a.go", 3, "// r.err is kept"⟩ ∈ us := by
  obtain ⟨us, hus, hdefinition, hexact, -⟩ :=
    usages_exact wellFormed_dottedProject files_dottedProject "r.err"
  have hfound : dottedProject.symbol? "r.err"
      = .ok (some ⟨"r.err", .shortVariable, "/app/b.go", 5, "r.err := 1"⟩) := by
    rw [symbol?_eq files_dottedProject]
    decide +kernel
  have hrelative : dottedProject.disk.relativeText (ofText "/app/b.go") dottedProject.rootPath
      = "b.go".toList := by
    decide +kernel
  refine ⟨hfound, us, hus, hrelative ▸ hdefinition _ hfound, ?_⟩
  exact (hexact _).2 ⟨_, List.mem_cons_self, 2, "// r.err is kept".toList, by decide +kernel,
    by decide +kernel, by decide +kernel⟩

end GoSurvey.Project
