/-
Files of imports. Imports are printed each after its keyword or in
groups, between lines that begin nothing, and the extractor reads them
back with the lines they stand in (`imports_importFile`).

A group ends at its parenthesis, since no line of an import closes one
or leaves one open (`blockEnd_importGroup`), and the lines with the two
parentheses give no import.
-/
import GoSurvey.Proofs.Declaration.ImportSpec
import GoSurvey.Proofs.Source.Block

namespace GoSurvey.Declaration

open Text Source Pattern DelimiterScan

-- ============================================================= printing

/-- What a file of imports consists of. -/
inductive ImportBlock where
  /-- An import after the keyword. -/
  | single (spec : ImportSpec)
  /-- Imports one below the other in parentheses, all indented. -/
  | group (indent : Text) (specs : List ImportSpec)
  /-- A line that begins nothing. -/
  | other (line : Text)
  deriving DecidableEq, Repr

namespace ImportBlock

/-- A block as it is written. -/
def lines : ImportBlock → List Text
  | single spec => ["import ".toList ++ spec.text]
  | group indent specs =>
    "import (".toList :: ((specs.map fun s => indent ++ s.text) ++ [")".toList])
  | other line => [line]

/-- The imports are well formed, and the other lines begin nothing. -/
def WellFormed : ImportBlock → Prop
  | single spec => spec.WellFormed
  | group indent specs => IsIndent indent ∧ ∀ s ∈ specs, s.WellFormed
  | other line => newline ∉ line ∧ classify? (trim line) = none

instance decidableWellFormed : (b : ImportBlock) → Decidable b.WellFormed
  | single spec => inferInstanceAs (Decidable spec.WellFormed)
  | group indent specs => inferInstanceAs (Decidable (IsIndent indent ∧ ∀ s ∈ specs, s.WellFormed))
  | other line => inferInstanceAs (Decidable (newline ∉ line ∧ classify? (trim line) = none))

end ImportBlock

/-- A file of blocks one below the other. -/
def importFile (blocks : List ImportBlock) : Text := joinLines (blocks.flatMap ImportBlock.lines)

/-- Imports one below the other, the first in the line of a number. -/
def importsBelow (indent : Text) : (number : Nat) → List ImportSpec → List ImportDecl
  | _, [] => []
  | number, s :: specs =>
    s.decl number (indent ++ s.text) :: importsBelow indent (number + 1) specs

/-- The imports of a block whose first line has a number. -/
def ImportBlock.declared (number : Nat) : ImportBlock → List ImportDecl
  | single spec => [spec.decl number ("import ".toList ++ spec.text)]
  | group indent specs => importsBelow indent (number + 1) specs
  | other _ => []

/-- The imports of blocks one below the other. -/
def declaredImports : (number : Nat) → List ImportBlock → List ImportDecl
  | _, [] => []
  | number, b :: blocks => b.declared number ++ declaredImports (number + b.lines.length) blocks

variable {lines : List Text} {index : Nat} {s : ImportSpec}

-- ============================================================== one block

theorem classify?_import {t : Text} (h : "import ".toList <+: t) : classify? t = some .imports := by
  have hkeyword : ("import".toList, Construct.imports) ∈ keywordConstructs := by decide
  exact classify?_of_keyword hkeyword h

theorem classify?_single (s : ImportSpec) :
    classify? (trim ("import ".toList ++ s.text)) = some .imports := by
  have hstart : ∀ c ∈ ("import ".toList ++ s.code).head?, isBlank c = false := by
    rintro c ⟨⟩
    decide
  rw [trim_text hstart]
  exact classify?_import (List.prefix_append _ _)

/-- The lines between those with the parentheses give their imports, and those two give none. -/
theorem importsFrom_group {indent : Text} {specs : List ImportSpec} (hindent : IsIndent indent)
    (hspecs : ∀ s ∈ specs, s.WellFormed) (number : Nat) :
    importsFrom number (ImportBlock.group indent specs).lines
      = importsBelow indent (number + 1) specs := by
  have hopen : ∀ number, parseImports number "import (".toList = [] := fun _ => rfl
  have hclose : ∀ number, parseImports number ")".toList = [] := fun _ => rfl
  have hinside : ∀ number,
      importsFrom number ((specs.map fun s => indent ++ s.text) ++ [")".toList])
      = importsBelow indent number specs := by
    induction specs with
    | nil =>
        intro number
        rw [List.map_nil, List.nil_append, importsFrom, hclose]
        rfl
    | cons s specs ih =>
        intro number
        rw [List.forall_mem_cons] at hspecs
        rw [List.map_cons, List.cons_append, importsFrom,
          parseImports_text (.inr hindent) hspecs.1, ih hspecs.2]
        rfl
  rw [ImportBlock.lines, importsFrom, hopen, hinside, List.nil_append]

/-- A group begins in one line and is closed in a line below its imports. -/
theorem blockEnd_importGroup {indent : Text} {specs : List ImportSpec} {rest : List Text}
    (hindent : IsIndent indent) (hspecs : ∀ s ∈ specs, s.WellFormed)
    (hlines : lines.drop index = (ImportBlock.group indent specs).lines ++ rest) :
    blockEnd parentheses lines index = index + specs.length + 1 := by
  have hopen : feed parentheses {} ("import (".toList ++ [newline]) 0
      = (none, ⟨.code, 1, some 7⟩) := rfl
  have hinside : ∀ line ∈ specs.map fun s => indent ++ s.text,
      feed parentheses ⟨.code, 1, some 7⟩ (line ++ [newline]) 0
        = (none, ⟨.code, 1, some 7⟩) := by
    intro line hline
    obtain ⟨s, hs, rfl⟩ := List.mem_map.1 hline
    exact feed_text (.inr hindent) (hspecs s hs) 1 (some 7)
  have hdrop : lines.drop index = "import (".toList ::
      ((specs.map fun s => indent ++ s.text) ++ ")".toList :: rest) := by
    rw [hlines]
    simp [ImportBlock.lines]
  rw [blockEnd_closed hdrop hopen rfl hinside rfl, List.length_map]

/-- At a block the pass takes its imports and comes to the line after its last one. -/
theorem declarationsFrom_importBlock {b : ImportBlock} (hb : b.WellFormed)
    {above rest : List Text} (hlines : lines = above ++ (b.lines ++ rest)) (content : Text)
    (offset : Nat) :
    ∃ offset',
      declarationsFrom content lines 0 (b.lines ++ rest) above.length offset
        = (b.declared (above.length + 1)).map .ofImport
          ++ declarationsFrom content lines 0 rest (above.length + b.lines.length) offset' := by
  have hdrop : lines.drop above.length = b.lines ++ rest := by rw [hlines, List.drop_left]
  cases b with
  | other line => exact ⟨_, declarationsFrom_none hb.2⟩
  | single s =>
      have hs : s.WellFormed := hb
      have hline : lines[above.length]? = some ("import ".toList ++ s.text) := by
        rw [← List.head?_drop, hdrop]
        rfl
      have hend : blockEnd parentheses lines above.length = above.length := by
        refine blockEnd_unopened hline ?_
        have hlead : IsLead "import ".toList := .inl rfl
        have hfeed := feed_text hlead hs 0 none
        exact congrArg (fun r => r.2.opened) hfeed
      have hone : (lines.take (above.length + 1)).drop above.length
          = ["import ".toList ++ s.text] := by
        rw [List.drop_take, hdrop, Nat.add_sub_cancel_left]
        rfl
      have hread : readConstruct content lines above.length offset
          (trim ("import ".toList ++ s.text)) .imports
            = ([.ofImport (s.decl (above.length + 1) ("import ".toList ++ s.text))],
                above.length) := by
        simp only [readConstruct, hend, hone, importsFrom, parseImports_text (.inl rfl) hs]
        rfl
      exact ⟨_, declarationsFrom_construct [] (classify?_single s) hread⟩
  | group indent specs =>
      obtain ⟨hindent, hspecs⟩ : IsIndent indent ∧ ∀ s ∈ specs, s.WellFormed := hb
      have hend := blockEnd_importGroup hindent hspecs hdrop
      have hcount : (ImportBlock.group indent specs).lines.length = specs.length + 1 + 1 := by
        simp [ImportBlock.lines]
      have hall : (lines.take (above.length + specs.length + 1 + 1)).drop above.length
          = (ImportBlock.group indent specs).lines := by
        have hlength : above.length + specs.length + 1 + 1 - above.length
            = (ImportBlock.group indent specs).lines.length := by omega
        rw [List.drop_take, hdrop, hlength, List.take_left]
      have hread : readConstruct content lines above.length offset
          (trim "import (".toList) .imports
            = ((importsBelow indent (above.length + 1 + 1) specs).map .ofImport, above.length
                + ((specs.map fun s => indent ++ s.text) ++ [")".toList]).length) := by
        simp only [readConstruct, hend, hall, importsFrom_group hindent hspecs]
        simp [Nat.add_assoc]
      have hnext : above.length + (ImportBlock.group indent specs).lines.length
          = above.length + 1 + ((specs.map fun s => indent ++ s.text) ++ [")".toList]).length := by
        rw [ImportBlock.lines, List.length_cons]
        omega
      rw [hnext]
      exact ⟨_, declarationsFrom_construct _ (classify?_import (by decide)) hread⟩

/-- The pass reads one block after another. -/
theorem declarationsFrom_importBlocks {blocks : List ImportBlock}
    (hblocks : ∀ b ∈ blocks, b.WellFormed) {above : List Text}
    (hlines : lines = above ++ blocks.flatMap ImportBlock.lines) (content : Text) (offset : Nat) :
    declarationsFrom content lines 0 (blocks.flatMap ImportBlock.lines) above.length offset
      = (declaredImports (above.length + 1) blocks).map .ofImport := by
  induction blocks generalizing above offset with
  | nil => rfl
  | cons b blocks ih =>
      rw [List.forall_mem_cons] at hblocks
      rw [List.flatMap_cons] at hlines ⊢
      obtain ⟨offset', hblock⟩ := declarationsFrom_importBlock hblocks.1 hlines content offset
      have hrest : lines = above ++ b.lines ++ blocks.flatMap ImportBlock.lines := by
        rw [hlines, List.append_assoc]
      have hlater := ih hblocks.2 hrest offset'
      have hnumber : above.length + 1 + b.lines.length = above.length + b.lines.length + 1 := by
        omega
      rw [List.length_append] at hlater
      rw [hblock, hlater, declaredImports, List.map_append, hnumber]

-- =============================================================== the file

theorem newline_not_mem_importLines {b : ImportBlock} (hb : b.WellFormed) :
    ∀ line ∈ b.lines, newline ∉ line := by
  have hspec : ∀ {lead : Text} {s : ImportSpec}, IsLead lead → s.WellFormed →
      newline ∉ lead ++ s.text := by
    intro lead s hlead hs hmem
    have htext : lead ++ s.text = (lead ++ s.front) ++ (s.literal ++ s.note) := by
      simp [ImportSpec.text, ImportSpec.code]
    rw [htext] at hmem
    rcases List.mem_append.1 hmem with hmem | hmem
    · exact (isFront_front hlead hs).newline hmem
    · exact (List.mem_append.1 hmem).elim (newline_not_mem_literal hs) (newline_not_mem_note hs)
  intro line hline
  cases b with
  | other other =>
      obtain rfl := List.mem_singleton.1 hline
      exact hb.1
  | single s =>
      obtain rfl := List.mem_singleton.1 hline
      exact hspec (.inl rfl) hb
  | group indent specs =>
      rcases List.mem_cons.1 hline with rfl | hline
      · decide
      · rcases List.mem_append.1 hline with hline | hline
        · obtain ⟨s, hs, rfl⟩ := List.mem_map.1 hline
          exact hspec (.inr hb.1) (hb.2 s hs)
        · rw [List.mem_singleton.1 hline]
          decide

/-- Every import of a printed file is reported once, in order, with its path, its line and the
name that it is imported under, and no other import is. -/
theorem imports_importFile {blocks : List ImportBlock} (hblocks : ∀ b ∈ blocks, b.WellFormed)
    (file : Text) :
    (structureOf (importFile blocks) file).imports = declaredImports 1 blocks := by
  have hpass : declarations (importFile blocks) = (declaredImports 1 blocks).map .ofImport := by
    cases blocks with
    | nil => decide
    | cons b blocks =>
        have hne : (b :: blocks).flatMap ImportBlock.lines ≠ [] := by
          rw [List.flatMap_cons]
          cases b <;> simp [ImportBlock.lines]
        have hlines :
            Text.lines (importFile (b :: blocks)) = (b :: blocks).flatMap ImportBlock.lines := by
          refine splitOn_join hne fun line hline => ?_
          obtain ⟨c, hc, hline⟩ := List.mem_flatMap.1 hline
          exact newline_not_mem_importLines (hblocks c hc) line hline
        have hall : (b :: blocks).flatMap ImportBlock.lines
            = [] ++ (b :: blocks).flatMap ImportBlock.lines := rfl
        unfold declarations
        dsimp only
        rw [hlines]
        exact declarationsFrom_importBlocks hblocks hall _ 0
  show (declarations (importFile blocks)).filterMap (·.asImport?) = _
  rw [hpass, List.filterMap_map]
  exact List.filterMap_some

/-- Imports of both forms. In their paths and comments stand the marks of comments, parentheses,
quotes and backticks. -/
def mixedImports : List ImportBlock :=
  [.other "package p", .other "",
    .single ⟨"", "fmt", some "isn't \x22closed ("⟩,
    .group "\t" [⟨"_", "a//b(c", none⟩, ⟨".", "it's`", some ") \x7d */"⟩, ⟨"v2", "x/y/v2", none⟩],
    .single ⟨"imports", "import", some ""⟩]

theorem imports_mixedImports :
    (∀ b ∈ mixedImports, b.WellFormed) ∧
      (structureOf (importFile mixedImports) "m.go").imports.map
          (fun d => (d.importedAs, d.path, d.line))
        = [([], "fmt".toList, 3), ("_".toList, "a//b(c".toList, 5), (".".toList, "it's`".toList, 6),
            ("v2".toList, "x/y/v2".toList, 7), ("imports".toList, "import".toList, 9)] := by
  have hblocks : ∀ b ∈ mixedImports, b.WellFormed := by decide +kernel
  refine ⟨hblocks, ?_⟩
  rw [imports_importFile hblocks]
  decide +kernel

end GoSurvey.Declaration
