/-
Extracting functions undoes printing them. The pass comes to each printed
function at the start of its first line, below a blank one, and goes on
at the blank line after it: `declarationsFrom_printed` is that invariant,
by induction on the functions that are still to come. What stands before
the place is all the pass knows of the functions before, so it is a
parameter of the induction, and the lines are counted in it.
-/
import GoSurvey.Proofs.Declaration.Line
import GoSurvey.Proofs.Declaration.Printed

namespace GoSurvey.Declaration

open Text Source Pattern

-- ============================================================ printing

/-- The clause a file begins with, and a blank line. -/
def packageClause (package : Text) : Text := "package " ++ package ++ "\n\n"

/-- Functions one after another, each with a blank line after it. -/
def printed (fs : List FunctionText) : Text := fs.flatMap fun f => f.text ++ "\n\n"

/-- A file of functions. -/
def sourceOf (package : Text) (fs : List FunctionText) : Text := packageClause package ++ printed fs

/-- The declarations of functions that are printed after a text, each in the line it begins. -/
def placedAfter : (before : Text) → List FunctionText → List FunctionDecl
  | _, [] => []
  | before, f :: fs =>
    f.decl (before.count newline + 1) :: placedAfter (before ++ f.text ++ "\n\n") fs

-- ==================================================== lines of the source

/-- The lines that a text is cut into, each with its newline, are the text with one more. -/
theorem flatMap_lines (t : Text) : (lines t).flatMap (· ++ [newline]) = t ++ [newline] := by
  have hne : lines t ≠ [] := splitOn_ne_nil newline t
  rw [flatMap_newline hne, joinLines_lines]

/-- Below a text and a blank line the lines go on with those of the rest. -/
theorem lines_append_blank (above rest : Text) :
    lines (above ++ "\n\n" ++ rest) = lines above ++ [] :: lines rest := by
  have htext : above ++ "\n\n" ++ rest = above ++ newline :: newline :: rest := by simp
  unfold lines
  rw [htext, splitOn_append_cons]
  congr 1

theorem length_lines_above (above : Text) :
    (lines above ++ [[]]).length = (above ++ "\n\n").count newline := by
  rw [List.length_append, length_lines, List.count_append]
  rfl

-- ================================================== a function in a file

variable {f : FunctionText}

theorem leadingComments_below (above : Text) (rest : List Text) :
    leadingComments (lines above ++ [] :: rest) (lines above ++ [[]]).length = [] := by
  have htake : (lines above ++ [] :: rest).take (lines above ++ [[]]).length
      = lines above ++ [[]] := by
    have hsplit : lines above ++ [] :: rest = (lines above ++ [[]]) ++ rest := by simp
    rw [hsplit, List.take_left]
  unfold leadingComments
  rw [htake, List.reverse_concat]
  rfl

theorem nextDeclaration_line {t : Text} (h : newline ∉ t) : nextDeclaration.occursIn t = false := by
  refine Bool.eq_false_iff.2 fun hoccurs => ?_
  obtain ⟨w, s, -, hs⟩ := occursIn_iff.1 hoccurs
  unfold nextDeclaration at hs
  rw [readings_assoc] at hs
  obtain ⟨m, hm, -⟩ := mem_readings_seq.1 hs
  obtain ⟨c, hc, hnewline, -⟩ := mem_readings_one.1 hm
  obtain rfl := beq_iff_eq.1 hnewline
  exact h ((List.drop_suffix _ _).subset (hc.subset List.mem_cons_self))

/-- Up to the brace of the body no other declaration begins. -/
theorem nextDeclaration_signature (hf : f.WellFormed) (before post : Text) :
    nextDeclaration.occursIn (slice (before ++ (f.text ++ post)) before.length
      (before.length + f.signature.length + 1)) = false := by
  have hinline : Inline (f.signature ++ [' ']) :=
    (FunctionText.signature_spaced hf).part ⟨[], ['{'], by simp⟩
  have hslice := slice_append before (f.signature ++ [' ']) ('{' :: (f.body ++ '}' :: post))
  have htext : before ++ (f.text ++ post)
      = before ++ (f.signature ++ [' '] ++ '{' :: (f.body ++ '}' :: post)) := by
    rw [f.text_eq]
    simp
  rw [List.length_append, List.length_singleton, ← Nat.add_assoc, ← htext] at hslice
  rw [hslice]
  exact nextDeclaration_line hinline.newline_not_mem

/-- The body closes in the last line of the function. -/
theorem findMatching?_body (hf : f.WellFormed) (before post : Text) :
    ∃ opener closer, findMatching? braces (before ++ (f.text ++ post))
        (before.length + f.signature.length + 1) = some (opener, closer) ∧
      lineAt (before ++ (f.text ++ post)) closer - 1
        = before.count newline + f.text.count newline := by
  have hfound := findMatching?_of_group (d := braces) (by decide) hf.body
    (before ++ f.signature ++ [' ']) post
  have htext : before ++ (f.text ++ post)
      = (before ++ f.signature ++ [' ']) ++ ('{' :: (f.body ++ ['}']) ++ post) := by
    rw [f.text_eq]
    simp
  have hopener : before.length + f.signature.length + 1
      = (before ++ f.signature ++ [' ']).length := by
    simp only [List.length_append, List.length_singleton]
  rw [← htext, ← hopener] at hfound
  refine ⟨_, _, hfound, ?_⟩
  -- Up to the closing brace stands all of the function but that brace.
  have hsplit : before ++ (f.text ++ post)
      = (before ++ f.signature ++ [' ', '{'] ++ f.body) ++ '}' :: post := by
    rw [f.text_eq]
    simp
  have hcloser : f.body.length + 1 + (before.length + f.signature.length + 1)
      = (before ++ f.signature ++ [' ', '{'] ++ f.body).length := by
    simp only [List.length_append, List.length_cons, List.length_nil]
    omega
  have hcount : f.text.count newline = f.signature.count newline + f.body.count newline := by
    rw [f.text_eq, List.count_append, List.count_cons_of_ne (by decide),
      List.count_cons_of_ne (by decide), List.count_append]
    rfl
  unfold lineAt
  rw [hsplit, hcloser, List.take_left, Nat.add_sub_cancel, hcount]
  simp only [List.count_append]
  have hbrace : [' ', '{'].count newline = 0 := rfl
  omega

/-- The lines of a function are those of its text. -/
theorem functionBlockAt_text (hf : f.WellFormed) (above post : Text) :
    functionBlockAt (above ++ "\n\n" ++ (f.text ++ newline :: post))
        (lines (above ++ "\n\n" ++ (f.text ++ newline :: post))) (above ++ "\n\n").length
        ((above ++ "\n\n").count newline)
      = ⟨f.text, (above ++ "\n\n").count newline + f.text.count newline⟩ := by
  have hopen := FunctionText.findBodyOpen?_text hf (above ++ "\n\n") (newline :: post)
  obtain ⟨opener, closer, hclose, hlast⟩ :=
    findMatching?_body hf (above ++ "\n\n") (newline :: post)
  have hlines : lines (above ++ "\n\n" ++ (f.text ++ newline :: post))
      = (lines above ++ [[]]) ++ (lines f.text ++ lines post) := by
    rw [lines_append_blank]
    unfold lines
    rw [splitOn_append_cons]
    simp
  have hblock : linesText (lines (above ++ "\n\n" ++ (f.text ++ newline :: post)))
      ((above ++ "\n\n").count newline)
      ((above ++ "\n\n").count newline + f.text.count newline) = f.text := by
    rw [linesText_eq_take (Nat.le_add_right _ _), hlines, ← length_lines_above, List.drop_left,
      Nat.add_sub_cancel_left, ← length_lines, List.take_left, joinLines_lines]
  unfold functionBlockAt
  rw [hopen]
  dsimp only
  rw [nextDeclaration_signature hf, if_neg Bool.false_ne_true, hclose]
  dsimp only
  rw [hlast, hblock]

theorem classify?_firstLine (hf : f.WellFormed) {first : Text} {others : List Text}
    (hlines : lines f.text = first :: others) : classify? (trim first) = some .function := by
  have hsignature := FunctionText.signature_trimmed hf
  have hnot : newline ∉ f.signature :=
    (FunctionText.signature_fragment hf).inline.newline_not_mem
  have htext : f.signature <+: f.text := by
    rw [f.text_eq]
    exact List.prefix_append _ _
  obtain ⟨u, rfl⟩ := prefix_head_splitOn hlines htext hnot
  have hfunc : "func ".toList <+: f.signature := by
    rw [f.signature_eq]
    unfold FunctionText.head
    simp only [List.append_assoc]
    exact List.prefix_append _ _
  have hne : f.signature ≠ [] := by
    rintro h
    rw [h] at hfunc
    exact absurd (List.prefix_nil.1 hfunc) (by decide)
  have hkeyword : ("func".toList, Construct.function) ∈ keywordConstructs := by decide
  exact classify?_of_keyword hkeyword (hfunc.trans (hsignature.prefix_trim hne u))

-- ============================================================== the pass

/-- At a function the pass takes it and comes to the line after its last one. -/
theorem declarationsFrom_text (hf : f.WellFormed) {above post content : Text}
    (hcontent : content = above ++ "\n\n" ++ (f.text ++ newline :: post)) (rest : List Text) :
    declarationsFrom content (lines content) 0 (lines f.text ++ rest)
        ((above ++ "\n\n").count newline) (above ++ "\n\n").length
      = .ofFunction (f.decl ((above ++ "\n\n").count newline + 1))
        :: declarationsFrom content (lines content) 0 rest
            ((above ++ "\n\n" ++ f.text).count newline + 1)
            ((above ++ "\n\n" ++ f.text).length + 1) := by
  have hblock := functionBlockAt_text hf above post
  have hcomments := leadingComments_below above (lines (f.text ++ newline :: post))
  have hparse := parseFunction?_text hf ((above ++ "\n\n").count newline + 1) []
  rw [← lines_append_blank, length_lines_above] at hcomments
  rw [← hcontent] at hblock hcomments
  have hlength := congrArg List.length (flatMap_lines f.text)
  have hcount := length_lines f.text
  cases hfirst : lines f.text with
  | nil => exact absurd hfirst (splitOn_ne_nil newline f.text)
  | cons first others =>
      rw [hfirst] at hlength hcount
      -- The construct is taken at its first line, and the others are skipped.
      have hothers : f.text.count newline = others.length := (Nat.add_right_cancel hcount).symm
      have hread : readConstruct content (lines content) ((above ++ "\n\n").count newline)
          (above ++ "\n\n").length (trim first) .function
            = ([.ofFunction (f.decl ((above ++ "\n\n").count newline + 1))],
                (above ++ "\n\n").count newline + others.length) := by
        dsimp only [readConstruct]
        rw [hblock, hcomments]
        dsimp only
        rw [hparse, hothers]
        rfl
      rw [List.cons_append, declarationsFrom_construct others (classify?_firstLine hf hfirst) hread]
      simp only [List.flatMap_cons, List.length_append, List.length_singleton] at hlength
      have hindex : (above ++ "\n\n").count newline + 1 + others.length
          = (above ++ "\n\n" ++ f.text).count newline + 1 := by
        have happend : (above ++ "\n\n" ++ f.text).count newline
            = (above ++ "\n\n").count newline + f.text.count newline := List.count_append
        omega
      have hoffset : (above ++ "\n\n").length + first.length + 1
            + (others.flatMap (· ++ [newline])).length
          = (above ++ "\n\n" ++ f.text).length + 1 := by
        have happend : (above ++ "\n\n" ++ f.text).length
            = (above ++ "\n\n").length + f.text.length := List.length_append
        omega
      rw [hindex, hoffset]
      rfl

/-- The pass reads one function after another, from a place below a blank line on. -/
theorem declarationsFrom_printed {fs : List FunctionText} (hfs : ∀ f ∈ fs, f.WellFormed)
    (above : Text) :
    declarationsFrom (above ++ "\n\n" ++ printed fs) (lines (above ++ "\n\n" ++ printed fs)) 0
        (lines (printed fs)) ((above ++ "\n\n").count newline) (above ++ "\n\n").length
      = (placedAfter (above ++ "\n\n") fs).map .ofFunction := by
  have hblank : classify? (trim []) = none := classify?_eq_none (by decide)
  induction fs generalizing above with
  | nil => exact declarationsFrom_none hblank
  | cons f fs ih =>
      have hf := hfs f List.mem_cons_self
      have hlater := ih (fun g hg => hfs g (List.mem_cons_of_mem f hg)) (above ++ "\n\n" ++ f.text)
      have hprinted : printed (f :: fs) = f.text ++ newline :: newline :: printed fs := by
        simp [printed]
      have hcontent : above ++ "\n\n" ++ f.text ++ "\n\n" ++ printed fs
          = above ++ "\n\n" ++ printed (f :: fs) := by simp [printed]
      have hlines : lines (printed (f :: fs)) = lines f.text ++ [] :: lines (printed fs) := by
        rw [hprinted]
        unfold lines
        rw [splitOn_append_cons]
        rfl
      have hindex : (above ++ "\n\n" ++ f.text ++ "\n\n").count newline
          = (above ++ "\n\n" ++ f.text).count newline + 1 + 1 := by
        rw [List.count_append]
        rfl
      have hoffset : (above ++ "\n\n" ++ f.text ++ "\n\n").length
          = (above ++ "\n\n" ++ f.text).length + 1 + 0 + 1 := by
        rw [List.length_append]
        rfl
      rw [hcontent, hindex, hoffset] at hlater
      rw [hlines, declarationsFrom_text hf (congrArg _ hprinted), declarationsFrom_none hblank]
      exact congrArg (List.cons _) hlater

-- ======================================================= the round trip

/-- Extracting the functions of a printed file gives the functions that were printed. -/
theorem functions_sourceOf {package : Text} {fs : List FunctionText}
    (hpackage : isWordText package = true) (hfs : ∀ f ∈ fs, f.WellFormed) (file : Text) :
    (structureOf (sourceOf package fs) file).functions
      = placedAfter (packageClause package) fs := by
  obtain ⟨hnewline, hnone⟩ := classify?_package hpackage
  have hblank : classify? (trim []) = none := classify?_eq_none (by decide)
  have hlines : lines (sourceOf package fs)
      = ("package " ++ package) :: [] :: lines (printed fs) := by
    unfold sourceOf packageClause
    rw [lines_append_blank]
    unfold lines
    rw [splitOn_of_not_mem hnewline]
    rfl
  have hdeclarations : declarations (sourceOf package fs)
      = (placedAfter (packageClause package) fs).map .ofFunction := by
    have hpass := declarationsFrom_printed hfs ("package " ++ package)
    have hindex : (("package " ++ package) ++ "\n\n").count newline = 0 + 1 + 1 := by
      rw [List.count_append, List.count_eq_zero.2 hnewline]
      rfl
    have hoffset : (("package " ++ package) ++ "\n\n").length
        = 0 + ("package " ++ package).length + 1 + 0 + 1 := by
      rw [List.length_append, Nat.zero_add]
      rfl
    rw [hindex, hoffset] at hpass
    unfold declarations
    dsimp only
    rw [hlines, declarationsFrom_none hnone, declarationsFrom_none hblank, ← hlines]
    exact hpass
  show (declarations (sourceOf package fs)).filterMap (·.asFunction?) = _
  rw [hdeclarations, List.filterMap_map]
  exact List.filterMap_some

/-- A method whose signature has the braces of types, with a body in which lines begin like
declarations and braces stand in a literal and in comments, and a function without any of that. -/
def storeFunctions : List FunctionText :=
  [{ receiver := "s *Store"
     name := "Pick"
     parameters :=
       [⟨"by", "func(a, b interface{}) bool"⟩, ⟨"into", "map[string]struct { n int }"⟩]
     result := "(interface{}, error)"
     body := "\n\tx := \x22\x7d\x22 // \x7b\nfunc in line\nvar y = m\x7b\x7d /* \x7d */\n" },
   { receiver := "", name := "main", parameters := [], result := "", body := "" }]

theorem functions_storeFunctions :
    isWordText "store" = true ∧ (∀ f ∈ storeFunctions, f.WellFormed) ∧
      (structureOf (sourceOf "store" storeFunctions) "store.go").functions
        = List.zipWith FunctionText.decl storeFunctions [3, 9] := by
  have hpackage : isWordText "store" = true := by decide +kernel
  have hfs : ∀ f ∈ storeFunctions, f.WellFormed := by decide +kernel
  refine ⟨hpackage, hfs, ?_⟩
  rw [functions_sourceOf hpackage hfs]
  decide +kernel

end GoSurvey.Declaration
