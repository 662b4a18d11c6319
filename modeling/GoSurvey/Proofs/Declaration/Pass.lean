/-
The pass over the lines of a file takes each construct together with the
lines it extends over and goes on after them. `constructsOf` lists the
constructs that the pass takes, each with its first and its last line,
and what the pass yields is what they declare, one after another
(`declarations_eq_flatMap`).

That a construct declares nothing outside its lines is a fact about each
kind of construct (`readConstruct_wellPlaced`); that the constructs do
not overlap is the invariant of the pass (`constructsOf_apart`).
Together they put all declarations in order, and they leave the lines of
a function to that function alone.
-/
import GoSurvey.Proofs.Declaration.Extent
import Mathlib.Data.List.Basic

namespace GoSurvey

open Text

/-- All the declarations of a file, kind by kind. -/
def FileStructure.declared (s : FileStructure) : List Declaration :=
  s.imports.map .ofImport ++ s.types.map .ofType ++ s.constants.map .ofConstant
    ++ s.packageVars.map .ofVariable ++ s.functions.map .ofFunction ++ s.structs.map .ofStruct
    ++ s.interfaces.map .ofInterface

namespace Declaration

open Source

-- ========================================================== constructs

/-- A construct with the indices of its first and last line and with what it declares. -/
structure Extended where
  first : Nat
  last : Nat
  found : List Declaration

/-- The constructs in lines of which the first has an index and an offset; `skip` of the lines
belong to the construct before. -/
def constructsFrom (content : Text) (lines : List Text) :
    (skip : Nat) → List Text → (index offset : Nat) → List Extended
  | _, [], _, _ => []
  | skip + 1, line :: rest, index, offset =>
    constructsFrom content lines skip rest (index + 1) (offset + line.length + 1)
  | 0, line :: rest, index, offset =>
    match classify? (trim line) with
    | none => constructsFrom content lines 0 rest (index + 1) (offset + line.length + 1)
    | some construct =>
      let (found, last) := readConstruct content lines index offset (trim line) construct
      ⟨index, last, found⟩
        :: constructsFrom content lines (last - index) rest (index + 1) (offset + line.length + 1)

/-- The constructs of a text in source order. -/
def constructsOf (content : Text) : List Extended :=
  constructsFrom content (Text.lines content) 0 (Text.lines content) 0 0

/-- The pass declares what its constructs declare, in their order. -/
theorem declarationsFrom_eq_flatMap (content : Text) (lines : List Text) (skip : Nat)
    (rest : List Text) (index offset : Nat) :
    declarationsFrom content lines skip rest index offset
      = (constructsFrom content lines skip rest index offset).flatMap (·.found) := by
  induction rest generalizing skip index offset with
  | nil => simp [declarationsFrom, constructsFrom]
  | cons line rest ih =>
      cases skip with
      | succ skip => exact ih skip _ _
      | zero =>
          rw [declarationsFrom, constructsFrom]
          cases classify? (trim line) with
          | none => exact ih 0 _ _
          | some construct =>
              dsimp only
              rw [List.flatMap_cons, ih]

/-- The pass yields what the constructs declare. -/
theorem declarations_eq_flatMap (content : Text) :
    declarations content = (constructsOf content).flatMap (·.found) :=
  declarationsFrom_eq_flatMap content _ 0 _ 0 0

/-- A construct lies in the file, and all it declares lies in its lines, in order. A function is all
that its construct declares, and its text is the text of the construct. -/
structure Extended.WellPlaced (lines : List Text) (x : Extended) : Prop where
  le : x.first ≤ x.last
  lt : x.last < lines.length
  bounds : ∀ d ∈ x.found, x.first + 1 ≤ d.line ∧ d.line ≤ x.last + 1
  order : x.found.Pairwise fun d e => d.line ≤ e.line
  function : ∀ f, .ofFunction f ∈ x.found →
    x.found = [.ofFunction f] ∧ f.line = x.first + 1 ∧ f.snippet = linesText lines x.first x.last

-- ================================================ what each kind declares

/-- Declarations whose lines increase and lie between two lines, and none of which is a function. -/
structure PlacedBetween (ds : List Declaration) (first last : Nat) : Prop where
  bounds : ∀ d ∈ ds, first ≤ d.line ∧ d.line ≤ last
  order : ds.Pairwise fun d e => d.line ≤ e.line
  no_function : ∀ f, .ofFunction f ∉ ds

theorem PlacedBetween.wellPlaced {lines : List Text} {first last : Nat} {ds : List Declaration}
    (h : PlacedBetween ds (first + 1) (last + 1)) (hle : first ≤ last) (hlt : last < lines.length) :
    Extended.WellPlaced lines ⟨first, last, ds⟩ :=
  ⟨hle, hlt, h.bounds, h.order, fun f hf => absurd hf (h.no_function f)⟩

/-- Fewer lines lie between lines further apart. -/
theorem PlacedBetween.mono {ds : List Declaration} {first last last' : Nat}
    (h : PlacedBetween ds first last) (hle : last ≤ last') : PlacedBetween ds first last' :=
  ⟨fun d hd => ⟨(h.bounds d hd).1, Nat.le_trans (h.bounds d hd).2 hle⟩, h.order, h.no_function⟩

/-- Declarations in one line are in order. -/
theorem placedBetween_of_line {ds : List Declaration} {number : Nat}
    (hline : ∀ d ∈ ds, d.line = number) (hfunction : ∀ f, .ofFunction f ∉ ds) :
    PlacedBetween ds number number := by
  refine ⟨fun d hd => ?_, List.pairwise_of_forall_mem_list fun d hd e he => ?_, hfunction⟩
  · rw [hline d hd]
    exact ⟨Nat.le_refl _, Nat.le_refl _⟩
  · exact Nat.le_of_eq ((hline d hd).trans (hline e he).symm)

/-- What each spec of a list declares in its own line stands in the lines of the specs. -/
theorem placedBetween_flatMap {specs : List Spec} {first last : Nat}
    (hspecs : InLines specs first last) {declared : Spec → List Declaration}
    (hline : ∀ s, ∀ d ∈ declared s, d.line = s.line)
    (hfunction : ∀ s f, .ofFunction f ∉ declared s) :
    PlacedBetween (specs.flatMap declared) first last := by
  refine ⟨fun d hd => ?_, ?_, fun f hf => ?_⟩
  · obtain ⟨s, hs, hd⟩ := List.mem_flatMap.1 hd
    rw [hline s d hd]
    exact hspecs.bounds s hs
  · refine List.pairwise_flatMap.2 ⟨fun s _ => ?_, hspecs.order.imp fun hst d hd e he => ?_⟩
    · exact (placedBetween_of_line (hline s) (hfunction s)).order
    · rw [hline _ d hd, hline _ e he]
      exact hst
  · obtain ⟨s, -, hf⟩ := List.mem_flatMap.1 hf
    exact hfunction s f hf

theorem parseImports_line {number : Nat} {raw : Text} {d : ImportDecl}
    (hd : d ∈ parseImports number raw) : d.line = number := by
  simp only [parseImports] at hd
  split at hd
  · cases hd
  · obtain ⟨m, -, rfl⟩ := List.mem_map.1 hd
    rfl

/-- Imports are placed in the lines of their block. -/
theorem importsFrom_placed (number : Nat) (lines : List Text) :
    PlacedBetween ((importsFrom number lines).map .ofImport) number
      (number + lines.length - 1) := by
  have hfunction : ∀ f, .ofFunction f ∉ (importsFrom number lines).map Declaration.ofImport := by
    simp
  induction lines generalizing number with
  | nil => exact ⟨by simp [importsFrom], by simp [importsFrom], hfunction⟩
  | cons line rest ih =>
      have hrest := ih (number + 1) (by simp)
      have hfirst : PlacedBetween ((parseImports number line).map .ofImport) number number := by
        refine placedBetween_of_line (fun d hd => ?_) (by simp)
        obtain ⟨i, hi, rfl⟩ := List.mem_map.1 hd
        exact parseImports_line hi
      refine ⟨?_, ?_, hfunction⟩
      · intro d hd
        rw [importsFrom, List.map_append, List.mem_append] at hd
        rw [List.length_cons]
        rcases hd with hd | hd
        · have hbounds := hfirst.bounds d hd
          omega
        · have hbounds := hrest.bounds d hd
          omega
      · rw [importsFrom, List.map_append, List.pairwise_append]
        refine ⟨hfirst.order, hrest.order, fun d hd e he => ?_⟩
        have hd := hfirst.bounds d hd
        have he := hrest.bounds e he
        omega

theorem parseStruct?_line {content : Text} {line : Nat} {comments : List Text} {d : StructDecl}
    (h : parseStruct? content line comments = some d) : d.line = line := by
  obtain ⟨m, -, rfl⟩ := Option.map_eq_some_iff.1 h
  rfl

theorem parseInterface?_line {content : Text} {line : Nat} {comments : List Text}
    {d : InterfaceDecl} (h : parseInterface? content line comments = some d) : d.line = line := by
  obtain ⟨m, -, rfl⟩ := Option.map_eq_some_iff.1 h
  rfl

theorem parseType?_line {s : Spec} {d : TypeDecl} (h : parseType? s = some d) :
    d.line = s.line := by
  unfold parseType? at h
  split at h
  · cases h
  · split at h
    · cases h
    · injection h with h
      rw [← h]

/-- A type spec declares a struct, an interface or another type, in its own line. -/
theorem typeSpec?_line {s : Spec} {d : Declaration} (h : typeSpec? s = some d) :
    d.line = s.line ∧ ∀ f, d ≠ .ofFunction f := by
  unfold typeSpec? at h
  split at h
  · obtain ⟨e, he, rfl⟩ := Option.map_eq_some_iff.1 h
    exact ⟨parseStruct?_line he, fun f => Declaration.noConfusion⟩
  · split at h
    · obtain ⟨e, he, rfl⟩ := Option.map_eq_some_iff.1 h
      exact ⟨parseInterface?_line he, fun f => Declaration.noConfusion⟩
    · obtain ⟨e, he, rfl⟩ := Option.map_eq_some_iff.1 h
      exact ⟨parseType?_line he, fun f => Declaration.noConfusion⟩

theorem parseConstant?_line {s : Spec} {d : ConstantDecl} (h : parseConstant? s = some d) :
    d.line = s.line := by
  obtain ⟨m, -, rfl⟩ := Option.map_eq_some_iff.1 h
  rfl

theorem parseVariables_line {s : Spec} {d : VariableDecl} (h : d ∈ parseVariables s) :
    d.line = s.line := by
  unfold parseVariables at h
  split at h
  · cases h
  · obtain ⟨name, -, rfl⟩ := List.mem_map.1 h
    rfl

theorem parseFunction?_line {content : Text} {line : Nat} {comments : List Text} {d : FunctionDecl}
    (h : parseFunction? content line comments = some d) : d.line = line ∧ d.snippet = content := by
  obtain ⟨m, -, rfl⟩ := Option.map_eq_some_iff.1 h
  exact ⟨rfl, rfl⟩

section Constructs

variable {lines : List Text} {index : Nat} (hindex : index < lines.length)

include hindex

/-- A construct that extends over the block of braces of its line, declares at most one thing in
that line, and no function. -/
theorem wellPlaced_block (found : Block → Option Declaration)
    (h : ∀ b d, found b = some d → d.line = index + 1 ∧ ∀ f, d ≠ .ofFunction f) :
    Extended.WellPlaced lines
      ⟨index, ((extractBlock? braces true lines index).getD ⟨[], index⟩).endIndex,
        (found ((extractBlock? braces true lines index).getD ⟨[], index⟩)).toList⟩ := by
  obtain ⟨b, hb⟩ := exists_extractBlock? (d := braces) true hindex
  obtain ⟨hle, hlt⟩ := extractBlock?_extent hb
  rw [hb, Option.getD_some]
  have hplaced : PlacedBetween (found b).toList (index + 1) (index + 1) :=
    placedBetween_of_line (fun d hd => (h b d (Option.mem_toList.1 hd)).1)
      fun f hf => (h b _ (Option.mem_toList.1 hf)).2 f rfl
  exact (hplaced.mono (by omega)).wellPlaced hle hlt

/-- A construct that extends over its specs, or over a block of braces if they are in one line. -/
theorem wellPlaced_specs {found : List Declaration} {last : Nat} (hle : index ≤ last)
    (hlt : last < lines.length) (h : PlacedBetween found (index + 1) (last + 1)) (opens : Bool) :
    Extended.WellPlaced lines
      ⟨index, if last = index && opens then blockEnd braces lines index else last, found⟩ := by
  obtain ⟨hle', hlt'⟩ := blockEnd_bounds braces hindex
  split
  · next hsingle =>
    rw [Bool.and_eq_true, decide_eq_true_eq] at hsingle
    exact (h.mono (by omega)).wellPlaced hle' hlt'
  · exact h.wellPlaced hle hlt

end Constructs

/-- Whatever kind of construct begins in a line of the file is well placed. -/
theorem readConstruct_wellPlaced {content : Text} {index : Nat}
    (hindex : index < (Text.lines content).length) (trimmed : Text) (construct : Construct) :
    Extended.WellPlaced (Text.lines content)
      ⟨index,
        (readConstruct content (Text.lines content) index
          (textBefore (Text.lines content) index).length trimmed construct).2,
        (readConstruct content (Text.lines content) index
          (textBefore (Text.lines content) index).length trimmed construct).1⟩ := by
  cases construct with
  | imports =>
      obtain ⟨hle, hlt⟩ := blockEnd_bounds parentheses hindex
      simp only [readConstruct]
      refine PlacedBetween.wellPlaced ?_ hle hlt
      refine (importsFrom_placed (index + 1) _).mono ?_
      rw [List.length_drop, List.length_take_of_le (by omega)]
      omega
  | struct =>
      refine wellPlaced_block hindex (fun b => (parseStruct? b.content (index + 1)
        (leadingComments (Text.lines content) index)).map .ofStruct) fun b d hd => ?_
      obtain ⟨e, he, rfl⟩ := Option.map_eq_some_iff.1 hd
      exact ⟨parseStruct?_line he, fun f => Declaration.noConfusion⟩
  | interface =>
      refine wellPlaced_block hindex (fun b => (parseInterface? b.content (index + 1)
        (leadingComments (Text.lines content) index)).map .ofInterface) fun b d hd => ?_
      obtain ⟨e, he, rfl⟩ := Option.map_eq_some_iff.1 hd
      exact ⟨parseInterface?_line he, fun f => Declaration.noConfusion⟩
  | type =>
      obtain ⟨hle, hlt, hspecs⟩ := groupSpecs_extent "type" hindex
      refine wellPlaced_specs hindex hle hlt ?_ _
      simp only [readConstruct]
      rw [List.filterMap_eq_flatMap_toList]
      refine placedBetween_flatMap hspecs (fun s d hd => ?_) fun s f hf => ?_
      · exact (typeSpec?_line (Option.mem_toList.1 hd)).1
      · exact (typeSpec?_line (Option.mem_toList.1 hf)).2 f rfl
  | constants =>
      obtain ⟨hle, hlt, hspecs⟩ := groupSpecs_extent "const" hindex
      refine PlacedBetween.wellPlaced ?_ hle hlt
      simp only [readConstruct]
      rw [List.map_filterMap, List.filterMap_eq_flatMap_toList]
      refine placedBetween_flatMap hspecs (fun s d hd => ?_) fun s f hf => ?_
      · obtain ⟨e, he, rfl⟩ := Option.map_eq_some_iff.1 (Option.mem_toList.1 hd)
        exact parseConstant?_line he
      · obtain ⟨e, -, he⟩ := Option.map_eq_some_iff.1 (Option.mem_toList.1 hf)
        cases he
  | packageVars =>
      obtain ⟨hle, hlt, hspecs⟩ := groupSpecs_extent "var" hindex
      refine wellPlaced_specs hindex hle hlt ?_ _
      simp only [readConstruct]
      rw [List.map_flatMap]
      refine placedBetween_flatMap hspecs (fun s d hd => ?_) fun s f => by simp
      obtain ⟨e, he, rfl⟩ := List.mem_map.1 hd
      exact parseVariables_line he
  | function =>
      obtain ⟨hle, hlt, hcontent⟩ := functionBlockAt_extent hindex
      simp only [readConstruct]
      generalize functionBlockAt content (Text.lines content)
        (textBefore (Text.lines content) index).length index = b at hle hlt hcontent
      cases hparse : parseFunction? b.content (index + 1)
          (leadingComments (Text.lines content) index) with
      | none => exact ⟨hle, hlt, by simp, by simp, by simp⟩
      | some f =>
          obtain ⟨hline, hsnippet⟩ := parseFunction?_line hparse
          refine ⟨hle, hlt, ?_, List.pairwise_singleton _ _, ?_⟩
          · intro d hd
            rw [List.mem_singleton.1 hd]
            show index + 1 ≤ f.line ∧ f.line ≤ b.endIndex + 1
            omega
          · intro g hg
            have hg := List.mem_singleton.1 hg
            injection hg with hg
            subst hg
            exact ⟨rfl, hline, hsnippet.trans hcontent⟩

-- ============================================================ the pass

/-- The constructs of the pass are well placed, begin after the lines that are skipped, and each of
them ends before the next one begins. -/
theorem constructsFrom_spec {content : Text} {skip index : Nat} {rest : List Text}
    (hrest : rest = (Text.lines content).drop index) :
    (∀ x ∈ constructsFrom content (Text.lines content) skip rest index
        (textBefore (Text.lines content) index).length,
      x.WellPlaced (Text.lines content) ∧ index + skip ≤ x.first) ∧
    (constructsFrom content (Text.lines content) skip rest index
      (textBefore (Text.lines content) index).length).Pairwise fun x y => x.last < y.first := by
  induction rest generalizing skip index with
  | nil => simp [constructsFrom]
  | cons line rest ih =>
      obtain ⟨hline, hnext⟩ := of_cons_eq_drop hrest
      have hoffset := (length_textBefore_succ hline).symm
      cases skip with
      | succ skip =>
          rw [constructsFrom, hoffset]
          obtain ⟨hplaced, hapart⟩ := @ih skip _ hnext
          refine ⟨fun x hx => ?_, hapart⟩
          obtain ⟨hx, hle⟩ := hplaced x hx
          exact ⟨hx, by omega⟩
      | zero =>
          rw [constructsFrom]
          cases classify? (trim line) with
          | none =>
              dsimp only
              rw [hoffset]
              obtain ⟨hplaced, hapart⟩ := @ih 0 _ hnext
              refine ⟨fun x hx => ?_, hapart⟩
              obtain ⟨hx, hle⟩ := hplaced x hx
              exact ⟨hx, by omega⟩
          | some construct =>
              have hfirst := readConstruct_wellPlaced (List.getElem?_eq_some_iff.1 hline).1
                (trim line) construct
              have hle := hfirst.le
              dsimp only at hle ⊢
              rw [hoffset]
              obtain ⟨hplaced, hapart⟩ := @ih _ _ hnext
              refine ⟨fun x hx => ?_, List.pairwise_cons.2 ⟨fun x hx => ?_, hapart⟩⟩
              · rcases List.mem_cons.1 hx with rfl | hx
                · exact ⟨hfirst, Nat.le_refl _⟩
                · obtain ⟨hx, hlater⟩ := hplaced x hx
                  exact ⟨hx, by omega⟩
              · obtain ⟨-, hlater⟩ := hplaced x hx
                show (readConstruct _ _ _ _ _ _).2 < x.first
                omega

theorem constructsOf_wellPlaced {content : Text} {x : Extended} (hx : x ∈ constructsOf content) :
    x.WellPlaced (Text.lines content) :=
  ((@constructsFrom_spec content 0 0 _ rfl).1 x hx).1

/-- No construct begins before the one above it has ended. -/
theorem constructsOf_apart (content : Text) :
    (constructsOf content).Pairwise fun x y => x.last < y.first :=
  (@constructsFrom_spec content 0 0 _ rfl).2

/-- Lines that are skipped are those of which the pass goes on behind. -/
theorem constructsFrom_skip {content : Text} {skip index : Nat} {rest : List Text}
    (hrest : rest = (Text.lines content).drop index) :
    constructsFrom content (Text.lines content) skip rest index
        (textBefore (Text.lines content) index).length
      = constructsFrom content (Text.lines content) 0
          ((Text.lines content).drop (index + skip)) (index + skip)
          (textBefore (Text.lines content) (index + skip)).length := by
  induction rest generalizing skip index with
  | nil =>
      have hend : (Text.lines content).drop (index + skip) = [] := by
        rw [← List.drop_drop, ← hrest, List.drop_nil]
      rw [hend, constructsFrom, constructsFrom]
  | cons line rest ih =>
      cases skip with
      | zero => rw [hrest, Nat.add_zero]
      | succ skip =>
          obtain ⟨hline, hnext⟩ := of_cons_eq_drop hrest
          rw [constructsFrom, ← length_textBefore_succ hline, ih hnext,
            Nat.add_right_comm index 1 skip]
          rfl

/-- A construct of the pass is what is read at the line in which it begins. -/
structure Extended.IsReadFrom (content : Text) (x : Extended) (line : Text)
    (construct : Construct) : Prop where
  stands : (Text.lines content)[x.first]? = some line
  begins : classify? (trim line) = some construct
  read : readConstruct content (Text.lines content) x.first
    (textBefore (Text.lines content) x.first).length (trim line) construct = (x.found, x.last)

/-- Where the pass comes to a construct it reads it, and goes on at the line below its last one. -/
theorem isReadFrom_of_mem {content : Text} {skip index : Nat} {rest : List Text} {x : Extended}
    (hrest : rest = (Text.lines content).drop index)
    (hx : x ∈ constructsFrom content (Text.lines content) skip rest index
      (textBefore (Text.lines content) index).length) :
    (∃ line construct, x.IsReadFrom content line construct) ∧
      ∃ above, constructsFrom content (Text.lines content) skip rest index
          (textBefore (Text.lines content) index).length
        = above ++ x :: constructsFrom content (Text.lines content) 0
            ((Text.lines content).drop (x.last + 1)) (x.last + 1)
            (textBefore (Text.lines content) (x.last + 1)).length := by
  induction rest generalizing skip index with
  | nil =>
      rw [constructsFrom] at hx
      cases hx
  | cons line rest ih =>
      obtain ⟨hline, hnext⟩ := of_cons_eq_drop hrest
      have hoffset := (length_textBefore_succ hline).symm
      cases skip with
      | succ skip =>
          rw [constructsFrom, hoffset] at hx ⊢
          exact ih hnext hx
      | zero =>
          rw [constructsFrom, hoffset] at hx ⊢
          cases hbegins : classify? (trim line) with
          | none =>
              rw [hbegins] at hx
              exact ih hnext hx
          | some construct =>
              rw [hbegins] at hx
              dsimp only at hx ⊢
              rcases List.mem_cons.1 hx with rfl | hx
              · refine ⟨⟨line, construct, hline, hbegins, rfl⟩, [], ?_⟩
                have hle := (readConstruct_wellPlaced (List.getElem?_eq_some_iff.1 hline).1
                  (trim line) construct).le
                dsimp only at hle ⊢
                rw [constructsFrom_skip hnext, Nat.add_right_comm, Nat.add_sub_cancel' hle]
                rfl
              · obtain ⟨hread, above, habove⟩ := ih hnext hx
                exact ⟨hread, _ :: above, congrArg (List.cons _) habove⟩

/-- Every construct is read from a line that begins one. -/
theorem exists_isReadFrom {content : Text} {x : Extended} (hx : x ∈ constructsOf content) :
    ∃ line construct, x.IsReadFrom content line construct :=
  (isReadFrom_of_mem List.drop_zero.symm hx).1

/-- The pass comes to a construct after constructs that end before it. -/
theorem exists_above {content : Text} {x : Extended} (hx : x ∈ constructsOf content) :
    ∃ above, (∀ y ∈ above, y.last < x.first) ∧ constructsOf content = above ++ x ::
      constructsFrom content (Text.lines content) 0 ((Text.lines content).drop (x.last + 1))
        (x.last + 1) (textBefore (Text.lines content) (x.last + 1)).length := by
  obtain ⟨-, above, habove⟩ := isReadFrom_of_mem List.drop_zero.symm hx
  have hsplit : constructsOf content = _ := habove
  have hapart := constructsOf_apart content
  rw [hsplit] at hapart
  refine ⟨above, fun y hy => ?_, hsplit⟩
  exact (List.pairwise_append.1 hapart).2.2 y hy x List.mem_cons_self

/-- What is declared up to a construct, in it, and below its last line. -/
theorem exists_declarations_above {content : Text} {x : Extended} (hx : x ∈ constructsOf content) :
    ∃ above, (∀ d ∈ above, d.line ≤ x.first) ∧ declarations content = above ++ x.found ++
      declarationsFrom content (Text.lines content) 0 ((Text.lines content).drop (x.last + 1))
        (x.last + 1) (textBefore (Text.lines content) (x.last + 1)).length := by
  obtain ⟨above, hbefore, hsplit⟩ := exists_above hx
  refine ⟨above.flatMap (·.found), fun d hd => ?_, ?_⟩
  · obtain ⟨y, hy, hd⟩ := List.mem_flatMap.1 hd
    have hin : y ∈ constructsOf content := hsplit ▸ List.mem_append_left _ hy
    have hbounds := (constructsOf_wellPlaced hin).bounds d hd
    have hlt := hbefore y hy
    omega
  · rw [declarations_eq_flatMap, hsplit, List.flatMap_append, List.flatMap_cons,
      declarationsFrom_eq_flatMap, List.append_assoc]

-- =========================================================== the result

/-- A declaration of a file is one that some construct declares. -/
theorem mem_declared {content file : Text} {d : Declaration} :
    d ∈ (structureOf content file).declared ↔ d ∈ declarations content := by
  simp only [FileStructure.declared, structureOf, FileStructure.ofDeclarations, List.mem_append,
    List.mem_map, List.mem_filterMap]
  constructor
  · rintro ((((((h | h) | h) | h) | h) | h) | h) <;>
      (obtain ⟨e, ⟨d', hd', he⟩, rfl⟩ := h
       cases d' <;> cases he
       exact hd')
  · intro h
    cases d with
    | ofImport e => exact .inl (.inl (.inl (.inl (.inl (.inl ⟨e, ⟨_, h, rfl⟩, rfl⟩)))))
    | ofType e => exact .inl (.inl (.inl (.inl (.inl (.inr ⟨e, ⟨_, h, rfl⟩, rfl⟩)))))
    | ofConstant e => exact .inl (.inl (.inl (.inl (.inr ⟨e, ⟨_, h, rfl⟩, rfl⟩))))
    | ofVariable e => exact .inl (.inl (.inl (.inr ⟨e, ⟨_, h, rfl⟩, rfl⟩)))
    | ofFunction e => exact .inl (.inl (.inr ⟨e, ⟨_, h, rfl⟩, rfl⟩))
    | ofStruct e => exact .inl (.inr ⟨e, ⟨_, h, rfl⟩, rfl⟩)
    | ofInterface e => exact .inr ⟨e, ⟨_, h, rfl⟩, rfl⟩

theorem mem_declarations_of_mem_functions {content file : Text} {f : FunctionDecl}
    (hf : f ∈ (structureOf content file).functions) : .ofFunction f ∈ declarations content := by
  obtain ⟨d, hd, hdf⟩ := List.mem_filterMap.1 hf
  cases d <;> cases hdf
  exact hd

theorem exists_construct {content : Text} {d : Declaration} (hd : d ∈ declarations content) :
    ∃ x ∈ constructsOf content, d ∈ x.found := by
  rw [declarations_eq_flatMap] at hd
  exact List.mem_flatMap.1 hd

/-- The lines of all declarations are in order, and those of two functions are different. -/
theorem declarations_order (content : Text) :
    (declarations content).Pairwise fun d e =>
      d.line ≤ e.line ∧ ∀ f g, d = .ofFunction f → e = .ofFunction g → f.line < g.line := by
  rw [declarations_eq_flatMap, List.pairwise_flatMap]
  refine ⟨fun x hx => ?_, (constructsOf_apart content).imp_of_mem fun hx hy hxy d hd e he => ?_⟩
  · have hplaced := constructsOf_wellPlaced hx
    by_cases hfunction : ∃ f, .ofFunction f ∈ x.found
    · obtain ⟨f, hf⟩ := hfunction
      rw [(hplaced.function f hf).1]
      exact List.pairwise_singleton _ _
    · refine hplaced.order.imp_of_mem fun hd _ hle => ⟨hle, fun f g hdf _ => ?_⟩
      exact absurd ⟨f, hdf ▸ hd⟩ hfunction
  · have hd := (constructsOf_wellPlaced hx).bounds d hd
    have he := (constructsOf_wellPlaced hy).bounds e he
    refine ⟨by omega, ?_⟩
    rintro f g rfl rfl
    show (Declaration.ofFunction f).line < (Declaration.ofFunction g).line
    omega

/-- The lines of a construct with a function in it are the lines of the function alone. -/
theorem eq_ofFunction {content : Text} {x : Extended} {f : FunctionDecl} {d : Declaration}
    (hx : x ∈ constructsOf content) (hf : .ofFunction f ∈ x.found) (hd : d ∈ declarations content)
    (hfirst : x.first + 1 ≤ d.line) (hlast : d.line ≤ x.last + 1) : d = .ofFunction f := by
  obtain ⟨y, hy, hdy⟩ := exists_construct hd
  have hbounds := (constructsOf_wellPlaced hy).bounds d hdy
  -- Of two constructs that are not the same, one ends before the other begins.
  let R : Extended → Extended → Prop := fun a b => a = b ∨ a.last < b.first ∨ b.last < a.first
  have hforth : (constructsOf content).Pairwise R :=
    (constructsOf_apart content).imp fun h => .inr (.inl h)
  have hback : (constructsOf content).Pairwise (flip R) :=
    (constructsOf_apart content).imp fun h => .inr (.inr h)
  have hcases : R x y :=
    List.Pairwise.forall_of_forall_of_flip (fun _ _ => .inl rfl) hforth hback hx hy
  rcases hcases with rfl | hbefore | hafter
  · rw [((constructsOf_wellPlaced hx).function f hf).1, List.mem_singleton] at hdy
    exact hdy
  · omega
  · omega

/-- What a pass over lines yields, construct by construct: all declarations are in lines of the
file and in order; no line belongs to two constructs; and a function has the text of its lines, in
which nothing else is declared. -/
structure OnePass (lines : List Text) (constructs : List Extended) (s : FileStructure) : Prop where
  in_file : ∀ d ∈ s.declared, 1 ≤ d.line ∧ d.line ≤ lines.length
  imports : s.imports.Pairwise fun a b => a.line ≤ b.line
  types : s.types.Pairwise fun a b => a.line ≤ b.line
  constants : s.constants.Pairwise fun a b => a.line ≤ b.line
  packageVars : s.packageVars.Pairwise fun a b => a.line ≤ b.line
  structs : s.structs.Pairwise fun a b => a.line ≤ b.line
  interfaces : s.interfaces.Pairwise fun a b => a.line ≤ b.line
  functions : s.functions.Pairwise fun a b => a.line < b.line
  snippet : ∀ f ∈ s.functions, ∃ k, 1 ≤ k ∧ f.line - 1 + k ≤ lines.length ∧
    f.snippet = joinLines ((lines.drop (f.line - 1)).take k) ∧
    ∀ d ∈ s.declared, f.line ≤ d.line → d.line < f.line + k → d = .ofFunction f
  apart : constructs.Pairwise fun x y => x.last < y.first
  within : ∀ d ∈ s.declared, ∃ x ∈ constructs, d ∈ x.found ∧
    x.first ≤ x.last ∧ x.last < lines.length ∧ x.first + 1 ≤ d.line ∧ d.line ≤ x.last + 1

/-- The structure of a file comes from one pass over its lines. -/
theorem structureOf_onePass (content file : Text) :
    OnePass (Text.lines content) (constructsOf content) (structureOf content file) := by
  have hwithin : ∀ d ∈ (structureOf content file).declared, ∃ x ∈ constructsOf content,
      d ∈ x.found ∧ x.first ≤ x.last ∧ x.last < (Text.lines content).length ∧
      x.first + 1 ≤ d.line ∧ d.line ≤ x.last + 1 := by
    intro d hd
    obtain ⟨x, hx, hdx⟩ := exists_construct (mem_declared.1 hd)
    have hplaced := constructsOf_wellPlaced hx
    exact ⟨x, hx, hdx, hplaced.le, hplaced.lt, hplaced.bounds d hdx⟩
  have horder := declarations_order content
  -- A kind picks declarations without changing their lines, so its list is in order too.
  have hkind : ∀ {α : Type} (as? : Declaration → Option α) (line : α → Nat),
      (∀ d a, as? d = some a → line a = d.line) →
      ((declarations content).filterMap as?).Pairwise fun a b => line a ≤ line b := by
    intro α as? line hline
    refine List.pairwise_filterMap.2 (horder.imp fun h a ha b hb => ?_)
    rw [hline _ a ha, hline _ b hb]
    exact h.1
  exact {
    in_file := by
      intro d hd
      obtain ⟨x, -, -, hle, hlt, hfirst, hlast⟩ := hwithin d hd
      omega
    imports := hkind _ _ fun d a h => by cases d <;> cases h; rfl
    types := hkind _ _ fun d a h => by cases d <;> cases h; rfl
    constants := hkind _ _ fun d a h => by cases d <;> cases h; rfl
    packageVars := hkind _ _ fun d a h => by cases d <;> cases h; rfl
    structs := hkind _ _ fun d a h => by cases d <;> cases h; rfl
    interfaces := hkind _ _ fun d a h => by cases d <;> cases h; rfl
    functions := by
      refine List.pairwise_filterMap.2 (horder.imp fun {d e} h f hf g hg => ?_)
      cases d <;> cases hf
      cases e <;> cases hg
      exact h.2 f g rfl rfl
    snippet := by
      intro f hf
      obtain ⟨x, hx, hfx⟩ := exists_construct (mem_declarations_of_mem_functions hf)
      have hplaced := constructsOf_wellPlaced hx
      obtain ⟨-, hline, hsnippet⟩ := hplaced.function f hfx
      have hle := hplaced.le
      have hlt := hplaced.lt
      refine ⟨x.last - x.first + 1, by omega, by omega, ?_, fun d hd hfirst hlast => ?_⟩
      · rw [hsnippet, linesText_eq_take hle, hline, Nat.add_sub_cancel]
      · exact eq_ofFunction hx hfx (mem_declared.1 hd) (by omega) (by omega)
    apart := constructsOf_apart content
    within := hwithin }

end Declaration
end GoSurvey
