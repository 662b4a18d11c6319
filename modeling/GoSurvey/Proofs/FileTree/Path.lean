/-
Paths and their texts. A part of a path is a text without slashes that is
neither empty nor a single dot; a part that does not lead back either is a
name. What is resolved consists of names (`resolve_isName`), and from the
text of names the names can be read back (`ofText_text`, `ofText_join`), so
a path may be written down and read again without going astray.

A path lies below a root if its names begin with those of the root
(`below?_eq_some_iff`). It is the names that count: the text of a path that
is not below the root may well begin with the text of the root.
-/
import GoSurvey.FileTree.Path
import GoSurvey.Proofs.Text.Pieces

namespace GoSurvey.Path

open Text

-- =============================================================== names

/-- A part of a path, which is a name or leads back. -/
def IsPart (part : Text) : Prop := part ≠ [] ∧ '/' ∉ part ∧ part ≠ ['.']

/-- A name that a directory can give to an entry. -/
def IsName (name : Text) : Prop := IsPart name ∧ name ≠ parentMark

instance : DecidablePred IsPart := fun _ => inferInstanceAs (Decidable (_ ∧ _))

instance : DecidablePred IsName := fun _ => inferInstanceAs (Decidable (_ ∧ _))

/-- What stands between the slashes of a text and is a part. -/
def isPart (piece : Text) : Bool := !piece.isEmpty && piece != ['.']

theorem isPart_iff {piece : Text} : isPart piece = true ↔ piece ≠ [] ∧ piece ≠ ['.'] := by
  unfold isPart
  rw [Bool.and_eq_true, Bool.not_eq_true', bne_iff_ne, List.isEmpty_eq_false_iff]

theorem isPart_of_mem_ofText {t part : Text} (h : part ∈ (ofText t).parts) : IsPart part := by
  obtain ⟨hpiece, hpart⟩ := List.mem_filter.1 h
  obtain ⟨hne, hdot⟩ := isPart_iff.1 hpart
  exact ⟨hne, not_mem_of_mem_splitOn hpiece, hdot⟩

-- =========================================================== resolving

/-- Names are taken as they come. -/
theorem collapseFrom_names {above names : List Text} (h : ∀ name ∈ names, name ≠ parentMark) :
    collapseFrom above names = above.reverse ++ names := by
  induction names generalizing above with
  | nil => rw [collapseFrom, List.append_nil]
  | cons name names ih =>
      rw [collapseFrom, if_neg (h name List.mem_cons_self),
        ih fun n hn => h n (List.mem_cons_of_mem name hn), List.reverse_cons, List.append_assoc]
      rfl

theorem collapseFrom_append (above first rest : List Text) :
    collapseFrom above (first ++ rest) = collapseFrom (collapseFrom above first).reverse rest := by
  induction first generalizing above with
  | nil => rw [List.nil_append, collapseFrom, List.reverse_reverse]
  | cons part first ih =>
      rw [List.cons_append, collapseFrom, collapseFrom]
      split
      · exact ih above.tail
      · exact ih (part :: above)

/-- Once every way back is taken, only names are left. -/
theorem collapseFrom_isName {above parts : List Text} (habove : ∀ name ∈ above, IsName name)
    (hparts : ∀ part ∈ parts, IsPart part) : ∀ name ∈ collapseFrom above parts, IsName name := by
  induction parts generalizing above with
  | nil => exact fun name hname => habove name (List.mem_reverse.1 hname)
  | cons part parts ih =>
      have hrest : ∀ p ∈ parts, IsPart p := fun p hp => hparts p (List.mem_cons_of_mem part hp)
      rw [collapseFrom]
      split
      · exact ih (fun name hname => habove name (List.mem_of_mem_tail hname)) hrest
      · next hpart =>
        refine ih (fun name hname => ?_) hrest
        rcases List.mem_cons.1 hname with rfl | hname
        · exact ⟨hparts name List.mem_cons_self, hpart⟩
        · exact habove name hname

variable {cwd : List Text}

theorem resolve_isName (hcwd : ∀ name ∈ cwd, IsName name) {p : Path}
    (hp : ∀ part ∈ p.parts, IsPart part) : ∀ name ∈ p.resolve cwd, IsName name := by
  unfold resolve
  refine collapseFrom_isName (fun name hname => absurd hname List.not_mem_nil) fun part hpart => ?_
  split at hpart
  · exact hp part hpart
  · rcases List.mem_append.1 hpart with hpart | hpart
    · exact (hcwd part hpart).1
    · exact hp part hpart

theorem resolve_ofNames {names : List Text} (h : ∀ name ∈ names, IsName name) :
    (ofNames names).resolve cwd = names :=
  collapseFrom_names fun name hname => (h name hname).2

/-- A path that goes on by names means what it means without them, and the names. -/
theorem resolve_append (p : Path) {names : List Text} (h : ∀ name ∈ names, IsName name) :
    (p.append ⟨.relative, names⟩).resolve cwd = p.resolve cwd ++ names := by
  have hnames := fun name hname => (h name hname).2
  have hgo : ∀ parts, collapseFrom [] (parts ++ names) = collapseFrom [] parts ++ names := by
    intro parts
    rw [collapseFrom_append, collapseFrom_names hnames, List.reverse_reverse]
  cases p with
  | mk anchor parts =>
      cases anchor with
      | relative =>
          show collapseFrom [] (cwd ++ (parts ++ names)) = collapseFrom [] (cwd ++ parts) ++ names
          rw [← List.append_assoc, hgo]
      | root => exact hgo parts
      | doubleRoot => exact hgo parts

-- =============================================================== texts

/-- The parts of a text that joins parts are these parts. -/
theorem filter_isPart {parts : List Text} (h : ∀ part ∈ parts, IsPart part) :
    parts.filter isPart = parts :=
  List.filter_eq_self.2 fun part hpart => isPart_iff.2 ⟨(h part hpart).1, (h part hpart).2.2⟩

theorem parts_join {parts : List Text} (h : ∀ part ∈ parts, IsPart part) :
    (splitOn '/' (join ['/'] parts)).filter isPart = parts := by
  by_cases hparts : parts = []
  · subst hparts
    rfl
  · rw [splitOn_join hparts fun part hpart => (h part hpart).2.1, filter_isPart h]

theorem head?_join {parts : List Text} (h : ∀ part ∈ parts, IsPart part) :
    (join ['/'] parts).head? ≠ some '/' := by
  cases parts with
  | nil => exact fun h => by cases h
  | cons part rest =>
      obtain ⟨hne, hslash, -⟩ := h part List.mem_cons_self
      obtain ⟨c, cs, rfl⟩ := List.exists_cons_of_ne_nil hne
      have hc : c ≠ '/' := fun hc => hslash (hc ▸ List.mem_cons_self)
      cases rest with
      | nil => exact fun h => hc (Option.some_inj.1 h)
      | cons next rest => exact fun h => hc (Option.some_inj.1 h)

theorem takeWhile_slash {t : Text} (h : t.head? ≠ some '/') : t.takeWhile (· == '/') = [] := by
  cases t with
  | nil => rfl
  | cons c cs =>
      have hc : (c == '/') = false := beq_false_of_ne fun hc => h (by rw [hc]; rfl)
      rw [List.takeWhile_cons, hc]
      rfl

/-- Parts with slashes between them are read as a relative path of these parts. -/
theorem ofText_join {parts : List Text} (h : ∀ part ∈ parts, IsPart part) :
    ofText (join ['/'] parts) = ⟨.relative, parts⟩ := by
  have hanchor : anchorOf (join ['/'] parts) = .relative := by
    unfold anchorOf
    rw [takeWhile_slash (head?_join h)]
    rfl
  show (⟨anchorOf _, (splitOn '/' _).filter isPart⟩ : Path) = _
  rw [hanchor, parts_join h]

/-- The text of an absolute path is read as that path. -/
theorem ofText_text {parts : List Text} (h : ∀ part ∈ parts, IsPart part) :
    ofText (ofNames parts).text = ofNames parts := by
  have htext : (ofNames parts).text = '/' :: join ['/'] parts := rfl
  have hanchor : anchorOf ('/' :: join ['/'] parts) = .root := by
    unfold anchorOf
    rw [List.takeWhile_cons, takeWhile_slash (head?_join h)]
    rfl
  have hparts : (splitOn '/' ('/' :: join ['/'] parts)).filter isPart = parts := by
    have hsplit : splitOn '/' ('/' :: join ['/'] parts) = [] :: splitOn '/' (join ['/'] parts) :=
      if_pos rfl
    have hnil : isPart [] = false := rfl
    rw [hsplit, List.filter_cons, hnil]
    exact parts_join h
  show (⟨anchorOf _, (splitOn '/' _).filter isPart⟩ : Path) = _
  rw [htext, hanchor, hparts]
  rfl

/-- Parts with slashes between them can be told apart. -/
theorem join_inj {parts others : List Text} (h : ∀ part ∈ parts, IsPart part)
    (h' : ∀ part ∈ others, IsPart part) (heq : join ['/'] parts = join ['/'] others) :
    parts = others := by
  rw [← parts_join h, heq, parts_join h']

-- ========================================================= below a root

theorem below?_eq_some_iff {root names rest : List Text} :
    below? root names = some rest ↔ names = root ++ rest := by
  induction root generalizing names with
  | nil => exact Option.some_inj
  | cons r root ih =>
      cases names with
      | nil => exact ⟨nofun, nofun⟩
      | cons n names =>
          rw [below?, List.cons_append, List.cons.injEq]
          split
          · next h => rw [ih]; exact ⟨fun hrest => ⟨h.symm, hrest⟩, And.right⟩
          · next h => exact ⟨nofun, fun hrest => absurd hrest.1.symm h⟩

/-- Seen from a root, a path below it consists of the names after those of the root. -/
theorem relativeTo_eq_text {path root : Path} {names : List Text}
    (h : path.resolve cwd = root.resolve cwd ++ names) :
    relativeTo cwd path root = (⟨.relative, names⟩ : Path).text := by
  unfold relativeTo
  rw [below?_eq_some_iff.2 h]

end GoSurvey.Path
