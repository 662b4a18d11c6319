/-
What paths lead to on a disk. A path is followed name by name from the
root on, and a `..` goes back to where one came from; the names on the way
are those of the resolved path as far as it has been followed
(`Leads.follow`). So a path that leads anywhere leads to the same as its
resolved form (`at?_of_find?`). The converse fails: to follow a path, what
a `..` leads out of has to be there, while to resolve it nothing has to be.

A path that goes on by names leads to what these lead to from there
(`find?_append`).

What the system finds at a path is what the path leads to, unless it is
too long or comes to a long name in a directory that is there (`TooLong`);
then it is refused, and nothing can be said about it (`stat_ofNames`).
-/
import GoSurvey.FileTree.Disk
import GoSurvey.Proofs.FileTree.Leaf

namespace GoSurvey.Disk

open Text GoSurvey.Path FileTree

/-- A disk with a tree that a file system can have and a working directory that is a path. -/
structure WellFormed (d : Disk) : Prop where
  tree : d.tree.WellFormed
  cwd : ∀ name ∈ d.cwd, IsName name

-- ========================================================== following

section Step

variable {fits : Text → Bool} {es : List (Text × FileTree)} {above : List FileTree} {name : Text}
  {rest : List Text}

theorem follow_name (h : name ≠ parentMark) (hfits : fits name = true) :
    follow fits above (.dir es) (name :: rest) = match es.lookup name with
      | none => .error .fileNotFound
      | some below => follow fits (.dir es :: above) below rest :=
  (if_neg h).trans (if_pos hfits)

theorem follow_unfit (h : name ≠ parentMark) (hfits : fits name = false) :
    follow fits above (.dir es) (name :: rest) = .error .nameTooLong :=
  (if_neg h).trans (if_neg (Bool.eq_false_iff.1 hfits))

theorem follow_back {parent : FileTree} :
    follow fits (parent :: above) (.dir es) (parentMark :: rest)
      = follow fits above parent rest := by
  rw [follow, if_pos rfl]

theorem follow_back_start :
    follow fits [] (.dir es) (parentMark :: rest) = follow fits [] (.dir es) rest := by
  rw [follow, if_pos rfl]

end Step

/-- A way along names that fit can only end too early. -/
theorem of_follow_error {fits : Text → Bool} {above : List FileTree} {t : FileTree}
    {names : List Text} (hfits : ∀ name ∈ names, fits name = true) {e : Failure}
    (h : follow fits above t names = .error e) : e = .fileNotFound ∨ e = .notDirectory := by
  induction names generalizing above t with
  | nil => cases h
  | cons name names ih =>
      have hrest := fun n hn => hfits n (List.mem_cons_of_mem name hn)
      cases t with
      | file content => exact .inr (Except.error.inj h).symm
      | dir es =>
          by_cases hback : name = parentMark
          · subst hback
            cases above with
            | nil => exact ih hrest (follow_back_start ▸ h)
            | cons parent above => exact ih hrest (follow_back ▸ h)
          · rw [follow_name hback (hfits name List.mem_cons_self)] at h
            cases hchild : es.lookup name with
            | none =>
                rw [hchild] at h
                exact .inl (Except.error.inj h).symm
            | some below =>
                rw [hchild] at h
                exact ih hrest h

/-- To follow names is to look them up one after the other. -/
theorem follow_names {above : List FileTree} {t : FileTree} {names : List Text}
    (h : ∀ name ∈ names, name ≠ parentMark) :
    (follow (fun _ => true) above t names).toOption = t.at? names := by
  induction names generalizing above t with
  | nil => rfl
  | cons name names ih =>
      have hrest := fun n hn => h n (List.mem_cons_of_mem name hn)
      cases t with
      | file content => rfl
      | dir es =>
          rw [follow_name (h name List.mem_cons_self) rfl, at?, child?, entries]
          cases es.lookup name with
          | none => rfl
          | some below => exact ih hrest

theorem follow_append {above : List FileTree} {t : FileTree} {parts names : List Text}
    (h : ∀ name ∈ names, name ≠ parentMark) :
    (follow (fun _ => true) above t (parts ++ names)).toOption
      = (follow (fun _ => true) above t parts).toOption.bind (·.at? names) := by
  induction parts generalizing above t with
  | nil => exact follow_names h
  | cons part parts ih =>
      rw [List.cons_append]
      cases t with
      | file content => rfl
      | dir es =>
          by_cases hback : part = parentMark
          · subst hback
            cases above with
            | nil => rw [follow_back_start, follow_back_start]; exact ih
            | cons parent above => rw [follow_back, follow_back]; exact ih
          · rw [follow_name hback rfl, follow_name hback rfl]
            cases es.lookup part with
            | none => rfl
            | some below => exact ih

/-- Where names lead in a tree, and the directories on the way, the nearest first. The names are
given from the last to the first, as resolving a path keeps them. -/
inductive Leads (tree : FileTree) : (back : List Text) → (above : List FileTree) → FileTree → Prop
    where
  | start : Leads tree [] [] tree
  | step {back : List Text} {above : List FileTree} {parent t : FileTree} {name : Text}
      (h : Leads tree back above parent) (hchild : parent.child? name = some t) :
      Leads tree (name :: back) (parent :: above) t

namespace Leads

variable {tree t u : FileTree} {back : List Text} {above : List FileTree}

theorem at? (h : Leads tree back above t) : tree.at? back.reverse = some t := by
  induction h with
  | start => rfl
  | @step back above parent t name _ hchild ih =>
      rw [List.reverse_cons, at?_append, ih]
      show (parent.child? name).bind _ = some t
      rw [hchild]
      rfl

/-- What is come to by following a path is what the names lead to that resolving it leaves. -/
theorem follow (h : Leads tree back above t) {parts : List Text}
    (hfollow : Disk.follow (fun _ => true) above t parts = .ok u) :
    tree.at? (collapseFrom back parts) = some u := by
  induction parts generalizing back above t with
  | nil =>
      injection hfollow with hfollow
      subst hfollow
      exact h.at?
  | cons part parts ih =>
      rw [collapseFrom]
      cases t with
      | file content => cases hfollow
      | dir es =>
          by_cases hback : part = parentMark
          · subst hback
            rw [if_pos rfl]
            cases h with
            | start => exact ih .start (follow_back_start ▸ hfollow)
            | step hparent _ => exact ih hparent (follow_back ▸ hfollow)
          · rw [follow_name hback rfl] at hfollow
            rw [if_neg hback]
            cases hchild : es.lookup part with
            | none => rw [hchild] at hfollow; cases hfollow
            | some below =>
                rw [hchild] at hfollow
                exact ih (h.step hchild) hfollow

end Leads

-- =============================================================== paths

variable {d : Disk}

/-- A path that leads anywhere leads to what its resolved form leads to. -/
theorem at?_of_find? {p : Path} {t : FileTree} (h : d.find? p = some t) :
    d.tree.at? (d.resolve p) = some t := by
  unfold find? find at h
  cases hfollow : follow (fun _ => true) [] d.tree (d.way p) with
  | error e => rw [hfollow] at h; cases h
  | ok u =>
      rw [hfollow] at h
      injection h with h
      subst h
      exact Leads.start.follow hfollow

theorem find?_ofNames {names : List Text} (h : ∀ name ∈ names, IsName name) :
    d.find? (.ofNames names) = d.tree.at? names :=
  follow_names fun name hname => (h name hname).2

/-- A path that goes on by names leads to what these lead to from there. -/
theorem find?_append (p : Path) {names : List Text} (h : ∀ name ∈ names, IsName name) :
    d.find? (p.append ⟨.relative, names⟩) = (d.find? p).bind (·.at? names) := by
  have hnames := fun name hname => (h name hname).2
  cases p with
  | mk anchor parts =>
      cases anchor with
      | relative =>
          show (follow (fun _ => true) [] d.tree (d.cwd ++ (parts ++ names))).toOption = _
          rw [← List.append_assoc]
          exact follow_append hnames
      | root => exact follow_append hnames
      | doubleRoot => exact follow_append hnames

/-- A path without a way back leads to what its names lead to. -/
theorem find?_eq_at? {p : Path} (hcwd : ∀ name ∈ d.cwd, IsName name)
    (hp : parentMark ∉ p.parts) : d.find? p = d.tree.at? (d.resolve p) := by
  have hparts : ∀ part ∈ d.way p, part ≠ parentMark := by
    intro part hpart heq
    subst heq
    unfold way at hpart
    split at hpart
    · exact hp hpart
    · rcases List.mem_append.1 hpart with hpart | hpart
      · exact (hcwd _ hpart).2 rfl
      · exact hp hpart
  have hresolve : d.resolve p = d.way p := collapseFrom_names hparts
  rw [hresolve]
  exact follow_names hparts

-- =============================================================== files

theorem read_eq_ok_iff {p : Path} {content : Text} :
    d.read p = .ok content ↔ d.find? p = some (.file content) := by
  unfold read find?
  cases d.find p with
  | error e => exact ⟨nofun, nofun⟩
  | ok t =>
      cases t with
      | file found =>
          show Except.ok found = Except.ok content ↔ some (file found) = some (file content)
          rw [Except.ok.injEq, Option.some_inj, FileTree.file.injEq]
      | dir es => exact ⟨nofun, nofun⟩

theorem toOption_read (p : Path) : (d.read p).toOption = (d.find? p).bind content? := by
  unfold read find?
  cases d.find p with
  | error e => rfl
  | ok t =>
      cases t with
      | file content => rfl
      | dir es => rfl

theorem resolve_isName (hd : d.WellFormed) (t : Text) :
    ∀ name ∈ d.resolve (.ofText t), IsName name :=
  Path.resolve_isName hd.cwd fun _ => isPart_of_mem_ofText

-- ======================================================= what is refused

/-- Names come to a long one in a directory that is there. -/
def MeetsLong (t : FileTree) (names : List Text) : Prop :=
  ∃ before name after es, names = before ++ name :: after ∧ nameLimit < byteLength name ∧
    t.at? before = some (.dir es)

/-- The system refuses the path of names. -/
def TooLong (t : FileTree) (names : List Text) : Prop :=
  pathLimit < byteLength (Path.ofNames names).text ∨ MeetsLong t names

theorem not_meetsLong_nil (t : FileTree) : ¬MeetsLong t [] := by
  rintro ⟨before, name, after, -, hnames, -⟩
  exact List.append_ne_nil_of_right_ne_nil before (List.cons_ne_nil name after) hnames.symm

theorem not_meetsLong_file (content : Text) (names : List Text) :
    ¬MeetsLong (.file content) names := by
  rintro ⟨before, -, -, es, -, -, hdir⟩
  cases before with
  | nil => cases hdir
  | cons first before => rw [at?_file (List.cons_ne_nil first before)] at hdir; cases hdir

theorem meetsLong_cons {es : List (Text × FileTree)} {name : Text} {rest : List Text} :
    MeetsLong (.dir es) (name :: rest) ↔
      nameLimit < byteLength name ∨ ∃ t, es.lookup name = some t ∧ MeetsLong t rest := by
  constructor
  · rintro ⟨before, long, after, es', hnames, hlong, hdir⟩
    cases before with
    | nil =>
        obtain ⟨rfl, -⟩ := List.cons.inj hnames
        exact .inl hlong
    | cons first before =>
        obtain ⟨rfl, hrest⟩ := List.cons.inj hnames
        obtain ⟨t, ht, hdir⟩ := Option.bind_eq_some_iff.1 hdir
        exact .inr ⟨t, ht, before, long, after, es', hrest, hlong, hdir⟩
  · rintro (hlong | ⟨t, ht, before, long, after, es', rfl, hlong, hdir⟩)
    · exact ⟨[], name, rest, es, rfl, hlong, rfl⟩
    · exact ⟨name :: before, long, after, es', rfl, hlong, Option.bind_eq_some_iff.2 ⟨t, ht, hdir⟩⟩

theorem isShort_iff {name : Text} : isShort name = true ↔ ¬nameLimit < byteLength name := by
  unfold isShort
  rw [decide_eq_true_eq, Nat.not_lt]

/-- Names that come to no long one are followed like any other. -/
theorem follow_isShort {above : List FileTree} {t : FileTree} {names : List Text}
    (h : ∀ name ∈ names, name ≠ parentMark) :
    (MeetsLong t names → follow isShort above t names = .error .nameTooLong) ∧
      (¬MeetsLong t names →
        follow isShort above t names = follow (fun _ => true) above t names) := by
  induction names generalizing above t with
  | nil => exact ⟨fun hlong => absurd hlong (not_meetsLong_nil t), fun _ => rfl⟩
  | cons name names ih =>
      have hrest := fun n hn => h n (List.mem_cons_of_mem name hn)
      have hname := h name List.mem_cons_self
      cases t with
      | file content =>
          exact ⟨fun hlong => absurd hlong (not_meetsLong_file content _), fun _ => rfl⟩
      | dir es =>
          rw [meetsLong_cons]
          by_cases hlong : nameLimit < byteLength name
          · have hfits : isShort name = false :=
              Bool.eq_false_iff.2 fun hshort => isShort_iff.1 hshort hlong
            exact ⟨fun _ => follow_unfit hname hfits, fun hnot => absurd (.inl hlong) hnot⟩
          · rw [or_iff_right hlong, follow_name hname (isShort_iff.2 hlong), follow_name hname rfl]
            cases es.lookup name with
            | none => exact ⟨nofun, fun _ => rfl⟩
            | some below =>
                have hbelow : (∃ t, some below = some t ∧ MeetsLong t names) ↔
                    MeetsLong below names := by simp
                rw [hbelow]
                exact ih hrest

section OfNames

variable {names : List Text}

theorem stat_ofNames (h : ∀ name ∈ names, IsName name) :
    (TooLong d.tree names → d.stat (.ofNames names) = .error .nameTooLong) ∧
      (¬TooLong d.tree names → d.stat (.ofNames names) = d.find (.ofNames names)) := by
  obtain ⟨hlong, hshort⟩ := @follow_isShort [] d.tree names
    fun name hname => (h name hname).2
  unfold TooLong stat
  by_cases hpath : byteLength (Path.ofNames names).text ≤ pathLimit
  · rw [or_iff_right (Nat.not_lt.2 hpath), if_pos hpath]
    exact ⟨hlong, hshort⟩
  · rw [if_neg hpath]
    exact ⟨fun _ => rfl, fun hnot => absurd (.inl (Nat.lt_of_not_le hpath)) hnot⟩

theorem check_of_tooLong (h : ∀ name ∈ names, IsName name) (hlong : TooLong d.tree names)
    (kind : FileTree → Bool) : d.check kind (.ofNames names) = .error .nameTooLong := by
  unfold check
  rw [(stat_ofNames h).1 hlong]

theorem check_of_not_tooLong (h : ∀ name ∈ names, IsName name) (hlong : ¬TooLong d.tree names)
    (kind : FileTree → Bool) :
    d.check kind (.ofNames names) = .ok (((d.tree.at? names).map kind).getD false) := by
  have hfind := find?_ofNames (d := d) h
  unfold find? at hfind
  unfold check
  rw [(stat_ofNames h).2 hlong, ← hfind]
  cases hfound : d.find (.ofNames names) with
  | ok t => rfl
  | error e =>
      rcases of_follow_error (fun _ _ => rfl) hfound with rfl | rfl
      · rfl
      · rfl

/-- Where the system answers, it says whether there is a file. -/
theorem isFile_ofNames (h : ∀ name ∈ names, IsName name) (hlong : ¬TooLong d.tree names) :
    ∃ isFile, d.isFile (.ofNames names) = .ok isFile ∧
      (isFile = true ↔ ∃ content, d.tree.at? names = some (.file content)) := by
  refine ⟨_, check_of_not_tooLong h hlong FileTree.isFile, ?_⟩
  cases d.tree.at? names with
  | none => exact ⟨nofun, nofun⟩
  | some t =>
      cases t with
      | file content => exact ⟨fun _ => ⟨content, rfl⟩, fun _ => rfl⟩
      | dir es => exact ⟨nofun, nofun⟩

end OfNames

end GoSurvey.Disk
