/-
Lists that differ only in the order of their members. What depends on the
members alone is the same for both: a table with distinct keys answers
every question alike (`lookup_eq_some_iff_mem`, `find?_key_eq_some_iff`),
the members without repetitions are the same up to order
(`eraseDups_perm`), and sorting by a total order forgets the difference
altogether (`mergeSort_eq_of_perm`), as well as that of the method by which
they are sorted (`mergeSort_eq_insertionSort`). If both are in one strict
order, they are the same list (`eq_of_pairwise_of_mem_iff`).
-/
import Mathlib.Data.List.Nodup
import Mathlib.Data.List.Sort

namespace GoSurvey

variable {α : Type}

-- ============================================================ sorting

/-- Sorting gives the same list however the members are given. -/
theorem mergeSort_eq_of_perm {le : α → α → Bool}
    (htrans : ∀ a b c, le a b = true → le b c = true → le a c = true)
    (htotal : ∀ a b, (le a b || le b a) = true)
    (hantisymm : ∀ a b, le a b = true → le b a = true → a = b) {xs ys : List α}
    (h : xs.Perm ys) : xs.mergeSort le = ys.mergeSort le := by
  have hperm : (xs.mergeSort le).Perm (ys.mergeSort le) :=
    (List.mergeSort_perm xs le).trans (h.trans (List.mergeSort_perm ys le).symm)
  exact List.Perm.eq_of_pairwise (fun a b _ _ => hantisymm a b)
    (List.pairwise_mergeSort htrans htotal xs) (List.pairwise_mergeSort htrans htotal ys) hperm

/-- Sorting by insertion gives the same list, if no two members come both before each other. This
method can be run inside a proof. -/
theorem mergeSort_eq_insertionSort {le : α → α → Bool}
    (htrans : ∀ a b c, le a b = true → le b c = true → le a c = true)
    (htotal : ∀ a b, (le a b || le b a) = true) {xs : List α}
    (hantisymm : ∀ a ∈ xs, ∀ b ∈ xs, le a b = true → le b a = true → a = b) :
    xs.mergeSort le = xs.insertionSort fun a b => le a b = true := by
  have : Std.Total fun a b => le a b = true := ⟨fun a b => Bool.or_eq_true _ _ ▸ htotal a b⟩
  have : IsTrans α fun a b => le a b = true := ⟨htrans⟩
  have hperm := (List.mergeSort_perm xs le).trans
    (List.perm_insertionSort (fun a b => le a b = true) xs).symm
  refine hperm.eq_of_pairwise (fun a b ha hb => ?_) (List.pairwise_mergeSort htrans htotal xs)
    (List.pairwise_insertionSort _ xs)
  exact hantisymm a (List.mem_mergeSort.1 ha) b ((List.mem_insertionSort _).1 hb)

/-- Lists in a strict order with the same members are the same. -/
theorem eq_of_pairwise_of_mem_iff {r : α → α → Prop} (hasymm : ∀ a b, r a b → ¬r b a)
    {xs ys : List α} (hxs : xs.Pairwise r) (hys : ys.Pairwise r) (h : ∀ a, a ∈ xs ↔ a ∈ ys) :
    xs = ys := by
  have hne : ∀ {a b : α}, r a b → a ≠ b := by
    rintro a b hab rfl
    exact hasymm a a hab hab
  have hperm : xs.Perm ys := (List.perm_ext_iff_of_nodup (hxs.imp hne) (hys.imp hne)).2 h
  exact List.Perm.eq_of_pairwise (fun a b _ _ hab hba => absurd hba (hasymm a b hab)) hxs hys hperm

-- ===================================================== no repetitions

/-- Lists that have no member in common are distinct, in whatever order each of them is put. -/
theorem nodup_map_of_disjoint {cs : List (List α)} {order : List α → List α}
    (horder : ∀ c, (order c).Perm c) (h : cs.Pairwise List.Disjoint) (hne : ∀ c ∈ cs, c ≠ []) :
    (cs.map order).Nodup := by
  refine List.pairwise_map.2 (h.imp_of_mem fun {c c'} hc _ hdisjoint heq => ?_)
  obtain ⟨v, hv⟩ := List.exists_mem_of_ne_nil c (hne c hc)
  have hsame : c.Perm c' := (horder c).symm.trans (heq ▸ horder c')
  exact hdisjoint hv (hsame.mem_iff.1 hv)

variable [BEq α] [LawfulBEq α]

theorem eraseDups_nodup (xs : List α) : xs.eraseDups.Nodup := by
  induction hn : xs.length using Nat.strongRecOn generalizing xs with
  | ind n ih =>
      cases xs with
      | nil => exact List.nodup_nil
      | cons a rest =>
          rw [List.eraseDups_cons, List.nodup_cons]
          constructor
          · intro hmem
            have hne := (List.mem_filter.1 (List.mem_eraseDups.1 hmem)).2
            rw [beq_self_eq_true] at hne
            cases hne
          · refine ih _ ?_ _ rfl
            have hle := List.length_filter_le (fun b => !b == a) rest
            rw [List.length_cons] at hn
            omega

/-- Lists with the same members have the same members without repetitions. -/
theorem eraseDups_perm {xs ys : List α} (h : ∀ a, a ∈ xs ↔ a ∈ ys) :
    xs.eraseDups.Perm ys.eraseDups := by
  refine (List.perm_ext_iff_of_nodup (eraseDups_nodup xs) (eraseDups_nodup ys)).2 fun a => ?_
  rw [List.mem_eraseDups, List.mem_eraseDups]
  exact h a

-- ============================================================= tables

/-- In a table with distinct keys a key is found with all that it is given with. -/
theorem lookup_eq_some_iff_mem {β : Type} {table : List (α × β)}
    (h : (table.map (·.1)).Nodup) {key : α} {value : β} :
    table.lookup key = some value ↔ (key, value) ∈ table := by
  induction table with
  | nil =>
      rw [List.lookup_nil]
      exact ⟨fun h => absurd h (Option.some_ne_none value).symm, fun h => absurd h List.not_mem_nil⟩
  | cons entry rest ih =>
      obtain ⟨first, old⟩ := entry
      rw [List.map_cons, List.nodup_cons] at h
      by_cases hkey : key = first
      · subst hkey
        rw [List.lookup_cons_self, Option.some_inj, List.mem_cons, Prod.mk.injEq]
        constructor
        · rintro rfl
          exact .inl ⟨rfl, rfl⟩
        · rintro (⟨-, rfl⟩ | hmem)
          · rfl
          · exact absurd (List.mem_map_of_mem (f := (·.1)) hmem) h.1
      · have hne : (key == first) = false := beq_false_of_ne hkey
        have hrest : ((first, old) :: rest).lookup key = rest.lookup key := by
          rw [List.lookup_cons, hne]
        rw [hrest, ih h.2, List.mem_cons, Prod.mk.injEq]
        exact ⟨.inr, fun h => h.resolve_left fun h => hkey h.1⟩

/-- Among members with distinct keys, a key finds the one that has it. -/
theorem find?_key_eq_some_iff {β : Type} {key : β → α} {xs : List β} (h : (xs.map key).Nodup)
    {k : α} {x : β} : xs.find? (fun y => key y == k) = some x ↔ x ∈ xs ∧ key x = k := by
  constructor
  · intro hx
    have hkey := List.find?_some hx
    exact ⟨List.mem_of_find?_eq_some hx, beq_iff_eq.1 hkey⟩
  · rintro ⟨hx, rfl⟩
    cases hfound : xs.find? fun y => key y == key x with
    | none => exact absurd (beq_self_eq_true (key x)) (List.find?_eq_none.1 hfound x hx)
    | some y =>
        have hkey := List.find?_some hfound
        rw [List.inj_on_of_nodup_map h (List.mem_of_find?_eq_some hfound) hx (beq_iff_eq.1 hkey)]

end GoSurvey
