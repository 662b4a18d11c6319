/-
Sorting by a number that the members have. A sort is stable if the members
of one number stay in the order in which they were given, and the two
together, numbers that go up and each number by itself as before, leave
only one list (`StablySorted.unique`).

What comes first in such a list depends on little: among the first `k` are
at most the first `k` of each number (`take_eq_of_take_filter`). So if
members are given in groups of one number, each group may be cut to its
first `k` before all are sorted and cut to the first `k`
(`take_mergeSort_flatMap`).
-/
import Mathlib.Data.List.Perm.Basic
import Mathlib.Data.List.Sort

namespace GoSurvey

variable {α β : Type} {key : α → Nat} {xs ys zs : List α} {k n : Nat}

/-- The members of a list by their numbers, those of one number in the order of the list. -/
structure StablySorted (key : α → Nat) (xs ys : List α) : Prop where
  ordered : ys.Pairwise fun a b => key a ≤ key b
  stable : ∀ n, ys.filter (key · == n) = xs.filter (key · == n)

/-- The order of members by their numbers. -/
def keyLe (key : α → Nat) (a b : α) : Bool := decide (key a ≤ key b)

theorem stablySorted_mergeSort (key : α → Nat) (xs : List α) :
    StablySorted key xs (xs.mergeSort (keyLe key)) := by
  have htrans : ∀ a b c, keyLe key a b = true → keyLe key b c = true → keyLe key a c = true := by
    intro a b c hab hbc
    exact decide_eq_true (Nat.le_trans (of_decide_eq_true hab) (of_decide_eq_true hbc))
  have htotal : ∀ a b, (keyLe key a b || keyLe key b a) = true := by
    intro a b
    rw [Bool.or_eq_true]
    exact (Nat.le_total (key a) (key b)).imp decide_eq_true decide_eq_true
  refine ⟨(List.pairwise_mergeSort htrans htotal xs).imp of_decide_eq_true, fun n => ?_⟩
  -- Those of one number are in order as they are, so they are a sublist of what is sorted.
  have hordered : (xs.filter (key · == n)).Pairwise fun a b => keyLe key a b = true := by
    refine List.pairwise_filter.2 (List.pairwise_of_forall fun a b ha hb => decide_eq_true ?_)
    rw [beq_iff_eq.1 ha, beq_iff_eq.1 hb]
  have hsublist := (List.sublist_mergeSort htrans htotal hordered List.filter_sublist).filter
    (key · == n)
  rw [List.filter_filter] at hsublist
  simp only [Bool.and_self] at hsublist
  exact (hsublist.eq_of_length ((List.mergeSort_perm xs _).filter _).length_eq.symm).symm

-- ======================================================== what is first

theorem filter_key_cons (key : α → Nat) (a : α) (as : List α) (n : Nat) :
    (a :: as).filter (key · == n)
      = if key a = n then a :: as.filter (key · == n) else as.filter (key · == n) := by
  rw [List.filter_cons]
  simp only [beq_iff_eq]

/-- If the first of each number are the same in two lists, the first member of one is in the
other. -/
theorem mem_of_take_filter {a : α} (h : ∀ n, ((a :: ys).filter (key · == n)).take (k + 1)
    = (zs.filter (key · == n)).take (k + 1)) : a ∈ zs := by
  have hsame := h (key a)
  rw [filter_key_cons, if_pos rfl, List.take_succ_cons] at hsame
  have hmem : a ∈ (zs.filter (key · == key a)).take (k + 1) := hsame ▸ List.mem_cons_self
  exact List.mem_of_mem_filter (List.mem_of_mem_take hmem)

theorem key_le_of_mem {a b : α} (h : (b :: zs).Pairwise fun a b => key a ≤ key b)
    (ha : a ∈ b :: zs) : key b ≤ key a := by
  rcases List.mem_cons.1 ha with rfl | ha
  · exact Nat.le_refl _
  · exact (List.pairwise_cons.1 h).1 a ha

/-- The first members of two sorted lists are the same if the first of each number are. -/
theorem take_eq_of_take_filter (hys : ys.Pairwise fun a b => key a ≤ key b)
    (hzs : zs.Pairwise fun a b => key a ≤ key b)
    (h : ∀ n, (ys.filter (key · == n)).take k = (zs.filter (key · == n)).take k) :
    ys.take k = zs.take k := by
  induction k generalizing ys zs with
  | zero => rfl
  | succ k ih =>
      cases ys with
      | nil =>
          cases zs with
          | nil => rfl
          | cons b zs => exact absurd (mem_of_take_filter fun n => (h n).symm) List.not_mem_nil
      | cons a ys =>
          cases zs with
          | nil => exact absurd (mem_of_take_filter h) List.not_mem_nil
          | cons b zs =>
              have hkey : key a = key b :=
                Nat.le_antisymm (key_le_of_mem hys (mem_of_take_filter fun n => (h n).symm))
                  (key_le_of_mem hzs (mem_of_take_filter h))
              have hsame := h (key a)
              rw [filter_key_cons, filter_key_cons, if_pos rfl, if_pos hkey.symm,
                List.take_succ_cons, List.take_succ_cons] at hsame
              obtain ⟨hab, hrest⟩ := List.cons.inj hsame
              rw [List.take_succ_cons, List.take_succ_cons, hab]
              refine congrArg _ (ih hys.tail hzs.tail fun n => ?_)
              by_cases hn : key a = n
              · exact hn ▸ hrest
              · have hother := congrArg (List.take k) (h n)
                rw [filter_key_cons, filter_key_cons, if_neg hn, if_neg (hkey ▸ hn),
                  List.take_take, List.take_take, Nat.min_eq_left (Nat.le_succ k)] at hother
                exact hother

/-- There is only one stable sort. -/
theorem StablySorted.unique (hys : StablySorted key xs ys) (hzs : StablySorted key xs zs) :
    ys = zs := by
  have hall := take_eq_of_take_filter (k := max ys.length zs.length) hys.ordered hzs.ordered
    fun n => by rw [hys.stable, hzs.stable]
  rwa [List.take_of_length_le (Nat.le_max_left _ _), List.take_of_length_le (Nat.le_max_right _ _)]
    at hall

-- ============================================================== groups

/-- The first members of groups depend on the first of each group. -/
theorem take_flatMap_congr {bs : List β} {f g : β → List α}
    (h : ∀ b ∈ bs, (f b).take k = (g b).take k) :
    (bs.flatMap f).take k = (bs.flatMap g).take k := by
  induction bs with
  | nil => rfl
  | cons b bs ih =>
      have hfirst := h b List.mem_cons_self
      have hrest := ih fun c hc => h c (List.mem_cons_of_mem b hc)
      have hlength := congrArg List.length hfirst
      rw [List.length_take, List.length_take] at hlength
      have hleft : k - (f b).length = k - (g b).length := by omega
      have hcut : ∀ ls : List α, ls.take (k - (g b).length)
          = (ls.take k).take (k - (g b).length) := fun ls => by
        rw [List.take_take, Nat.min_eq_left (Nat.sub_le k _)]
      rw [List.flatMap_cons, List.flatMap_cons, List.take_append, List.take_append, hfirst, hleft,
        hcut (bs.flatMap f), hcut (bs.flatMap g), hrest]

/-- Cut short or not, a group of one number has the same first members of every number. -/
theorem take_filter_take (hkey : ∀ x ∈ xs, ∀ y ∈ xs, key x = key y) :
    ((xs.take k).filter (key · == n)).take k = (xs.filter (key · == n)).take k := by
  by_cases hall : ∀ x ∈ xs, (key x == n) = true
  · rw [List.filter_eq_self.2 hall,
      List.filter_eq_self.2 fun x hx => hall x (List.mem_of_mem_take hx), List.take_take,
      Nat.min_self]
  · have hnone : ∀ x ∈ xs, ¬(key x == n) = true := by
      intro x hx hn
      refine hall fun y hy => ?_
      rw [← hkey x hx y hy]
      exact hn
    rw [List.filter_eq_nil_iff.2 hnone,
      List.filter_eq_nil_iff.2 fun x hx => hnone x (List.mem_of_mem_take hx)]

/-- Groups of one number each may be cut short before they are sorted, if the result is cut at the
same length. -/
theorem take_mergeSort_flatMap {bs : List β} {f : β → List α}
    (hkey : ∀ b ∈ bs, ∀ x ∈ f b, ∀ y ∈ f b, key x = key y) :
    ((bs.flatMap fun b => (f b).take k).mergeSort (keyLe key)).take k
      = ((bs.flatMap f).mergeSort (keyLe key)).take k := by
  have hcut := stablySorted_mergeSort key (bs.flatMap fun b => (f b).take k)
  have hfull := stablySorted_mergeSort key (bs.flatMap f)
  refine take_eq_of_take_filter hcut.ordered hfull.ordered fun n => ?_
  rw [hcut.stable, hfull.stable, List.filter_flatMap, List.filter_flatMap]
  exact take_flatMap_congr fun b hb => take_filter_take (hkey b hb)

end GoSurvey
