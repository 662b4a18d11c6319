/-
Passes over lines. From the line of an index a pass goes on to the next
one, or it takes something that begins there and goes on behind its last
line; it is over at a stop. What it passes over and what it takes are
parameters, and `LinePass` says what a pass has taken when it is over. A
`LinePass` is made of finitely many steps, so a loop that is one comes to
its end.

Nothing that is taken ends before it begins, so every step goes forward.
That is all it needs to see that the things taken stand apart, in the
order of their lines (`LinePass.pairwise`), and that a line which is not
passed over lies in exactly one of them (`LinePass.existsUnique_covers`).
-/
import Mathlib.Data.List.Pairwise

namespace GoSurvey.Source

variable {α : Type} {skips : Nat → Prop} {takes : Nat → α → Nat → Prop} {stop index : Nat}
  {items : List α}

/-- What a pass takes from the line of an index on. -/
inductive LinePass (skips : Nat → Prop) (takes : Nat → α → Nat → Prop) (stop : Nat) :
    Nat → List α → Prop
  /-- There are no lines left. -/
  | done {index : Nat} (hstop : stop ≤ index) : LinePass skips takes stop index []
  /-- A line is passed over. -/
  | skip {index : Nat} {items : List α} (hlt : index < stop) (hskip : skips index)
      (hrest : LinePass skips takes stop (index + 1) items) : LinePass skips takes stop index items
  /-- Something is taken with the lines up to its last one. -/
  | take {index last : Nat} {item : α} {items : List α} (hlt : index < stop)
      (htake : takes index item last) (hrest : LinePass skips takes stop (last + 1) items) :
      LinePass skips takes stop index (item :: items)

/-- The line of an index is one of the lines of something taken. -/
def Covers (takes : Nat → α → Nat → Prop) (item : α) (k : Nat) : Prop :=
  ∃ first last, takes first item last ∧ first ≤ k ∧ k ≤ last

/-- Things are taken with lines of their own, of which the last one is not above the first. -/
structure TakesLines (takes : Nat → α → Nat → Prop) : Prop where
  le : ∀ {first item last}, takes first item last → first ≤ last
  same : ∀ {item first last first' last'}, takes first item last → takes first' item last' →
    first = first' ∧ last = last'

/-- Whatever is taken begins between the line where the pass begins and its stop. -/
theorem LinePass.exists_takes (ht : TakesLines takes) (h : LinePass skips takes stop index items) :
    ∀ item ∈ items, ∃ first last, takes first item last ∧ index ≤ first ∧ first < stop := by
  induction h with
  | done _ => exact fun item hitem => absurd hitem List.not_mem_nil
  | skip _ _ _ ih =>
      intro item hitem
      obtain ⟨first, last, htake, hle, hlt⟩ := ih item hitem
      exact ⟨first, last, htake, Nat.le_of_succ_le hle, hlt⟩
  | @take index last _ _ hlt htake _ ih =>
      intro item hitem
      rcases List.mem_cons.1 hitem with rfl | hitem
      · exact ⟨index, last, htake, Nat.le_refl _, hlt⟩
      · obtain ⟨first, last', htake', hle, hlt'⟩ := ih item hitem
        have hforward := ht.le htake
        exact ⟨first, last', htake', by omega, hlt'⟩

/-- What is taken first ends above the line in which the next thing begins. -/
theorem LinePass.pairwise (ht : TakesLines takes) (h : LinePass skips takes stop index items) :
    items.Pairwise fun x y => ∀ first last first' last', takes first x last →
      takes first' y last' → last < first' := by
  induction h with
  | done _ => exact .nil
  | skip _ _ _ ih => exact ih
  | take _ htake hrest ih =>
      refine List.pairwise_cons.2 ⟨fun y hy first last first' last' hx htake' => ?_, ih⟩
      obtain ⟨k, l, hk, hle, -⟩ := hrest.exists_takes ht y hy
      obtain ⟨-, rfl⟩ := ht.same htake hx
      obtain ⟨rfl, -⟩ := ht.same hk htake'
      exact hle

/-- No line is left out but those passed over. -/
theorem LinePass.exists_covers (h : LinePass skips takes stop index items) {k : Nat}
    (hle : index ≤ k) (hlt : k < stop) (hskip : ¬skips k) :
    ∃ item ∈ items, Covers takes item k := by
  induction h with
  | done hstop => omega
  | @skip index _ _ hpassed _ ih =>
      have hne : index ≠ k := by
        rintro rfl
        exact hskip hpassed
      exact ih (by omega)
  | @take index last item _ _ htake _ ih =>
      by_cases hin : k ≤ last
      · exact ⟨item, List.mem_cons_self, index, last, htake, hle, hin⟩
      · obtain ⟨other, hother, hcovers⟩ := ih (by omega)
        exact ⟨other, List.mem_cons_of_mem _ hother, hcovers⟩

/-- No two things have a line in common. -/
theorem LinePass.eq_of_covers (ht : TakesLines takes) (h : LinePass skips takes stop index items)
    {x y : α} (hx : x ∈ items) (hy : y ∈ items) {k : Nat} (hxk : Covers takes x k)
    (hyk : Covers takes y k) : x = y := by
  have hapart : items.Pairwise fun x y => ∀ k, Covers takes x k → Covers takes y k → x = y := by
    refine (h.pairwise ht).imp ?_
    rintro x y hlt k ⟨first, last, htake, -, hle⟩ ⟨first', last', htake', hle', -⟩
    have hbefore := hlt first last first' last' htake htake'
    omega
  have : Std.Symm fun x y : α => ∀ k, Covers takes x k → Covers takes y k → x = y :=
    ⟨fun x y hxy k hyk hxk => (hxy k hxk hyk).symm⟩
  exact hapart.forall_of_forall (fun _ _ _ _ _ => rfl) hx hy k hxk hyk

/-- A line that is not passed over is a line of one thing taken. -/
theorem LinePass.existsUnique_covers (ht : TakesLines takes)
    (h : LinePass skips takes stop index items) {k : Nat} (hle : index ≤ k) (hlt : k < stop)
    (hskip : ¬skips k) : ∃ item, (item ∈ items ∧ Covers takes item k) ∧
      ∀ other ∈ items, Covers takes other k → other = item := by
  obtain ⟨item, hitem, hcovers⟩ := h.exists_covers hle hlt hskip
  exact ⟨item, ⟨hitem, hcovers⟩, fun other hother hcovers' =>
    h.eq_of_covers ht hother hitem hcovers' hcovers⟩

/-- Where each line is passed over or begins one thing, the pass takes what it takes and nothing
else. -/
theorem LinePass.unique {items' : List α}
    (hone : ∀ {first item last item' last'}, takes first item last → takes first item' last' →
      item = item' ∧ last = last')
    (htaken : ∀ {first item last}, takes first item last → ¬skips first)
    (h : LinePass skips takes stop index items) (h' : LinePass skips takes stop index items') :
    items = items' := by
  induction h generalizing items' with
  | done hstop =>
      cases h' with
      | done _ => rfl
      | skip hlt _ _ => omega
      | take hlt _ _ => omega
  | skip hlt hskip _ ih =>
      cases h' with
      | done hstop => omega
      | skip _ _ hrest' => exact ih hrest'
      | take _ htake _ => exact absurd hskip (htaken htake)
  | take hlt htake _ ih =>
      cases h' with
      | done hstop => omega
      | skip _ hskip _ => exact absurd hskip (htaken htake)
      | take _ htake' hrest' =>
          obtain ⟨rfl, rfl⟩ := hone htake htake'
          rw [ih hrest']

end GoSurvey.Source
