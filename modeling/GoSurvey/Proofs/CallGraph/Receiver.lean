/-
When a function has no receiver type, and so no qualified name and no id.

A receiver as it is found in a signature is trimmed, so its first
character is visible. What is cut away of it is the type parameter list,
from the first bracket that only its own line follows. A word is left
unless the cut is at the very start: a receiver without a type is one
that begins with a bracket and is on one line (`receiverType?_eq_none_iff`).
-/
import GoSurvey.CallGraph.Extract
import GoSurvey.Proofs.Pattern.First
import GoSurvey.Proofs.Pattern.Step
import GoSurvey.Proofs.Text.Squeeze

namespace GoSurvey

open Text Source Pattern

namespace Text

theorem words_eq_nil {t : Text} : words t = [] ↔ ∀ c ∈ t, isBlank c = true := by
  induction t with
  | nil => exact iff_of_true rfl (List.forall_mem_nil _)
  | cons c rest ih =>
      rw [words.eq_def, List.forall_mem_cons]
      cases hc : isBlank c with
      | true => simpa [hc] using ih
      | false =>
          refine iff_of_false (fun h => ?_) fun h => absurd h.1 Bool.false_ne_true
          dsimp only at h
          rw [hc, if_neg Bool.false_ne_true] at h
          split at h
          · cases h
          · split at h
            · cases h
            · split at h <;> cases h

end Text

namespace FunctionDef

/-- A receiver that consists of a type parameter list: it begins with a bracket, and no line ends
in it. -/
def HoldsNoType (receiver : Text) : Prop := receiver.head? = some '[' ∧ newline ∉ receiver

instance (receiver : Text) : Decidable (HoldsNoType receiver) :=
  inferInstanceAs (Decidable (_ ∧ _))

/-- A type parameter list begins at a place with a bracket after which nothing but one line stands;
in a trimmed text that line has no end. -/
theorem isSome_typeParameterTail {receiver w : Text} (h : Trimmed receiver) (hw : w <+: receiver) :
    (typeParameterTail.matchAt ((Cursor.start receiver).advance w)).isSome = true
      ↔ ∃ u, receiver = w ++ '[' :: u ∧ newline ∉ u := by
  obtain ⟨t, rfl⟩ := hw
  have hrest : ((Cursor.start (w ++ t)).advance w).rest = t := List.drop_left
  refine isSome_matchAt_iff.trans ⟨?_, ?_⟩
  · rintro ⟨s, hs⟩
    obtain ⟨s₂, hfront, hend⟩ := mem_readings_seq.1 hs
    obtain ⟨s₁, hopen, hrun⟩ := mem_readings_seq.1 hfront
    obtain ⟨v, hline, hv, -⟩ := takes_run hrun
    obtain ⟨rest, htext⟩ := ((takes_lit hopen).1.append hv).ahead
    have htext : '[' :: v ++ rest = t := htext.trans hrest
    -- What is read ends the text, since a trimmed text does not end in a newline.
    have hcursor : s₂.cursor.rest = rest := by
      rw [((takes_lit hopen).1.append hv).cursor]
      exact rest_advance (hrest.trans htext.symm)
    obtain ⟨hatEnd, -⟩ := mem_readings_place.1 hend
    have hnil : rest = [] := by
      unfold Cursor.atEnd at hatEnd
      rw [hcursor, Bool.or_eq_true, List.isEmpty_iff, beq_iff_eq] at hatEnd
      refine hatEnd.resolve_right fun hnewline => ?_
      have hlast := h.last newline (by
        rw [← htext, hnewline, ← List.append_assoc, List.getLast?_concat]
        rfl)
      exact absurd hlast (by decide)
    rw [hnil, List.append_nil] at htext
    refine ⟨v, by rw [← htext], fun hmem => ?_⟩
    simpa using hline newline hmem
  · rintro ⟨u, hu, hline⟩
    obtain rfl := List.append_cancel_left hu
    have hclass : ∀ c ∈ u, (c != newline) = true := by
      intro c hc
      refine bne_iff_ne.2 ?_
      rintro rfl
      exact hline hc
    have hread : ReadsRest typeParameterTail (("[".toList ++ u) ++ []) :=
      ReadsRest.append ((canRead_lit "[".toList).append (canRead_run hclass)) readsRest_atEnd
    exact hread ⟨_, []⟩ (hrest.trans (List.append_nil _).symm)

variable {f : FunctionDef}

/-- A receiver type is missing exactly if the receiver holds none. -/
theorem receiverType?_eq_none_iff (h : Trimmed f.receiver) :
    f.receiverType? = none ↔ HoldsNoType f.receiver := by
  have hwords : f.receiverType? = none
      ↔ f.receiver ≠ [] ∧ ∀ c ∈ plainReceiver f.receiver, isBlank c = true := by
    unfold receiverType?
    by_cases hnil : f.receiver = []
    · simp [hnil]
    · rw [if_neg (by simpa using hnil), Option.map_eq_none_iff, List.getLast?_eq_none_iff,
        words_eq_nil, and_iff_right hnil]
  rw [hwords]
  constructor
  · rintro ⟨hne, hblank⟩
    obtain ⟨c, rest, hreceiver⟩ := List.exists_cons_of_ne_nil hne
    have hvisible : isBlank c = false := h.first c (by rw [hreceiver]; rfl)
    have hfirst : ∀ {t : Text}, (∀ d ∈ c :: t, isBlank d = true) → False := by
      intro t hall
      have hc := hall c List.mem_cons_self
      rw [hvisible] at hc
      cases hc
    unfold plainReceiver at hblank
    cases hsearch : typeParameterTail.search f.receiver with
    | none =>
        rw [hsearch, hreceiver] at hblank
        exact (hfirst hblank).elim
    | some m =>
        -- The cut is not behind the first character, which would be left.
        obtain ⟨w, hw, hmatch, hstart⟩ := matchAt_of_search hsearch
        obtain ⟨u, hu, hline⟩ :=
          (isSome_typeParameterTail h hw).1 (Option.isSome_iff_exists.2 ⟨m, hmatch⟩)
        rw [hsearch] at hblank
        dsimp only at hblank
        rw [hstart, hu, List.take_left] at hblank
        cases w with
        | nil =>
            rw [hu]
            exact ⟨rfl, fun hmem => (List.mem_cons.1 hmem).elim (by decide) hline⟩
        | cons d w =>
            obtain rfl : c = d := (List.cons.inj (hreceiver.symm.trans hu)).1
            exact (hfirst hblank).elim
  · rintro ⟨hopen, hline⟩
    obtain ⟨u, hu⟩ := List.head?_eq_some_iff.1 hopen
    have hmatch := (isSome_typeParameterTail h List.nil_prefix).2
      ⟨u, hu, fun hmem => hline (hu ▸ List.mem_cons_of_mem _ hmem)⟩
    obtain ⟨m, hm⟩ := Option.isSome_iff_exists.1 hmatch
    have hsearch := search_eq_some List.nil_prefix hm fun v hv hne =>
      absurd (List.prefix_nil.1 hv) hne
    have hstart : m.start = 0 := start_of_matchAt hm
    refine ⟨List.ne_nil_of_mem (List.mem_of_head? hopen), fun c hc => ?_⟩
    unfold plainReceiver at hc
    rw [hsearch] at hc
    dsimp only at hc
    rw [hstart] at hc
    cases hc

/-- The two names that are made with the receiver type exist exactly if it does. -/
theorem id?_eq_none_iff : (f.qualifiedName? = none ↔ f.receiverType? = none) ∧
    (f.id? = none ↔ f.receiverType? = none) := by
  unfold id? qualifiedName?
  simp only [Option.map_eq_none_iff, and_self]

end FunctionDef

namespace CallGraph

/-- The receiver of a function that is found in a text is trimmed. -/
theorem trimmed_receiver {content file package : Text} {f : FunctionDef}
    (hf : f ∈ functionsIn content file package) : Trimmed f.receiver := by
  obtain ⟨m, -, rfl⟩ := List.mem_map.1 hf
  exact trimmed_trim _

/-- Of the functions in a text, those without a receiver type, a qualified name or an id are those
whose receiver holds no type. -/
theorem id?_eq_none_of_functionsIn {content file package : Text} {f : FunctionDef}
    (hf : f ∈ functionsIn content file package) :
    (f.receiverType? = none ↔ FunctionDef.HoldsNoType f.receiver) ∧
      (f.qualifiedName? = none ↔ FunctionDef.HoldsNoType f.receiver) ∧
      (f.id? = none ↔ FunctionDef.HoldsNoType f.receiver) := by
  have htype := FunctionDef.receiverType?_eq_none_iff (trimmed_receiver hf)
  exact ⟨htype, FunctionDef.id?_eq_none_iff.1.trans htype,
    FunctionDef.id?_eq_none_iff.2.trans htype⟩

end CallGraph
end GoSurvey
