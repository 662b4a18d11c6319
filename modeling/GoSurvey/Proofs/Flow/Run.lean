/-
Runs of a trace without fuel. A run is a derivation of how a job takes
one trace to another, where a job is to look for a function or to go
through calls of a body. There is one rule for each thing that can
happen, so a fact about all traces is an induction with seven cases; and
since a derivation is finite, to have one is to have come to an end.

`Run.preserves` packages the induction for facts about a single trace:
what the four ways to change a trace keep, every run keeps. What a run
adds, and that it takes nothing away, is `Run.toExtends`.

`follow_run` ties the runs to the search with fuel: as long as there are
fewer functions still to be seen than there is fuel, the search comes to
a result, and it is that of a run. By `Run.deterministic` there is no
other.
-/
import GoSurvey.Proofs.Flow.CallNode

namespace GoSurvey.Flow.Trace

open Text

variable {ε : Type} {lib : Library ε}

-- ==================================================================== runs

/-- What is left to be done for the node of an id. -/
inductive Job where
  /-- To look for a function in a file. -/
  | function (file name node : Text)
  /-- To go through calls. -/
  | calls (cs : List BodyCall) (node : Text)

/-- The id of the node that a job is for. -/
def Job.node : Job → Text
  | function _ _ node => node
  | calls _ node => node

/-- How jobs change a trace. -/
inductive Run (lib : Library ε) : Job → Trace → Trace → Prop where
  /-- A function that has been looked for is left alone. -/
  | seen {t : Trace} {file name node : Text} (hseen : t.hasSeen ⟨file, leafName name⟩ = true) :
      Run lib (.function file name node) t t
  /-- A function that is not there has no calls. -/
  | missing {t : Trace} {file name node : Text} (hseen : t.hasSeen ⟨file, leafName name⟩ = false)
      (hbody : bodyOf? lib ⟨file, leafName name⟩ = none) :
      Run lib (.function file name node) t (t.see ⟨file, leafName name⟩)
  /-- A function that is there has those of its body. -/
  | found {t t' : Trace} {file name node : Text} {source : FunctionSource}
      (hseen : t.hasSeen ⟨file, leafName name⟩ = false)
      (hbody : bodyOf? lib ⟨file, leafName name⟩ = some source)
      (hcalls : Run lib (.calls (bodyCalls source.body) node)
        ((t.see ⟨file, leafName name⟩).expand ⟨node, ⟨file, leafName name⟩, source⟩) t') :
      Run lib (.function file name node) t t'
  /-- No calls are left. -/
  | done {t : Trace} {node : Text} : Run lib (.calls [] node) t t
  /-- A call to something that has a node gets an edge. -/
  | known {t t' : Trace} {call : BodyCall} {cs : List BodyCall} {node : Text} {n : FlowNode}
      (hfind : t.findNode? call.name (kindOf call.name call.context) = some n)
      (hrest : Run lib (.calls cs node) (t.link node n call) t') :
      Run lib (.calls (call :: cs) node) t t'
  /-- A call to something new that cannot be looked into gets a node and an edge. -/
  | leaf {t t' : Trace} {call : BodyCall} {cs : List BodyCall} {node : Text} {n : FlowNode}
      (hfind : t.findNode? call.name (kindOf call.name call.context) = none)
      (hnew : callNode lib call (kindOf call.name call.context)
        (t.newId call (kindOf call.name call.context)) = .ok n)
      (hstop : isTraceable n = false)
      (hrest : Run lib (.calls cs node) (t.grow node n call) t') :
      Run lib (.calls (call :: cs) node) t t'
  /-- A call to something new that can be looked into is followed before the next call. -/
  | branch {t t₁ t' : Trace} {call : BodyCall} {cs : List BodyCall} {node : Text} {n : FlowNode}
      (hfind : t.findNode? call.name (kindOf call.name call.context) = none)
      (hnew : callNode lib call (kindOf call.name call.context)
        (t.newId call (kindOf call.name call.context)) = .ok n)
      (hgo : isTraceable n = true)
      (hinner : Run lib (.function n.file n.name n.id) (t.grow node n call) t₁)
      (hrest : Run lib (.calls cs node) t₁ t') :
      Run lib (.calls (call :: cs) node) t t'

-- ================================================== what a run leaves alone

def ids (t : Trace) : List Text := t.nodes.map (·.id)

/-- A trace that has all that another has, in the same places. -/
structure Extends (t t' : Trace) : Prop where
  nodes : t.nodes <+: t'.nodes
  edges : t.edges <+: t'.edges
  visits : t.visits <:+ t'.visits
  expansions : t.expansions <+: t'.expansions

namespace Extends

variable {t t₁ t' : Trace}

theorem refl (t : Trace) : Extends t t :=
  ⟨List.prefix_rfl, List.prefix_rfl, List.suffix_rfl, List.prefix_rfl⟩

theorem trans (h₁ : Extends t t₁) (h₂ : Extends t₁ t') : Extends t t' :=
  ⟨h₁.nodes.trans h₂.nodes, h₁.edges.trans h₂.edges, h₁.visits.trans h₂.visits,
    h₁.expansions.trans h₂.expansions⟩

theorem see (t : Trace) (v : Visit) : Extends t (t.see v) :=
  ⟨List.prefix_rfl, List.prefix_rfl, List.suffix_cons v t.visits, List.prefix_rfl⟩

theorem expand (t : Trace) (e : Expansion) : Extends t (t.expand e) :=
  ⟨List.prefix_rfl, List.prefix_rfl, List.suffix_rfl, List.prefix_append _ _⟩

theorem link (t : Trace) (source : Text) (n : FlowNode) (call : BodyCall) :
    Extends t (t.link source n call) :=
  ⟨List.prefix_rfl, List.prefix_append _ _, List.suffix_rfl, List.prefix_rfl⟩

theorem grow (t : Trace) (source : Text) (n : FlowNode) (call : BodyCall) :
    Extends t (t.grow source n call) :=
  ⟨List.prefix_append _ _, List.prefix_append _ _, List.suffix_rfl, List.prefix_rfl⟩

theorem mem_ids (h : Extends t t') {id : Text} (hid : id ∈ t.ids) : id ∈ t'.ids := by
  obtain ⟨n, hn, rfl⟩ := List.mem_map.1 hid
  exact List.mem_map_of_mem (h.nodes.subset hn)

theorem hasSeen (h : Extends t t') {v : Visit} (hv : t.hasSeen v = true) :
    t'.hasSeen v = true := by
  obtain ⟨v', hmem, hkey⟩ := List.any_eq_true.1 hv
  exact List.any_eq_true.2 ⟨v', h.visits.subset hmem, hkey⟩

end Extends

namespace Run

/-- A job takes a trace to one trace only. -/
theorem deterministic {job : Job} {t t₁ t₂ : Trace} (h₁ : Run lib job t t₁)
    (h₂ : Run lib job t t₂) : t₁ = t₂ := by
  induction h₁ generalizing t₂ with
  | seen hseen =>
      cases h₂ with
      | seen => rfl
      | missing hseen' => rw [hseen] at hseen'; cases hseen'
      | found hseen' => rw [hseen] at hseen'; cases hseen'
  | missing hseen hbody =>
      cases h₂ with
      | seen hseen' => rw [hseen] at hseen'; cases hseen'
      | missing => rfl
      | found _ hbody' => rw [hbody] at hbody'; cases hbody'
  | found hseen hbody _ ih =>
      cases h₂ with
      | seen hseen' => rw [hseen] at hseen'; cases hseen'
      | missing _ hbody' => rw [hbody] at hbody'; cases hbody'
      | found _ hbody' hcalls' =>
          rw [hbody] at hbody'
          injection hbody' with hsource
          subst hsource
          exact ih hcalls'
  | done =>
      cases h₂
      rfl
  | known hfind _ ih =>
      cases h₂ with
      | known hfind' hrest' =>
          rw [hfind] at hfind'
          injection hfind' with hn
          subst hn
          exact ih hrest'
      | leaf hfind' => rw [hfind] at hfind'; cases hfind'
      | branch hfind' => rw [hfind] at hfind'; cases hfind'
  | leaf hfind hnew hstop _ ih =>
      cases h₂ with
      | known hfind' => rw [hfind] at hfind'; cases hfind'
      | leaf _ hnew' _ hrest' =>
          rw [hnew] at hnew'
          injection hnew' with hn
          subst hn
          exact ih hrest'
      | branch _ hnew' hgo' =>
          rw [hnew] at hnew'
          injection hnew' with hn
          subst hn
          rw [hstop] at hgo'
          cases hgo'
  | branch hfind hnew hgo _ _ ihinner ihrest =>
      cases h₂ with
      | known hfind' => rw [hfind] at hfind'; cases hfind'
      | leaf _ hnew' hstop' =>
          rw [hnew] at hnew'
          injection hnew' with hn
          subst hn
          rw [hgo] at hstop'
          cases hstop'
      | branch _ hnew' _ hinner' hrest' =>
          rw [hnew] at hnew'
          injection hnew' with hn
          subst hn
          have ht := ihinner hinner'
          subst ht
          exact ihrest hrest'

/-- A run only adds. -/
theorem toExtends {job : Job} {t t' : Trace} (h : Run lib job t t') : Extends t t' := by
  induction h with
  | seen => exact .refl _
  | missing => exact .see _ _
  | found _ _ _ ih => exact ((Extends.see _ _).trans (.expand _ _)).trans ih
  | done => exact .refl _
  | known _ _ ih => exact (Extends.link _ _ _ _).trans ih
  | leaf _ _ _ _ ih => exact (Extends.grow _ _ _ _).trans ih
  | branch _ _ _ _ _ ihinner ihrest =>
      exact ((Extends.grow _ _ _ _).trans ihinner).trans ihrest

end Run

-- ================================================== what a run preserves

theorem id_mem_ids_grow (t : Trace) (source : Text) (n : FlowNode) (call : BodyCall) :
    n.id ∈ (t.grow source n call).ids := by
  unfold ids grow
  rw [List.map_append]
  exact List.mem_append_right _ (List.mem_singleton_self _)

/-- A property that each of the four ways to change a trace keeps. Changes are only made for a
node that is there. -/
structure Kept (lib : Library ε) (P : Trace → Prop) : Prop where
  see : ∀ {t : Trace} {v : Visit}, t.hasSeen v = false → bodyOf? lib v = none → P t → P (t.see v)
  expand : ∀ {t : Trace} {v : Visit} {source : FunctionSource} {node : Text},
    node ∈ t.ids → t.hasSeen v = false → bodyOf? lib v = some source → P t →
    P ((t.see v).expand ⟨node, v, source⟩)
  link : ∀ {t : Trace} {call : BodyCall} {node : Text} {n : FlowNode}, node ∈ t.ids →
    t.findNode? call.name (kindOf call.name call.context) = some n → P t → P (t.link node n call)
  grow : ∀ {t : Trace} {call : BodyCall} {node : Text} {n : FlowNode}, node ∈ t.ids →
    t.findNode? call.name (kindOf call.name call.context) = none →
    NodeOfCall lib call (kindOf call.name call.context)
      (t.newId call (kindOf call.name call.context)) n →
    P t → P (t.grow node n call)

/-- What every change keeps, every run keeps. -/
theorem Run.preserves {P : Trace → Prop} (hP : Kept lib P) {job : Job} {t t' : Trace}
    (h : Run lib job t t') (hnode : job.node ∈ t.ids) (ht : P t) : P t' := by
  induction h with
  | seen => exact ht
  | missing hseen hbody => exact hP.see hseen hbody ht
  | found hseen hbody _ ih => exact ih hnode (hP.expand hnode hseen hbody ht)
  | done => exact ht
  | known hfind _ ih => exact ih hnode (hP.link hnode hfind ht)
  | leaf hfind hnew _ _ ih =>
      have hgrown := hP.grow hnode hfind (callNode_nodeOfCall hnew) ht
      exact ih ((Extends.grow _ _ _ _).mem_ids hnode) hgrown
  | branch hfind hnew _ hinner _ ihinner ihrest =>
      have hgrown := hP.grow hnode hfind (callNode_nodeOfCall hnew) ht
      have hids := (Extends.grow _ _ _ _).trans hinner.toExtends
      exact ihrest (hids.mem_ids hnode) (ihinner (id_mem_ids_grow _ _ _ _) hgrown)

-- ======================================================= runs by fuel

/-- Functions that contain whatever a function among them calls, wherever in the library it may
be. -/
def Closed (lib : Library ε) (fs : List (Text × Text)) (within : Visit → Prop) : Prop :=
  ∀ v source call file, within v → bodyOf? lib v = some source →
    call ∈ bodyCalls source.body → file ∈ fs.map (·.1) → within ⟨file, leafName call.name⟩

/-- The number of functions that are still to be seen. -/
def unseen (all : List Visit) (t : Trace) : Nat := (all.filter fun v => !t.hasSeen v).length

/-- What is to be seen in a trace that has more was so before. -/
theorem filter_unseen {all : List Visit} {t t' : Trace} (h : Extends t t') :
    (all.filter fun v => !t'.hasSeen v)
      = (all.filter fun v => !t.hasSeen v).filter fun v => !t'.hasSeen v := by
  rw [List.filter_filter]
  refine List.filter_congr fun v _ => ?_
  cases hseen : t.hasSeen v with
  | false => rw [Bool.not_false, Bool.and_true]
  | true => rw [h.hasSeen hseen]; rfl

theorem unseen_le (all : List Visit) {t t' : Trace} (h : Extends t t') :
    unseen all t' ≤ unseen all t := by
  unfold unseen
  rw [filter_unseen h]
  exact List.length_filter_le _ _

theorem hasSeen_see (t : Trace) (v : Visit) : (t.see v).hasSeen v = true := by
  unfold hasSeen see
  rw [List.any_cons, beq_self_eq_true, Bool.true_or]

/-- Looking for a function leaves one fewer to be seen. -/
theorem unseen_see_lt {all : List Visit} {t : Trace} {v : Visit} (hv : v ∈ all)
    (hseen : t.hasSeen v = false) : unseen all (t.see v) < unseen all t := by
  unfold unseen
  rw [filter_unseen (Extends.see t v)]
  refine List.length_filter_lt_length_iff_exists.2 ⟨v, ?_, ?_⟩
  · rw [List.mem_filter, hseen]
    exact ⟨hv, rfl⟩
  · rw [hasSeen_see]
    exact Bool.noConfusion

-- =================================================== the search with fuel

theorem followCall_known {next : Trace → Text → Text → Text → Except ε Trace} {node : Text}
    {t : Trace} {call : BodyCall} {n : FlowNode}
    (hfind : t.findNode? call.name (kindOf call.name call.context) = some n) :
    followCall lib next node t call = .ok (t.link node n call) := by
  unfold followCall
  dsimp only
  rw [hfind]

/-- A call to something new adds a node, which is followed if it can be. -/
theorem followCall_new {next : Trace → Text → Text → Text → Except ε Trace} {node : Text}
    {t : Trace} {call : BodyCall} {n : FlowNode}
    (hfind : t.findNode? call.name (kindOf call.name call.context) = none)
    (hnew : callNode lib call (kindOf call.name call.context)
      (t.newId call (kindOf call.name call.context)) = .ok n) :
    followCall lib next node t call
      = if isTraceable n then next (t.grow node n call) n.file n.name n.id
        else .ok (t.grow node n call) := by
  unfold followCall
  dsimp only
  rw [hfind]
  dsimp only
  rw [hnew]
  rfl

variable {fs : List (Text × Text)} {all : List Visit}

/-- Going through calls is a run if following what they reach is. -/
theorem foldlM_run (hfs : lib.files = .ok fs) {fuel : Nat}
    (hnext : ∀ t file name node, (⟨file, leafName name⟩ : Visit) ∈ all → unseen all t < fuel →
      ∃ t', follow lib fuel t file name node = .ok t' ∧
        Run lib (.function file name node) t t') (node : Text) :
    ∀ (cs : List BodyCall) (t : Trace),
      (∀ call ∈ cs, ∀ file ∈ fs.map (·.1), (⟨file, leafName call.name⟩ : Visit) ∈ all) →
      unseen all t < fuel →
      ∃ t', cs.foldlM (followCall lib (follow lib fuel) node) t = .ok t' ∧
        Run lib (.calls cs node) t t' := by
  intro cs
  induction cs with
  | nil =>
      intro t _ _
      exact ⟨t, rfl, .done⟩
  | cons call cs ih =>
      intro t hall hfuel
      have hrest := fun call' h => hall call' (List.mem_cons_of_mem call h)
      rw [List.foldlM_cons]
      cases hfind : t.findNode? call.name (kindOf call.name call.context) with
      | some n =>
          have hlink := unseen_le all (Extends.link t node n call)
          obtain ⟨t', hfold, hrun⟩ := ih (t.link node n call) hrest (by omega)
          exact ⟨t', by rw [followCall_known hfind]; exact hfold, .known hfind hrun⟩
      | none =>
          obtain ⟨n, hnew⟩ := exists_callNode hfs call (kindOf call.name call.context)
            (t.newId call (kindOf call.name call.context))
          have hgrow := unseen_le all (Extends.grow t node n call)
          rw [followCall_new hfind hnew]
          cases hgo : isTraceable n with
          | false =>
              obtain ⟨t', hfold, hrun⟩ := ih (t.grow node n call) hrest (by omega)
              exact ⟨t', hfold, .leaf hfind hnew hgo hrun⟩
          | true =>
              have hmem : (⟨n.file, leafName n.name⟩ : Visit) ∈ all :=
                (callNode_nodeOfCall hnew).followed hfs hgo (hall call List.mem_cons_self)
              obtain ⟨t₁, hinner, hrun₁⟩ :=
                hnext (t.grow node n call) n.file n.name n.id hmem (by omega)
              have hless := unseen_le all hrun₁.toExtends
              obtain ⟨t', hfold, hrun⟩ := ih t₁ hrest (by omega)
              refine ⟨t', ?_, .branch hfind hnew hgo hrun₁ hrun⟩
              rw [if_pos rfl, hinner]
              exact hfold

/-- With more fuel than there are functions to be seen, the search is a run. -/
theorem follow_run (hfs : lib.files = .ok fs) (hall : Closed lib fs (· ∈ all)) :
    ∀ (fuel : Nat) (t : Trace) (file name node : Text),
      (⟨file, leafName name⟩ : Visit) ∈ all → unseen all t < fuel →
      ∃ t', follow lib fuel t file name node = .ok t' ∧
        Run lib (.function file name node) t t' := by
  intro fuel
  induction fuel with
  | zero =>
      intro t file name node _ hfuel
      exact absurd hfuel (Nat.not_lt_zero _)
  | succ fuel ih =>
      intro t file name node hmem hfuel
      rw [follow]
      cases hseen : t.hasSeen ⟨file, leafName name⟩ with
      | true =>
          rw [if_pos rfl]
          exact ⟨t, rfl, .seen hseen⟩
      | false =>
          rw [if_neg Bool.false_ne_true]
          cases hbody : bodyOf? lib ⟨file, leafName name⟩ with
          | none => exact ⟨_, rfl, .missing hseen hbody⟩
          | some source =>
              have hsee := unseen_see_lt hmem hseen
              have hexpand := unseen_le all (Extends.expand (t.see ⟨file, leafName name⟩)
                ⟨node, ⟨file, leafName name⟩, source⟩)
              have hless : unseen all ((t.see ⟨file, leafName name⟩).expand
                  ⟨node, ⟨file, leafName name⟩, source⟩) < fuel := by omega
              obtain ⟨t', hfold, hrun⟩ := foldlM_run hfs ih node (bodyCalls source.body) _
                (fun call hcall file hfile => hall _ source call file hmem hbody hcall hfile)
                hless
              exact ⟨t', hfold, .found hseen hbody hrun⟩

end GoSurvey.Flow.Trace
