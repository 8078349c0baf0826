/-
What the id of a plan does not depend on.

An id is taken from one `Step.entry` for each step: the step's place in the order of
steps and what the id covers of it.  Steps that are `Alike` have the same entry, and
when ids are distinct the order of steps leaves no choice where an entry stands.  So
plans that are rearranged, and differ in what no entry tells, have the same id.

An engine gives a plan the id of its content before it hands the plan on.  The id is
not among what it covers, so the plan that is handed on has the id that it bears.
-/
import FleetPlan.Engine
import FleetPlan.Proofs.Slice
import FleetPlan.Proofs.Sort

namespace FleetPlan

open Json

/-! ### Steps -/

namespace Step

/--
Steps that differ in nothing an id covers.  Annotations, labels, the namespace of the
target and the order of the dependencies may be different.
-/
structure Alike (s t : Step) : Prop where
  id : t.id = s.id
  index : t.index = s.index
  action : t.action = s.action
  kind : t.target.kind = s.target.kind
  name : t.target.name = s.target.name
  provider : t.target.provider = s.target.provider
  host : t.host.id = s.host.id
  inputs : t.inputs = s.inputs
  dependsOn : t.dependsOn.Perm s.dependsOn

/-- What an id takes from a step: where the step stands and what is covered of it. -/
structure Entry where
  index : StepIndex
  id : String
  document : Document

def entry (s : Step) : Entry := ⟨s.index, s.id, s.idDocument⟩

theorem Alike.entry_eq {s t : Step} (h : s.Alike t) : t.entry = s.entry := by
  have hdocument : t.idDocument = s.idDocument := by
    unfold idDocument
    rw [h.id, h.index, h.action, h.kind, h.name, h.provider, h.host, h.inputs,
      mergeSort_texts_eq_of_perm h.dependsOn]
  unfold entry
  rw [h.index, h.id, hdocument]

theorem map_entry_eq {steps steps' : List Step} (h : List.Forall₂ Alike steps steps') :
    steps'.map entry = steps.map entry := by
  induction h with
  | nil => rfl
  | cons hst _ ih => rw [List.map_cons, List.map_cons, hst.entry_eq, ih]

/-- Sorting steps sorts their entries. -/
theorem map_idDocument_sort (steps : List Step) :
    (sort steps).map idDocument =
      ((steps.map entry).mergeSort fun a b => stepOrder a.index a.id b.index b.id).map
        (·.document) := by
  have hsort : (sort steps).map entry =
      (steps.map entry).mergeSort fun a b => stepOrder a.index a.id b.index b.id :=
    List.map_mergeSort fun _ _ _ _ => rfl
  rw [← hsort, List.map_map]
  rfl

end Step

/-! ### Plans -/

namespace Plan

variable {p q : Plan}

/--
The second plan has the steps of the first in some order, each replaced by one that is
alike.  Nothing else of the two plans has to agree.
-/
def Rearranged (p q : Plan) : Prop :=
  ∃ steps, p.steps.Perm steps ∧ List.Forall₂ Step.Alike steps q.steps

theorem derivedId_eq_of_entries (h : q.steps.map Step.entry = p.steps.map Step.entry)
    (environment : String) : q.derivedId environment = p.derivedId environment := by
  have hdocument : q.idDocument environment = p.idDocument environment := by
    unfold idDocument
    rw [Step.map_idDocument_sort, Step.map_idDocument_sort, h]
  unfold derivedId idOctets
  rw [hdocument]

theorem derivedId_eq_of_rearranged (hnodup : (p.steps.map (·.id)).Nodup) (h : p.Rearranged q)
    (environment : String) : q.derivedId environment = p.derivedId environment := by
  obtain ⟨steps, hperm, halike⟩ := h
  have hentries : q.steps.map Step.entry = steps.map Step.entry := Step.map_entry_eq halike
  -- The steps of the first plan in the order of the second are a plan in between.
  have hsort : ({ p with steps := steps } : Plan).derivedId environment =
      p.derivedId environment := by
    unfold derivedId idOctets idDocument
    rw [Step.sort_eq_of_perm hnodup hperm]
  rw [← hsort]
  exact derivedId_eq_of_entries hentries environment

/-! A plan that is given an id keeps its steps. -/

theorem steps_identified (p : Plan) (environment : String) :
    (Engine.identified p environment).steps = p.steps := by
  unfold Engine.identified
  split <;> rfl

theorem derivedId_identified (p : Plan) (environment environment' : String) :
    (Engine.identified p environment').derivedId environment = p.derivedId environment :=
  derivedId_eq_of_entries (congrArg _ (steps_identified p environment')) environment

theorem sliceable_identified_iff {environment : String} :
    (Engine.identified p environment).Sliceable ↔ p.Sliceable := by
  have hsteps := steps_identified p environment
  constructor
  · rintro ⟨hnodup, hstays⟩
    rw [hsteps] at hnodup hstays
    exact ⟨hnodup, hstays⟩
  · rintro ⟨hnodup, hstays⟩
    rw [← hsteps] at hnodup hstays
    exact ⟨hnodup, hstays⟩

end Plan

/-! ### Engines -/

namespace Engine

/-- The engine's planner answers the request with this plan. -/
def Answers (engine : Engine) (request : ComputeRequest) (plan : Plan) : Prop :=
  ∃ planner, engine.planner = some planner ∧
    planner request.topology.canonical request.state.canonical request.options = .ok plan

theorem Answers.unique {engine : Engine} {request : ComputeRequest} {p q : Plan}
    (hp : engine.Answers request p) (hq : engine.Answers request q) : p = q := by
  obtain ⟨planner, hplanner, hanswer⟩ := hp
  obtain ⟨planner', hplanner', hanswer'⟩ := hq
  rw [hplanner] at hplanner'
  obtain rfl := Option.some.inj hplanner'
  exact Except.ok.inj (hanswer.symm.trans hanswer')

theorem checkVersion_eq_ok_iff {plan : Plan} :
    checkVersion plan = .ok () ↔ plan.version = schemaVersion := by
  simp [checkVersion]

/-- What an engine hands on is the plan of its planner with an id, if it can be cut. -/
theorem compute_eq_ok_iff {engine : Engine} {request : ComputeRequest} {response : ComputeResponse} :
    engine.compute request = .ok response ↔
      ∃ plan, engine.Answers request plan ∧ plan.version = schemaVersion ∧
        response.plan = identified plan request.options.environment ∧ response.plan.Sliceable := by
  cases hplanner : engine.planner with
  | none => simp [compute, hplanner, Answers, bind, Except.bind]
  | some planner =>
    cases hanswer : planner request.topology.canonical request.state.canonical request.options with
    | error cause =>
      simp [compute, hplanner, hanswer, Answers, Except.mapError, bind, Except.bind]
    | ok plan =>
      have hanswers (q : Plan) : engine.Answers request q ↔ q = plan := by
        simp [Answers, hplanner, hanswer, eq_comm]
      let named := identified plan request.options.environment
      have hcompute : engine.compute request = (checkVersion plan).bind fun _ =>
          (named.slice.mapError .slice).bind fun _ => .ok ⟨named⟩ := by
        simp only [compute, hplanner, bind, Except.bind, hanswer, Except.mapError]
        rfl
      have hresponse : response.plan = named ↔ response = ⟨named⟩ := by
        cases response
        simp
      simp only [hanswers, exists_eq_left, hcompute]
      by_cases hversion : plan.version = schemaVersion
      · rw [checkVersion_eq_ok_iff.mpr hversion]
        cases hslice : named.slice with
        | error e =>
          have hnot : ¬named.Sliceable := by
            intro hplan
            rw [Plan.slice_eq_ok_iff.mpr ⟨hplan, rfl⟩] at hslice
            cases hslice
          constructor
          · intro h
            cases h
          · rintro ⟨-, hnamed, hplan⟩
            rw [hnamed] at hplan
            exact absurd hplan hnot
        | ok slice =>
          have hplan := (Plan.slice_eq_ok_iff.mp hslice).1
          constructor
          · intro h
            cases h
            exact ⟨hversion, rfl, hplan⟩
          · rintro ⟨-, hnamed, -⟩
            rw [hresponse.mp hnamed]
            rfl
      · have hrefused : checkVersion plan = .error (.planVersion plan.id plan.version) :=
          if_neg hversion
        rw [hrefused]
        constructor
        · intro h
          cases h
        · intro h
          exact absurd h.1 hversion

/-- A plan that comes back without an id is handed on with the id of its content. -/
theorem id_of_compute_ok {engine : Engine} {request : ComputeRequest} {plan : Plan}
    {response : ComputeResponse} (hplan : engine.Answers request plan) (hid : plan.id = "")
    (h : engine.compute request = .ok response) :
    response.plan.id = plan.derivedId request.options.environment := by
  obtain ⟨found, hfound, -, hresponse, -⟩ := compute_eq_ok_iff.mp h
  obtain rfl := hfound.unique hplan
  rw [hresponse, identified, if_pos (by rw [hid]; rfl)]

/-- What is handed on covers what the planner's plan covers. -/
theorem derivedId_of_compute_ok {engine : Engine} {request : ComputeRequest} {plan : Plan}
    {response : ComputeResponse} (hplan : engine.Answers request plan)
    (h : engine.compute request = .ok response) (environment : String) :
    response.plan.derivedId environment = plan.derivedId environment ∧ plan.Sliceable := by
  obtain ⟨found, hfound, -, hresponse, hsliceable⟩ := compute_eq_ok_iff.mp h
  obtain rfl := hfound.unique hplan
  rw [hresponse] at hsliceable ⊢
  exact ⟨Plan.derivedId_identified _ _ _, Plan.sliceable_identified_iff.mp hsliceable⟩

end Engine

/--
**Ids do not depend on how plans are arranged.**  Plans with distinct steps that are
rearranged have the same id.  An engine whose planner leaves the id out gives the plan
the id of its content, which the plan that is handed on has as well, and every engine
that hands on a rearranged plan in the same environment arrives at this id.
-/
theorem derivedId_rearranged :
    (∀ p q : Plan, (p.steps.map (·.id)).Nodup → p.Rearranged q →
      ∀ environment, q.derivedId environment = p.derivedId environment) ∧
    ∀ engine request plan response, Engine.Answers engine request plan → plan.id = "" →
      engine.compute request = .ok response →
        response.plan.id = plan.derivedId request.options.environment ∧
        response.plan.id = response.plan.derivedId request.options.environment ∧
        ∀ engine' request' plan' response', Engine.Answers engine' request' plan' →
          request'.options.environment = request.options.environment →
          plan.Rearranged plan' → engine'.compute request' = .ok response' →
            response'.plan.derivedId request.options.environment = response.plan.id ∧
            (plan'.id = "" → response'.plan.id = response.plan.id) := by
  refine ⟨fun p q hnodup h => Plan.derivedId_eq_of_rearranged hnodup h, ?_⟩
  intro engine request plan response hplan hid hcompute
  have hgiven := Engine.id_of_compute_ok hplan hid hcompute
  obtain ⟨hcovers, hsliceable⟩ :=
    Engine.derivedId_of_compute_ok hplan hcompute request.options.environment
  refine ⟨hgiven, hgiven.trans hcovers.symm, ?_⟩
  intro engine' request' plan' response' hplan' henvironment hrearranged hcompute'
  have hsame : plan'.derivedId request.options.environment = response.plan.id :=
    (Plan.derivedId_eq_of_rearranged hsliceable.nodup hrearranged _).trans hgiven.symm
  constructor
  · rw [(Engine.derivedId_of_compute_ok hplan' hcompute' _).1, hsame]
  · intro hid'
    rw [Engine.id_of_compute_ok hplan' hid' hcompute', henvironment, hsame]

/-- A plan whose last step waits for the others. -/
def tidySteps : Plan :=
  { Plan.bare "" with steps := [
      .bare "a" .zero .build (.named "h"),
      .bare "g" .zero .migrate .fleet,
      { Step.bare "b" ⟨1, rfl⟩ .applyCompose (.named "h") with dependsOn := ["a", "g"] }] }

/-- The same steps in another order, with annotations, labels and a namespace. -/
def shuffledSteps : Plan :=
  ⟨schemaVersion, "", "again", [
      { Step.bare "b" ⟨1, rfl⟩ .applyCompose ⟨"h", .ofList [("zone", "1")]⟩ with
        dependsOn := ["g", "a"] },
      .bare "g" .zero .migrate .fleet,
      { Step.bare "a" .zero .build (.named "h") with
        target := ⟨"", "", "", "prod"⟩, annotations := .ofList [("by", "hand")] }],
    .ofList [("run", "2")]⟩

theorem tidySteps_rearranged : tidySteps.Rearranged shuffledSteps := by
  refine ⟨tidySteps.steps.reverse, (List.reverse_perm _).symm, ?_⟩
  refine .cons ?_ (.cons ?_ (.cons ?_ .nil))
  · exact ⟨rfl, rfl, rfl, rfl, rfl, rfl, rfl, rfl, .swap _ _ _⟩
  · exact ⟨rfl, rfl, rfl, rfl, rfl, rfl, rfl, rfl, .refl _⟩
  · exact ⟨rfl, rfl, rfl, rfl, rfl, rfl, rfl, rfl, .refl _⟩

namespace Engine

/-- An engine whose planner knows one plan. -/
def planning (plan : Plan) : Engine := ⟨some fun _ _ _ => .ok plan, .empty, .empty⟩

theorem answers_planning (plan : Plan) (request : ComputeRequest) :
    (planning plan).Answers request plan := ⟨_, rfl, rfl⟩

theorem compute_planning {plan : Plan} (hversion : plan.version = schemaVersion)
    (hplan : plan.Sliceable) (request : ComputeRequest) :
    (planning plan).compute request =
      .ok ⟨identified plan request.options.environment⟩ :=
  compute_eq_ok_iff.mpr ⟨plan, answers_planning plan request, hversion, rfl,
    Plan.sliceable_identified_iff.mpr hplan⟩

end Engine

/-- Two planners that return the steps in different orders lead to one id. -/
theorem derivedId_rearranged_of_shuffledSteps : ∃ response response',
    (Engine.planning tidySteps).compute ⟨⟨"", .empty, []⟩, ⟨"", .empty, []⟩, ⟨"prod"⟩⟩ =
      .ok response ∧
    (Engine.planning shuffledSteps).compute ⟨⟨"", .empty, []⟩, ⟨"", .empty, []⟩, ⟨"prod"⟩⟩ =
      .ok response' ∧
    response'.plan.id = response.plan.id ∧
    response.plan.id = response.plan.derivedId "prod" ∧
    shuffledSteps.derivedId "staging" = tidySteps.derivedId "staging" := by
  have hplan : tidySteps.Sliceable := Plan.sliceError?_eq_none_iff.mp (by decide +kernel)
  have hplan' : shuffledSteps.Sliceable := Plan.sliceError?_eq_none_iff.mp (by decide +kernel)
  have hcompute := Engine.compute_planning rfl hplan ⟨⟨"", .empty, []⟩, ⟨"", .empty, []⟩, ⟨"prod"⟩⟩
  have hcompute' :=
    Engine.compute_planning rfl hplan' ⟨⟨"", .empty, []⟩, ⟨"", .empty, []⟩, ⟨"prod"⟩⟩
  obtain ⟨-, hid, hrearranged⟩ := derivedId_rearranged.2 _ _ _ _
    (Engine.answers_planning tidySteps _) rfl hcompute
  have hsame := hrearranged _ _ _ _ (Engine.answers_planning shuffledSteps _) rfl
    tidySteps_rearranged hcompute'
  exact ⟨_, _, hcompute, hcompute', hsame.2 rfl, hid,
    derivedId_rearranged.1 _ _ hplan.nodup tidySteps_rearranged "staging"⟩

end FleetPlan
