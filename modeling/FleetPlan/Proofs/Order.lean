/-
When a plan that can be cut is also run.

Cutting a plan looks at which steps depend on each other, running it also at their
order: a list of steps is refused when some step does not come after all it depends
on.  The lists that a plan is cut into are each by index and id, so whether one of
them is refused is told by pairs of steps of the plan itself.  `OutOfOrder` is such a
pair.  Nothing else keeps the parts of a plan from being run (`dispatch_error_iff`), nor a
plan of the current version that can be cut (`execute_ok_iff`).
-/
import FleetPlan.Engine
import FleetPlan.Proofs.Dispatch
import FleetPlan.Proofs.Slice
import Mathlib

namespace FleetPlan

/-! ### Lists of steps -/

section

variable {host : Host} {earlier : List String} {steps : List HostStep} {e : RunError}

theorem orderErrorFrom?_cons (first : HostStep) (rest : List HostStep) :
    orderErrorFrom? host earlier (first :: rest) =
      (first.dependsOn.findSome?
        (dependencyOrderError? host earlier ((first :: rest).map (·.id)) first)).or
          (orderErrorFrom? host (first.id :: earlier) rest) := by
  rw [orderErrorFrom?, List.map_cons]
  split <;> rename_i hfirst <;> rw [hfirst] <;> rfl

theorem dependencyOrderError?_eq_none_iff {onward : List String} {step : HostStep} {d : String} :
    dependencyOrderError? host earlier onward step d = none ↔ d ∉ onward ∧ d ∈ earlier := by
  unfold dependencyOrderError?
  by_cases honward : d ∈ onward
  · simp [honward]
  · by_cases hearlier : d ∈ earlier <;> simp [honward, hearlier]

theorem dependencyOrderError?_eq_some {onward : List String} {step : HostStep} {d : String}
    (h : dependencyOrderError? host earlier onward step d = some e) :
    (d ∈ onward ∧ e = .dependencyOrder step.id host.id d) ∨
      (d ∉ onward ∧ d ∉ earlier ∧ e = .unresolvedDependency step.id host.id d) := by
  unfold dependencyOrderError? at h
  split at h
  · rename_i honward
    exact .inl ⟨by simpa using honward, by simpa using h.symm⟩
  · rename_i honward
    split at h
    · simp at h
    · rename_i hearlier
      exact .inr ⟨by simpa using honward, by simpa using hearlier, by simpa using h.symm⟩

/-- In a list that is not refused each dependency stands before its step. -/
theorem before_of_orderErrorFrom?_eq_none (h : orderErrorFrom? host earlier steps = none)
    {before after : List HostStep} {step : HostStep} (hsplit : steps = before ++ step :: after)
    {d : String} (hd : d ∈ step.dependsOn) :
    d ∉ (step :: after).map (·.id) ∧ (d ∈ before.map (·.id) ∨ d ∈ earlier) := by
  induction steps generalizing earlier before with
  | nil => simp at hsplit
  | cons first rest ih =>
    rw [orderErrorFrom?_cons, Option.or_eq_none_iff] at h
    obtain ⟨hfirst, hrest⟩ := h
    cases before with
    | nil =>
      obtain ⟨rfl, rfl⟩ := List.cons.inj hsplit
      have hnone := List.findSome?_eq_none_iff.mp hfirst d hd
      exact (dependencyOrderError?_eq_none_iff.mp hnone).imp_right .inr
    | cons _ before =>
      obtain ⟨rfl, rfl⟩ := List.cons.inj hsplit
      obtain ⟨honward, hbefore | hearlier⟩ := ih hrest rfl
      · exact ⟨honward, .inl (List.mem_cons_of_mem _ hbefore)⟩
      · rcases List.mem_cons.mp hearlier with rfl | hearlier
        · exact ⟨honward, .inl List.mem_cons_self⟩
        · exact ⟨honward, .inr hearlier⟩

/-- A list is refused for a dependency that stands too late, or nowhere. -/
theorem exists_of_orderErrorFrom?_eq_some (h : orderErrorFrom? host earlier steps = some e) :
    ∃ before step after, steps = before ++ step :: after ∧ ∃ d ∈ step.dependsOn,
      (d ∈ (step :: after).map (·.id) ∧ e = .dependencyOrder step.id host.id d) ∨
        (d ∉ steps.map (·.id) ∧ d ∉ earlier ∧ e = .unresolvedDependency step.id host.id d) := by
  induction steps generalizing earlier with
  | nil => simp [orderErrorFrom?] at h
  | cons first rest ih =>
    rw [orderErrorFrom?_cons, Option.or_eq_some_iff] at h
    rcases h with hfirst | ⟨-, hrest⟩
    · obtain ⟨d, hd, hfound⟩ := List.exists_of_findSome?_eq_some hfirst
      exact ⟨[], first, rest, rfl, d, hd, dependencyOrderError?_eq_some hfound⟩
    · obtain ⟨before, step, after, rfl, d, hd, hcase⟩ := ih hrest
      refine ⟨first :: before, step, after, rfl, d, hd, hcase.imp_right ?_⟩
      rintro ⟨hnowhere, hearlier, rfl⟩
      obtain ⟨hne, hearlier⟩ := not_or.mp (mt List.mem_cons.mpr hearlier)
      refine ⟨?_, hearlier, rfl⟩
      rw [List.map_cons, List.mem_cons, not_or]
      exact ⟨hne, hnowhere⟩

end

namespace Plan

/-! ### Pairs of steps -/

/-- A step that depends on one of its own place which does not come before it. -/
structure OutOfOrder (plan : Plan) (s d : Step) : Prop where
  step : s ∈ plan.steps
  dependency : d ∈ plan.steps
  depends : d.id ∈ s.dependsOn
  host : d.host.id = s.host.id
  /-- The step comes before its dependency, or is the dependency. -/
  le : s.le d = true

/-- A step as it is run keeps what it waits for in its own place. -/
structure RunAs (plan : Plan) (s : Step) (step : HostStep) : Prop where
  id : step.id = s.id
  index : step.index = s.index
  dependsOn : ∀ dependency, dependency ∈ step.dependsOn ↔
    dependency ∈ s.dependsOn ∧ ∃ d ∈ plan.steps, d.id = dependency ∧ d.host.id = s.host.id

/-- The list in which the steps of one place are run. -/
structure RunList (plan : Plan) (key : String) (steps : List HostStep) : Prop where
  sorted : steps.Pairwise fun a b => a.le b = true
  /-- Every step of the place is in the list. -/
  has : ∀ s ∈ plan.steps, s.host.id = key → ∃ step ∈ steps, plan.RunAs s step
  /-- And nothing else is. -/
  only : ∀ step ∈ steps, ∃ s ∈ plan.steps, s.host.id = key ∧ plan.RunAs s step

variable {plan : Plan} {key : String} {steps : List HostStep}

theorem RunAs.le_iff {s d : Step} {step dep : HostStep} (hs : plan.RunAs s step)
    (hd : plan.RunAs d dep) : step.le dep = true ↔ s.le d = true := by
  rw [HostStep.le, Step.le, hs.id, hs.index, hd.id, hd.index]

theorem Sliceable.runAs_ofStep (h : plan.Sliceable) {s : Step} (hs : s ∈ plan.steps)
    (hglobal : s.isGlobal = true) : plan.RunAs s (.ofStep s) := by
  refine ⟨rfl, rfl, fun dependency => ⟨fun hdep => ⟨hdep, ?_⟩, And.left⟩⟩
  obtain ⟨d, hd, hid, hhost | hdglobal⟩ := h.stays s hs dependency hdep
  · exact ⟨d, hd, hid, hhost⟩
  · exact ⟨d, hd, hid, (isGlobal_iff.mp hdglobal).trans (isGlobal_iff.mp hglobal).symm⟩

theorem Sliceable.runAs_hostStep (h : plan.Sliceable) {s : Step} (hs : s ∈ plan.steps)
    (hglobal : s.isGlobal = false) : plan.RunAs s (plan.hostStep s) :=
  ⟨rfl, rfl, fun _ => h.mem_localDependencies_iff hs hglobal⟩

theorem Sliceable.runList_globals (h : plan.Sliceable) :
    plan.RunList "" (plan.globalSteps.map .ofStep) := by
  refine ⟨List.pairwise_map.mpr (Step.pairwise_sort _), ?_, ?_⟩
  · intro s hs hkey
    have hglobal := isGlobal_iff.mpr hkey
    exact ⟨_, List.mem_map_of_mem (mem_globalSteps.mpr ⟨hs, hglobal⟩), h.runAs_ofStep hs hglobal⟩
  · intro step hstep
    obtain ⟨s, hmem, rfl⟩ := List.mem_map.mp hstep
    obtain ⟨hs, hglobal⟩ := mem_globalSteps.mp hmem
    exact ⟨s, hs, isGlobal_iff.mp hglobal, h.runAs_ofStep hs hglobal⟩

theorem Sliceable.runList_part (h : plan.Sliceable) {part : HostPlan}
    (hpart : HostPart plan key part) : plan.RunList key part.steps := by
  refine ⟨hpart.sorted, ?_, ?_⟩
  · intro s hs hkey
    exact ⟨_, hpart.mem_steps_iff.mpr ⟨s, hs, hkey, rfl⟩,
      h.runAs_hostStep hs (hpart.not_isGlobal hkey)⟩
  · intro step hstep
    obtain ⟨s, hs, hkey, rfl⟩ := hpart.mem_steps_iff.mp hstep
    exact ⟨s, hs, hkey, h.runAs_hostStep hs (hpart.not_isGlobal hkey)⟩

namespace RunList

variable {host : Host}

/-- A list is refused only for a pair out of order. -/
theorem exists_outOfOrder (h : plan.RunList key steps) (hhost : host.id = key) {e : RunError}
    (herr : orderError? host steps = some e) :
    ∃ s d, plan.OutOfOrder s d ∧ e = .dependencyOrder s.id s.host.id d.id := by
  obtain ⟨before, step, after, hsplit, dependency, hdep, hcase⟩ :=
    exists_of_orderErrorFrom?_eq_some herr
  have hstep : step ∈ steps := by simp [hsplit]
  obtain ⟨s, hs, hkey, hrun⟩ := h.only step hstep
  obtain ⟨hdepends, d, hd, rfl, hsame⟩ := (hrun.dependsOn dependency).mp hdep
  rcases hcase with ⟨honward, rfl⟩ | ⟨hnowhere, -, -⟩
  · obtain ⟨dep, hmem, hid⟩ := List.mem_map.mp honward
    obtain ⟨t, ht, htkey, htrun⟩ := h.only dep (by simp [hsplit, List.mem_cons.mp hmem])
    refine ⟨s, t, ⟨hs, ht, ?_, htkey.trans hkey.symm, (hrun.le_iff htrun).mp ?_⟩, ?_⟩
    · rw [← htrun.id, hid]
      exact hdepends
    · rcases List.mem_cons.mp hmem with rfl | hafter
      · exact (Bool.or_self _).symm.trans (stepOrder_total dep.index dep.index dep.id dep.id)
      · have hsorted := h.sorted
        rw [hsplit] at hsorted
        exact (List.pairwise_cons.mp (List.pairwise_append.mp hsorted).2.1).1 dep hafter
    · rw [hhost, hkey, hrun.id, ← htrun.id, hid]
  · obtain ⟨dep, hmem, htrun⟩ := h.has d hd (hsame.trans hkey)
    exact absurd (List.mem_map.mpr ⟨dep, hmem, htrun.id⟩) hnowhere

/-- And it is refused for any. -/
theorem orderError?_ne_none (h : plan.RunList key steps) (hplan : plan.Sliceable) {s d : Step}
    (hout : plan.OutOfOrder s d) (hkey : s.host.id = key) : orderError? host steps ≠ none := by
  intro hnone
  obtain ⟨step, hstep, hrun⟩ := h.has s hout.step hkey
  obtain ⟨before, after, hsplit⟩ := List.append_of_mem hstep
  have hdep : d.id ∈ step.dependsOn :=
    (hrun.dependsOn d.id).mpr ⟨hout.depends, d, hout.dependency, rfl, hout.host⟩
  obtain ⟨honward, hbefore⟩ := before_of_orderErrorFrom?_eq_none hnone hsplit hdep
  rw [List.map_cons, List.mem_cons, not_or] at honward
  obtain ⟨dep, hmem, hid⟩ := List.mem_map.mp (hbefore.resolve_right List.not_mem_nil)
  obtain ⟨t, ht, -, htrun⟩ := h.only dep (by simp [hsplit, hmem])
  obtain rfl := eq_of_id_eq hplan.nodup ht hout.dependency (htrun.id.symm.trans hid)
  -- Each of the two comes before the other, so they are one step.
  have hsorted := h.sorted
  rw [hsplit] at hsorted
  have hle : dep.le step = true :=
    (List.pairwise_append.mp hsorted).2.2 dep hmem step List.mem_cons_self
  exact honward.1 ((eq_of_stepOrder ((htrun.le_iff hrun).mp hle) hout.le).trans hrun.id.symm)

end RunList

/-! ### The parts of a plan -/

/-- No part of a plan is a host plan for no host, so only the order of its lists is judged. -/
theorem cut_runError? (plan : Plan) (planId : String) :
    plan.cut.runError? planId = (orderError? .fleet (plan.globalSteps.map .ofStep)).or
      (plan.cut.hostPlans.values.findSome? fun part => orderError? part.host part.steps) := by
  have hparts : (plan.cut.hostPlans.values.findSome? fun part =>
        if part.host.isGlobal then some (.missingHost planId)
        else orderError? part.host part.steps) =
      plan.cut.hostPlans.values.findSome? fun part => orderError? part.host part.steps := by
    have hsame : ∀ part ∈ plan.cut.hostPlans.values,
        (if part.host.isGlobal then some (.missingHost planId)
          else orderError? part.host part.steps) = orderError? part.host part.steps := by
      intro part hpart
      obtain ⟨⟨key, part⟩, hmem, rfl⟩ := List.mem_map.mp hpart
      have hpart := hostPart_of_mem hmem
      have hhost : ¬part.host.isGlobal = true := by
        rw [Host.isGlobal, String.isEmpty_iff, hpart.host_id]
        exact hpart.key_ne
      exact if_neg hhost
    simpa only [List.findSome?_map, Function.comp_def] using
      congrArg (List.findSome? fun error => error) (List.map_congr_left hsame)
  rw [Slice.runError?, hparts]
  have hsteps : plan.globalSteps = plan.cut.globalSteps := rfl
  split <;> rename_i hglobals <;> rw [hsteps, hglobals] <;> rfl

/-- Only pairs out of order keep the parts of a plan from being run. -/
theorem Sliceable.exists_outOfOrder (h : plan.Sliceable) {planId : String} {e : RunError}
    (herr : plan.cut.runError? planId = some e) :
    ∃ s d, plan.OutOfOrder s d ∧ e = .dependencyOrder s.id s.host.id d.id := by
  rw [cut_runError?, Option.or_eq_some_iff] at herr
  rcases herr with hglobals | ⟨-, hparts⟩
  · exact h.runList_globals.exists_outOfOrder rfl hglobals
  · obtain ⟨part, hpart, herr⟩ := List.exists_of_findSome?_eq_some hparts
    obtain ⟨⟨key, part⟩, hmem, rfl⟩ := List.mem_map.mp hpart
    have hpart := hostPart_of_mem hmem
    exact (h.runList_part hpart).exists_outOfOrder hpart.host_id herr

/-- And any pair out of order does. -/
theorem OutOfOrder.runError?_ne_none {s d : Step} (hout : plan.OutOfOrder s d)
    (h : plan.Sliceable) (planId : String) : plan.cut.runError? planId ≠ none := by
  rw [cut_runError?, Ne, Option.or_eq_none_iff, not_and_or]
  by_cases hglobal : s.isGlobal = true
  · exact .inl (h.runList_globals.orderError?_ne_none h hout (isGlobal_iff.mp hglobal))
  · obtain ⟨part, hmem, hpart⟩ := exists_hostPart hout.step (by simpa using hglobal)
    refine .inr ?_
    intro hnone
    have hnone := List.findSome?_eq_none_iff.mp hnone part (List.mem_map.mpr ⟨_, hmem, rfl⟩)
    exact (h.runList_part hpart).orderError?_ne_none h hout rfl hnone

end Plan

namespace Runner

/--
**When the parts of a plan are refused.**  The parts of a plan that can be cut are
refused just when some step of it is out of order, and then for such a step.  No other
refusal is possible: every part is for a host, and every dependency that a part keeps
is one of its own steps.
-/
theorem dispatch_error_iff {plan : Plan} {slice : Slice} (hslice : plan.slice = .ok slice)
    (r : Runner) (planId : String) :
    ((∃ e, r.dispatch slice planId = .error e) ↔ ∃ s d, plan.OutOfOrder s d) ∧
      (∀ e, r.dispatch slice planId = .error e →
        ∃ s d, plan.OutOfOrder s d ∧ e = .dependencyOrder s.id s.host.id d.id) ∧
      (∀ id, r.dispatch slice planId ≠ .error (.missingHost id)) ∧
      ∀ step host dependency,
        r.dispatch slice planId ≠ .error (.unresolvedDependency step host dependency) := by
  obtain ⟨hplan, rfl⟩ := Plan.slice_eq_ok_iff.mp hslice
  have hrefused {e : RunError} (he : r.dispatch plan.cut planId = .error e) :
      ∃ s d, plan.OutOfOrder s d ∧ e = .dependencyOrder s.id s.host.id d.id :=
    hplan.exists_outOfOrder (dispatch_eq_error_iff.mp he)
  refine ⟨⟨?_, ?_⟩, fun e => hrefused, ?_, ?_⟩
  · rintro ⟨e, he⟩
    obtain ⟨s, d, hout, -⟩ := hrefused he
    exact ⟨s, d, hout⟩
  · rintro ⟨s, d, hout⟩
    obtain ⟨e, he⟩ := Option.ne_none_iff_exists'.mp (hout.runError?_ne_none hplan planId)
    exact ⟨e, dispatch_eq_error_iff.mpr he⟩
  · intro id he
    obtain ⟨s, d, -, heq⟩ := hrefused he
    exact RunError.noConfusion heq
  · intro step host dependency he
    obtain ⟨s, d, -, heq⟩ := hrefused he
    exact RunError.noConfusion heq

/-- A plan whose first step waits for two later ones: a global step and one of its own host. -/
def waitsForLater : Plan :=
  { Plan.bare "p" with steps := [
      { Step.bare "a" .zero .noop (.named "h") with dependsOn := ["g", "b"] },
      .bare "b" ⟨1, by decide⟩ .noop (.named "h"),
      .bare "g" ⟨1, by decide⟩ .noop .fleet] }

/-- A host's step may stand before a global one that it waits for, but not before its own host's. -/
theorem dispatch_error_iff_of_waitsForLater :
    waitsForLater.slice = .ok waitsForLater.cut ∧
      dispatch ⟨.empty, .default, ""⟩ waitsForLater.cut "p" =
        .error (.dependencyOrder "a" "h" "b") ∧
      ∃ s d, waitsForLater.OutOfOrder s d := by
  have hslice : waitsForLater.slice = .ok waitsForLater.cut :=
    Plan.slice_eq_ok_iff.mpr ⟨Plan.sliceError?_eq_none_iff.mp (by decide +kernel), rfl⟩
  have herr : dispatch ⟨.empty, .default, ""⟩ waitsForLater.cut "p" =
      .error (.dependencyOrder "a" "h" "b") := dispatch_eq_error_iff.mpr (by cbv)
  exact ⟨hslice, herr, (dispatch_error_iff hslice _ _).1.mp ⟨_, herr⟩⟩

end Runner

namespace Engine

/--
**When a plan that can be cut is run.**  A plan of the current version that can be
cut is run just when no step of it is out of order, and otherwise the run is refused
for such a step, whatever the executors and the options are.
-/
theorem execute_ok_iff {plan : Plan} {slice : Slice} (hversion : plan.version = schemaVersion)
    (hslice : plan.slice = .ok slice) (engine : Engine) (now : String) (options : RunOptions) :
    ((∃ response, (engine.execute now ⟨plan, options⟩).1 = .ok response) ↔
        ∀ s d, ¬plan.OutOfOrder s d) ∧
      ∀ e, (engine.execute now ⟨plan, options⟩).1 = .error e →
        ∃ s d, plan.OutOfOrder s d ∧ e = .run (.dependencyOrder s.id s.host.id d.id) := by
  obtain ⟨hplan, rfl⟩ := Plan.slice_eq_ok_iff.mp hslice
  let runner : Runner := ⟨engine.registry, options, now⟩
  cases herr : plan.cut.runError? plan.id with
  | none =>
    have hrun : runner.dispatch plan.cut plan.id = .ok _ :=
      Runner.dispatch_eq_ok_iff.mpr ⟨herr, rfl⟩
    have hok : ∃ response, (engine.execute now ⟨plan, options⟩).1 = .ok response := by
      simp only [execute, checkVersion, hversion, if_pos, hslice, hrun, runner]
      exact ⟨_, rfl⟩
    obtain ⟨response, hresponse⟩ := hok
    refine ⟨⟨?_, fun _ => ⟨response, hresponse⟩⟩, ?_⟩
    · intro _ s d hout
      exact hout.runError?_ne_none hplan plan.id herr
    · intro e he
      rw [hresponse] at he
      simp at he
  | some found =>
    have hrun : runner.dispatch plan.cut plan.id = .error found :=
      Runner.dispatch_eq_error_iff.mpr herr
    have hrefused : (engine.execute now ⟨plan, options⟩).1 = .error (.run found) := by
      simp only [execute, checkVersion, hversion, if_pos, hslice, hrun, runner]
    obtain ⟨s, d, hout, rfl⟩ := hplan.exists_outOfOrder herr
    rw [hrefused]
    refine ⟨⟨?_, fun hnone => absurd hout (hnone s d)⟩, ?_⟩
    · rintro ⟨response, hok⟩
      simp at hok
    · intro e he
      exact ⟨s, d, hout, (Except.error.inj he).symm⟩

/-- A plan whose only step waits for itself. -/
def waitsForItself : Plan :=
  { Plan.bare "p" with
    steps := [{ Step.bare "a" .zero .noop (.named "h") with dependsOn := ["a"] }] }

theorem slice_waitsForItself : waitsForItself.slice = .ok waitsForItself.cut :=
  Plan.slice_eq_ok_iff.mpr ⟨Plan.sliceError?_eq_none_iff.mp (by decide +kernel), rfl⟩

/-- A plan whose only step waits for itself can be cut and is not run. -/
theorem execute_ok_iff_of_waitsForItself :
    waitsForItself.slice = .ok waitsForItself.cut ∧
      ¬∃ response,
        ((ofRegistry .empty).execute "" ⟨waitsForItself, .default⟩).1 = .ok response := by
  refine ⟨slice_waitsForItself, ?_⟩
  intro hok
  exact (execute_ok_iff rfl slice_waitsForItself _ _ _).1.mp hok _ _
    ⟨List.mem_cons_self, List.mem_cons_self, List.mem_cons_self, rfl, by decide +kernel⟩

/-- A plan that an engine computes may be one that no engine runs. -/
theorem execute_refuses_computed : ∃ plan : Plan, ∃ planner : Planner,
    (∀ registry inspectors request,
      compute ⟨some planner, registry, inspectors⟩ request = .ok ⟨plan⟩) ∧
    ∀ engine now options, (execute engine now ⟨plan, options⟩).1 =
      .error (.run (.dependencyOrder "a" "h" "a")) := by
  refine ⟨waitsForItself, fun _ _ _ => .ok waitsForItself, ?_, ?_⟩
  · intro registry inspectors request
    have hid : ∀ environment, identified waitsForItself environment = waitsForItself :=
      fun _ => if_neg (by decide)
    have hversion : checkVersion waitsForItself = .ok () := rfl
    simp only [compute, Except.mapError, bind, Except.bind, hversion, hid, slice_waitsForItself]
    rfl
  · intro engine now options
    have herr : waitsForItself.cut.runError? waitsForItself.id =
      some (.dependencyOrder "a" "h" "a") := by cbv
    have hversion : checkVersion waitsForItself = .ok () := rfl
    simp only [execute, hversion, slice_waitsForItself, Runner.dispatch, herr]

end Engine

end FleetPlan
