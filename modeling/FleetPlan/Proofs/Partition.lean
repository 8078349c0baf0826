/-
Cutting a plan loses nothing.

`CutInto` says what it means that a slice is a plan in parts, without mentioning how the
parts are made.  Every step of the plan is in one part, the global steps unchanged and the
others as `Split` says: the dependencies of a host's step are divided between the step in
its host plan and the references that the host plan waits for, and nothing else about the
step is different.  `Share` is one host plan, and `slice_lossless` says that whatever a plan
is cut into is `CutInto`.

That no step is lost or filed twice is a fact about the host ids: they are listed once
each, so the groups of steps with one host id are a partition of the steps of hosts.
-/
import FleetPlan.Proofs.Slice
import Mathlib

namespace FleetPlan

/-! ### Grouping -/

/-- What is grouped by different names is what has one of the names. -/
theorem flatMap_filter_perm {α : Type} (name : α → String) {keys : List String}
    (hkeys : keys.Nodup) (xs : List α) :
    (keys.flatMap fun key => xs.filter (name · == key)).Perm
      (xs.filter fun x => keys.contains (name x)) := by
  induction keys with
  | nil => simp
  | cons key rest ih =>
    obtain ⟨hkey, hrest⟩ := List.nodup_cons.mp hkeys
    -- Split the things named by `key :: rest` by whether they are named `key`.
    have hparts := List.filter_append_perm (name · == key)
      (xs.filter fun x => (key :: rest).contains (name x))
    rw [List.filter_filter, List.filter_filter] at hparts
    have hfirst : xs.filter (fun x => name x == key && (key :: rest).contains (name x)) =
        xs.filter (name · == key) := by
      refine List.filter_congr fun x _ => ?_
      by_cases hx : name x = key <;> simp [hx]
    have hothers : xs.filter (fun x => (!name x == key) && (key :: rest).contains (name x)) =
        xs.filter fun x => rest.contains (name x) := by
      refine List.filter_congr fun x _ => ?_
      by_cases hx : name x = key
      · simp [hx, hkey]
      · simp [hx]
    rw [hfirst, hothers] at hparts
    rw [List.flatMap_cons]
    exact ((ih hrest).append_left _).trans hparts

/-! ### The strict order of steps -/

namespace Step

/-- Whether a step comes strictly before another. -/
def Before (a b : Step) : Prop := stepBefore a.index a.id b.index b.id

/-- The steps of a sorted list with different ids come strictly before one another. -/
theorem pairwise_before {steps : List Step} (h : steps.Pairwise fun a b => a.le b = true)
    (hids : (steps.map (·.id)).Nodup) : steps.Pairwise Before :=
  (h.and (List.pairwise_map.mp hids)).imp fun hab => stepBefore_of_stepOrder hab.1 hab.2

end Step

namespace HostStep

/-- Whether a step comes strictly before another. -/
def Before (a b : HostStep) : Prop := stepBefore a.index a.id b.index b.id

theorem pairwise_before {steps : List HostStep} (h : steps.Pairwise fun a b => a.le b = true)
    (hids : (steps.map (·.id)).Nodup) : steps.Pairwise Before :=
  (h.and (List.pairwise_map.mp hids)).imp fun hab => stepBefore_of_stepOrder hab.1 hab.2

end HostStep

/-! ### What it means to lose nothing -/

namespace Slice

/-- The global steps that the step of this id waits for. -/
def refsOf (slice : Slice) (id : String) : List String := (slice.globalRefs.get? id).getD []

/-- The ids of all steps, each with the host it is filed under; a global step has none. -/
def filed (slice : Slice) : List (String × String) :=
  slice.globalSteps.map (fun s => (s.id, "")) ++
    slice.hostPlans.entries.flatMap fun e => e.2.steps.map fun step => (step.id, e.1)

theorem length_filed (slice : Slice) : slice.filed.length = slice.totalSteps := by
  simp [filed, totalSteps, Dict.values, List.length_flatMap, List.flatMap_map]

end Slice

namespace Plan

/-- A step of a host as it stands in the host plan. -/
structure Split (slice : Slice) (part : HostPlan) (s : Step) (step : HostStep) : Prop where
  /-- Only the dependencies are different. -/
  kept : step = { HostStep.ofStep s with dependsOn := step.dependsOn }
  /-- No dependency is lost and none is added. -/
  dependsOn : ∀ d, d ∈ s.dependsOn ↔ d ∈ step.dependsOn ∨ d ∈ slice.refsOf s.id
  disjoint : ∀ d ∈ step.dependsOn, d ∉ slice.refsOf s.id
  inPart : ∀ d ∈ step.dependsOn, d ∈ part.steps.map (·.id)
  inGlobals : ∀ d ∈ slice.refsOf s.id, d ∈ slice.globalStepIds
  sorted : step.dependsOn.Pairwise (· < ·)
  refsSorted : (slice.refsOf s.id).Pairwise (· < ·)

/-- The host plan that is kept under `key`. -/
structure Share (plan : Plan) (slice : Slice) (key : String) (part : HostPlan) : Prop where
  version : part.version = schemaVersion
  planId : part.planId = plan.id
  annotations : part.annotations = .empty
  key_ne : key ≠ ""
  host_id : part.host.id = key
  /-- The host is described as the plan's first step for it describes it. -/
  host : (plan.steps.find? (·.host.id == key)).map (·.host) = some part.host
  steps_ne : part.steps ≠ []
  sorted : part.steps.Pairwise HostStep.Before
  /-- The steps are those of the host, each once. -/
  steps : ∃ steps, steps.Perm (plan.steps.filter (·.host.id == key)) ∧
    List.Forall₂ (Split slice part) steps part.steps

/-- A slice that is the plan in parts. -/
structure CutInto (plan : Plan) (slice : Slice) : Prop where
  /-- The global steps are unchanged. -/
  globals : slice.globalSteps.Perm (plan.steps.filter (·.isGlobal))
  globalsSorted : slice.globalSteps.Pairwise Step.Before
  globalStepIds : slice.globalStepIds = slice.globalSteps.map (·.id)
  shares : ∀ key part, slice.hostPlans.get? key = some part → Share plan slice key part
  /-- Every step is filed under its host, and nothing else is filed. -/
  filed : slice.filed.Perm (plan.steps.map fun s => (s.id, s.host.id))
  once : (slice.filed.map (·.1)).Nodup
  /-- References are kept for steps of hosts only, and only where there are any. -/
  refs : ∀ id refs, slice.globalRefs.get? id = some refs →
    refs ≠ [] ∧ ∃ s ∈ plan.steps, s.host.id ≠ "" ∧ s.id = id
  totalSteps : slice.totalSteps = plan.steps.length

variable {plan : Plan}

/-! ### One host plan -/

/-- A step stands in its host plan where it stands among the host's steps. -/
theorem sort_map_hostStep (plan : Plan) (steps : List Step) :
    HostStep.sort (steps.map plan.hostStep) = (Step.sort steps).map plan.hostStep := by
  have hle : ∀ a ∈ steps, ∀ b ∈ steps, a.le b = (plan.hostStep a).le (plan.hostStep b) :=
    fun _ _ _ _ => rfl
  exact (List.map_mergeSort hle).symm

namespace HostPart

variable {key : String} {part : HostPlan}

/-- A step of the host is split between the host plan and its references. -/
theorem split_hostStep (hpart : HostPart plan key part) (h : plan.Sliceable) {s : Step}
    (hs : s ∈ plan.steps) (hkey : s.host.id = key) :
    Split plan.cut part s (plan.hostStep s) := by
  have hhost := hpart.not_isGlobal hkey
  have hrefs : plan.cut.refsOf s.id = plan.globalDependencies s :=
    cut_globalRefs_get? h.nodup (mem_hostSteps.mpr ⟨hs, hhost⟩)
  refine ⟨rfl, ?_, ?_, ?_, ?_, Names.pairwise_sorted _, ?_⟩
  · intro d
    show _ ↔ d ∈ plan.localDependencies s ∨ _
    rw [hrefs, mem_localDependencies, mem_globalDependencies, ← and_or_left]
    simp
  · intro d hlocal
    rw [hrefs, mem_globalDependencies, (mem_localDependencies.mp hlocal).2]
    simp
  · intro d hlocal
    obtain ⟨-, t, ht, rfl, hsame⟩ := (h.mem_localDependencies_iff hs hhost).mp hlocal
    exact List.mem_map.mpr
      ⟨_, hpart.mem_steps_iff.mpr ⟨t, ht, hsame.trans hkey, rfl⟩, rfl⟩
  · intro d hd
    rw [hrefs, mem_globalDependencies, isGlobalStep_iff h.nodup] at hd
    obtain ⟨-, t, ht, rfl, htglobal⟩ := hd
    exact List.mem_map_of_mem (mem_globalSteps.mpr ⟨ht, htglobal⟩)
  · rw [hrefs]
    exact Names.pairwise_sorted _

theorem ids_perm (hpart : HostPart plan key part) : (part.steps.map (·.id)).Perm
    ((plan.steps.filter (·.host.id == key)).map (·.id)) := by
  have hids := hpart.steps.map (·.id)
  rw [List.map_map] at hids
  exact hids

theorem nodup_ids (hpart : HostPart plan key part) (h : plan.Sliceable) :
    (part.steps.map (·.id)).Nodup :=
  hpart.ids_perm.nodup_iff.mpr (h.nodup.sublist (List.filter_sublist.map _))

end HostPart

theorem Sliceable.share (h : plan.Sliceable) {key : String} {part : HostPlan}
    (hmem : (key, part) ∈ plan.cut.hostPlans.entries) : Share plan plan.cut key part := by
  have hpart := hostPart_of_mem hmem
  rw [cut_hostPlans_entries, mem_hostPlans_iff] at hmem
  obtain ⟨first, rest, hsteps, rfl⟩ := hmem
  rw [filter_hostSteps hpart.key_ne] at hsteps
  have hsort : (plan.hostPlanOf first.host (first :: rest)).steps =
      (Step.sort (plan.steps.filter (·.host.id == key))).map plan.hostStep := by
    rw [hsteps]
    exact plan.sort_map_hostStep _
  refine ⟨rfl, rfl, rfl, hpart.key_ne, hpart.host_id, ?_, ?_, ?_, ?_⟩
  · rw [← List.head?_filter, hsteps]
    rfl
  · intro hnil
    have hnone := hpart.steps
    rw [hnil, hsteps] at hnone
    exact absurd hnone.length_eq (by simp)
  · exact HostStep.pairwise_before hpart.sorted (hpart.nodup_ids h)
  · refine ⟨Step.sort (plan.steps.filter (·.host.id == key)), List.mergeSort_perm _ _, ?_⟩
    rw [hsort, List.forall₂_map_right_iff, List.forall₂_same]
    intro s hs
    obtain ⟨hs, hkey⟩ := List.mem_filter.mp ((List.mergeSort_perm _ _).mem_iff.mp hs)
    exact hpart.split_hostStep h hs (by simpa using hkey)

/-! ### All parts -/

/-- A host plan is kept for every host that has a step. -/
theorem mem_cut_hostPlans_keys {s : Step} (hs : s ∈ plan.steps) :
    s.host.id ∈ plan.cut.hostPlans.keys ↔ s.isGlobal = false := by
  constructor
  · intro hkey
    obtain ⟨⟨key, part⟩, hmem, rfl⟩ := List.mem_map.mp hkey
    exact (hostPart_of_mem hmem).not_isGlobal rfl
  · intro hhost
    obtain ⟨part, hmem, -⟩ := exists_hostPart hs hhost
    exact List.mem_map.mpr ⟨_, hmem, rfl⟩

/-- The host plans hold the steps of hosts. -/
theorem filed_hostPlans_perm (plan : Plan) :
    (plan.cut.hostPlans.entries.flatMap fun e => e.2.steps.map fun step => (step.id, e.1)).Perm
      (plan.hostSteps.map fun s => (s.id, s.host.id)) := by
  have hpart : ∀ e ∈ plan.cut.hostPlans.entries,
      (e.2.steps.map fun step => (step.id, e.1)).Perm
        ((plan.steps.filter (·.host.id == e.1)).map fun s => (s.id, s.host.id)) := by
    intro e he
    have hids := (hostPart_of_mem he).ids_perm.map fun id => (id, e.1)
    rw [List.map_map, List.map_map] at hids
    refine hids.trans (List.Perm.of_eq (List.map_congr_left fun s hs => ?_))
    have hkey : s.host.id = e.1 := by simpa using (List.mem_filter.mp hs).2
    rw [hkey]
    rfl
  have hkeys : (plan.steps.filter fun s => plan.cut.hostPlans.keys.contains s.host.id) =
      plan.hostSteps := by
    refine List.filter_congr fun s hs => ?_
    rw [Bool.eq_iff_iff, List.contains_iff_mem, mem_cut_hostPlans_keys hs, Bool.not_eq_true']
  have hgroups := flatMap_filter_perm (·.host.id) plan.cut.hostPlans.nodup_keys plan.steps
  rw [hkeys, Dict.keys, List.flatMap_map] at hgroups
  refine (List.Perm.flatMap_left _ hpart).trans ?_
  rw [← List.map_flatMap]
  exact hgroups.map _

theorem filed_cut_perm (plan : Plan) :
    plan.cut.filed.Perm (plan.steps.map fun s => (s.id, s.host.id)) := by
  have hglobals : (plan.cut.globalSteps.map fun s => (s.id, "")).Perm
      ((plan.steps.filter (·.isGlobal)).map fun s => (s.id, s.host.id)) := by
    refine ((List.mergeSort_perm _ _).map _).trans (List.Perm.of_eq ?_)
    refine List.map_congr_left fun s hs => ?_
    rw [isGlobal_iff.mp (List.mem_filter.mp hs).2]
  refine (hglobals.append (filed_hostPlans_perm plan)).trans ?_
  rw [hostSteps, ← List.map_append]
  exact (List.filter_append_perm _ _).map _

/-- **Cutting a plan loses nothing**: what it is cut into is the plan in parts. -/
theorem slice_lossless {slice : Slice} (hslice : plan.slice = .ok slice) : plan.CutInto slice := by
  obtain ⟨hplan, rfl⟩ := slice_eq_ok_iff.mp hslice
  have hids : (plan.globalSteps.map (·.id)).Nodup :=
    ((List.mergeSort_perm _ _).map _).nodup_iff.mpr
      (hplan.nodup.sublist (List.filter_sublist.map _))
  have hfiled := filed_cut_perm plan
  refine ⟨List.mergeSort_perm _ _, Step.pairwise_before (Step.pairwise_sort _) hids, rfl, ?_,
    hfiled, ?_, ?_, ?_⟩
  · intro key part hget
    exact hplan.share (Dict.get?_eq_some_iff.mp hget)
  · refine (hfiled.map _).nodup_iff.mpr ?_
    rw [List.map_map]
    exact hplan.nodup
  · intro id refs hget
    obtain ⟨s, hs, hne, heq⟩ := (cut_globalRefs_get?_eq_some_iff hplan.nodup).mp hget
    obtain ⟨rfl, rfl⟩ := Prod.mk.inj heq
    obtain ⟨hs, hhost⟩ := mem_hostSteps.mp hs
    refine ⟨hne, s, hs, ?_, rfl⟩
    rw [Ne, ← isGlobal_iff, hhost]
    exact Bool.false_ne_true
  · rw [← Slice.length_filed, hfiled.length_eq, List.length_map]

/-- A plan for two hosts and the fleet, with dependencies of each kind and one listed twice. -/
def scattered : Plan :=
  { Plan.bare "p" with steps := [
      { Step.bare "b" .zero .noop (.named "h") with dependsOn := ["g", "a", "g"] },
      .bare "c" .zero .noop (.named "k"),
      .bare "a" .zero .noop (.named "h"),
      .bare "g" .zero .noop .fleet] }

/-- The steps of the plan in parts stand in the order of the parts. -/
theorem slice_lossless_of_scattered :
    scattered.slice = .ok scattered.cut ∧ scattered.CutInto scattered.cut ∧
      scattered.cut.filed = [("g", ""), ("a", "h"), ("b", "h"), ("c", "k")] ∧
      scattered.cut.refsOf "b" = ["g"] := by
  have hslice : scattered.slice = .ok scattered.cut :=
    slice_eq_ok_iff.mpr ⟨sliceError?_eq_none_iff.mp (by decide +kernel), rfl⟩
  exact ⟨hslice, slice_lossless hslice, by cbv, by cbv⟩

end Plan

end FleetPlan
