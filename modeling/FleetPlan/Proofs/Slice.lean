/-
What cutting a plan accepts, and what its parts hold.

`Sliceable` says when a plan can be cut without mentioning the passes that find out,
and `slice_eq_ok_iff` says that these passes decide it.  Everything later is about
plans that can be cut, so their step ids are distinct: an id then stands for one step
and `step?` finds it.

A step of a host is in one host plan, filed under the host's id, and its dependencies
fall into those that stay in the host plan and those that the host plan waits for.
-/
import FleetPlan.Slice.Cut
import FleetPlan.Proofs.Dict

namespace FleetPlan

/-! ### The order of steps -/

section

variable {index₁ index₂ index₃ : StepIndex} {id₁ id₂ id₃ : String}

theorem stepOrder_iff : stepOrder index₁ id₁ index₂ id₂ = true ↔
    index₁.val < index₂.val ∨ index₁.val = index₂.val ∧ id₁ ≤ id₂ := by
  simp [stepOrder]

theorem stepOrder_trans (h₁ : stepOrder index₁ id₁ index₂ id₂ = true)
    (h₂ : stepOrder index₂ id₂ index₃ id₃ = true) : stepOrder index₁ id₁ index₃ id₃ = true := by
  rw [stepOrder_iff] at h₁ h₂ ⊢
  rcases h₁ with hlt | ⟨heq, hle⟩ <;> rcases h₂ with hlt' | ⟨heq', hle'⟩
  · exact .inl (Int.lt_trans hlt hlt')
  · exact .inl (heq' ▸ hlt)
  · exact .inl (heq ▸ hlt')
  · exact .inr ⟨heq.trans heq', String.le_trans hle hle'⟩

theorem stepOrder_total (index₁ index₂ : StepIndex) (id₁ id₂ : String) :
    (stepOrder index₁ id₁ index₂ id₂ || stepOrder index₂ id₂ index₁ id₁) = true := by
  rw [Bool.or_eq_true, stepOrder_iff, stepOrder_iff]
  rcases Int.lt_trichotomy index₁.val index₂.val with hlt | heq | hgt
  · exact .inl (.inl hlt)
  · exact (String.le_total id₁ id₂).imp (fun h => .inr ⟨heq, h⟩) fun h => .inr ⟨heq.symm, h⟩
  · exact .inr (.inl hgt)

/-- Two steps that come before each other have the same id. -/
theorem eq_of_stepOrder (h₁ : stepOrder index₁ id₁ index₂ id₂ = true)
    (h₂ : stepOrder index₂ id₂ index₁ id₁ = true) : id₁ = id₂ := by
  rw [stepOrder_iff] at h₁ h₂
  rcases h₁ with hlt | ⟨heq, hle⟩ <;> rcases h₂ with hlt' | ⟨heq', hle'⟩
  · omega
  · omega
  · omega
  · exact String.le_antisymm hle hle'

/-- Whether a step comes strictly before another: by index, and by id among equal indices. -/
def stepBefore (index₁ : StepIndex) (id₁ : String) (index₂ : StepIndex) (id₂ : String) : Prop :=
  index₁.val < index₂.val ∨ index₁.val = index₂.val ∧ id₁ < id₂

/-- Of steps with different ids the one that comes first comes strictly before. -/
theorem stepBefore_of_stepOrder (h : stepOrder index₁ id₁ index₂ id₂ = true) (hne : id₁ ≠ id₂) :
    stepBefore index₁ id₁ index₂ id₂ := by
  rcases stepOrder_iff.mp h with hlt | ⟨heq, hle⟩
  · exact .inl hlt
  · exact .inr ⟨heq, String.not_le.mp fun hge => hne (String.le_antisymm hle hge)⟩

end

section

variable {α : Type} (index : α → StepIndex) (id : α → String)

/-- What has an index and an id is sorted by them. -/
theorem pairwise_mergeSort_stepOrder (xs : List α) :
    (xs.mergeSort fun a b => stepOrder (index a) (id a) (index b) (id b)).Pairwise
      fun a b => stepOrder (index a) (id a) (index b) (id b) = true := by
  refine List.pairwise_mergeSort ?_ ?_ xs
  · exact fun _ _ _ => stepOrder_trans
  · exact fun a b => stepOrder_total (index a) (index b) (id a) (id b)

/-- With distinct ids there is one sorted list. -/
theorem mergeSort_stepOrder_eq_of_perm {xs ys : List α} (hnodup : (xs.map id).Nodup)
    (h : xs.Perm ys) : (xs.mergeSort fun a b => stepOrder (index a) (id a) (index b) (id b)) =
      ys.mergeSort fun a b => stepOrder (index a) (id a) (index b) (id b) := by
  refine List.Perm.eq_of_pairwise ?_ (pairwise_mergeSort_stepOrder index id xs)
    (pairwise_mergeSort_stepOrder index id ys)
    ((List.mergeSort_perm _ _).trans (h.trans (List.mergeSort_perm _ _).symm))
  intro a b ha hb hab hba
  have ha : a ∈ xs := (List.mergeSort_perm _ _).mem_iff.mp ha
  have hb : b ∈ xs := h.mem_iff.mpr ((List.mergeSort_perm _ _).mem_iff.mp hb)
  exact List.inj_on_of_nodup_map hnodup ha hb (eq_of_stepOrder hab hba)

end

theorem Step.pairwise_sort (steps : List Step) :
    (Step.sort steps).Pairwise fun a b => a.le b = true :=
  pairwise_mergeSort_stepOrder Step.index Step.id steps

theorem Step.sort_eq_of_perm {steps steps' : List Step} (hnodup : (steps.map (·.id)).Nodup)
    (h : steps.Perm steps') : sort steps = sort steps' :=
  mergeSort_stepOrder_eq_of_perm Step.index Step.id hnodup h

theorem HostStep.pairwise_sort (steps : List HostStep) :
    (HostStep.sort steps).Pairwise fun a b => a.le b = true :=
  pairwise_mergeSort_stepOrder HostStep.index HostStep.id steps

theorem HostStep.sort_eq_of_perm {steps steps' : List HostStep}
    (hnodup : (steps.map (·.id)).Nodup) (h : steps.Perm steps') : sort steps = sort steps' :=
  mergeSort_stepOrder_eq_of_perm HostStep.index HostStep.id hnodup h

namespace Plan

variable {plan : Plan}

/-- What a plan must be for its parts to be cut out. -/
structure Sliceable (plan : Plan) : Prop where
  /-- An id stands for one step. -/
  nodup : (plan.steps.map (·.id)).Nodup
  /-- Every dependency is a step of the same host, or a global step. -/
  stays : ∀ s ∈ plan.steps, ∀ dependency ∈ s.dependsOn,
    ∃ d ∈ plan.steps, d.id = dependency ∧ (d.host.id = s.host.id ∨ d.isGlobal = true)

/-! ### Steps by their ids -/

theorem isGlobal_iff {s : Step} : s.isGlobal = true ↔ s.host.id = "" := by
  simp [Step.isGlobal, Host.isGlobal]

theorem eq_of_id_eq (h : (plan.steps.map (·.id)).Nodup) {s t : Step} (hs : s ∈ plan.steps)
    (ht : t ∈ plan.steps) (hid : s.id = t.id) : s = t :=
  List.inj_on_of_nodup_map h hs ht hid

theorem step?_eq_some_iff (h : (plan.steps.map (·.id)).Nodup) {id : String} {d : Step} :
    plan.step? id = some d ↔ d ∈ plan.steps ∧ d.id = id := by
  constructor
  · intro hfind
    exact ⟨List.mem_of_find?_eq_some hfind, by simpa using List.find?_some hfind⟩
  · rintro ⟨hd, rfl⟩
    cases hfind : plan.step? d.id with
    | none => simpa using List.find?_eq_none.mp hfind d hd
    | some e =>
      have he : e.id = d.id := by simpa using List.find?_some hfind
      rw [eq_of_id_eq h (List.mem_of_find?_eq_some hfind) hd he]

theorem isGlobalStep_iff (h : (plan.steps.map (·.id)).Nodup) {id : String} :
    plan.isGlobalStep id = true ↔ ∃ d ∈ plan.steps, d.id = id ∧ d.isGlobal = true := by
  simp only [isGlobalStep, Option.any_eq_true, step?_eq_some_iff h, and_assoc]

theorem mem_globalSteps {s : Step} :
    s ∈ plan.globalSteps ↔ s ∈ plan.steps ∧ s.isGlobal = true := by
  rw [globalSteps, Step.sort, (List.mergeSort_perm _ _).mem_iff, List.mem_filter]

theorem mem_hostSteps {s : Step} :
    s ∈ plan.hostSteps ↔ s ∈ plan.steps ∧ s.isGlobal = false := by
  simp [hostSteps]

/-- No step of a host is global, so leaving global steps out first changes nothing. -/
theorem filter_hostSteps {key : String} (hne : key ≠ "") :
    plan.hostSteps.filter (·.host.id == key) = plan.steps.filter (·.host.id == key) := by
  rw [hostSteps, List.filter_filter]
  refine List.filter_congr fun s _ => ?_
  by_cases hs : s.host.id = key
  · have hhost : s.isGlobal = false := by
      rw [Bool.eq_false_iff]
      exact fun hglobal => hne (hs.symm.trans (isGlobal_iff.mp hglobal))
    simp [hs, hhost]
  · simp [hs]

/-! ### When a plan can be cut -/

theorem dependencyError?_eq_none_iff (h : (plan.steps.map (·.id)).Nodup) {s : Step}
    {dependency : String} :
    plan.dependencyError? s dependency = none ↔
      ∃ d ∈ plan.steps, d.id = dependency ∧ (d.host.id = s.host.id ∨ d.isGlobal = true) := by
  unfold dependencyError?
  constructor
  · intro hnone
    cases hfind : plan.step? dependency with
    | none => simp [hfind] at hnone
    | some d =>
      obtain ⟨hd, hid⟩ := (step?_eq_some_iff h).mp hfind
      refine ⟨d, hd, hid, ?_⟩
      simp only [hfind] at hnone
      grind
  · rintro ⟨d, hd, hid, hstays⟩
    rw [(step?_eq_some_iff h).mpr ⟨hd, hid⟩]
    rcases hstays with hhost | hglobal
    · simp [hhost]
    · -- A global step that waits for a global one has the same host id as that one.
      by_cases hhost : d.host.id = s.host.id
      · simp [hhost]
      · have hs : s.isGlobal = false := by
          rw [Bool.eq_false_iff]
          intro hs
          exact hhost ((isGlobal_iff.mp hglobal).trans (isGlobal_iff.mp hs).symm)
        simp [hhost, hs, hglobal]

theorem sliceError?_eq_none_iff : plan.sliceError? = none ↔ plan.Sliceable := by
  have hids : Names.firstRepeated? [] (plan.steps.map (·.id)) = none ↔
      (plan.steps.map (·.id)).Nodup := by
    rw [Names.firstRepeated?_eq_none_iff]
    simp
  unfold sliceError?
  constructor
  · intro hnone
    split at hnone
    · simp at hnone
    · rename_i hfirst
      have hnodup := hids.mp hfirst
      refine ⟨hnodup, ?_⟩
      intro s hs dependency hdep
      have hmem : s ∈ plan.globalSteps ++ plan.hostSteps := by
        rw [List.mem_append, mem_globalSteps, mem_hostSteps]
        cases s.isGlobal <;> simp [hs]
      exact (dependencyError?_eq_none_iff hnodup).mp
        (List.findSome?_eq_none_iff.mp (List.findSome?_eq_none_iff.mp hnone s hmem) dependency hdep)
  · intro hplan
    rw [hids.mpr hplan.nodup]
    refine List.findSome?_eq_none_iff.mpr fun s hs => List.findSome?_eq_none_iff.mpr ?_
    intro dependency hdep
    have hs' : s ∈ plan.steps := by
      rcases List.mem_append.mp hs with hs | hs
      · exact (mem_globalSteps.mp hs).1
      · exact (mem_hostSteps.mp hs).1
    exact (dependencyError?_eq_none_iff hplan.nodup).mpr (hplan.stays s hs' dependency hdep)

/-- **A plan can be cut just when it is `Sliceable`, and then its parts are `cut`.** -/
theorem slice_eq_ok_iff {slice : Slice} :
    plan.slice = .ok slice ↔ plan.Sliceable ∧ slice = plan.cut := by
  rw [← sliceError?_eq_none_iff, Plan.slice]
  split
  · rename_i e herr
    simp [herr]
  · rename_i hnone
    simp [hnone, eq_comm]

/-! ### The host plans -/

/-- What the host plan filed under `key` is made of. -/
structure HostPart (plan : Plan) (key : String) (part : HostPlan) : Prop where
  host_id : part.host.id = key
  key_ne : key ≠ ""
  planId : part.planId = plan.id
  version : part.version = schemaVersion
  /-- The steps are those of the host, without the dependencies on global steps. -/
  steps : part.steps.Perm ((plan.steps.filter (·.host.id == key)).map plan.hostStep)
  sorted : part.steps.Pairwise fun a b => a.le b = true

theorem mem_hostPlans_iff {key : String} {part : HostPlan} :
    (key, part) ∈ plan.hostPlans ↔ ∃ first rest,
      plan.hostSteps.filter (·.host.id == key) = first :: rest ∧
        part = plan.hostPlanOf first.host (first :: rest) := by
  unfold hostPlans
  simp only [List.mem_filterMap, Names.mem_sorted, Option.map_eq_some_iff, Prod.mk.injEq]
  constructor
  · rintro ⟨id, -, first, hhead, rfl, rfl⟩
    obtain ⟨rest, hrest⟩ := List.head?_eq_some_iff.mp hhead
    exact ⟨first, rest, hrest, by rw [hrest]⟩
  · rintro ⟨first, rest, hsteps, rfl⟩
    have hfirst : first ∈ plan.hostSteps.filter (·.host.id == key) := by simp [hsteps]
    obtain ⟨hmem, hkey⟩ := List.mem_filter.mp hfirst
    have hkey : first.host.id = key := by simpa using hkey
    exact ⟨key, List.mem_map.mpr ⟨first, hmem, hkey⟩, first, by simp [hsteps], rfl, by rw [hsteps]⟩

theorem pairwise_hostPlans (plan : Plan) :
    plan.hostPlans.Pairwise (fun a b => a.1 < b.1) := by
  unfold hostPlans
  rw [List.pairwise_filterMap]
  refine (Names.pairwise_sorted _).imp ?_
  intro id id' hlt a ha b hb
  obtain ⟨_, -, rfl⟩ := Option.map_eq_some_iff.mp ha
  obtain ⟨_, -, rfl⟩ := Option.map_eq_some_iff.mp hb
  exact hlt

@[simp] theorem cut_hostPlans_entries (plan : Plan) :
    plan.cut.hostPlans.entries = plan.hostPlans :=
  Dict.entries_ofList plan.pairwise_hostPlans

theorem hostPart_of_mem {key : String} {part : HostPlan}
    (h : (key, part) ∈ plan.cut.hostPlans.entries) : HostPart plan key part := by
  rw [cut_hostPlans_entries, mem_hostPlans_iff] at h
  obtain ⟨first, rest, hsteps, rfl⟩ := h
  have hfirst : first ∈ plan.hostSteps.filter (·.host.id == key) := by simp [hsteps]
  obtain ⟨hmem, hkey⟩ := List.mem_filter.mp hfirst
  have hkey : first.host.id = key := by simpa using hkey
  have hne : key ≠ "" := by
    intro hempty
    have hglobal := isGlobal_iff.mpr (hkey.trans hempty)
    rw [(mem_hostSteps.mp hmem).2] at hglobal
    exact Bool.noConfusion hglobal
  refine ⟨hkey, hne, rfl, rfl, (List.mergeSort_perm _ _).trans ?_, HostStep.pairwise_sort _⟩
  rw [← hsteps, filter_hostSteps hne]

/-- A step of a host is in the host's plan. -/
theorem exists_hostPart {s : Step} (hs : s ∈ plan.steps) (hglobal : s.isGlobal = false) :
    ∃ part, (s.host.id, part) ∈ plan.cut.hostPlans.entries ∧ HostPart plan s.host.id part := by
  have hmem : s ∈ plan.hostSteps.filter (·.host.id == s.host.id) := by
    simp [mem_hostSteps, hs, hglobal]
  obtain ⟨first, rest, hsteps⟩ := List.exists_cons_of_ne_nil (List.ne_nil_of_mem hmem)
  have hentry : (s.host.id, plan.hostPlanOf first.host (first :: rest)) ∈
      plan.cut.hostPlans.entries := by
    rw [cut_hostPlans_entries, mem_hostPlans_iff]
    exact ⟨first, rest, hsteps, rfl⟩
  exact ⟨_, hentry, hostPart_of_mem hentry⟩

namespace HostPart

variable {key : String} {part : HostPlan}

theorem mem_steps_iff (h : HostPart plan key part) {step : HostStep} :
    step ∈ part.steps ↔ ∃ s ∈ plan.steps, s.host.id = key ∧ step = plan.hostStep s := by
  rw [h.steps.mem_iff]
  simp only [List.mem_map, List.mem_filter, beq_iff_eq]
  constructor
  · rintro ⟨s, ⟨hs, hkey⟩, rfl⟩
    exact ⟨s, hs, hkey, rfl⟩
  · rintro ⟨s, hs, hkey, rfl⟩
    exact ⟨s, ⟨hs, hkey⟩, rfl⟩

theorem not_isGlobal (h : HostPart plan key part) {s : Step} (hs : s.host.id = key) :
    s.isGlobal = false := by
  rw [Bool.eq_false_iff]
  exact fun hglobal => h.key_ne (hs.symm.trans (isGlobal_iff.mp hglobal))

end HostPart

/-! ### Dependencies -/

theorem mem_localDependencies {s : Step} {dependency : String} :
    dependency ∈ plan.localDependencies s ↔
      dependency ∈ s.dependsOn ∧ plan.isGlobalStep dependency = false := by
  simp [localDependencies, Names.mem_sorted]

theorem mem_globalDependencies {s : Step} {dependency : String} :
    dependency ∈ plan.globalDependencies s ↔
      dependency ∈ s.dependsOn ∧ plan.isGlobalStep dependency = true := by
  simp [globalDependencies, Names.mem_sorted]

/-- The dependencies that stay are those on steps of the same host. -/
theorem Sliceable.mem_localDependencies_iff (h : plan.Sliceable) {s : Step} (hs : s ∈ plan.steps)
    (hglobal : s.isGlobal = false) {dependency : String} :
    dependency ∈ plan.localDependencies s ↔
      dependency ∈ s.dependsOn ∧ ∃ d ∈ plan.steps, d.id = dependency ∧ d.host.id = s.host.id := by
  refine mem_localDependencies.trans (and_congr_right fun hdep => ?_)
  rw [Bool.eq_false_iff, Ne, isGlobalStep_iff h.nodup]
  constructor
  · intro hlocal
    obtain ⟨d, hd, hid, hstays⟩ := h.stays s hs dependency hdep
    exact ⟨d, hd, hid, hstays.resolve_right fun hdglobal => hlocal ⟨d, hd, hid, hdglobal⟩⟩
  · rintro ⟨d, hd, hid, hhost⟩ ⟨t, ht, htid, htglobal⟩
    obtain rfl := eq_of_id_eq h.nodup hd ht (hid.trans htid.symm)
    have hsglobal := isGlobal_iff.mpr (hhost.symm.trans (isGlobal_iff.mp htglobal))
    rw [hglobal] at hsglobal
    exact Bool.noConfusion hsglobal

/-- What each step of a host waits for among the global steps, if it waits for any. -/
def globalRefEntries (plan : Plan) : List (String × List String) :=
  plan.hostSteps.filterMap fun s =>
    let refs := plan.globalDependencies s
    if refs.isEmpty then none else some (s.id, refs)

theorem mem_globalRefEntries {e : String × List String} :
    e ∈ plan.globalRefEntries ↔ ∃ s ∈ plan.hostSteps,
      plan.globalDependencies s ≠ [] ∧ e = (s.id, plan.globalDependencies s) := by
  unfold globalRefEntries
  rw [List.mem_filterMap]
  refine exists_congr fun s => and_congr_right fun _ => ?_
  by_cases hnil : plan.globalDependencies s = []
  · simp [hnil]
  · rw [if_neg (by simpa using hnil), Option.some.injEq, eq_comm]
    exact ⟨fun he => ⟨hnil, he⟩, fun he => he.2⟩

theorem nodup_globalRefEntries (h : (plan.steps.map (·.id)).Nodup) :
    (plan.globalRefEntries.map (·.1)).Nodup := by
  have hids : (plan.hostSteps.map (·.id)).Nodup := h.sublist (List.filter_sublist.map _)
  refine hids.sublist (Dict.names_filterMap_sublist (fun s e he => ?_) _)
  by_cases hnil : (plan.globalDependencies s).isEmpty = true
  · simp [hnil] at he
  · simp only [if_neg hnil, Option.some.injEq] at he
    rw [← he]

/-- What is found among the references is what some step of a host waits for. -/
theorem cut_globalRefs_get?_eq_some_iff (h : (plan.steps.map (·.id)).Nodup) {id : String}
    {refs : List String} : plan.cut.globalRefs.get? id = some refs ↔ ∃ s ∈ plan.hostSteps,
      plan.globalDependencies s ≠ [] ∧ (id, refs) = (s.id, plan.globalDependencies s) := by
  rw [Dict.get?_eq_some_iff]
  exact (Dict.mem_ofList_of_nodup (nodup_globalRefEntries h)).trans mem_globalRefEntries

/-- The global steps that a host's step waits for are found under its id. -/
theorem cut_globalRefs_get? (h : (plan.steps.map (·.id)).Nodup) {s : Step}
    (hs : s ∈ plan.hostSteps) :
    (plan.cut.globalRefs.get? s.id).getD [] = plan.globalDependencies s := by
  by_cases hnil : plan.globalDependencies s = []
  · cases hfound : plan.cut.globalRefs.get? s.id with
    | none => simp [hnil]
    | some refs =>
      obtain ⟨t, ht, hne, heq⟩ := (cut_globalRefs_get?_eq_some_iff h).mp hfound
      obtain ⟨hid, -⟩ := Prod.mk.inj heq
      have hst := eq_of_id_eq h (mem_hostSteps.mp hs).1 (mem_hostSteps.mp ht).1 hid
      exact absurd (hst ▸ hnil) hne
  · rw [(cut_globalRefs_get?_eq_some_iff h).mpr ⟨s, hs, hnil, rfl⟩]
    rfl

/-- **A host plan waits for the global steps that the host's steps depend on.** -/
theorem HostPart.mem_requiredGlobals_iff {key : String} {part : HostPlan}
    (hpart : HostPart plan key part) (h : (plan.steps.map (·.id)).Nodup) {id : String} :
    id ∈ plan.cut.requiredGlobals part ↔
      ∃ s ∈ plan.steps, s.host.id = key ∧ id ∈ s.dependsOn ∧ plan.isGlobalStep id = true := by
  rw [Slice.requiredGlobals, Names.mem_sorted, List.mem_flatMap]
  have hrefs {s : Step} (hs : s ∈ plan.steps) (hkey : s.host.id = key) :
      (plan.cut.globalRefs.get? (plan.hostStep s).id).getD [] = plan.globalDependencies s :=
    cut_globalRefs_get? h (mem_hostSteps.mpr ⟨hs, hpart.not_isGlobal hkey⟩)
  constructor
  · rintro ⟨step, hstep, hid⟩
    obtain ⟨s, hs, hkey, rfl⟩ := hpart.mem_steps_iff.mp hstep
    rw [hrefs hs hkey, mem_globalDependencies] at hid
    exact ⟨s, hs, hkey, hid⟩
  · rintro ⟨s, hs, hkey, hid⟩
    refine ⟨plan.hostStep s, hpart.mem_steps_iff.mpr ⟨s, hs, hkey, rfl⟩, ?_⟩
    rw [hrefs hs hkey, mem_globalDependencies]
    exact hid

end Plan

end FleetPlan
