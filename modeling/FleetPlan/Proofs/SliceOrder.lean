/-
Cutting a plan is about the set of its steps.

All that a step of a host leaves in the parts is its host, the step in the host plan and the
global steps it waits for (`Placed`); the parts are made from the global steps and these.
They are put in order by index and id and under the names of hosts and steps, and since ids
are distinct, nothing of the order they had is left (`Placed.hostPlans_eq_of_perm`).  Only the
labels of a host are taken from the first step of the host, so the steps have to agree on them.

Of the dependencies of a host's step only which they are is looked at.
-/
import FleetPlan.Proofs.Slice
import Mathlib.Data.List.Forall2

namespace FleetPlan

/-- A host is its id and its labels. -/
theorem Host.eq_of_labels {h k : Host} (hid : h.id = k.id) (hlabels : h.labels = k.labels) :
    h = k := by
  cases h
  cases k
  cases hid
  cases hlabels
  rfl

namespace Plan

/-! ### What is placed -/

/-- What a step of a host leaves in the parts. -/
structure Placed where
  host : Host
  step : HostStep
  /-- The global steps that are waited for. -/
  refs : List String

def place (plan : Plan) (s : Step) : Placed := ⟨s.host, plan.hostStep s, plan.globalDependencies s⟩

/-- What all steps of hosts leave. -/
def placed (plan : Plan) : List Placed := plan.hostSteps.map plan.place

namespace Placed

/-- What is placed on the host. -/
def on (ps : List Placed) (id : String) : List Placed := ps.filter (·.host.id == id)

def hostPlans (planId : String) (ps : List Placed) : List (String × HostPlan) :=
  (Names.sorted (ps.map (·.host.id))).filterMap fun id =>
    (on ps id).head?.map fun first =>
      (id, ⟨schemaVersion, planId, first.host, HostStep.sort ((on ps id).map (·.step)), .empty⟩)

def globalRefs (ps : List Placed) : List (String × List String) :=
  ps.filterMap fun p => if p.refs.isEmpty then none else some (p.step.id, p.refs)

end Placed

/-- The parts are made from the global steps and from what is placed. -/
theorem cut_eq (plan : Plan) : plan.cut = {
    hostPlans := Dict.ofList (Placed.hostPlans plan.id plan.placed)
    globalSteps := plan.globalSteps
    globalStepIds := plan.globalSteps.map (·.id)
    globalRefs := Dict.ofList (Placed.globalRefs plan.placed) } := by
  have hplans : Placed.hostPlans plan.id plan.placed = plan.hostPlans := by
    unfold Placed.hostPlans Placed.on placed hostPlans
    simp only [List.map_map, List.filter_map, Function.comp_def, place, List.head?_map,
      Option.map_map]
    rfl
  have hrefs : Placed.globalRefs plan.placed = plan.globalRefEntries := by
    unfold Placed.globalRefs placed globalRefEntries
    rw [List.filterMap_map]
    rfl
  rw [hplans, hrefs]
  rfl

/-! ### The order of what is placed -/

namespace Placed

variable {ps qs : List Placed}

/-- Where all agree the first one does not matter. -/
theorem head?_map_eq_of_perm {α β : Type} {f : α → β} {xs ys : List α} (h : xs.Perm ys)
    (hf : ∀ x ∈ xs, ∀ y ∈ xs, f x = f y) : xs.head?.map f = ys.head?.map f := by
  cases xs with
  | nil => rw [h.nil_eq]
  | cons x xs =>
    cases ys with
    | nil => cases h.eq_nil
    | cons y ys =>
      exact congrArg some (hf x List.mem_cons_self y (h.mem_iff.mpr List.mem_cons_self))

/-- **In whatever order steps are placed, the host plans are the same**, when those of a host
agree on the host. -/
theorem hostPlans_eq_of_perm (planId : String) (hnodup : (ps.map (·.step.id)).Nodup)
    (hhosts : ∀ p ∈ ps, ∀ q ∈ ps, p.host.id = q.host.id → p.host = q.host) (h : ps.Perm qs) :
    hostPlans planId ps = hostPlans planId qs := by
  have hkeys : Names.sorted (ps.map (·.host.id)) = Names.sorted (qs.map (·.host.id)) :=
    Names.sorted_congr fun id => (h.map _).mem_iff
  unfold hostPlans
  rw [hkeys]
  refine List.filterMap_congr fun id _ => ?_
  have hon : (on ps id).Perm (on qs id) := h.filter _
  have hsteps : HostStep.sort ((on ps id).map (·.step)) = HostStep.sort ((on qs id).map (·.step)) := by
    refine HostStep.sort_eq_of_perm ?_ (hon.map _)
    rw [List.map_map]
    exact hnodup.sublist (List.filter_sublist.map _)
  rw [hsteps]
  refine head?_map_eq_of_perm hon fun p hp q hq => ?_
  obtain ⟨hp, hpid⟩ := List.mem_filter.mp hp
  obtain ⟨hq, hqid⟩ := List.mem_filter.mp hq
  rw [hhosts p hp q hq ((eq_of_beq hpid).trans (eq_of_beq hqid).symm)]

theorem globalRefs_eq_of_perm (hnodup : (ps.map (·.step.id)).Nodup) (h : ps.Perm qs) :
    Dict.ofList (globalRefs ps) = Dict.ofList (globalRefs qs) := by
  refine Dict.ofList_eq_of_perm (hnodup.sublist ?_) (h.filterMap _)
  refine Dict.names_filterMap_sublist (fun p e he => ?_) ps
  split at he
  · cases he
  · rw [← Option.some.inj he]

end Placed

end Plan

/-! ### Plans with the same steps -/

/-- A step that differs in nothing but how it lists the steps it waits for, and not even in
that when it is global. -/
structure Step.WaitsAlike (s t : Step) : Prop where
  rest : t = { s with dependsOn := t.dependsOn }
  waits : ∀ id, id ∈ t.dependsOn ↔ id ∈ s.dependsOn
  listed : s.isGlobal = true → t.dependsOn = s.dependsOn

namespace Step.WaitsAlike

variable {s t : Step}

theorem refl (s : Step) : s.WaitsAlike s := ⟨rfl, fun _ => Iff.rfl, fun _ => rfl⟩

theorem id (h : s.WaitsAlike t) : t.id = s.id := by rw [h.rest]

theorem host (h : s.WaitsAlike t) : t.host = s.host := by rw [h.rest]

theorem isGlobal (h : s.WaitsAlike t) : t.isGlobal = s.isGlobal := congrArg Host.isGlobal h.host

theorem eq_of_isGlobal (h : s.WaitsAlike t) (hs : s.isGlobal = true) : t = s := by
  rw [h.rest, h.listed hs]

end Step.WaitsAlike

namespace Plan

/-- Plans whose steps are alike, in whatever order. -/
structure Alike (p q : Plan) : Prop where
  ids : (p.steps.map (·.id)).Perm (q.steps.map (·.id))
  there : ∀ s ∈ p.steps, ∃ t ∈ q.steps, s.WaitsAlike t
  back : ∀ t ∈ q.steps, ∃ s ∈ p.steps, s.WaitsAlike t

namespace Alike

variable {p q : Plan}

theorem sliceable_iff (h : p.Alike q) : q.Sliceable ↔ p.Sliceable := by
  constructor
  · rintro ⟨hnodup, hstays⟩
    refine ⟨h.ids.nodup_iff.mpr hnodup, fun s hs dependency hdep => ?_⟩
    obtain ⟨t, ht, hst⟩ := h.there s hs
    obtain ⟨d', hd', hid, hstay⟩ := hstays t ht dependency ((hst.waits _).mpr hdep)
    obtain ⟨d, hd, hdd⟩ := h.back d' hd'
    exact ⟨d, hd, hdd.id ▸ hid, by rwa [← hdd.host, ← hst.host, ← hdd.isGlobal]⟩
  · rintro ⟨hnodup, hstays⟩
    refine ⟨h.ids.nodup_iff.mp hnodup, fun t ht dependency hdep => ?_⟩
    obtain ⟨s, hs, hst⟩ := h.back t ht
    obtain ⟨d, hd, hid, hstay⟩ := hstays s hs dependency ((hst.waits _).mp hdep)
    obtain ⟨d', hd', hdd⟩ := h.there d hd
    exact ⟨d', hd', hdd.id.trans hid, by rwa [hdd.host, hst.host, hdd.isGlobal]⟩

theorem isGlobalStep_eq (h : p.Alike q) (hp : p.Sliceable) (id : String) :
    q.isGlobalStep id = p.isGlobalStep id := by
  rw [Bool.eq_iff_iff, isGlobalStep_iff hp.nodup, isGlobalStep_iff (h.sliceable_iff.mpr hp).nodup]
  constructor
  · rintro ⟨d', hd', hid, hglobal⟩
    obtain ⟨d, hd, hdd⟩ := h.back d' hd'
    exact ⟨d, hd, hdd.id ▸ hid, hdd.isGlobal ▸ hglobal⟩
  · rintro ⟨d, hd, hid, hglobal⟩
    obtain ⟨d', hd', hdd⟩ := h.there d hd
    exact ⟨d', hd', hdd.id.trans hid, hdd.isGlobal.trans hglobal⟩

/-- Steps that are alike are placed alike. -/
theorem place_eq (h : p.Alike q) (hp : p.Sliceable) {s t : Step} (hst : s.WaitsAlike t) :
    q.place t = p.place s := by
  have hlocal : q.localDependencies t = p.localDependencies s := by
    refine Names.sorted_congr fun id => ?_
    rw [List.mem_filter, List.mem_filter, hst.waits, h.isGlobalStep_eq hp]
  have hglobal : q.globalDependencies t = p.globalDependencies s := by
    refine Names.sorted_congr fun id => ?_
    rw [List.mem_filter, List.mem_filter, hst.waits, h.isGlobalStep_eq hp]
  unfold place hostStep
  rw [hlocal, hglobal, hst.rest]
  rfl

/-- Both plans can be cut or neither can, and into the same parts when their cuts are equal. -/
theorem slice_eq_ok_iff (h : p.Alike q) (hcut : p.Sliceable → q.cut = p.cut) {slice : Slice} :
    q.slice = .ok slice ↔ p.slice = .ok slice := by
  rw [Plan.slice_eq_ok_iff, Plan.slice_eq_ok_iff, h.sliceable_iff]
  exact and_congr_right fun hp => by rw [hcut hp]

end Alike

/-! ### Steps in another order -/

variable {plan : Plan} {steps' : List Step}

theorem alike_of_perm (h : steps'.Perm plan.steps) : plan.Alike { plan with steps := steps' } where
  ids := (h.map _).symm
  there s hs := ⟨s, h.mem_iff.mpr hs, .refl s⟩
  back s hs := ⟨s, h.mem_iff.mp hs, .refl s⟩

theorem nodup_placed (hp : plan.Sliceable) : (plan.placed.map (·.step.id)).Nodup := by
  have hids : plan.placed.map (·.step.id) = plan.hostSteps.map (·.id) := by
    unfold placed
    rw [List.map_map]
    rfl
  rw [hids]
  exact hp.nodup.sublist (List.filter_sublist.map _)

theorem cut_eq_of_perm (hp : plan.Sliceable)
    (hlabels : ∀ s ∈ plan.steps, ∀ t ∈ plan.steps, s.host.id = t.host.id →
      s.host.labels = t.host.labels)
    (h : steps'.Perm plan.steps) : ({ plan with steps := steps' } : Plan).cut = plan.cut := by
  have hglobals : ({ plan with steps := steps' } : Plan).globalSteps = plan.globalSteps :=
    (Step.sort_eq_of_perm (hp.nodup.sublist (List.filter_sublist.map _)) (h.symm.filter _)).symm
  have hplaced : plan.placed.Perm ({ plan with steps := steps' } : Plan).placed := by
    unfold placed
    rw [List.map_congr_left fun s _ => (alike_of_perm h).place_eq hp (.refl s)]
    exact (h.symm.filter _).map _
  have hhosts : ∀ a ∈ plan.placed, ∀ b ∈ plan.placed, a.host.id = b.host.id → a.host = b.host := by
    intro a ha b hb hid
    obtain ⟨s, hs, rfl⟩ := List.mem_map.mp ha
    obtain ⟨t, ht, rfl⟩ := List.mem_map.mp hb
    exact Host.eq_of_labels hid (hlabels s (mem_hostSteps.mp hs).1 t (mem_hostSteps.mp ht).1 hid)
  rw [cut_eq, cut_eq, hglobals, Placed.globalRefs_eq_of_perm (nodup_placed hp) hplaced,
    Placed.hostPlans_eq_of_perm plan.id (nodup_placed hp) hhosts hplaced]

/-! ### Dependencies in another order -/

theorem map_eq_of_forall₂ {α β γ : Type} {R : α → β → Prop} {f : α → γ} {g : β → γ} {xs : List α}
    {ys : List β} (h : List.Forall₂ R xs ys) (hfg : ∀ x y, R x y → f x = g y) :
    xs.map f = ys.map g := by
  rw [← List.forall₂_eq_eq_eq, List.forall₂_map_left_iff, List.forall₂_map_right_iff]
  exact h.imp hfg

theorem exists_of_forall₂ {α β : Type} {R : α → β → Prop} {xs : List α} {ys : List β}
    (h : List.Forall₂ R xs ys) : ∀ x ∈ xs, ∃ y ∈ ys, R x y := by
  induction h with
  | nil => exact List.forall_mem_nil _
  | cons hxy _ ih =>
    refine List.forall_mem_cons.mpr ⟨⟨_, List.mem_cons_self, hxy⟩, fun x hx => ?_⟩
    obtain ⟨y, hy, hxy⟩ := ih x hx
    exact ⟨y, List.mem_cons_of_mem _ hy, hxy⟩

theorem alike_of_forall₂ (h : List.Forall₂ Step.WaitsAlike plan.steps steps') :
    plan.Alike { plan with steps := steps' } where
  ids := .of_eq (map_eq_of_forall₂ h fun _ _ hst => hst.id.symm)
  there := exists_of_forall₂ h
  back := exists_of_forall₂ (List.Forall₂.flip h)

theorem cut_eq_of_forall₂ (hp : plan.Sliceable)
    (h : List.Forall₂ Step.WaitsAlike plan.steps steps') :
    ({ plan with steps := steps' } : Plan).cut = plan.cut := by
  have hfilter (kind : Step → Bool) (hkind : ∀ s t, s.WaitsAlike t → kind t = kind s) :
      List.Forall₂ Step.WaitsAlike (plan.steps.filter kind) (steps'.filter kind) :=
    List.rel_filter (R := Step.WaitsAlike)
      (fun s t hst => iff_of_eq (congrArg (· = true) (hkind s t hst).symm)) h
  have hglobal : List.Forall₂ (fun s t => s.isGlobal = true ∧ s.WaitsAlike t)
      (plan.steps.filter (·.isGlobal)) (steps'.filter (·.isGlobal)) :=
    (List.forall₂_and_left _ _).mpr ⟨fun s hs => (List.mem_filter.mp hs).2,
      hfilter _ fun _ _ hst => hst.isGlobal⟩
  have hglobals : plan.steps.filter (·.isGlobal) = steps'.filter (·.isGlobal) := by
    rw [← List.forall₂_eq_eq_eq]
    exact hglobal.imp fun s t hst => (hst.2.eq_of_isGlobal hst.1).symm
  have hplaced : ({ plan with steps := steps' } : Plan).placed = plan.placed := by
    refine (map_eq_of_forall₂ (hfilter (!·.isGlobal) fun s t hst => by rw [hst.isGlobal])
      fun s t hst => ?_).symm
    exact ((alike_of_forall₂ h).place_eq hp hst).symm
  rw [cut_eq, cut_eq, hplaced]
  unfold globalSteps
  rw [hglobals]

/--
**Cutting a plan is about the set of its steps.**  When the steps of a host agree on its
labels, a plan with the steps in another order can be cut just when the plan can, and into the
same parts.  So it is, whatever the labels, when the steps of hosts list the steps they wait
for in another order or repeatedly.
-/
theorem slice_of_same_steps (plan : Plan) (steps' : List Step) :
    ((∀ s ∈ plan.steps, ∀ t ∈ plan.steps, s.host.id = t.host.id →
        s.host.labels = t.host.labels) → steps'.Perm plan.steps →
      ∀ slice, ({ plan with steps := steps' } : Plan).slice = .ok slice ↔
        plan.slice = .ok slice) ∧
    (List.Forall₂ Step.WaitsAlike plan.steps steps' →
      ∀ slice, ({ plan with steps := steps' } : Plan).slice = .ok slice ↔
        plan.slice = .ok slice) := by
  constructor
  · intro hlabels hperm slice
    exact (alike_of_perm hperm).slice_eq_ok_iff fun hp => cut_eq_of_perm hp hlabels hperm
  · intro h slice
    exact (alike_of_forall₂ h).slice_eq_ok_iff fun hp => cut_eq_of_forall₂ hp h

/-- A step that waits for a global one and for one of its host, which comes behind it. -/
def unordered : Plan :=
  { Plan.bare "p" with steps := [
      { Step.bare "b" .zero .noop (.named "h") with dependsOn := ["g", "a"] },
      .bare "a" .zero .noop (.named "h"),
      .bare "g" .zero .noop .fleet] }

/-- The same steps from behind, and with a dependency that is listed twice. -/
theorem slice_of_same_steps_of_unordered :
    ({ unordered with steps := unordered.steps.reverse } : Plan).slice = .ok unordered.cut ∧
      ({ unordered with steps := [
          { Step.bare "b" .zero .noop (.named "h") with dependsOn := ["a", "g", "a"] },
          .bare "a" .zero .noop (.named "h"),
          .bare "g" .zero .noop .fleet] } : Plan).slice = .ok unordered.cut := by
  have hslice : unordered.slice = .ok unordered.cut :=
    slice_eq_ok_iff.mpr ⟨sliceError?_eq_none_iff.mp (by decide +kernel), rfl⟩
  constructor
  · refine ((slice_of_same_steps unordered _).1 ?_ (List.reverse_perm _) _).mpr hslice
    simp [unordered, Step.bare, Host.named, Host.fleet]
  · refine ((slice_of_same_steps unordered _).2 ?_ _).mpr hslice
    refine .cons ⟨rfl, fun id => ?_, nofun⟩ (.cons (.refl _) (.cons (.refl _) .nil))
    simp [or_comm]

end Plan

end FleetPlan
