/-
What a refusal to cut a plan says.

`WellFormed` is what the documents promise of a plan, one rule a field, and
`slice_ok_iff_wellFormed` says that just the plans that keep all of them are cut.  A plan
that breaks a rule is refused with an error, and `Violation` says what each error claims
of the plan: the steps it names are there and do what it says.

Repeated ids are looked for first.  They are reported before anything else is judged,
and once there are none, an id that an error mentions stands for one step.
-/
import FleetPlan.Proofs.Slice

namespace FleetPlan

/-- A repeated name stands in the list twice, those seen before counted in. -/
theorem Names.two_le_count_of_firstRepeated? {seen names : List String} {n : String}
    (h : firstRepeated? seen names = some n) : 2 ≤ (seen ++ names).count n := by
  induction names generalizing seen with
  | nil => simp [firstRepeated?] at h
  | cons m rest ih =>
    unfold firstRepeated? at h
    split at h
    · rename_i hseen
      obtain rfl := Option.some.inj h
      have hbefore : 0 < seen.count m := List.count_pos_iff.mpr (by simpa using hseen)
      rw [List.count_append, List.count_cons_self]
      omega
    · rw [List.perm_middle.count_eq]
      exact ih h

namespace Plan

/-- The rules that a plan has to keep. -/
structure WellFormed (plan : Plan) : Prop where
  /-- Steps have ids of their own. -/
  distinct : (plan.steps.map (·.id)).Nodup
  /-- A dependency is the id of a step. -/
  known : ∀ s ∈ plan.steps, ∀ dependency ∈ s.dependsOn, ∃ d ∈ plan.steps, d.id = dependency
  /-- A global step depends on global steps. -/
  global : ∀ s ∈ plan.steps, s.host.id = "" → ∀ d ∈ plan.steps, d.id ∈ s.dependsOn → d.host.id = ""
  /-- A host's step depends on global steps and on steps of its host. -/
  onHost : ∀ s ∈ plan.steps, s.host.id ≠ "" → ∀ d ∈ plan.steps, d.id ∈ s.dependsOn →
    d.host.id = "" ∨ d.host.id = s.host.id

/-- What an error says about the plan. -/
inductive Violation (plan : Plan) : SliceError → Prop
  /-- At least two steps have the id. -/
  | duplicate {id : String} (htwice : 2 ≤ (plan.steps.map (·.id)).count id) :
      Violation plan (.duplicateStep plan.id id)
  /-- The step lists a dependency that is no step. -/
  | unknown {s : Step} {dependency : String} (hs : s ∈ plan.steps)
      (hdep : dependency ∈ s.dependsOn) (hnone : ∀ d ∈ plan.steps, d.id ≠ dependency) :
      Violation plan (.unknownStep s.id dependency)
  /-- The step depends on one of another host. -/
  | crosses {s d : Step} (hs : s ∈ plan.steps) (hd : d ∈ plan.steps) (hdep : d.id ∈ s.dependsOn)
      (hhost : s.host.id ≠ "") (hother : d.host.id ≠ "") (hne : d.host.id ≠ s.host.id) :
      Violation plan (.crossHost s.id s.host.id d.id d.host.id)
  /-- The global step depends on one of a host. -/
  | waitsForHost {s d : Step} (hs : s ∈ plan.steps) (hd : d ∈ plan.steps)
      (hdep : d.id ∈ s.dependsOn) (hglobal : s.host.id = "") (hhost : d.host.id ≠ "") :
      Violation plan (.globalDependsOnHost s.id d.id d.host.id)

variable {plan : Plan}

/-! ### Plans that keep the rules -/

theorem wellFormed_iff_sliceable : plan.WellFormed ↔ plan.Sliceable := by
  constructor
  · intro h
    refine ⟨h.distinct, ?_⟩
    intro s hs dependency hdep
    obtain ⟨d, hd, rfl⟩ := h.known s hs dependency hdep
    refine ⟨d, hd, rfl, ?_⟩
    by_cases hglobal : s.host.id = ""
    · exact .inr (isGlobal_iff.mpr (h.global s hs hglobal d hd hdep))
    · exact (h.onHost s hs hglobal d hd hdep).symm.imp_right isGlobal_iff.mpr
  · intro h
    -- A dependency names one step, so the step it stays with is the step it names.
    have hstays : ∀ s ∈ plan.steps, ∀ d ∈ plan.steps, d.id ∈ s.dependsOn →
        d.host.id = "" ∨ d.host.id = s.host.id := by
      intro s hs d hd hdep
      obtain ⟨t, ht, hid, hstay⟩ := h.stays s hs d.id hdep
      obtain rfl := eq_of_id_eq h.nodup ht hd hid
      exact (hstay.imp_right isGlobal_iff.mp).symm
    refine ⟨h.nodup, ?_, ?_, fun s hs _ => hstays s hs⟩
    · intro s hs dependency hdep
      obtain ⟨d, hd, hid, -⟩ := h.stays s hs dependency hdep
      exact ⟨d, hd, hid⟩
    · intro s hs hglobal d hd hdep
      rcases hstays s hs d hd hdep with hfleet | hhost
      · exact hfleet
      · exact hhost.trans hglobal

/-! ### Errors -/

/-- What is said to be wrong with a dependency is wrong with it. -/
theorem violation_of_dependencyError? {s : Step} (hs : s ∈ plan.steps) {dependency : String}
    (hdep : dependency ∈ s.dependsOn) {e : SliceError}
    (h : plan.dependencyError? s dependency = some e) : plan.Violation e := by
  unfold dependencyError? at h
  split at h
  · rename_i hfind
    obtain rfl := Option.some.inj h
    refine .unknown hs hdep ?_
    simpa [step?] using hfind
  · rename_i d hfind
    have hd : d ∈ plan.steps := List.mem_of_find?_eq_some hfind
    obtain rfl : d.id = dependency := by simpa using List.find?_some hfind
    split at h
    · exact absurd h (by simp)
    · rename_i hne
      split at h
      · rename_i hglobal
        obtain rfl := Option.some.inj h
        have hfleet := isGlobal_iff.mp hglobal
        exact .waitsForHost hs hd hdep hfleet fun hdfleet => hne (hdfleet.trans hfleet.symm)
      · rename_i hglobal
        split at h
        · exact absurd h (by simp)
        · rename_i hdglobal
          obtain rfl := Option.some.inj h
          exact .crosses hs hd hdep (mt isGlobal_iff.mpr hglobal) (mt isGlobal_iff.mpr hdglobal) hne

theorem violation_of_sliceError? {e : SliceError} (h : plan.sliceError? = some e) :
    plan.Violation e := by
  unfold sliceError? at h
  split at h
  · rename_i id hrepeated
    obtain rfl := Option.some.inj h
    exact .duplicate (Names.two_le_count_of_firstRepeated? hrepeated)
  · obtain ⟨s, hs, hfound⟩ := List.exists_of_findSome?_eq_some h
    obtain ⟨dependency, hdep, herr⟩ := List.exists_of_findSome?_eq_some hfound
    refine violation_of_dependencyError? ?_ hdep herr
    rcases List.mem_append.mp hs with hs | hs
    · exact (mem_globalSteps.mp hs).1
    · exact (mem_hostSteps.mp hs).1

/-- Repeated ids are reported whatever else is wrong. -/
theorem exists_sliceError?_of_not_nodup (h : ¬(plan.steps.map (·.id)).Nodup) :
    ∃ id, plan.sliceError? = some (.duplicateStep plan.id id) := by
  cases hrepeated : Names.firstRepeated? [] (plan.steps.map (·.id)) with
  | none => exact absurd (Names.firstRepeated?_eq_none_iff.mp hrepeated).1 h
  | some id => exact ⟨id, by rw [sliceError?, hrepeated]⟩

theorem slice_eq_error_iff {e : SliceError} :
    plan.slice = .error e ↔ plan.sliceError? = some e := by
  unfold slice
  split
  · rename_i found herr
    simp [herr]
  · rename_i hnone
    simp [hnone]

/--
**Which plans are cut.**  A plan is cut just when it keeps all rules.  The error of a
plan that is not cut is true of the plan, and it is about a repeated id if there is one.
-/
theorem slice_ok_iff_wellFormed (plan : Plan) :
    ((∃ slice, plan.slice = .ok slice) ↔ plan.WellFormed) ∧
      (∀ e, plan.slice = .error e → plan.Violation e) ∧
      (¬(plan.steps.map (·.id)).Nodup →
        ∃ id, plan.slice = .error (.duplicateStep plan.id id)) := by
  refine ⟨?_, ?_, ?_⟩
  · rw [wellFormed_iff_sliceable]
    constructor
    · rintro ⟨slice, hslice⟩
      exact (slice_eq_ok_iff.mp hslice).1
    · intro hplan
      exact ⟨plan.cut, slice_eq_ok_iff.mpr ⟨hplan, rfl⟩⟩
  · intro e he
    exact violation_of_sliceError? (slice_eq_error_iff.mp he)
  · intro hrepeated
    obtain ⟨id, herr⟩ := exists_sliceError?_of_not_nodup hrepeated
    exact ⟨id, slice_eq_error_iff.mpr herr⟩

/-- A plan whose first step waits for one of another host, and whose last has the given id. -/
def crossesHosts (last : String) : Plan :=
  { Plan.bare "p" with steps := [
      { Step.bare "a" .zero .noop (.named "h") with dependsOn := ["b"] },
      .bare "b" .zero .noop (.named "k"),
      .bare last .zero .noop .fleet] }

/-- A dependency on another host is reported, unless an id is repeated. -/
theorem slice_ok_iff_wellFormed_of_crossesHosts :
    (¬∃ slice, (crossesHosts "g").slice = .ok slice) ∧
      (crossesHosts "g").Violation (.crossHost "a" "h" "b" "k") ∧
      ∃ id, (crossesHosts "b").slice = .error (.duplicateStep "p" id) := by
  have herr : (crossesHosts "g").slice = .error (.crossHost "a" "h" "b" "k") :=
    slice_eq_error_iff.mpr (by decide +kernel)
  have hviolation := (slice_ok_iff_wellFormed (crossesHosts "g")).2.1 _ herr
  refine ⟨?_, hviolation, (slice_ok_iff_wellFormed (crossesHosts "b")).2.2 (by decide)⟩
  rintro ⟨slice, hslice⟩
  rw [herr] at hslice
  cases hslice

end Plan

end FleetPlan
