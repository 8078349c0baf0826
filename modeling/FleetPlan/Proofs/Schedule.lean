/-
The orders in which a run may happen, and what is sure in all of them.

Hosts run side by side, and what happens on one stands in any place among what happens
on the others.  `Interleaving` says this of lists, and `Schedule` of a run: the global
steps first, then any interleaving of the hosts.  How many hosts may run at a time only
leaves some of these orders out.

A plan's dependencies reach a run along three ways.  Those of a global step and those
between steps of one host are waited for in their list, and a dependency of a host's
step on a global one holds back the whole host plan.  `called_after` joins the three,
and `dispatch_respects_dependencies` follows chains of dependencies with it.
-/
import FleetPlan.Proofs.Dispatch
import FleetPlan.Proofs.Slice
import Mathlib

namespace FleetPlan

/-! ### Interleavings -/

/-- The whole is made of the parts, each of which keeps its own order. -/
inductive Interleaving {α : Type} : List (List α) → List α → Prop
  | done {parts : List (List α)} (h : ∀ part ∈ parts, part = []) : Interleaving parts []
  | next {left right : List (List α)} {a : α} {part whole : List α}
      (h : Interleaving (left ++ part :: right) whole) :
      Interleaving (left ++ (a :: part) :: right) (a :: whole)

namespace Interleaving

variable {α : Type} {parts : List (List α)} {part whole : List α}

theorem cons_nil (h : Interleaving parts whole) : Interleaving ([] :: parts) whole := by
  induction h with
  | done h => exact .done fun part hpart => (List.mem_cons.mp hpart).elim (fun h => h) (h part)
  | @next left right a part whole h ih =>
    rw [← List.cons_append] at ih ⊢
    exact .next ih

theorem cons (part : List α) (h : Interleaving parts whole) :
    Interleaving (part :: parts) (part ++ whole) := by
  induction part with
  | nil => exact h.cons_nil
  | cons a part ih =>
    rw [← List.nil_append (part :: parts)] at ih
    exact .next ih

/-- One part after another is an interleaving. -/
theorem flatten (parts : List (List α)) : Interleaving parts parts.flatten := by
  induction parts with
  | nil => exact .done (by simp)
  | cons part parts ih => exact ih.cons part

/-- What stands in the whole stands in a part, behind nothing that is not before it. -/
theorem split (h : Interleaving parts whole) {before after : List α} {a : α}
    (hwhole : whole = before ++ a :: after) :
    ∃ part ∈ parts, ∃ earlier later, part = earlier ++ a :: later ∧
      ∀ b ∈ earlier, b ∈ before := by
  induction h generalizing before with
  | done h => exact absurd hwhole (by simp)
  | @next left right e part whole h ih =>
    cases before with
    | nil =>
      obtain ⟨rfl, -⟩ := List.cons.inj hwhole
      exact ⟨e :: part, by simp, [], part, rfl, by simp⟩
    | cons f before =>
      obtain ⟨rfl, hrest⟩ := List.cons.inj hwhole
      obtain ⟨found, hfound, earlier, later, hsplit, hearlier⟩ := ih hrest
      rcases List.mem_append.mp hfound with hleft | hright
      · exact ⟨found, by simp [hleft], earlier, later, hsplit,
          fun b hb => List.mem_cons_of_mem _ (hearlier b hb)⟩
      · rcases List.mem_cons.mp hright with rfl | hright
        · refine ⟨e :: found, by simp, e :: earlier, later, by rw [hsplit]; rfl, ?_⟩
          intro b hb
          rcases List.mem_cons.mp hb with rfl | hb
          · exact List.mem_cons_self
          · exact List.mem_cons_of_mem _ (hearlier b hb)
        · exact ⟨found, by simp [hright], earlier, later, hsplit,
            fun b hb => List.mem_cons_of_mem _ (hearlier b hb)⟩

end Interleaving

namespace Runner

/-! ### Schedules -/

/-- A trace that a run of a sliced plan may leave. -/
def Schedule (r : Runner) (slice : Slice) (planId : String) (trace : Trace) : Prop :=
  ∃ hosts, Interleaving (r.hostTraces slice planId) hosts ∧
    trace = (r.runGlobals slice planId).2 ++ r.heldTrace slice planId ++
      r.announce (slice.runnable (r.globals slice planId)).length ++ hosts

variable {r : Runner} {slice : Slice} {planId : String}

/-- Running one host after another is a schedule. -/
theorem schedule_runParts (r : Runner) (slice : Slice) (planId : String) :
    r.Schedule slice planId (r.runParts slice planId).2 :=
  ⟨_, Interleaving.flatten _, by rw [runParts_eq]⟩

/-- Nothing is called for a host plan that is held back. -/
theorem not_called_heldTrace {step : HostStep} {c : RunContext} :
    .called step c ∉ r.heldTrace slice planId := by
  simp [heldTrace, HostPlan.holdBack]

theorem not_called_announce {n : Nat} {step : HostStep} {c : RunContext} :
    .called step c ∉ r.announce n := by
  unfold announce
  split <;> simp

/-- A call is one of the global steps', or comes after all of them on a host that runs. -/
theorem Schedule.called_cases {trace before after : Trace} {step : HostStep} {c : RunContext}
    (h : r.Schedule slice planId trace) (hcall : trace = before ++ .called step c :: after) :
    (∃ later, (r.runGlobals slice planId).2 = before ++ .called step c :: later) ∨
      ∃ e ∈ slice.runnable (r.globals slice planId), ∃ earlier later,
        (r.runSteps planId e.2.host e.2.steps).2 = earlier ++ .called step c :: later ∧
          (∀ event ∈ (r.runGlobals slice planId).2, event ∈ before) ∧
          ∀ event ∈ earlier, event ∈ before := by
  obtain ⟨hosts, hmerge, rfl⟩ := h
  rcases Trace.split_append hcall with ⟨mid, hframe, -⟩ | ⟨mid, hbefore, hhosts⟩
  · rcases Trace.split_append hframe with ⟨mid, hheld, -⟩ | ⟨mid, -, hannounce⟩
    · rcases Trace.split_append hheld with ⟨mid, hglobals, -⟩ | ⟨mid, -, hheld⟩
      · exact .inl ⟨mid, hglobals⟩
      · have hmem : .called step c ∈ r.heldTrace slice planId := by
          rw [hheld]
          simp
        exact absurd hmem not_called_heldTrace
    · have hmem : .called step c ∈
          r.announce (slice.runnable (r.globals slice planId)).length := by
        rw [hannounce]
        simp
      exact absurd hmem not_called_announce
  · obtain ⟨part, hpart, earlier, later, hsplit, hearlier⟩ := hmerge.split hhosts
    obtain ⟨e, he, rfl⟩ := List.mem_map.mp hpart
    refine .inr ⟨e, he, earlier, later, hsplit, ?_, ?_⟩
    · intro event hevent
      rw [hbefore, List.append_assoc, List.append_assoc]
      exact List.mem_append_left _ hevent
    · intro event hevent
      rw [hbefore]
      exact List.mem_append_right _ (hearlier event hevent)

end Runner

namespace Plan

/-- One step id is among the dependencies of the step of another. -/
def WaitsFor (plan : Plan) (id dependency : String) : Prop :=
  ∃ s ∈ plan.steps, s.id = id ∧ dependency ∈ s.dependsOn

variable {plan : Plan}

theorem cut_keyed (plan : Plan) : plan.cut.Keyed := fun e he =>
  (@hostPart_of_mem plan e.1 e.2 he).host_id

end Plan

namespace Runner

variable {r : Runner} {plan : Plan}

/-- A step was called in a trace, and a report says that it succeeded. -/
def CalledAndSucceeded (before : Trace) (report : Report) (id : String) : Prop :=
  (∃ step c, step.id = id ∧ .called step c ∈ before) ∧
    ∃ record ∈ report.steps, record.stepId = id ∧ record.status = .succeeded

theorem runGlobals_called {slice : Slice} {planId : String} {before after : Trace}
    {step : HostStep} {c : RunContext}
    (h : (r.runGlobals slice planId).2 = before ++ .called step c :: after) :
    (∃ s ∈ slice.globalSteps, step = .ofStep s) ∧
      ∀ d ∈ step.dependsOn, CalledAndSucceeded before (r.globals slice planId) d := by
  unfold CalledAndSucceeded globals
  unfold runGlobals at h ⊢
  split at h
  · simp at h
  · rename_i hne
    rw [if_neg hne]
    obtain ⟨hmem, -, hdeps⟩ := runSteps_called h
    obtain ⟨s, hs, rfl⟩ := List.mem_map.mp hmem
    exact ⟨⟨s, hs, rfl⟩, fun d hd =>
      ⟨(hdeps d hd).1.imp fun t ht => ⟨c, ht⟩, (hdeps d hd).2⟩⟩

theorem called_of_globals_succeeded {slice : Slice} {planId : String} {record : StepRecord}
    (hmem : record ∈ (r.globals slice planId).steps) (h : record.status = .succeeded) :
    ∃ step c, step.id = record.stepId ∧ .called step c ∈ (r.runGlobals slice planId).2 := by
  unfold globals at hmem
  unfold runGlobals at hmem ⊢
  split at hmem
  · simp [Report.ofSteps] at hmem
  · rename_i hne
    rw [if_neg hne]
    obtain ⟨step, -, hid, hcalled⟩ := called_of_runSteps_succeeded hmem h
    exact ⟨step, _, hid, hcalled⟩

/-- A global step that a running host plan waits for has a record of success. -/
theorem succeeded_of_runnable {slice : Slice} {globals : Report} {e : String × HostPlan}
    (he : e ∈ slice.runnable globals) {id : String} (hid : id ∈ slice.requiredGlobals e.2) :
    ∃ record ∈ globals.steps, record.stepId = id ∧ record.status = .succeeded := by
  have hheld : slice.isHeld globals e.2 = false := by simpa using (List.mem_filter.mp he).2
  exact Slice.isHeld_eq_false_iff.mp hheld id hid

theorem mem_runParts_of_globals {slice : Slice} {planId : String} {record : StepRecord}
    (h : record ∈ (r.globals slice planId).steps) :
    record ∈ (r.runParts slice planId).1.steps := by
  rw [runParts_steps]
  exact List.mem_append_left _ h

theorem mem_runParts_of_runnable (hkeyed : plan.cut.Keyed) {e : String × HostPlan}
    {planId : String} (he : e ∈ plan.cut.runnable (r.globals plan.cut planId))
    {record : StepRecord} (h : record ∈ (r.runSteps planId e.2.host e.2.steps).1.steps) :
    record ∈ (r.runParts plan.cut planId).1.steps := by
  rw [runParts_steps_of_keyed hkeyed]
  refine List.mem_append_right _ (List.mem_flatMap.mpr ⟨e, (List.mem_filter.mp he).1, ?_⟩)
  rw [partReport_of_runnable he]
  exact h

/-- A step is called only after each of its own dependencies was called and succeeded. -/
theorem called_after (hplan : plan.Sliceable) {trace before after : Trace}
    (hsched : r.Schedule plan.cut plan.id trace) {step : HostStep} {c : RunContext}
    (hcall : trace = before ++ .called step c :: after) {d : String}
    (hd : plan.WaitsFor step.id d) :
    CalledAndSucceeded before (r.runParts plan.cut plan.id).1 d := by
  obtain ⟨s, hs, hid, hdep⟩ := hd
  rcases hsched.called_cases hcall with
    ⟨later, hglobals⟩ | ⟨e, he, earlier, later, hrun, hall, hpart⟩
  · obtain ⟨⟨t, ht, rfl⟩, hdeps⟩ := runGlobals_called hglobals
    obtain rfl : s = t := Plan.eq_of_id_eq hplan.nodup hs (Plan.mem_globalSteps.mp ht).1 hid
    obtain ⟨hcalled, record, hrecord, hdone⟩ := hdeps d hdep
    exact ⟨hcalled, record, mem_runParts_of_globals hrecord, hdone⟩
  · obtain ⟨hmem, -, hdeps⟩ := runSteps_called hrun
    have hpartOf := @Plan.hostPart_of_mem plan e.1 e.2 (List.mem_filter.mp he).1
    obtain ⟨t, ht, hkey, rfl⟩ := hpartOf.mem_steps_iff.mp hmem
    obtain rfl : s = t := Plan.eq_of_id_eq hplan.nodup hs ht hid
    by_cases hglobal : plan.isGlobalStep d = true
    · -- The whole host plan would have been held back, had the global step not succeeded.
      have hrequired : d ∈ plan.cut.requiredGlobals e.2 :=
        (hpartOf.mem_requiredGlobals_iff hplan.nodup).mpr ⟨s, hs, hkey, hdep, hglobal⟩
      obtain ⟨record, hrecord, rfl, hstatus⟩ := succeeded_of_runnable he hrequired
      obtain ⟨t, c', ht, hcalled⟩ := called_of_globals_succeeded hrecord hstatus
      exact ⟨⟨t, c', ht, hall _ hcalled⟩, record, mem_runParts_of_globals hrecord, rfl, hstatus⟩
    · have hlocal : d ∈ plan.localDependencies s :=
        Plan.mem_localDependencies.mpr ⟨hdep, by simpa using hglobal⟩
      obtain ⟨⟨t, ht, hcalled⟩, record, hrecord, hdone⟩ := hdeps d hlocal
      exact ⟨⟨t, c, ht, hpart _ hcalled⟩, record,
        mem_runParts_of_runnable plan.cut_keyed he hrecord, hdone⟩

/--
**A step is called only after everything it depends on.**  In every schedule of a run,
the schedule of the trace that is returned among them, a called step is preceded by the
calls of all steps that its dependencies lead to, and these have records of success.
-/
theorem dispatch_respects_dependencies {slice : Slice} {report : Report} {trace : Trace}
    (hslice : plan.slice = .ok slice)
    (hrun : r.dispatch slice plan.id = .ok (report, trace)) :
    r.Schedule slice plan.id trace ∧
      ∀ trace', r.Schedule slice plan.id trace' →
        ∀ before step c after, trace' = before ++ .called step c :: after →
          ∀ d, Relation.TransGen plan.WaitsFor step.id d →
            (∃ step' c', step'.id = d ∧ .called step' c' ∈ before) ∧
              ∃ record ∈ report.steps, record.stepId = d ∧ record.status = .succeeded := by
  obtain ⟨hplan, rfl⟩ := Plan.slice_eq_ok_iff.mp hslice
  obtain ⟨-, hresult⟩ := dispatch_eq_ok_iff.mp hrun
  obtain ⟨rfl, rfl⟩ := Prod.mk.inj hresult
  refine ⟨schedule_runParts r plan.cut plan.id, ?_⟩
  intro trace' hsched before step c after hcall d hd
  induction hd with
  | single hwaits => exact called_after hplan hsched hcall hwaits
  | @tail b d _ hwaits ih =>
    -- The step in between was called, and what was before its call was before this one.
    obtain ⟨⟨step', c', rfl, hmem⟩, -⟩ := ih
    obtain ⟨earlier, between, hbefore⟩ := List.append_of_mem hmem
    have hcall' : trace' = earlier ++ .called step' c' :: (between ++ .called step c :: after) := by
      rw [hcall, hbefore]
      simp
    obtain ⟨⟨t, c'', ht, hcalled⟩, hrecord⟩ := called_after hplan hsched hcall' hwaits
    refine ⟨⟨t, c'', ht, ?_⟩, hrecord⟩
    rw [hbefore]
    exact List.mem_append_left _ hcalled

/-- A plan whose host waits for a global step, and whose last step waits for the one before. -/
def chainOfThree : Plan :=
  { Plan.bare "p" with steps := [
      .bare "g" .zero .noop .fleet,
      { Step.bare "a" .zero .noop (.named "h") with dependsOn := ["g"] },
      { Step.bare "b" .zero .noop (.named "h") with dependsOn := ["a"] }] }

/-- A runner whose steps all succeed. -/
def obliging : Runner := ⟨⟨fun _ => some fun _ _ => .ok []⟩, .default, ""⟩

/-- The last step of the chain is called, and long before it the global step was. -/
theorem dispatch_respects_dependencies_of_chainOfThree : ∃ slice report trace before step c after,
    chainOfThree.slice = .ok slice ∧
      obliging.dispatch slice chainOfThree.id = .ok (report, trace) ∧
      trace = before ++ .called step c :: after ∧ step.id = "b" ∧
      (∃ step' c', step'.id = "g" ∧ .called step' c' ∈ before) ∧
      ∃ record ∈ report.steps, record.stepId = "g" ∧ record.status = .succeeded := by
  have hslice : chainOfThree.slice = .ok chainOfThree.cut :=
    Plan.slice_eq_ok_iff.mpr ⟨Plan.sliceError?_eq_none_iff.mp (by decide +kernel), rfl⟩
  have hrun : obliging.dispatch chainOfThree.cut chainOfThree.id =
      .ok (obliging.runParts chainOfThree.cut chainOfThree.id) :=
    dispatch_eq_ok_iff.mpr ⟨by cbv, rfl⟩
  have hids : (obliging.runParts chainOfThree.cut chainOfThree.id).2.calls.map (·.1.id) =
      ["g", "a", "b"] := by cbv
  have hlast : "b" ∈ (obliging.runParts chainOfThree.cut chainOfThree.id).2.calls.map (·.1.id) := by
    rw [hids]
    simp
  obtain ⟨⟨step, c⟩, hcall, hid⟩ := List.mem_map.mp hlast
  obtain ⟨before, after, htrace⟩ := List.append_of_mem (Trace.mem_calls.mp hcall)
  have hchain : Relation.TransGen chainOfThree.WaitsFor step.id "g" := by
    rw [show step.id = "b" from hid]
    exact .tail (.single ⟨_, List.mem_cons_of_mem _ (List.mem_cons_of_mem _ List.mem_cons_self),
      rfl, List.mem_cons_self⟩) ⟨_, List.mem_cons_of_mem _ List.mem_cons_self, rfl,
        List.mem_cons_self⟩
  obtain ⟨hsched, hall⟩ := dispatch_respects_dependencies hslice hrun
  exact ⟨_, _, _, before, step, c, after, hslice, hrun, htrace, hid,
    hall _ hsched before step c after htrace "g" hchain⟩

end Runner

end FleetPlan
