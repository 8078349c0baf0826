/-
A host that runs its own plan does what the run of the whole plan does there.

A host plan is cut out, written down, and read where it is run.  Nothing is lost on
the way, and the order that was found right in the whole plan is right there too.
What a run records on a host depends on the steps, the options and what the executors
do on that host; the time is all that may differ besides, and `StepRecord.untimed`
leaves it out.  So the records of the host's own run are the block that the merged
report has for the host, whatever happens elsewhere.
-/
import FleetPlan.Proofs.Codec
import FleetPlan.Proofs.Schedule

namespace FleetPlan

/-! ### Records but for their times -/

/-- The line without its time. -/
def OutputLine.untimed (line : OutputLine) : OutputLine := { line with time := "" }

/-- The record without its times. -/
def StepRecord.untimed (record : StepRecord) : StepRecord :=
  { record with startedAt := "", completedAt := "", output := record.output.map .untimed }

theorem StepRecord.keepsOutcome_untimed : KeepsOutcome (·.untimed) := ⟨fun _ => rfl, fun _ => rfl⟩

/-- Times do not matter for the steps behind. -/
theorem Progress.after_untimed (p : Progress) (record : StepRecord) :
    p.after record.untimed = p.after record :=
  StepRecord.keepsOutcome_untimed.progress_after p record

/-- Registries that do the same on a host, whatever they do elsewhere. -/
def Registry.SameOn (host : Host) (registry registry' : Registry Executor) : Prop :=
  ∀ action, Option.Rel (fun e e' => ∀ step c, c.host = host → e step c = e' step c)
    (registry.get? action) (registry'.get? action)

theorem Registry.SameOn.refl (host : Host) (registry : Registry Executor) :
    registry.SameOn host registry := by
  intro action
  cases registry.get? action with
  | none => exact .none
  | some e => exact .some fun _ _ _ => rfl

namespace Runner

section

variable {registry registry' : Registry Executor} {c : RunContext}

theorem runStep_untimed (h : registry.SameOn c.host registry') (options : RunOptions)
    (now now' : String) (p : Progress) (step : HostStep) :
    (runStep ⟨registry, options, now⟩ c p step).1.untimed =
      (runStep ⟨registry', options, now'⟩ c p step).1.untimed := by
  have hrel : Decision.Rel (fun e e' => ∀ step c', c'.host = c.host → e step c' = e' step c')
      (decision ⟨registry, options, now⟩ p step) (decision ⟨registry', options, now'⟩ p step) :=
    @decision_rel _ ⟨registry, options, now⟩ ⟨registry', options, now'⟩ rfl h p step
  unfold runStep
  generalize decision ⟨registry, options, now⟩ p step = decided at hrel
  generalize decision ⟨registry', options, now'⟩ p step = decided' at hrel
  cases hrel with
  | skip code message => rfl
  | @attempt _ executor' hsame =>
    dsimp only [attempt]
    rw [hsame step c rfl]
    cases executor' step c <;> rfl

/-- Two runs on a host differ in their times, if they differ at all. -/
theorem runFrom_untimed (h : registry.SameOn c.host registry') (options : RunOptions)
    (now now' : String) (p : Progress) (steps : List HostStep) :
    (runFrom ⟨registry, options, now⟩ c p steps).1.map (·.untimed) =
      (runFrom ⟨registry', options, now'⟩ c p steps).1.map (·.untimed) :=
  runFrom_map_congr StepRecord.keepsOutcome_untimed StepRecord.keepsOutcome_untimed
    (runStep_untimed h options now now') p steps

end

end Runner

/-! ### The host plan on its way -/

/-- A host plan of a sliced plan that is run is not refused on its host. -/
theorem Slice.part_runError?_eq_none {slice : Slice} {planId : String}
    (h : slice.runError? planId = none) {key : String} {part : HostPlan}
    (hpart : (key, part) ∈ slice.hostPlans.entries) : part.runError? = none := by
  unfold runError? at h
  split at h
  · simp at h
  · have hnone := List.findSome?_eq_none_iff.mp h part (List.mem_map.mpr ⟨_, hpart, rfl⟩)
    unfold HostPlan.runError?
    split
    · rename_i hglobal
      simp [hglobal] at hnone
    · rename_i hglobal
      simpa [hglobal] using hnone

namespace Plan

variable {plan : Plan} {key : String} {part : HostPlan}

/-- The steps of a host plan have the inputs that they have in the plan. -/
theorem HostPart.portable (h : HostPart plan key part)
    (hinputs : ∀ s ∈ plan.steps, Portable s.inputs) :
    ∀ step ∈ part.steps, Portable step.inputs := by
  intro step hstep
  obtain ⟨s, hs, -, rfl⟩ := h.mem_steps_iff.mp hstep
  exact hinputs s hs

/-- **The host reads the plan that was cut out for it.** -/
theorem HostPart.decode_encode (h : HostPart plan key part)
    (hinputs : ∀ s ∈ plan.steps, Portable s.inputs) (planId : String) :
    HostPlan.decode (Text.octets part.encode) planId = .ok part :=
  HostPlan.decode_encode h.version (h.portable hinputs) planId

/-- No step of a host has the id of a global step. -/
theorem HostPart.not_isGlobalStep (h : HostPart plan key part)
    (hnodup : (plan.steps.map (·.id)).Nodup) {step : HostStep} (hstep : step ∈ part.steps) :
    plan.isGlobalStep step.id = false := by
  obtain ⟨s, hs, hkey, rfl⟩ := h.mem_steps_iff.mp hstep
  rw [Bool.eq_false_iff, Ne, isGlobalStep_iff hnodup]
  rintro ⟨t, ht, hid, hglobal⟩
  obtain rfl := eq_of_id_eq hnodup ht hs hid
  rw [h.not_isGlobal hkey] at hglobal
  exact Bool.noConfusion hglobal

end Plan

namespace Runner

variable {registry registry' : Registry Executor} {options : RunOptions} {now : String}
variable {slice : Slice}

/-- The records of a host plan stand together, between those of the steps of other hosts. -/
theorem runParts_block (r : Runner) (planId : String) (h : slice.Keyed) {key : String}
    {part : HostPlan} (hpart : (key, part) ∈ slice.hostPlans.entries) (hkey : key ≠ "") :
    ∃ before after, (r.runParts slice planId).1.steps =
        before ++ (r.partReport slice planId (r.globals slice planId) part).steps ++ after ∧
      ∀ record ∈ before ++ after, record.host.id ≠ key := by
  obtain ⟨es, es', hentries⟩ := List.append_of_mem hpart
  have hnames := slice.hostPlans.nodup_keys
  rw [Dict.keys, hentries, List.map_append, List.map_cons] at hnames
  have hother : ∀ e ∈ es ++ es', e.1 ≠ key := by
    intro e he heq
    have hnot := (List.nodup_cons.mp (List.nodup_middle.mp hnames)).1
    rw [← List.map_append] at hnot
    exact hnot (List.mem_map.mpr ⟨e, he, heq⟩)
  let block (e : String × HostPlan) :=
    (r.partReport slice planId (r.globals slice planId) e.2).steps
  have hblock : ∀ e ∈ es ++ es', ∀ record ∈ block e, record.host.id ≠ key := by
    intro e he record hrecord
    have hmem : e ∈ slice.hostPlans.entries := by
      rw [hentries]
      exact List.perm_middle.symm.subset (List.mem_cons_of_mem _ he)
    rw [(of_mem_partReport hrecord).1, h e hmem]
    exact hother e he
  refine ⟨(r.globals slice planId).steps ++ es.flatMap block, es'.flatMap block, ?_, ?_⟩
  · rw [runParts_steps_of_keyed h, hentries, List.flatMap_append, List.flatMap_cons]
    simp only [List.append_assoc]
    rfl
  · intro record hrecord
    rw [List.append_assoc, ← List.flatMap_append] at hrecord
    rcases List.mem_append.mp hrecord with hglobal | hhost
    · rw [host_of_mem_globals hglobal]
      exact hkey.symm
    · obtain ⟨e, he, hmem⟩ := List.mem_flatMap.mp hhost
      exact hblock e he record hmem

/-- In a merged report, a success recorded for a global step is that of the global step. -/
theorem succeeded_of_runParts {r : Runner} {plan : Plan} {planId id : String}
    (hplan : plan.Sliceable) (hglobal : plan.isGlobalStep id = true)
    (h : ∃ record ∈ (r.runParts plan.cut planId).1.steps,
      record.stepId = id ∧ record.status = .succeeded) :
    ∃ record ∈ (r.globals plan.cut planId).steps,
      record.stepId = id ∧ record.status = .succeeded := by
  obtain ⟨record, hmem, rfl, hstatus⟩ := h
  rw [runParts_steps_of_keyed plan.cut_keyed] at hmem
  rcases List.mem_append.mp hmem with hmem | hhost
  · exact ⟨record, hmem, rfl, hstatus⟩
  · obtain ⟨e, he, hmem⟩ := List.mem_flatMap.mp hhost
    obtain ⟨-, step, hstep, hid⟩ := of_mem_partReport hmem
    have hnot := (@Plan.hostPart_of_mem plan e.1 e.2 he).not_isGlobalStep hplan.nodup hstep
    rw [hid, hglobal] at hnot
    exact Bool.noConfusion hnot

/--
**A host does on its own what the run of the whole plan does there.**  Take a plan that
was decoded, sliced and run, and a host of it whose global steps have all succeeded.
Then its host plan is read back from its document, and running it is not refused and
records, but for the times, the block that the merged report has for this host.  The
host's own executors need only do the same as the others on this host, so nothing that
happens on any other host is seen in the block.
-/
theorem dispatch_block_eq_own_run {bytes : Octets} {plan : Plan} {report : Report} {trace : Trace}
    {key : String} {part : HostPlan} (hdecode : Plan.decode bytes = .ok plan)
    (hslice : plan.slice = .ok slice)
    (hrun : dispatch ⟨registry, options, now⟩ slice plan.id = .ok (report, trace))
    (hpart : slice.hostPlans.get? key = some part)
    (hmet : ∀ id ∈ slice.requiredGlobals part,
      ∃ record ∈ report.steps, record.stepId = id ∧ record.status = .succeeded)
    (hsame : registry.SameOn part.host registry') (planId now' : String) :
    HostPlan.decode (Text.octets part.encode) planId = .ok part ∧
      ∃ own ownTrace before block after,
        runHostPlan ⟨registry', options, now'⟩ part = .ok (own, ownTrace) ∧
        report.steps = before ++ block ++ after ∧
        (∀ record ∈ block, record.host = part.host) ∧
        (∀ record ∈ before ++ after, record.host.id ≠ key) ∧
        block.map (·.untimed) = own.steps.map (·.untimed) := by
  have hinputs := Plan.portable_of_decode hdecode
  obtain ⟨hplan, rfl⟩ := Plan.slice_eq_ok_iff.mp hslice
  obtain ⟨herr, hresult⟩ := dispatch_eq_ok_iff.mp hrun
  have hentry := Dict.get?_eq_some_iff.mp hpart
  have hof := Plan.hostPart_of_mem hentry
  set controller : Runner := ⟨registry, options, now⟩
  have hreport : report = (controller.runParts plan.cut plan.id).1 := congrArg Prod.fst hresult
  have hrunnable : plan.cut.isHeld (controller.globals plan.cut plan.id) part = false := by
    refine Slice.isHeld_eq_false_iff.mpr ?_
    intro id hid
    obtain ⟨_, -, -, -, hglobal⟩ := (hof.mem_requiredGlobals_iff hplan.nodup).mp hid
    rw [hreport] at hmet
    exact succeeded_of_runParts hplan hglobal (hmet id hid)
  obtain ⟨before, after, hsteps, hother⟩ :=
    controller.runParts_block plan.id plan.cut_keyed hentry hof.key_ne
  have hown : runHostPlan ⟨registry', options, now'⟩ part =
      .ok (runSteps ⟨registry', options, now'⟩ part.planId part.host part.steps) := by
    unfold runHostPlan
    rw [Slice.part_runError?_eq_none herr hentry]
  refine ⟨hof.decode_encode hinputs planId, _, _, before,
    (controller.partReport plan.cut plan.id (controller.globals plan.cut plan.id) part).steps,
    after, hown, ?_, ?_, hother, ?_⟩
  · rw [hreport]
    exact hsteps
  · exact fun record hrecord => (of_mem_partReport hrecord).1
  · unfold partReport
    rw [hrunnable, hof.planId]
    exact runFrom_untimed hsame options now now' _ _

/-- A plan for two hosts, one of which waits for a global step. -/
def twoHosts : Plan :=
  { Plan.bare "p" with
    steps := [.bare "g" .zero .noop .fleet, waiting, .bare "b" .zero .noop (.named "k")] }
where
  waiting : Step :=
    { Step.bare "a" .zero .noop (.named "h") with dependsOn := ["g"], inputs := some ⟨"[ 1 ]"⟩ }

/-- Executors that fail on one of the hosts. -/
def failingOnK : Registry Executor :=
  ⟨fun _ => some fun _ c => if c.host.id = "k" then .error ⟨"down", []⟩ else .ok []⟩

theorem portable_twoHosts : ∀ s ∈ twoHosts.steps, Portable s.inputs := by
  have hinputs : twoHosts.waiting.inputs = some ⟨"[ 1 ]"⟩ := rfl
  have hportable : Portable twoHosts.waiting.inputs := by
    intro p hp
    obtain rfl := Option.some.inj (hinputs.symm.trans hp)
    exact ⟨⟨by decide +kernel, by decide +kernel⟩, by decide⟩
  have hnone : Portable none := fun _ hp => absurd hp (by simp)
  intro s hs
  simp only [twoHosts, List.mem_cons, List.not_mem_nil, or_false] at hs
  rcases hs with rfl | rfl | rfl
  · exact hnone
  · exact hportable
  · exact hnone

/-- The host that waits records what it records on its own, although the other host fails. -/
theorem dispatch_block_eq_own_run_of_twoHosts : ∃ slice report trace part own ownTrace block,
    Plan.decode (Text.octets twoHosts.encode) = .ok twoHosts ∧ twoHosts.slice = .ok slice ∧
      dispatch ⟨failingOnK, .default, "1"⟩ slice "p" = .ok (report, trace) ∧
      slice.hostPlans.get? "h" = some part ∧ slice.requiredGlobals part = ["g"] ∧
      HostPlan.decode (Text.octets part.encode) "p" = .ok part ∧
      runHostPlan ⟨obliging.registry, .default, "2"⟩ part = .ok (own, ownTrace) ∧
      block <:+: report.steps ∧ block.map (·.untimed) = own.steps.map (·.untimed) := by
  have hdecode : Plan.decode (Text.octets twoHosts.encode) = .ok twoHosts :=
    Plan.decode_encode rfl portable_twoHosts
  have hslice : twoHosts.slice = .ok twoHosts.cut :=
    Plan.slice_eq_ok_iff.mpr ⟨Plan.sliceError?_eq_none_iff.mp (by decide +kernel), rfl⟩
  have hrun : dispatch ⟨failingOnK, .default, "1"⟩ twoHosts.cut twoHosts.id =
      .ok (runParts ⟨failingOnK, .default, "1"⟩ twoHosts.cut twoHosts.id) :=
    dispatch_eq_ok_iff.mpr ⟨by cbv, rfl⟩
  have hpart : twoHosts.cut.hostPlans.get? "h" =
      some (twoHosts.hostPlanOf (.named "h") [twoHosts.waiting]) := by cbv
  have hrequired : twoHosts.cut.requiredGlobals
      (twoHosts.hostPlanOf (.named "h") [twoHosts.waiting]) = ["g"] := by cbv
  have hmet : ∀ id ∈ twoHosts.cut.requiredGlobals
        (twoHosts.hostPlanOf (.named "h") [twoHosts.waiting]),
      ∃ record ∈ (runParts ⟨failingOnK, .default, "1"⟩ twoHosts.cut twoHosts.id).1.steps,
        record.stepId = id ∧ record.status = .succeeded := by
    have hany : (runParts ⟨failingOnK, .default, "1"⟩ twoHosts.cut twoHosts.id).1.steps.any
      (fun record => record.stepId == "g" && record.status == .succeeded) = true := by cbv
    rw [hrequired]
    simpa using hany
  have hsame : failingOnK.SameOn (.named "h") obliging.registry := by
    intro action
    refine .some ?_
    intro step c hc
    show (if c.host.id = "k" then .error ⟨"down", []⟩ else .ok [] : Except Failure _) = .ok []
    rw [hc]
    exact if_neg (by decide)
  obtain ⟨hread, own, ownTrace, before, block, after, hown, hsteps, -, -, hblock⟩ :=
    dispatch_block_eq_own_run hdecode hslice hrun hpart hmet hsame "p" "2"
  exact ⟨_, _, _, _, own, ownTrace, block, hdecode, hslice, hrun, hpart, hrequired, hread, hown,
    ⟨before, after, hsteps.symm⟩, hblock⟩

end Runner

end FleetPlan
