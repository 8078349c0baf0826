/-
A dry run tells beforehand what the run in earnest will record.

Nothing that a run decides reads the flag of a dry run: it is passed on to the executors, and
the executors that check inputs answer it with one more line behind a success.  So the two
runs are compared with what the dry run adds made up for, `StepRecord.rehearsed`, and with
times left out.  A step lemma says that they then record the same, `runFrom_map_congr` carries it
along a list of steps, and `Corresponds` from there through the merging of reports.
-/
import FleetPlan.Command.Execution
import FleetPlan.Proofs.Untimed

namespace FleetPlan

/-! ### What a dry run adds -/

/-- The line that a dry run puts behind the output of a step, without its time. -/
def dryRunLine : OutputLine := ⟨"", .system, "dry run: no changes applied"⟩

/-- The record that a dry run makes where this one is made in earnest. -/
def StepRecord.rehearsed (record : StepRecord) : StepRecord :=
  if record.status = .succeeded then { record with output := record.output ++ [dryRunLine] }
  else record

theorem StepRecord.keepsOutcome_rehearsed : KeepsOutcome (·.untimed.rehearsed) where
  stepId record := by
    unfold rehearsed
    split <;> rfl
  status record := by
    unfold rehearsed
    split <;> rfl

/-- An answer in a dry run and one in earnest: the same failure, or a success with one line more. -/
inductive AnswersAlike :
    Except Failure (List OutputLine) → Except Failure (List OutputLine) → Prop where
  | error (f : Failure) : AnswersAlike (.error f) (.error f)
  | ok {output output' : List OutputLine}
    (h : output.map (·.untimed) = output'.map (·.untimed) ++ [dryRunLine]) :
    AnswersAlike (.ok output) (.ok output')

/-- The executor answers in a dry run as the other one does in earnest. -/
def Executor.Rehearses (dry real : Executor) : Prop :=
  ∀ (step : HostStep) (planId : String) (host : Host),
    AnswersAlike (dry step ⟨planId, host, true⟩) (real step ⟨planId, host, false⟩)

theorem validatingExecutor_rehearses (now now' : String) :
    Executor.Rehearses (validatingExecutor now) (validatingExecutor now') := by
  intro step planId host
  unfold validatingExecutor
  cases validateInputs step.action step.inputs with
  | error e => exact .error _
  | ok typed => exact .ok rfl

/-! ### Running a list of steps -/

namespace Runner

/-- A runner for a dry run of what the other one runs in earnest. -/
structure Rehearses (dry real : Runner) : Prop where
  registry (action : Action) :
    Option.Rel Executor.Rehearses (dry.registry.get? action) (real.registry.get? action)
  stepFilter : dry.options.stepFilter = real.options.stepFilter
  dryRun : dry.options.dryRun = true
  inEarnest : real.options.dryRun = false

namespace Rehearses

variable {dry real : Runner} (h : Rehearses dry real)

include h

/-- A step is recorded alike, and nothing but the flag differs in what its executor is told. -/
theorem runStep (planId : String) (host : Host) (p : Progress) (step : HostStep) :
    (dry.runStep ⟨planId, host, true⟩ p step).1.untimed =
      (real.runStep ⟨planId, host, false⟩ p step).1.untimed.rehearsed := by
  have hrel := decision_rel h.stepFilter h.registry p step
  unfold Runner.runStep
  generalize dry.decision p step = decided at hrel
  generalize real.decision p step = decided' at hrel
  cases hrel with
  | skip code message => rfl
  | @attempt executor executor' hexecutor =>
    have hanswer := hexecutor step planId host
    dsimp only [attempt]
    generalize executor step ⟨planId, host, true⟩ = answer at hanswer
    generalize executor' step ⟨planId, host, false⟩ = answer' at hanswer
    cases hanswer with
    | error f => rfl
    | ok houtput =>
      simp only [recordOf, StepRecord.untimed, StepRecord.rehearsed, houtput]
      rfl

theorem corresponds : Corresponds dry real (·.untimed) (·.untimed.rehearsed) where
  keeps := StepRecord.keepsOutcome_untimed
  keeps' := StepRecord.keepsOutcome_rehearsed
  skipped _ _ _ _ := rfl
  runSteps planId host steps := by
    have hrecords := runFrom_map_congr StepRecord.keepsOutcome_untimed
      StepRecord.keepsOutcome_rehearsed (h.runStep planId host) .start steps
    unfold runSteps
    dsimp only
    rw [StepRecord.keepsOutcome_untimed.ofSteps, StepRecord.keepsOutcome_rehearsed.ofSteps,
      h.dryRun, h.inEarnest, hrecords]

end Rehearses

end Runner

/-! ### Reports -/

/-- The record of a dry run beside that of the run in earnest. -/
structure StepRecord.Foretells (dry real : StepRecord) : Prop where
  stepId : dry.stepId = real.stepId
  host : dry.host = real.host
  status : dry.status = real.status
  error : dry.error = real.error
  annotations : dry.annotations = real.annotations
  /-- A success has one more line of output, the last one; times do not count. -/
  of_succeeded : real.status = .succeeded →
    dry.output.map (·.untimed) = real.output.map (·.untimed) ++ [dryRunLine]
  of_ne : real.status ≠ .succeeded → dry.output.map (·.untimed) = real.output.map (·.untimed)

/-- The report of a dry run beside that of the run in earnest. -/
structure Report.Foretells (dry real : Report) : Prop where
  planId : dry.planId = real.planId
  status : dry.status = real.status
  steps : List.Forall₂ StepRecord.Foretells dry.steps real.steps
  /-- The dry run is marked as one, and that is all that is noted beside the records. -/
  annotations : dry.annotations = real.annotations.insert "dryRun" "true"
  unmarked : real.annotations.get? "dryRun" = none

theorem StepRecord.foretells_of_untimed {dry real : StepRecord}
    (h : dry.untimed = real.untimed.rehearsed) : dry.Foretells real := by
  unfold rehearsed at h
  by_cases hdone : real.status = .succeeded
  · rw [if_pos (show real.untimed.status = .succeeded from hdone)] at h
    obtain ⟨hid, hhost, hstatus, -, -, herror, houtput, hannotations⟩ := StepRecord.mk.inj h
    exact ⟨hid, hhost, hstatus, herror, hannotations, fun _ => houtput, fun hne => absurd hdone hne⟩
  · rw [if_neg (show real.untimed.status ≠ .succeeded from hdone)] at h
    obtain ⟨hid, hhost, hstatus, -, -, herror, houtput, hannotations⟩ := StepRecord.mk.inj h
    exact ⟨hid, hhost, hstatus, herror, hannotations, fun h => absurd h hdone, fun _ => houtput⟩

theorem Report.foretells_of_untimed {dry real : Report}
    (h : dry.untimed = real.mapRecords (·.untimed.rehearsed)) (hbare : real.annotations = .empty) :
    dry.markDryRun.Foretells real := by
  obtain ⟨hid, hstatus, hsteps, hannotations⟩ := Report.mk.inj h
  refine ⟨hid, hstatus, ?_, congrArg (fun d : Annotations => d.insert "dryRun" "true") hannotations,
    ?_⟩
  · have hall : List.Forall₂ (fun d r => d.untimed = r.untimed.rehearsed) dry.steps real.steps := by
      rw [← List.forall₂_eq_eq_eq, List.forall₂_map_left_iff, List.forall₂_map_right_iff] at hsteps
      exact hsteps
    exact hall.imp fun _ _ => StepRecord.foretells_of_untimed
  · rw [hbare]
    rfl

/-- Merging notes nothing beside the records. -/
theorem Report.foldl_merge_annotations (reports : List Report) (report : Report) :
    (reports.foldl .merge report).annotations = report.annotations := by
  induction reports generalizing report with
  | nil => rfl
  | cons other rest ih => exact ih _

theorem Runner.runParts_annotations (r : Runner) (slice : Slice) (planId : String) :
    (r.runParts slice planId).1.annotations = .empty := by
  rw [runParts_eq, Report.foldl_merge_annotations]
  unfold globals runGlobals
  split <;> rfl

/-- What two runs come to: the same refusal, or reports of which the first foretells the second. -/
inductive Foretold {ε : Type} : Except ε Report → Except ε Report → Prop where
  | refused (e : ε) : Foretold (.error e) (.error e)
  | ran {dry real : Report} (h : dry.Foretells real) : Foretold (.ok dry) (.ok real)

theorem Foretold.exists_of_ok {ε : Type} {result : Except ε Report} {real : Report}
    (h : Foretold result (.ok real)) : ∃ dry, result = .ok dry ∧ dry.Foretells real := by
  cases h with
  | ran hreports => exact ⟨_, rfl, hreports⟩

theorem Foretold.mapError {ε ε' : Type} {dry real : Except ε Report} (h : Foretold dry real)
    (f : ε → ε') : Foretold (dry.mapError f) (real.mapError f) := by
  cases h with
  | refused e => exact .refused (f e)
  | ran hreports => exact .ran hreports

/-! ### Runs of plans and of host plans -/

namespace Runner

variable {registry registry' : Registry Executor} {options options' : RunOptions}
variable {now now' : String}

theorem Rehearses.execute (h : Rehearses ⟨registry, options, now⟩ ⟨registry', options', now'⟩)
    (plan : Plan) : Foretold
      (((Engine.ofRegistry registry).execute now ⟨plan, options⟩).1.map (·.report))
      (((Engine.ofRegistry registry').execute now' ⟨plan, options'⟩).1.map (·.report)) := by
  cases hversion : Engine.checkVersion plan with
  | error e =>
    simp only [Engine.execute, hversion]
    exact .refused e
  | ok u =>
    cases hslice : plan.slice with
    | error e =>
      simp only [Engine.execute, hversion, hslice]
      exact .refused _
    | ok slice =>
      obtain ⟨-, rfl⟩ := Plan.slice_eq_ok_iff.mp hslice
      cases herror : plan.cut.runError? plan.id with
      | some e =>
        simp only [Engine.execute, hversion, hslice, dispatch, herror]
        exact .refused _
      | none =>
        have hdry : options.dryRun = true := h.dryRun
        have hreal : options'.dryRun = false := h.inEarnest
        simp only [Engine.execute, hversion, hslice, dispatch, herror, hdry, hreal]
        have hreports := h.corresponds.runParts plan.cut_keyed plan.id
        exact .ran (Report.foretells_of_untimed hreports (runParts_annotations _ _ _))

theorem Rehearses.runHostPlan {dry real : Runner} (h : Rehearses dry real) (plan : HostPlan) :
    Foretold ((dry.runHostPlan plan).map (·.1.markDryRun)) ((real.runHostPlan plan).map (·.1)) := by
  unfold Runner.runHostPlan
  cases plan.runError? with
  | some e => exact .refused e
  | none =>
    have hreports := h.corresponds.runSteps plan.planId plan.host plan.steps
    exact .ran (Report.foretells_of_untimed hreports rfl)

end Runner

namespace Config

theorem foldl_register_rel {R : Executor → Executor → Prop} {executor executor' : Executor}
    (hexecutor : R executor executor') (actions : List Action)
    {registry registry' : Registry Executor}
    (h : ∀ action, Option.Rel R (registry.get? action) (registry'.get? action)) (action : Action) :
    Option.Rel R ((actions.foldl (·.register · executor) registry).get? action)
      ((actions.foldl (·.register · executor') registry').get? action) := by
  induction actions generalizing registry registry' with
  | nil => exact h action
  | cons first rest ih =>
    refine ih fun other => ?_
    unfold Registry.register
    dsimp only
    split
    · exact .some hexecutor
    · exact h other

/-- The actions are enabled or refused whatever the time, and their executors correspond. -/
theorem registry_cases (c : Config) (now now' : String) :
    (∃ e, c.registry now = .error e ∧ c.registry now' = .error e) ∨
      ∃ registry registry', c.registry now = .ok registry ∧ c.registry now' = .ok registry' ∧
        ∀ action, Option.Rel Executor.Rehearses (registry.get? action) (registry'.get? action) := by
  unfold Config.registry
  cases c.enabledActions with
  | error e => exact .inl ⟨e, rfl, rfl⟩
  | ok actions =>
    refine .inr ⟨_, _, rfl, rfl, ?_⟩
    exact foldl_register_rel (validatingExecutor_rehearses now now') actions fun _ => .none

variable {c : Config} {registry registry' : Registry Executor} {now now' : String}

theorem runPlan_of_registry (h : c.registry now = .ok registry) (o : Overrides) (plan : Plan) :
    (c.runPlan now o plan).1 =
      (((Engine.ofRegistry registry).execute now ⟨plan, c.runOptions o⟩).1.map (·.report)).mapError
        fun e => ⟨"Failed to execute plan " ++ plan.id, [e.message]⟩ := by
  unfold runPlan
  rw [h]
  dsimp only
  cases ((Engine.ofRegistry registry).execute now ⟨plan, c.runOptions o⟩).1 <;> rfl

theorem runHostPlan_of_registry (h : c.registry now = .ok registry) (o : Overrides)
    (plan : HostPlan) : (c.runHostPlan now o plan).1 =
      ((Runner.runHostPlan ⟨registry, c.runOptions o, now⟩ plan).map fun ran =>
        if (c.runOptions o).dryRun then ran.1.markDryRun else ran.1).mapError
          fun e => ⟨"Cannot run host plan for " ++ plan.host.id, [e.message]⟩ := by
  unfold runHostPlan
  rw [h]
  dsimp only
  cases Runner.runHostPlan ⟨registry, c.runOptions o, now⟩ plan <;> rfl

/--
**A dry run foretells the run in earnest.**  Under a configuration that does not itself ask for
dry runs, with any limit on the hosts and any choice of steps, a plan or a host plan is refused
for the same reason in both runs, or both give a report: of the same plan, with the same status
and the same records, except that the dry run puts one more line behind the output of each
success and is marked as one.  The runs may take place at any times.
-/
theorem dry_run_foretells (hconfig : c.dryRun = false) (jobs : Option (Json.IntIn .count))
    (steps : List String) (now now' : String) :
    (∀ plan : Plan, Foretold (c.runPlan now ⟨true, jobs, steps⟩ plan).1
      (c.runPlan now' ⟨false, jobs, steps⟩ plan).1) ∧
    ∀ plan : HostPlan, Foretold (c.runHostPlan now ⟨true, jobs, steps⟩ plan).1
      (c.runHostPlan now' ⟨false, jobs, steps⟩ plan).1 := by
  rcases c.registry_cases now now' with ⟨e, hdry, hreal⟩ | ⟨registry, registry', hdry, hreal, hrel⟩
  · unfold runPlan runHostPlan
    rw [hdry, hreal]
    exact ⟨fun _ => .refused _, fun _ => .refused _⟩
  · have hrehearses : Runner.Rehearses ⟨registry, c.runOptions ⟨true, jobs, steps⟩, now⟩
        ⟨registry', c.runOptions ⟨false, jobs, steps⟩, now'⟩ := ⟨hrel, rfl, rfl, hconfig⟩
    constructor
    · intro plan
      rw [runPlan_of_registry hdry, runPlan_of_registry hreal]
      exact (hrehearses.execute plan).mapError _
    · intro plan
      rw [runHostPlan_of_registry hdry, runHostPlan_of_registry hreal]
      have hflag : (c.runOptions ⟨false, jobs, steps⟩).dryRun = false := hconfig
      rw [hflag]
      exact (hrehearses.runHostPlan plan).mapError _

/-- A step that succeeds, one whose inputs are missing, and one that is not attempted after it. -/
def halting : HostPlan :=
  ⟨schemaVersion, "p", .named "h", [.ofStep (.bare "a" .zero .noop (.named "h")),
    .ofStep (.bare "b" .zero .build (.named "h")), .ofStep (.bare "c" .zero .noop (.named "h"))],
    .empty⟩

/-- Both for a host plan that fails on the way and for a plan that succeeds. -/
theorem dry_run_foretells_of_halting : Config.default.dryRun = false ∧
    (∃ dry real, (Config.default.runHostPlan "1" ⟨true, none, []⟩ halting).1 = .ok dry ∧
      (Config.default.runHostPlan "2" ⟨false, none, []⟩ halting).1 = .ok real ∧
      real.steps.map (·.status) = [.succeeded, .failed, .skipped] ∧ dry.Foretells real) ∧
    ∃ dry real, (Config.default.runPlan "1" ⟨true, none, []⟩ Runner.twoHosts).1 = .ok dry ∧
      (Config.default.runPlan "2" ⟨false, none, []⟩ Runner.twoHosts).1 = .ok real ∧
      real.status = .succeeded ∧ dry.Foretells real := by
  have hconfig : Config.default.dryRun = false := rfl
  have hhalting : ∃ real, (Config.default.runHostPlan "2" ⟨false, none, []⟩ halting).1 = .ok real ∧
      real.steps.map (·.status) = [.succeeded, .failed, .skipped] := ⟨_, by cbv, by decide +kernel⟩
  have htwo : ∃ real, (Config.default.runPlan "2" ⟨false, none, []⟩ Runner.twoHosts).1 = .ok real ∧
      real.status = .succeeded := ⟨_, by cbv, by decide +kernel⟩
  obtain ⟨hplans, hhostPlans⟩ := dry_run_foretells hconfig none [] "1" "2"
  refine ⟨hconfig, ?_, ?_⟩
  · obtain ⟨real, hreal, hstatuses⟩ := hhalting
    obtain ⟨dry, hdry, hforetells⟩ := (hreal ▸ hhostPlans halting).exists_of_ok
    exact ⟨dry, real, hdry, hreal, hstatuses, hforetells⟩
  · obtain ⟨real, hreal, hstatus⟩ := htwo
    obtain ⟨dry, hdry, hforetells⟩ := (hreal ▸ hplans Runner.twoHosts).exists_of_ok
    exact ⟨dry, real, hdry, hreal, hstatus, hforetells⟩

end Config

end FleetPlan
