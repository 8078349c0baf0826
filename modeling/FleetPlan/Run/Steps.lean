/-
Running a list of steps.

Steps run one after another in the order of the list.  A step is attempted unless
one failed before it, it was not asked for, or something it depends on did not
succeed; only success counts for those that depend on it.  `Runner.runStep` says
what becomes of a step given the `Progress` so far, and `Runner.runFrom` is the
loop over it.
-/
import FleetPlan.Run.Basic
import FleetPlan.Run.Order

namespace FleetPlan

/-- Everything about a run but the steps. -/
structure Runner where
  registry : Registry Executor
  options : RunOptions
  /-- The time that records carry. -/
  now : String

/-- What has become of the steps so far, as far as it matters for the next one. -/
structure Progress where
  succeeded : List String
  /-- The step that failed, after which nothing is attempted. -/
  failed : Option String
  deriving DecidableEq, Repr

namespace Progress

def start : Progress := ⟨[], none⟩

def after (p : Progress) (r : StepRecord) : Progress :=
  match r.status with
  | .succeeded => { p with succeeded := r.stepId :: p.succeeded }
  | .failed => { p with failed := some r.stepId }
  | _ => p

end Progress

namespace Runner

variable (r : Runner)

/-! ### One step -/

/-- What is done with a step. -/
inductive Decision where
  | skip (code : StepErrorCode) (message : String)
  | attempt (executor : Executor)

/-- What is done with the next step. -/
def decision (p : Progress) (step : HostStep) : Decision :=
  match p.failed with
  | some failed => .skip .halted ("step " ++ Text.quoted failed ++ " failed earlier on this host")
  | none =>
    if !r.options.includes step.id then .skip .filtered "excluded by step filter"
    else match step.dependsOn.find? (!p.succeeded.contains ·) with
      | some d =>
        .skip .dependencyNotCompleted ("dependency " ++ Text.quoted d ++ " did not complete")
      | none => match r.registry.get? step.action with
        | some executor => .attempt executor
        | none =>
          .skip .noExecutor ("no executor registered for action " ++ Text.quoted step.action.name)

/-- A step that is passed over. -/
def skip (c : RunContext) (step : HostStep) (code : StepErrorCode) (message : String) :
    StepRecord × Trace :=
  (.skipped step.id c.host code message,
   [.logged ⟨.debug, .executor, "Skipping step " ++ Text.quoted step.id ++ " on " ++ c.host.label ++
     " (" ++ code.name ++ "): " ++ message⟩])

/-- The record of an attempted step. -/
def recordOf (c : RunContext) (step : HostStep) :
    Except Failure (List OutputLine) → StepRecord
  | .ok output =>
    { StepRecord.pending step.id c.host with
      status := .succeeded, startedAt := r.now, completedAt := r.now, output := output }
  | .error f =>
    { StepRecord.pending step.id c.host with
      status := .failed, startedAt := r.now, completedAt := r.now
      error := some ⟨StepErrorCode.executionError.name, f.line⟩
      output := [⟨r.now, .stderr, f.line⟩] }

/-- A step that is attempted. -/
def attempt (c : RunContext) (step : HostStep) (executor : Executor) : StepRecord × Trace :=
  let result := executor step c
  let told : Trace := match result with
    | .ok _ => []
    | .error f =>
      [.logged ⟨.warn, .executor,
        "Step " ++ Text.quoted step.id ++ " on " ++ c.host.label ++ " failed: " ++ f.line⟩]
  (r.recordOf c step result, .called step c :: told)

/-- What becomes of the next step. -/
def runStep (c : RunContext) (p : Progress) (step : HostStep) : StepRecord × Trace :=
  match r.decision p step with
  | .attempt executor => r.attempt c step executor
  | .skip code message => skip c step code message

/-! ### All steps -/

/-- The records of the steps, and what happened, from the progress made before them. -/
def runFrom (c : RunContext) : Progress → List HostStep → List StepRecord × Trace
  | _, [] => ([], [])
  | p, step :: rest =>
    let (record, trace) := r.runStep c p step
    let (records, later) := runFrom c (p.after record) rest
    (record :: records, trace ++ .recorded record :: later)

/-- Runs steps on a host, whose order has been found right. -/
def runSteps (planId : String) (host : Host) (steps : List HostStep) : Report × Trace :=
  let (records, trace) := r.runFrom ⟨planId, host, r.options.dryRun⟩ .start steps
  let report := Report.ofSteps planId records
  (report, .started host steps.length :: trace ++ [.finished host report])

/-- Runs a host plan, or refuses it before anything is done. -/
def runHostPlan (plan : HostPlan) : Except RunError (Report × Trace) :=
  match plan.runError? with
  | some e => .error e
  | none => .ok (r.runSteps plan.planId plan.host plan.steps)

end Runner

end FleetPlan
