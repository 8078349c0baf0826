/-
Reports: what became of each step.

A report lists one record for each step, and its status follows from the records:
one failure makes the run failed, and short of that one step that did not succeed
makes it incomplete.  A step that was not attempted says why by a code.
-/
import FleetPlan.Host

namespace FleetPlan

open Json

/-! ### Status -/

/-- What became of a run. -/
inductive RunStatus where
  | succeeded
  | failed
  /-- Nothing failed, but not everything was done. -/
  | incomplete
  deriving DecidableEq, Repr, Inhabited

namespace RunStatus

def all : List RunStatus := [succeeded, failed, incomplete]

def name : RunStatus → String
  | succeeded => "succeeded"
  | failed => "failed"
  | incomplete => "partial"

end RunStatus

/-- What became of a step. -/
inductive StepStatus where
  | pending
  | running
  | succeeded
  | failed
  | skipped
  deriving DecidableEq, Repr, Inhabited

namespace StepStatus

def all : List StepStatus := [pending, running, succeeded, failed, skipped]

def name : StepStatus → String
  | pending => "pending"
  | running => "running"
  | succeeded => "succeeded"
  | failed => "failed"
  | skipped => "skipped"

end StepStatus

/-! ### Records -/

/-- Where a line of output came from. -/
inductive OutputStream where
  | stdout
  | stderr
  | system
  deriving DecidableEq, Repr, Inhabited

namespace OutputStream

def all : List OutputStream := [stdout, stderr, system]

def name : OutputStream → String
  | stdout => "stdout"
  | stderr => "stderr"
  | system => "system"

end OutputStream

/-- A line that a step put out. -/
structure OutputLine where
  time : String
  stream : OutputStream
  message : String
  deriving DecidableEq, Repr, Inhabited

namespace OutputLine

def shape : Shape OutputLine :=
  .record "LogLine" true
    (.field "time" .unlessEmpty .text <|
     .field "stream" .required (.choice OutputStream.all OutputStream.name) <|
     .field "message" .required .text .done)
    (fun (time, stream, message, ()) => ⟨time, stream, message⟩)
    (fun l => (l.time, l.stream, l.message, ()))

end OutputLine

/-- Why a step did not succeed. -/
structure StepError where
  code : String
  message : String
  deriving DecidableEq, Repr, Inhabited

namespace StepError

def shape : Shape StepError :=
  .record "ExecutionError" true
    (.field "code" .unlessEmpty .text <|
     .field "message" .required .text .done)
    (fun (code, message, ()) => ⟨code, message⟩)
    (fun e => (e.code, e.message, ()))

end StepError

/-- The codes of the errors that a run records. -/
inductive StepErrorCode where
  /-- The step was attempted and failed. -/
  | executionError
  /-- Nothing carries out the step's action. -/
  | noExecutor
  | dependencyNotCompleted
  /-- A global step that the host waits for did not succeed. -/
  | globalDependencyUnmet
  /-- An earlier step of the list failed. -/
  | halted
  /-- The step was not asked for. -/
  | filtered
  deriving DecidableEq, Repr

namespace StepErrorCode

def name : StepErrorCode → String
  | executionError => "EXECUTION_ERROR"
  | noExecutor => "NO_EXECUTOR"
  | dependencyNotCompleted => "DEPENDENCY_NOT_COMPLETED"
  | globalDependencyUnmet => "GLOBAL_DEPENDENCY_UNMET"
  | halted => "HALTED"
  | filtered => "FILTERED"

end StepErrorCode

/-- What became of one step. -/
structure StepRecord where
  stepId : String
  host : Host
  status : StepStatus
  startedAt : String
  completedAt : String
  error : Option StepError
  output : List OutputLine
  annotations : Annotations
  deriving DecidableEq, Inhabited

namespace StepRecord

/-- A step that has not been started. -/
def pending (stepId : String) (host : Host) : StepRecord :=
  ⟨stepId, host, .pending, "", "", none, [], .empty⟩

/-- A step that will not be attempted, with a code for the reason. -/
def skippedAs (stepId : String) (host : Host) (code message : String) : StepRecord :=
  { pending stepId host with status := .skipped, error := some ⟨code, message⟩ }

def skipped (stepId : String) (host : Host) (code : StepErrorCode) (message : String) :
    StepRecord :=
  skippedAs stepId host code.name message

def code? (r : StepRecord) : Option String := r.error.map (·.code)

def shape : Shape StepRecord :=
  .record "StepExecution" true
    (.field "stepId" .required .text <|
     .field "host" .required Host.shape <|
     .field "status" .required (.choice StepStatus.all StepStatus.name) <|
     .field "startedAt" .unlessEmpty .text <|
     .field "completedAt" .unlessEmpty .text <|
     .field "error" .unlessNone (.nullable StepError.shape) <|
     .field "logs" .unlessNil (.list OutputLine.shape) <|
     .field "meta" .unlessBare .annotations .done)
    (fun (stepId, host, status, startedAt, completedAt, error, output, annotations, ()) =>
      ⟨stepId, host, status, startedAt, completedAt, error, output, annotations⟩)
    (fun r => (r.stepId, r.host, r.status, r.startedAt, r.completedAt, r.error, r.output,
      r.annotations, ()))

end StepRecord

/-! ### Reports -/

/-- The status of a run whose steps became these. -/
def aggregateStatus (steps : List StepRecord) : RunStatus :=
  if steps.any (·.status == .failed) then .failed
  else if steps.any (·.status != .succeeded) then .incomplete
  else .succeeded

structure Report where
  planId : String
  status : RunStatus
  steps : List StepRecord
  annotations : Annotations
  deriving DecidableEq, Inhabited

/-- How many steps came to which status. -/
structure ReportSummary where
  succeeded : Nat
  failed : Nat
  skipped : Nat
  /-- Pending or running. -/
  other : Nat
  deriving DecidableEq, Repr

namespace ReportSummary

def total (s : ReportSummary) : Nat := s.succeeded + s.failed + s.skipped + s.other

end ReportSummary

namespace Report

/-- A report with the status that its steps have. -/
def ofSteps (planId : String) (steps : List StepRecord) : Report :=
  ⟨planId, aggregateStatus steps, steps, .empty⟩

/-- The report with the steps of another one behind its own. -/
def merge (r other : Report) : Report :=
  let steps := r.steps ++ other.steps
  { r with steps := steps, status := aggregateStatus steps }

def countOf (r : Report) (statuses : List StepStatus) : Nat :=
  r.steps.countP fun s => statuses.contains s.status

def summary (r : Report) : ReportSummary :=
  ⟨r.countOf [.succeeded], r.countOf [.failed], r.countOf [.skipped],
    r.countOf [.pending, .running]⟩

/-- The record of a step, the first one if there are several. -/
def step? (r : Report) (id : String) : Option StepRecord := r.steps.find? (·.stepId == id)

/-- The report marked as that of a dry run. -/
def markDryRun (r : Report) : Report :=
  { r with annotations := r.annotations.insert "dryRun" "true" }

def shape : Shape Report :=
  .record "ExecutionReport" true
    (.field "planId" .required .text <|
     .field "status" .required (.choice RunStatus.all RunStatus.name) <|
     .field "steps" .required (.list StepRecord.shape) <|
     .field "meta" .unlessBare .annotations .done)
    (fun (planId, status, steps, annotations, ()) => ⟨planId, status, steps, annotations⟩)
    (fun r => (r.planId, r.status, r.steps, r.annotations, ()))

end Report

end FleetPlan
