/-
What a caller asks of planning and of a run.
-/
import FleetPlan.Json.Record

namespace FleetPlan

open Json

/-- What a plan is made for. -/
structure PlanOptions where
  environment : String
  deriving DecidableEq, Repr, Inhabited

namespace PlanOptions

def default : PlanOptions := ⟨""⟩

def shape : Shape PlanOptions :=
  .record "PlanOptions" true (.field "environment" .unlessEmpty .text .done)
    (fun (environment, ()) => ⟨environment⟩)
    (fun o => (o.environment, ()))

end PlanOptions

/-- How a plan is run. -/
structure RunOptions where
  /-- Nothing is to be changed. -/
  dryRun : Bool
  /-- How many hosts may run at a time; zero sets no limit. -/
  maxParallel : IntIn .count
  /-- The steps to run; when there are none, all of them. -/
  stepFilter : List String
  deriving DecidableEq, Repr, Inhabited

namespace RunOptions

def default : RunOptions := ⟨false, .zero, []⟩

/-- Whether a step is to run. -/
def includes (o : RunOptions) (stepId : String) : Bool :=
  o.stepFilter.isEmpty || o.stepFilter.contains stepId

def shape : Shape RunOptions :=
  .record "ExecOptions" true
    (.field "dryRun" .unlessFalse .flag <|
     .field "maxParallel" .unlessZero (.integer .count) <|
     .field "stepFilter" .unlessNil .texts .done)
    (fun (dryRun, maxParallel, stepFilter, ()) => ⟨dryRun, maxParallel, stepFilter⟩)
    (fun o => (o.dryRun, o.maxParallel, o.stepFilter, ()))

end RunOptions

end FleetPlan
