/-
The engine: plans are computed, run, and hosts inspected.

An engine is put together from a planner, executors and inspectors.  Snapshots
are in canonical order before a planner sees them, and a plan that a planner
returns without an id gets the id of its content.
-/
import FleetPlan.Dispatch
import FleetPlan.Exchange
import FleetPlan.PlanId
import FleetPlan.Slice.Cut

namespace FleetPlan

abbrev Planner := Snapshot .topology → Snapshot .state → PlanOptions → Except Failure Plan

abbrev Inspector := Host → Except Failure (Snapshot .state)

structure Engine where
  planner : Option Planner
  registry : Registry Executor
  /-- The inspectors by the runtime they look at. -/
  inspectors : Dict Inspector

/-- Why an engine does not do what it was asked for. -/
inductive EngineError where
  | planVersion (planId found : String)
  | slice (error : SliceError)
  | run (error : RunError)
  | missingPlanner
  | unknownRuntime (runtime : String)
  /-- A planner or an inspector failed. -/
  | collaborator (stage : String) (cause : Failure)
  deriving DecidableEq, Repr

namespace EngineError

def message : EngineError → String
  | planVersion planId found =>
    "plan " ++ Text.quoted planId ++ " has schema version " ++ Text.quoted found ++ ", expected " ++
      Text.quoted schemaVersion
  | slice e => e.message
  | run e => e.message
  | missingPlanner => "no planner configured"
  | unknownRuntime runtime =>
    "no state inspector registered for runtime " ++ Text.quoted runtime
  | collaborator stage cause => stage ++ " failed: " ++ cause.line

end EngineError

namespace Slice

/-- What is told when a plan has been cut. -/
def cutRecord (slice : Slice) (planId : String) : LogRecord :=
  ⟨.debug, .slice, "Sliced plan " ++ Text.quoted planId ++ ": " ++
    toString slice.hostPlans.size ++ " host plan(s), " ++
    toString slice.globalSteps.length ++ " global step(s), " ++
    toString slice.globalRefs.size ++ " step(s) waiting on globals"⟩

end Slice

namespace Engine

/-- An engine that can only run plans. -/
def ofRegistry (registry : Registry Executor) : Engine := ⟨none, registry, .empty⟩

/-- Demands the current version. -/
def checkVersion (plan : Plan) : Except EngineError Unit :=
  if plan.version = schemaVersion then .ok () else .error (.planVersion plan.id plan.version)

/-- The plan with an id: its own, or that of its content. -/
def identified (plan : Plan) (environment : String) : Plan :=
  if plan.id.isEmpty then { plan with id := plan.derivedId environment } else plan

/-- Asks the planner for a plan that can be cut. -/
def compute (engine : Engine) (request : ComputeRequest) : Except EngineError ComputeResponse := do
  let planner ← match engine.planner with
    | some planner => .ok planner
    | none => .error .missingPlanner
  let plan ← (planner request.topology.canonical request.state.canonical request.options).mapError
    (.collaborator "compute plan")
  checkVersion plan
  let plan := identified plan request.options.environment
  let _ ← plan.slice.mapError .slice
  return ⟨plan⟩

/-- Cuts a plan and runs its parts; the time is what the records carry. -/
def execute (engine : Engine) (now : String) (request : ExecuteRequest) :
    Except EngineError ExecuteResponse × Trace :=
  let plan := request.plan
  match checkVersion plan with
  | .error e => (.error e, [])
  | .ok _ =>
    match plan.slice with
    | .error e => (.error (.slice e), [])
    | .ok slice =>
      let cut : RunEvent := .logged (slice.cutRecord plan.id)
      let runner : Runner := ⟨engine.registry, request.options, now⟩
      match runner.dispatch slice plan.id with
      | .error e => (.error (.run e), [cut])
      | .ok (report, trace) =>
        let report := if request.options.dryRun then report.markDryRun else report
        let done : RunEvent := .logged
          ⟨.info, .engine, "Plan " ++ plan.id ++ " finished: " ++ report.status.name⟩
        (.ok ⟨report⟩, cut :: trace ++ [done])

/-- Asks an inspector what is there on a host. -/
def inspect (engine : Engine) (request : InspectRequest) : Except EngineError InspectResponse :=
  match engine.inspectors.get? request.runtime with
  | none => .error (.unknownRuntime request.runtime)
  | some inspector =>
    match inspector request.host with
    | .error cause => .error (.collaborator "inspect state" cause)
    | .ok state => .ok ⟨state.canonical⟩

end Engine

end FleetPlan
