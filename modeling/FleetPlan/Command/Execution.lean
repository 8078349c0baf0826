/-
Running plans as configured.

The actions that the configuration enables are carried out by checking their
inputs, which is all that this program does itself; steps of other actions are
left undone.  A run gives its report and the trace of what happened.
-/
import FleetPlan.Config.Basic
import FleetPlan.Engine
import FleetPlan.Inputs.Validation

namespace FleetPlan

namespace Config

/-- What carries out the enabled actions. -/
def registry (c : Config) (now : String) : Except ConfigError (Registry Executor) := do
  let actions ← c.enabledActions
  return actions.foldl (fun r a => r.register a (validatingExecutor now)) .empty

def registryRecord (registry : Registry Executor) : LogRecord :=
  ⟨.debug, .console, "Executor registry: " ++ registry.listing⟩

/-- Runs a plan with all its hosts. -/
def runPlan (c : Config) (now : String) (o : Overrides) (plan : Plan) :
    Except Failure Report × Trace :=
  match c.registry now with
  | .error e => (.error e.failure, [])
  | .ok registry =>
    let (result, trace) := (Engine.ofRegistry registry).execute now ⟨plan, c.runOptions o⟩
    let report := match result with
      | .ok response => .ok response.report
      | .error e => .error ⟨"Failed to execute plan " ++ plan.id, [e.message]⟩
    (report, .logged (registryRecord registry) :: trace)

/-- Runs the plan of one host. -/
def runHostPlan (c : Config) (now : String) (o : Overrides) (plan : HostPlan) :
    Except Failure Report × Trace :=
  match c.registry now with
  | .error e => (.error e.failure, [])
  | .ok registry =>
    let options := c.runOptions o
    let told : RunEvent := .logged (registryRecord registry)
    match Runner.runHostPlan ⟨registry, options, now⟩ plan with
    | .error e => (.error ⟨"Cannot run host plan for " ++ plan.host.id, [e.message]⟩, [told])
    | .ok (report, trace) =>
      (.ok (if options.dryRun then report.markDryRun else report), told :: trace)

end Config

end FleetPlan
