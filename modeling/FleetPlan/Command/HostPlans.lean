/-
The command that runs the plan of one host.
-/
import FleetPlan.Command.Documents
import FleetPlan.Command.Execution

namespace FleetPlan

namespace CommandM

variable {m : Type → Type} [Monad m] [MonadFiles m]

/-- Runs a host plan. -/
def runHostPlan (path : String) (run : RunArguments) : CommandM m Unit := do
  let config ← loadConfig
  let plan ← loadHostPlan path
  log ⟨.info, .agentCommand, "Running " ++ toString plan.steps.length ++ " steps of plan " ++
    plan.planId ++ " on " ++ plan.host.id⟩
  let (result, trace) := config.runHostPlan (← read).now ⟨run.dryRun, none, run.steps⟩ plan
  showTrace trace
  let report ← MonadExcept.ofExcept result
  emitReport report run.output

end CommandM

end FleetPlan
