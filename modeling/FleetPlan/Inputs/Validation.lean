/-
Checking inputs by action, and the executor that does nothing else.
-/
import FleetPlan.Inputs.ApplyCompose
import FleetPlan.Inputs.Build
import FleetPlan.Inputs.HealthCheck
import FleetPlan.Inputs.Migrate
import FleetPlan.Inputs.RenderCompose
import FleetPlan.Inputs.Rollout
import FleetPlan.Run.Basic

namespace FleetPlan

open Json

/-- Whether inputs of a form were there and right; actions without a form take any inputs. -/
def validateInputs (action : Action) (payload : Option Payload) : Except InputsError Bool :=
  match action with
  | .build => (decodeInputs BuildInputs payload).map fun _ => true
  | .migrate => (decodeInputs MigrateInputs payload).map fun _ => true
  | .applyCompose => (decodeInputs ApplyComposeInputs payload).map fun _ => true
  | .renderCompose => (decodeInputs RenderComposeInputs payload).map fun _ => true
  | .rollout => (decodeInputs RolloutInputs payload).map fun _ => true
  | .healthCheck => (decodeInputs HealthCheckInputs payload).map fun _ => true
  | .create | .update | .delete | .noop => .ok false

/-- An executor that checks the inputs of a step and changes nothing. -/
def validatingExecutor (now : String) : Executor := fun step context =>
  match validateInputs step.action step.inputs with
  | .error e =>
    .error ⟨"invalid inputs for step " ++ Text.quoted step.id, [e.message]⟩
  | .ok typed =>
    let verdict := if typed then " inputs valid" else " has no typed inputs to validate"
    let line (message : String) : OutputLine := ⟨now, .system, message⟩
    .ok (line (step.action.name ++ verdict) ::
      if context.dryRun then [line "dry run: no changes applied"] else [])

end FleetPlan
