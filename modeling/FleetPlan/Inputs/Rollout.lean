/-
Inputs of a rollout.
-/
import FleetPlan.Inputs.Basic

namespace FleetPlan

open Json

structure RolloutInputs where
  mode : String
  batchSize : Option (IntIn .signed64)
  targets : List String
  deriving DecidableEq, Repr, Inhabited

namespace RolloutInputs

def shape : Shape RolloutInputs :=
  .record "RolloutInputs" true
    (.field "mode" .required .text <|
     .field "batch_size" .unlessNone (.nullable (.integer .signed64)) <|
     .field "targets" .unlessNil .texts .done)
    (fun (mode, batchSize, targets, ()) => ⟨mode, batchSize, targets⟩)
    (fun r => (r.mode, r.batchSize, r.targets, ()))

def normalize (r : RolloutInputs) : Except InputsError RolloutInputs :=
  .ok ⟨Text.trim r.mode, r.batchSize, normalList r.targets⟩

def validate (r : RolloutInputs) : Except InputsError Unit := do
  requireText "mode" r.mode
  requirePositive "batch_size" r.batchSize
  requireEntries "targets" r.targets

instance : StepInputs RolloutInputs := ⟨.rollout, shape, normalize, validate⟩

end RolloutInputs

end FleetPlan
