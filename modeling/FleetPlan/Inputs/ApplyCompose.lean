/-
Inputs of applying a compose file.

Whether images are pulled and whether the services are detached has to be said;
neither has a default.
-/
import FleetPlan.Inputs.Basic

namespace FleetPlan

open Json

structure ApplyComposeInputs where
  environment : String
  composePath : String
  projectName : String
  pull : Option Bool
  detach : Option Bool
  services : List String
  expectedHashAlgorithm : String
  expectedHash : String
  deriving DecidableEq, Repr, Inhabited

namespace ApplyComposeInputs

def shape : Shape ApplyComposeInputs :=
  .record "ApplyComposeInputs" true
    (.field "environment" .required .text <|
     .field "compose_path" .required .text <|
     .field "project_name" .required .text <|
     .field "pull" (.optional none) (.nullable .flag) <|
     .field "detach" (.optional none) (.nullable .flag) <|
     .field "services" .unlessNil .texts <|
     .field "expected_compose_hash_alg" .unlessEmpty .text <|
     .field "expected_compose_hash" .unlessEmpty .text .done)
    (fun (environment, composePath, projectName, pull, detach, services, algorithm, hash, ()) =>
      ⟨environment, composePath, projectName, pull, detach, services, algorithm, hash⟩)
    (fun a => (a.environment, a.composePath, a.projectName, a.pull, a.detach, a.services,
      a.expectedHashAlgorithm, a.expectedHash, ()))

def normalize (a : ApplyComposeInputs) : Except InputsError ApplyComposeInputs := do
  let composePath ← normalPath "compose_path" a.composePath
  return ⟨Text.trim a.environment, composePath, Text.trim a.projectName, a.pull, a.detach,
    normalList a.services, Text.trim a.expectedHashAlgorithm, Text.trim a.expectedHash⟩

def validate (a : ApplyComposeInputs) : Except InputsError Unit := do
  requireText "environment" a.environment
  requireText "compose_path" a.composePath
  requireText "project_name" a.projectName
  demand "pull" a.pull.isSome .requiredExplicitly
  demand "detach" a.detach.isSome .requiredExplicitly
  requireEntries "services" a.services
  requireHash a.expectedHashAlgorithm a.expectedHash

instance : StepInputs ApplyComposeInputs := ⟨.applyCompose, shape, normalize, validate⟩

end ApplyComposeInputs

end FleetPlan
