/-
Inputs of rendering a compose file.

The base is a file or a text, never both, and overlays are laid over it in the
order of their names.
-/
import FleetPlan.Inputs.Basic

namespace FleetPlan

open Json

structure ComposeOverlay where
  name : String
  path : String
  deriving DecidableEq, Repr, Inhabited

namespace ComposeOverlay

def shape : Shape ComposeOverlay :=
  .record "ComposeOverlay" true
    (.field "name" .required .text <|
     .field "path" .required .text .done)
    (fun (name, path, ()) => ⟨name, path⟩)
    (fun o => (o.name, o.path, ()))

/-- The overlays with trimmed names and by name, equal names in their order. -/
def sorted (overlays : List ComposeOverlay) : List ComposeOverlay :=
  (overlays.map fun o => { o with name := Text.trim o.name }).mergeSort fun a b =>
    decide (a.name ≤ b.name)

/-- The overlays with their paths in normal form, the first having the given position. -/
def normalPaths : Nat → List ComposeOverlay → Except InputsError (List ComposeOverlay)
  | _, [] => .ok []
  | i, o :: rest => do
    let path ← normalPath ("overlays[" ++ toString i ++ "].path") o.path
    let rest ← normalPaths (i + 1) rest
    return { o with path := path } :: rest

end ComposeOverlay

structure RenderComposeInputs where
  environment : String
  basePath : String
  baseInline : String
  overlays : List ComposeOverlay
  assignments : List KeyValue
  outputPath : String
  expectedHashAlgorithm : String
  expectedHash : String
  deriving DecidableEq, Repr, Inhabited

namespace RenderComposeInputs

def shape : Shape RenderComposeInputs :=
  .record "RenderComposeInputs" true
    (.field "environment" .required .text <|
     .field "base_compose_path" .unlessEmpty .text <|
     .field "base_compose_inline" .unlessEmpty .text <|
     .field "overlays" .unlessNil (.list ComposeOverlay.shape) <|
     .field "variables" .unlessNil (.list KeyValue.shape) <|
     .field "output_path" .required .text <|
     .field "expected_compose_hash_alg" .unlessEmpty .text <|
     .field "expected_compose_hash" .unlessEmpty .text .done)
    (fun (environment, basePath, baseInline, overlays, assignments, outputPath, algorithm, hash,
        ()) =>
      ⟨environment, basePath, baseInline, overlays, assignments, outputPath, algorithm, hash⟩)
    (fun r => (r.environment, r.basePath, r.baseInline, r.overlays, r.assignments, r.outputPath,
      r.expectedHashAlgorithm, r.expectedHash, ()))

def normalize (r : RenderComposeInputs) : Except InputsError RenderComposeInputs := do
  let overlays ← ComposeOverlay.normalPaths 0 (ComposeOverlay.sorted r.overlays)
  let basePath := Text.trim r.basePath
  let basePath ← if basePath.isEmpty then .ok basePath else normalPath "base_compose_path" basePath
  let outputPath ← normalPath "output_path" r.outputPath
  return ⟨Text.trim r.environment, basePath, Text.trim r.baseInline, overlays,
    normalPairs r.assignments, outputPath, Text.trim r.expectedHashAlgorithm,
    Text.trim r.expectedHash⟩

def validate (r : RenderComposeInputs) : Except InputsError Unit := do
  requireText "environment" r.environment
  requireText "output_path" r.outputPath
  requireExactlyOne "base_compose_path" (!r.basePath.isEmpty) (!r.baseInline.isEmpty)
    "base_compose_path" "base_compose_inline"
  requireHash r.expectedHashAlgorithm r.expectedHash
  demand "overlays.name" (!r.overlays.any (·.name.isEmpty)) .required
  requireKeys "variables" r.assignments

instance : StepInputs RenderComposeInputs := ⟨.renderCompose, shape, normalize, validate⟩

end RenderComposeInputs

end FleetPlan
