/-
Inputs of an image build.
-/
import FleetPlan.Inputs.Basic

namespace FleetPlan

open Json

structure BuildInputs where
  provider : String
  workdir : String
  target : String
  dockerfile : String
  context : String
  tags : List String
  buildArgs : List KeyValue
  labels : List KeyValue
  deriving DecidableEq, Repr, Inhabited

namespace BuildInputs

def shape : Shape BuildInputs :=
  .record "BuildInputs" true
    (.field "provider" .required .text <|
     .field "workdir" .required .text <|
     .field "target" .unlessEmpty .text <|
     .field "dockerfile" .required .text <|
     .field "context" .required .text <|
     .field "tags" .unlessNil .texts <|
     .field "build_args" .unlessNil (.list KeyValue.shape) <|
     .field "labels" .unlessNil (.list KeyValue.shape) .done)
    (fun (provider, workdir, target, dockerfile, context, tags, buildArgs, labels, ()) =>
      ⟨provider, workdir, target, dockerfile, context, tags, buildArgs, labels⟩)
    (fun b => (b.provider, b.workdir, b.target, b.dockerfile, b.context, b.tags, b.buildArgs,
      b.labels, ()))

/-- A path whose absence is left to the check. -/
def pathOrEmpty (field raw : String) : Except InputsError String :=
  let path := Text.trim raw
  if path.isEmpty then .ok path else normalPath field path

def normalize (b : BuildInputs) : Except InputsError BuildInputs := do
  let workdir ← pathOrEmpty "workdir" b.workdir
  let dockerfile ← pathOrEmpty "dockerfile" b.dockerfile
  let context ← pathOrEmpty "context" b.context
  return ⟨Text.trim b.provider, workdir, Text.trim b.target, dockerfile, context,
    normalList b.tags, normalPairs b.buildArgs, normalPairs b.labels⟩

def validate (b : BuildInputs) : Except InputsError Unit := do
  requireText "provider" b.provider
  requireText "workdir" b.workdir
  requireText "dockerfile" b.dockerfile
  requireText "context" b.context
  requireEntries "tags" b.tags
  requireKeys "build_args" b.buildArgs
  requireKeys "labels" b.labels

instance : StepInputs BuildInputs := ⟨.build, shape, normalize, validate⟩

end BuildInputs

end FleetPlan
