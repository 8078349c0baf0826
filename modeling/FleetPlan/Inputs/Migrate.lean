/-
Inputs of a database migration.

The arguments are handed on in the order they were given.
-/
import FleetPlan.Inputs.Basic

namespace FleetPlan

open Json

structure MigrateInputs where
  database : String
  strategy : String
  engine : String
  path : String
  connEnv : String
  timeoutSeconds : Option (IntIn .signed64)
  args : List String
  deriving DecidableEq, Repr, Inhabited

namespace MigrateInputs

def shape : Shape MigrateInputs :=
  .record "MigrateInputs" true
    (.field "database" .required .text <|
     .field "strategy" .required .text <|
     .field "engine" .required .text <|
     .field "path" .required .text <|
     .field "conn_env" .required .text <|
     .field "timeout_seconds" .unlessNone (.nullable (.integer .signed64)) <|
     .field "args" .unlessNil .texts .done)
    (fun (database, strategy, engine, path, connEnv, timeoutSeconds, args, ()) =>
      ⟨database, strategy, engine, path, connEnv, timeoutSeconds, args⟩)
    (fun m => (m.database, m.strategy, m.engine, m.path, m.connEnv, m.timeoutSeconds, m.args, ()))

def normalize (m : MigrateInputs) : Except InputsError MigrateInputs := do
  let path ← normalPath "path" m.path
  return ⟨Text.trim m.database, Text.trim m.strategy, Text.trim m.engine, path,
    Text.trim m.connEnv, m.timeoutSeconds, m.args.map Text.trim⟩

def validate (m : MigrateInputs) : Except InputsError Unit := do
  requireText "database" m.database
  requireText "strategy" m.strategy
  requireText "engine" m.engine
  requireText "path" m.path
  requireText "conn_env" m.connEnv
  requirePositive "timeout_seconds" m.timeoutSeconds

instance : StepInputs MigrateInputs := ⟨.migrate, shape, normalize, validate⟩

end MigrateInputs

end FleetPlan
