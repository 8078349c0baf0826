/-
The id of a plan, from its content.

Two steps lead to it.  `idDocument` writes down what the id covers: the
environment and, for every step by index and id, its id, index, action, target,
host, inputs and dependencies.  Order within the plan and within the dependencies
does not show, nor does the layout of the inputs, since they are read and written
again.  The id is then the beginning of the digest of that document.
-/
import FleetPlan.Digest.Blake3
import FleetPlan.Json.Value
import FleetPlan.Plan

namespace FleetPlan

open Json

/--
What inputs say, whatever their layout.  Inputs that cannot be read for what they
say, because they nest too deeply or hold a number or a text that is none, count
as the text they are.
-/
def canonicalInputs : Option Payload → Value
  | none => .null
  | some p =>
    match Value.read (Text.octets p.text) with
    | .ok v => v
    | .error _ => .text p.text

namespace Step

/-- What the id of a plan covers of a step. -/
def idDocument (s : Step) : Document :=
  .object [
    ("id", .text s.id),
    ("index", .integer s.index.val),
    ("action", .text s.action.name),
    ("target", .object [
      ("kind", .text s.target.kind),
      ("name", .text s.target.name),
      ("provider", .text s.target.provider)]),
    ("host", .text s.host.id),
    ("inputs", (canonicalInputs s.inputs).document),
    ("dependsOn", .list ((s.dependsOn.mergeSort fun a b => decide (a ≤ b)).map .text))]

end Step

namespace Plan

/-- What the id of a plan covers. -/
def idDocument (plan : Plan) (environment : String) : Document :=
  .object [
    ("environment", .text environment),
    ("steps", .list ((Step.sort plan.steps).map Step.idDocument))]

/-- The octets whose digest is taken. -/
def idOctets (plan : Plan) (environment : String) : Octets :=
  Text.octets (plan.idDocument environment).compact

/-- How many digits of the digest make the id. -/
def idLength : Nat := 24

/-- The id that the plan's content has in an environment. -/
def derivedId (plan : Plan) (environment : String) : String :=
  String.ofList ((Blake3.hexDigest (plan.idOctets environment)).toList.take idLength)

end Plan

end FleetPlan
