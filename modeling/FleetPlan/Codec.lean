/-
Plans and host plans as documents.

Decoding is strict: the members must be exactly those of the schema, nothing but
space may follow, and the version must be the current one.  Encoding writes the
document over several lines and ends it with a line break.  `peekPlanId` is the
one lenient reader; it names a document in a message before anything else about
the document is known to be right.
-/
import FleetPlan.HostPlan

namespace FleetPlan

open Json

/-- Why a document was refused. -/
inductive DecodeCause where
  /-- A member that the schema does not have. -/
  | unknownField (fault : Fault)
  | malformed (fault : Fault)
  | trailingContent
  | versionMismatch (found : String)
  deriving DecidableEq, Repr

namespace DecodeCause

def ofFault (f : Fault) : DecodeCause :=
  if f.isUnknownMember then unknownField f else malformed f

def message : DecodeCause → String
  | unknownField f => f.message
  | malformed f => f.message
  | trailingContent => "trailing content after JSON value"
  | versionMismatch found =>
    "schema version mismatch: expected " ++ Text.quoted schemaVersion ++ ", found " ++
      Text.quoted found

end DecodeCause

/-- A refusal, with what was being read. -/
structure DecodeError where
  target : String
  /-- The plan's id as far as it is known, or empty. -/
  planId : String
  cause : DecodeCause
  deriving DecidableEq, Repr

namespace DecodeError

def message (e : DecodeError) : String :=
  let context := if e.planId.isEmpty then "" else " (planId: " ++ Text.quoted e.planId ++ ")"
  "strict decode " ++ e.target ++ context ++ ": " ++ e.cause.message

end DecodeError

/-- Reads a document that holds one value of the shape and nothing else. -/
def decodeStrict {α : Type} (shape : Shape α) (bytes : Octets) : Except DecodeCause α :=
  match shape.read bytes with
  | .error f => .error (.ofFault f)
  | .ok p =>
    match readEnd p.rest with
    | .error _ => .error .trailingContent
    | .ok _ => .ok p.value

/-- Demands the current version. -/
def checkVersion (found : String) : Except DecodeCause Unit :=
  if found = schemaVersion then .ok () else .error (.versionMismatch found)

namespace Plan

def decode (bytes : Octets) : Except DecodeError Plan :=
  match decodeStrict shape bytes with
  | .error cause => .error ⟨"plan", "", cause⟩
  | .ok plan =>
    match checkVersion plan.version with
    | .error cause => .error ⟨"plan", plan.id, cause⟩
    | .ok _ => .ok plan

def encode (plan : Plan) : String := (shape.write plan).pretty ++ "\n"

end Plan

namespace HostPlan

/-- Reads a host plan; `planId` is what a refusal calls the plan, empty if it has no name yet. -/
def decode (bytes : Octets) (planId : String) : Except DecodeError HostPlan :=
  match decodeStrict shape bytes with
  | .error cause => .error ⟨"host plan", planId, cause⟩
  | .ok plan =>
    match checkVersion plan.version with
    | .error cause => .error ⟨"host plan", planId, cause⟩
    | .ok _ => .ok plan

def encode (plan : HostPlan) : String := (shape.write plan).pretty ++ "\n"

/-- A document of which only the plan's id is of interest. -/
def planIdShape : Shape String :=
  .record "PlanIdOnly" false (.field "planId" .unlessEmpty .text .done)
    (fun (planId, ()) => planId) (fun planId => (planId, ()))

/-- The plan's id, if the document is well formed and has one. -/
def peekPlanId (bytes : Octets) : Option String :=
  match planIdShape.readAll bytes with
  | .ok planId => if planId.isEmpty then none else some planId
  | .error _ => none

end HostPlan

end FleetPlan
