/-
Whether a list of steps can be run in its order.

Every dependency has to name a step that stands before, and nowhere else in the
list: of a name that occurs again later, the later step is the one that is waited
for.
-/
import FleetPlan.HostPlan

namespace FleetPlan

/-- Why a run is refused before anything is done. -/
inductive RunError where
  /-- A host plan that is for no host. -/
  | missingHost (planId : String)
  | unresolvedDependency (step host dependency : String)
  | dependencyOrder (step host dependency : String)
  deriving DecidableEq, Repr

namespace RunError

def message : RunError → String
  | missingHost planId =>
    "host plan for plan " ++ Text.quoted planId ++ " has an empty host.logicalId"
  | unresolvedDependency step host dependency =>
    "step " ++ Text.quoted step ++ " on host " ++ Text.quoted host ++ " depends on " ++
      Text.quoted dependency ++ ", which is not in the same step list"
  | dependencyOrder step host dependency =>
    "step " ++ Text.quoted step ++ " on host " ++ Text.quoted host ++ " depends on " ++
      Text.quoted dependency ++ ", which is not ordered before it"

end RunError

/-- What is wrong with a dependency, given the ids before the step and from the step on. -/
def dependencyOrderError? (host : Host) (earlier onward : List String) (step : HostStep)
    (dependency : String) : Option RunError :=
  if onward.contains dependency then some (.dependencyOrder step.id host.id dependency)
  else if earlier.contains dependency then none
  else some (.unresolvedDependency step.id host.id dependency)

/-- The first dependency that cannot be waited for, the given ids standing before the list. -/
def orderErrorFrom? (host : Host) : (earlier : List String) → List HostStep → Option RunError
  | _, [] => none
  | earlier, step :: rest =>
    let onward := step.id :: rest.map (·.id)
    match step.dependsOn.findSome? (dependencyOrderError? host earlier onward step) with
    | some e => some e
    | none => orderErrorFrom? host (step.id :: earlier) rest

/-- The first dependency of a list of steps that cannot be waited for. -/
def orderError? (host : Host) (steps : List HostStep) : Option RunError :=
  orderErrorFrom? host [] steps

namespace HostPlan

/-- Why a host plan is not run at all. -/
def runError? (plan : HostPlan) : Option RunError :=
  if plan.host.isGlobal then some (.missingHost plan.planId)
  else orderError? plan.host plan.steps

end HostPlan

end FleetPlan
