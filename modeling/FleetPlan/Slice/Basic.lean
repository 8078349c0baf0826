/-
A plan cut into what each host and what the fleet as a whole has to do.

`globalRefs` is all that is left of a dependency from a host's step on a global
one: the host plan itself does not mention it, and whoever hands out host plans
waits for it.
-/
import FleetPlan.HostPlan
import FleetPlan.Names

namespace FleetPlan

open Json

structure Slice where
  /-- The host plans by host id. -/
  hostPlans : Dict HostPlan
  /-- The global steps by index and id. -/
  globalSteps : List Step
  globalStepIds : List String
  /-- The global steps that a host's step waits for, by the id of that step. -/
  globalRefs : Dict (List String)
  deriving Inhabited

namespace Slice

/-- How many steps there are in all. -/
def totalSteps (s : Slice) : Nat :=
  s.globalSteps.length + (s.hostPlans.values.flatMap (·.steps)).length

/-- The global steps that must have succeeded before the host plan may start. -/
def requiredGlobals (s : Slice) (plan : HostPlan) : List String :=
  Names.sorted (plan.steps.flatMap fun step => (s.globalRefs.get? step.id).getD [])

/-- How many of the steps are some host's. -/
def hostSteps (s : Slice) : Nat := s.totalSteps - s.globalSteps.length

def shape : Shape Slice :=
  .record "SliceResult" false
    (.field "hostPlans" .required (.dict HostPlan.shape) <|
     .field "globalSteps" .unlessNil (.list Step.shape) <|
     .field "globalStepIds" .unlessNil .texts <|
     .field "globalDependencyRefs" .unlessBare (.dict .texts) .done)
    (fun (hostPlans, globalSteps, globalStepIds, globalRefs, ()) =>
      ⟨hostPlans, globalSteps, globalStepIds, globalRefs⟩)
    (fun s => (s.hostPlans, s.globalSteps, s.globalStepIds, s.globalRefs, ()))

end Slice

end FleetPlan
