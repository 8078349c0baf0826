/-
Host plans: what one host is given to do.

A host plan stands alone.  Its steps are those of a plan for one host, without
the host, and depend on each other only.
-/
import FleetPlan.Plan

namespace FleetPlan

open Json

structure HostStep where
  id : String
  index : StepIndex
  action : Action
  target : ResourceRef
  inputs : Option Payload
  dependsOn : List String
  annotations : Annotations
  deriving Inhabited

namespace HostStep

/-- A step of a plan without its host. -/
def ofStep (s : Step) : HostStep :=
  ⟨s.id, s.index, s.action, s.target, s.inputs, s.dependsOn, s.annotations⟩

/-- Whether a step comes before another, or has the same index and id. -/
def le (a b : HostStep) : Bool := stepOrder a.index a.id b.index b.id

/-- The steps by index and id, those equal in both in the order they had. -/
def sort (steps : List HostStep) : List HostStep := steps.mergeSort le

def shape : Shape HostStep :=
  .record "HostPlanStep" true
    (.field "id" .required .text <|
     .field "index" .required (.integer .signed64) <|
     .field "action" .required Step.actionShape <|
     .field "target" .required ResourceRef.shape <|
     .field "inputs" (.optional none) (.nullable .payload) <|
     .field "dependsOn" .unlessNil .texts <|
     .field "meta" .unlessBare .annotations .done)
    (fun (id, index, action, target, inputs, dependsOn, annotations, ()) =>
      ⟨id, index, action, target, inputs, dependsOn, annotations⟩)
    (fun s => (s.id, s.index, s.action, s.target, s.inputs, s.dependsOn, s.annotations, ()))

end HostStep

structure HostPlan where
  version : String
  planId : String
  host : Host
  steps : List HostStep
  annotations : Annotations
  deriving Inhabited

namespace HostPlan

def shape : Shape HostPlan :=
  .record "HostPlan" true
    (.field "version" .required .text <|
     .field "planId" .required .text <|
     .field "host" .required Host.shape <|
     .field "steps" .required (.list HostStep.shape) <|
     .field "meta" .unlessBare .annotations .done)
    (fun (version, planId, host, steps, annotations, ()) =>
      ⟨version, planId, host, steps, annotations⟩)
    (fun p => (p.version, p.planId, p.host, p.steps, p.annotations, ()))

end HostPlan

end FleetPlan
